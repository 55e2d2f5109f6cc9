import HypervisorBase.Seal.Model
/-!
# The checks of the image at boot

The model of `config_check_init` of `vse/config_check.c`, as it is built
to enforce, of `component_check_init` of `vse/component_check.c` and of
`vse_get_master_key` of `vse/keystore.c`, with the development key. All
they read of the image lies where the linker put it (`Layout`): the two
sections that are measured, and in `.rodata` the golden values and the
key. An image is a memory; a check returns or panics.
-/

namespace HypervisorBase

namespace Integrity

open Crypto (HmacCtx Sha256Ctx VseComponent ComponentState hmacSha256 hmacVerify hmacSize
  goldenSize vseNumComponents vseComponentRodata componentCheckMeasure)

/-- **What the linker placed.** Neither section is empty or at the null
address, and the golden table lies in `.rodata`. -/
structure Layout where
  text : VseComponent
  rodata : VseComponent
  /-- The address of `_golden_components`. -/
  golden : U64
  /-- The address of `_golden_hmac`. -/
  goldenHmac : U64
  /-- The address of `_dev_master_key`. -/
  devMasterKey : U64
  text_start : text.start ≠ 0
  text_range : text.start.toNat < text.stop.toNat
  rodata_start : rodata.start ≠ 0
  golden_lower : rodata.start.toNat ≤ golden.toNat
  golden_upper : golden.toNat + goldenSize ≤ rodata.stop.toNat

/-- The calls of `hyp_panic`. -/
inductive Panic
  | hmacFailed
  | configViolated
  | measureFailed
  | componentViolated
  deriving DecidableEq, Repr

/-- What they print. -/
def Panic.message : Panic → String
  | .hmacFailed => "VSE: HMAC computation failed"
  | .configViolated => "VSE: configuration integrity check failed"
  | .measureFailed => "VSE: component measurement failed"
  | .componentViolated => "VSE: component integrity check failed"

/-- `vse_get_master_key`, for a buffer of the right size. -/
def vseGetMasterKey (L : Layout) (mem : U64 → U8) : List U8 := bytesAt mem L.devMasterKey 32

theorem length_vseGetMasterKey (L : Layout) (mem : U64 → U8) :
    (vseGetMasterKey L mem).length = 32 := by
  simp [vseGetMasterKey, bytesAt]

/-! ## The configuration -/

/-- `_golden_hmac`. -/
def goldenHmac (L : Layout) (mem : U64 → U8) : List U8 := bytesAt mem L.goldenHmac hmacSize

def configCheckInit (L : Layout) (mem : U64 → U8) (ctx : HmacCtx) (tmp : Sha256Ctx) :
    Except Panic Unit :=
  match hmacSha256 ctx tmp (vseGetMasterKey L mem) Seal.configCheckGetBlob.bytes with
  | .error _ => .error .hmacFailed
  | .ok computed =>
    if hmacVerify (goldenHmac L mem) computed hmacSize then .ok () else .error .configViolated

/-! ## The components -/

/-- `_components_setup`, with the key the checks have fetched. -/
def componentsSetup (L : Layout) (mem : U64 → U8) : ComponentState where
  component idx := if idx = vseComponentRodata then L.rodata else L.text
  golden := L.golden
  masterKey := vseGetMasterKey L mem
  mem := mem
  masterKey_length := length_vseGetMasterKey L mem

/-- `_golden_components[i]`. -/
def goldenComponent (L : Layout) (mem : U64 → U8) (i : ℕ) : List U8 :=
  bytesAt mem (L.golden + BitVec.ofNat 64 (i * hmacSize)) hmacSize

/-- `_golden_is_blank`. -/
def goldenIsBlank (g : List U8) : Bool :=
  ((List.range hmacSize).foldl (fun acc i => acc ||| g.getD i 0) 0) = 0

/-- One component of `component_check_init`'s loop, with `all_ok` so far.
A blank golden value means that it is only being learned. -/
def checkComponent (L : Layout) (mem : U64 → U8) (ctx : HmacCtx) (tmp : Sha256Ctx) (allOk : Bool)
    (i : ℕ) : Except Panic Bool :=
  match componentCheckMeasure (componentsSetup L mem) ctx tmp (BitVec.ofNat 32 i) with
  | .error _ => .error .measureFailed
  | .ok computed =>
    if goldenIsBlank (goldenComponent L mem i) then .ok false
    else if hmacVerify (goldenComponent L mem i) computed hmacSize then .ok allOk
    else .error .componentViolated

/-- `component_check_init`: `all_ok` at its end, which decides what it
reports: the image is trusted, or learn mode is active. -/
def componentCheckInit (L : Layout) (mem : U64 → U8) (ctx : HmacCtx) (tmp : Sha256Ctx) :
    Except Panic Bool :=
  (List.range vseNumComponents).foldlM (checkComponent L mem ctx tmp) true

/-- **Both checks**, in the order of `hyp_main`. -/
def bootChecks (L : Layout) (mem : U64 → U8) (ctx : HmacCtx) (tmp : Sha256Ctx) :
    Except Panic Bool := do
  configCheckInit L mem ctx tmp
  componentCheckInit L mem ctx tmp

end Integrity

end HypervisorBase
