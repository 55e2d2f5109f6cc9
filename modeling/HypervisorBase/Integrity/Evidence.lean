import HypervisorBase.Integrity.Model
import HypervisorBase.Seal.Binding
/-!
# What the checks of the image show

`bootChecks_eq_ok` says what the two checks come to: the golden value of
the configuration is right, and each component's is right or blank. An
image that passes with nothing blank fixes three codes under its key
(`stored`), and a changed image is caught unless it slips through
(`Slips`). It does so in two ways. It may keep the key and the golden
value of the configuration, with every component blank or paired with a
code of the first image and the bytes that code is of. Or it may bring a
key of its own, which lies in the same section. `tamper_evident_iff` says
that there is no third way, and `blanked_text_boots` takes the first.
-/

namespace HypervisorBase

namespace Integrity

open Crypto (HmacCtx Sha256Ctx VseComponent hmacSha256 hmacVerify hmacSize goldenSize
  vseNumComponents vseComponentRodata componentCheckMeasure)
open Seal (configCode)

/-! ## What the checks come to -/

/-- What of a component is measured. -/
def measured (L : Layout) (mem : U64 → U8) (i : ℕ) : List U8 :=
  if i = 1 then Crypto.rodataOutside (componentsSetup L mem)
  else bytesAt mem L.text.start (L.text.stop.toNat - L.text.start.toNat)

/-- The golden value of a component is the code of what is measured. -/
def Right (L : Layout) (mem : U64 → U8) (i : ℕ) : Prop :=
  goldenComponent L mem i = Fips.hmac (vseGetMasterKey L mem) (measured L mem i)

/-- The golden value of the configuration is its code. -/
def ConfigRight (L : Layout) (mem : U64 → U8) : Prop :=
  goldenHmac L mem = Fips.hmac (vseGetMasterKey L mem) Seal.configCheckGetBlob.bytes

theorem lt_numComponents_iff (i : ℕ) : i < vseNumComponents ↔ i = 0 ∨ i = 1 := by
  rw [vseNumComponents]
  omega

section Checks

variable (L : Layout) (mem : U64 → U8) (ctx : HmacCtx) (tmp : Sha256Ctx)

theorem vseGetMasterKey_pos : 0 < (vseGetMasterKey L mem).length := by
  rw [length_vseGetMasterKey]
  decide

theorem measure_text : componentCheckMeasure (componentsSetup L mem) ctx tmp 0 =
    .ok (Fips.hmac (vseGetMasterKey L mem) (measured L mem 0)) := by
  have hlt := L.text_range
  have hsub : (L.text.stop - L.text.start).toNat = L.text.stop.toNat - L.text.start.toNat :=
    BitVec.toNat_sub_of_le (by bv_omega)
  have hrange : ¬ (L.text.start = 0 ∨ L.text.stop = 0 ∨ L.text.stop ≤ L.text.start) := by
    rintro (hzero | hzero | hle)
    · exact L.text_start hzero
    · rw [hzero] at hlt
      exact absurd hlt (Nat.not_lt_zero _)
    · rw [BitVec.le_def] at hle
      omega
  have hidx : ¬ vseNumComponents ≤ (0 : U32).toNat := by decide
  have htext : (componentsSetup L mem).component 0 = L.text := rfl
  unfold componentCheckMeasure
  dsimp only
  rw [if_neg hidx, htext, if_neg hrange, if_neg (by decide), hsub]
  exact Crypto.hmacSha256_eq ctx tmp (vseGetMasterKey_pos L mem) _

/-- A component is measured as the code of its bytes. -/
theorem measure_eq {i : ℕ} (hi : i < vseNumComponents) :
    componentCheckMeasure (componentsSetup L mem) ctx tmp (BitVec.ofNat 32 i) =
      .ok (Fips.hmac (vseGetMasterKey L mem) (measured L mem i)) := by
  rcases (lt_numComponents_iff i).mp hi with rfl | rfl
  · exact measure_text L mem ctx tmp
  · exact Crypto.measure_rodata _ ctx tmp ⟨L.rodata_start, L.golden_lower, L.golden_upper⟩

theorem length_goldenComponent (i : ℕ) : (goldenComponent L mem i).length = hmacSize := by
  simp [goldenComponent, bytesAt]

/-- **One step of the check**: a blank value is passed over, any other
compared. -/
theorem checkComponent_eq {i : ℕ} (hi : i < vseNumComponents) (allOk : Bool) :
    checkComponent L mem ctx tmp allOk i =
      if goldenIsBlank (goldenComponent L mem i) then .ok false
      else if hmacVerify (goldenComponent L mem i)
        (Fips.hmac (vseGetMasterKey L mem) (measured L mem i)) hmacSize then .ok allOk
      else .error .componentViolated := by
  unfold checkComponent
  rw [measure_eq L mem ctx tmp hi]

theorem verify_iff_right (i : ℕ) : hmacVerify (goldenComponent L mem i)
    (Fips.hmac (vseGetMasterKey L mem) (measured L mem i)) hmacSize = true ↔ Right L mem i :=
  Crypto.hmacVerify_eq_true (length_goldenComponent L mem i) (Crypto.length_hmac _ _)

/-- **The loop of `component_check_init`**, by induction on the components
left. -/
theorem foldlM_checkComponent (is : List ℕ) (his : ∀ i ∈ is, i < vseNumComponents) (b c : Bool) :
    is.foldlM (checkComponent L mem ctx tmp) b = .ok c ↔
      (∀ i ∈ is, goldenIsBlank (goldenComponent L mem i) = true ∨ Right L mem i) ∧
        (c = true ↔ b = true ∧ ∀ i ∈ is, goldenIsBlank (goldenComponent L mem i) = false) := by
  induction is generalizing b with
  | nil =>
    have hnil : ([] : List ℕ).foldlM (checkComponent L mem ctx tmp) b = .ok b := rfl
    rw [hnil, Except.ok.injEq]
    cases b <;> cases c <;> simp
  | cons i is ih =>
    have hstep := checkComponent_eq L mem ctx tmp (his i List.mem_cons_self) b
    have hrest := ih fun j hj => his j (List.mem_cons_of_mem _ hj)
    have hiff := verify_iff_right L mem i
    rw [List.foldlM_cons, hstep]
    simp only [List.forall_mem_cons]
    by_cases hblank : goldenIsBlank (goldenComponent L mem i) = true
    · rw [if_pos hblank]
      refine (hrest false).trans ?_
      simp [hblank]
    · rw [if_neg hblank]
      rw [Bool.not_eq_true] at hblank
      by_cases hright : Right L mem i
      · rw [if_pos (hiff.mpr hright)]
        refine (hrest b).trans ?_
        simp [hblank, hright]
      · rw [if_neg fun hver => hright (hiff.mp hver)]
        constructor
        · intro herr
          cases herr
        · rintro ⟨⟨hor, -⟩, -⟩
          rw [hblank] at hor
          exact absurd (hor.resolve_left Bool.false_ne_true) hright

/-- The configuration passes exactly if its code is right. -/
theorem configCheckInit_eq_ok : configCheckInit L mem ctx tmp = .ok () ↔ ConfigRight L mem := by
  have hlen : (goldenHmac L mem).length = hmacSize := by simp [goldenHmac, bytesAt]
  have hiff : hmacVerify (goldenHmac L mem)
      (Fips.hmac (vseGetMasterKey L mem) Seal.configCheckGetBlob.bytes) hmacSize = true ↔ _ :=
    Crypto.hmacVerify_eq_true hlen (Crypto.length_hmac _ _)
  unfold configCheckInit
  rw [Crypto.hmacSha256_eq ctx tmp (vseGetMasterKey_pos L mem)]
  dsimp only
  rw [ConfigRight, ← hiff]
  split
  · rename_i hver
    exact ⟨fun _ => hver, fun _ => rfl⟩
  · rename_i hver
    exact ⟨fun herr => (by cases herr), fun h => absurd h hver⟩

/-- **The two checks return** if the golden value of the configuration is
right and every component's is right or blank. -/
theorem bootChecks_eq_ok (c : Bool) : bootChecks L mem ctx tmp = .ok c ↔
    ConfigRight L mem ∧
      (∀ i < vseNumComponents, goldenIsBlank (goldenComponent L mem i) = true ∨ Right L mem i) ∧
      (c = true ↔ ∀ i < vseNumComponents, goldenIsBlank (goldenComponent L mem i) = false) := by
  have hloop := foldlM_checkComponent L mem ctx tmp (List.range vseNumComponents)
    (fun i hi => List.mem_range.mp hi) true c
  simp only [List.mem_range, true_and] at hloop
  rw [← hloop, ← configCheckInit_eq_ok L mem ctx tmp]
  unfold bootChecks componentCheckInit
  cases hcfg : configCheckInit L mem ctx tmp with
  | error p => exact ⟨fun herr => (by cases herr), fun h => (by cases h.1)⟩
  | ok u => exact ⟨fun h => ⟨rfl, h⟩, fun h => h.2⟩

end Checks

/-! ## Two images -/

/-- The keys and messages that the checks take the HMAC of. -/
def evaluated (L : Layout) (mem : U64 → U8) : List (List U8 × List U8) :=
  [Seal.configCheckGetBlob.bytes, measured L mem 0, measured L mem 1].map (vseGetMasterKey L mem, ·)

/-- The golden values of an image, each with the bytes it stands for. -/
def stored (L : Layout) (mem : U64 → U8) : List (List U8 × List U8) :=
  [(goldenHmac L mem, Seal.configCheckGetBlob.bytes), (goldenComponent L mem 0, measured L mem 0),
    (goldenComponent L mem 1, measured L mem 1)]

variable (L : Layout) (I I' : U64 → U8)

/-- **The HMAC does not collide** on what the checks of two images
evaluate. -/
def Separated : Prop :=
  ∀ p ∈ evaluated L I ++ evaluated L I', ∀ q ∈ evaluated L I ++ evaluated L I', Seal.NoCollision p q

/-- **The golden table of the second image holds no code under the key of
the first** but those the first holds: entries can be erased, copied and
altered, but none can be computed. -/
def Unforged : Prop :=
  ∀ i < vseNumComponents, ∀ p ∈ evaluated L I', p.1 = vseGetMasterKey L I →
    goldenComponent L I' i = Fips.hmac p.1 p.2 → ∃ s ∈ stored L I, goldenComponent L I' i = s.1

/-- A byte of one of the sections is another one. -/
def Differs : Prop :=
  ∃ a, (L.text.start ≤ a ∧ a < L.text.stop ∨ L.rodata.start ≤ a ∧ a < L.rodata.stop) ∧ I a ≠ I' a

/-- **How a changed image gets past the checks.** -/
inductive Slips : Prop
  /-- It has kept the key and the golden value of the configuration, and
  each golden value of the table is blank, or a copy beside a copy of the
  bytes it stands for. -/
  | copied : vseGetMasterKey L I' = vseGetMasterKey L I → goldenHmac L I' = goldenHmac L I →
      (∀ i < vseNumComponents, goldenIsBlank (goldenComponent L I' i) = true ∨
        ∃ s ∈ stored L I, goldenComponent L I' i = s.1 ∧ measured L I' i = s.2) → Slips
  /-- It has a key of its own and is right under that key, or blank. -/
  | rekeyed : vseGetMasterKey L I' ≠ vseGetMasterKey L I → ConfigRight L I' →
      (∀ i < vseNumComponents, goldenIsBlank (goldenComponent L I' i) = true ∨ Right L I' i) → Slips

variable {L I I'}

theorem mem_evaluated_of_stored {s : List U8 × List U8} (hs : s ∈ stored L I) :
    (vseGetMasterKey L I, s.2) ∈ evaluated L I := by
  refine List.mem_map.mpr ⟨s.2, ?_, rfl⟩
  have hmem := List.mem_map_of_mem (f := Prod.snd) hs
  exact hmem

theorem measured_mem_evaluated {i : ℕ} (hi : i < vseNumComponents) :
    (vseGetMasterKey L I, measured L I i) ∈ evaluated L I := by
  refine List.mem_map.mpr ⟨measured L I i, ?_, rfl⟩
  rcases (lt_numComponents_iff i).mp hi with rfl | rfl
  · exact List.mem_cons_of_mem _ List.mem_cons_self
  · exact List.mem_cons_of_mem _ (List.mem_cons_of_mem _ List.mem_cons_self)

/-- The golden values of an image that is right are codes. -/
theorem stored_eq {s : List U8 × List U8} (hcfg : ConfigRight L I)
    (hright : ∀ i < vseNumComponents, Right L I i) (hs : s ∈ stored L I) :
    s.1 = Fips.hmac (vseGetMasterKey L I) s.2 := by
  have hn : vseNumComponents = 2 := rfl
  rcases List.mem_cons.mp hs with rfl | hs
  · exact hcfg
  rcases List.mem_cons.mp hs with rfl | hs
  · exact hright 0 (by omega)
  · obtain rfl := List.mem_singleton.mp hs
    exact hright 1 (by omega)

/-- **There is no third way.** -/
theorem slips_iff (hcfg : ConfigRight L I) (hright : ∀ i < vseNumComponents, Right L I i)
    (hsep : Separated L I I') (hforge : Unforged L I I') : Slips L I I' ↔ ConfigRight L I' ∧
      ∀ i < vseNumComponents, goldenIsBlank (goldenComponent L I' i) = true ∨ Right L I' i := by
  constructor
  · intro hslip
    cases hslip with
    | copied hkey hgolden hentries =>
      refine ⟨?_, fun i hi => (hentries i hi).imp_right ?_⟩
      · rw [ConfigRight, hgolden, hkey]
        exact hcfg
      · rintro ⟨s, hs, hentry, hbytes⟩
        rw [Right, hkey, hentry, hbytes]
        exact stored_eq hcfg hright hs
    | rekeyed hkey hcfg' hentries => exact ⟨hcfg', hentries⟩
  · rintro ⟨hcfg', hentries⟩
    by_cases hkey : vseGetMasterKey L I' = vseGetMasterKey L I
    · refine .copied hkey ?_ fun i hi => (hentries i hi).imp_right fun hentry => ?_
      · rw [ConfigRight, hkey] at hcfg'
        exact hcfg'.trans hcfg.symm
      · -- a right entry is a code, so it is one of the first image's, of the same bytes
        obtain ⟨s, hs, hcopy⟩ := hforge i hi _ (measured_mem_evaluated hi) hkey hentry
        refine ⟨s, hs, hcopy, ?_⟩
        have hcode : Fips.hmac (vseGetMasterKey L I) s.2 =
            Fips.hmac (vseGetMasterKey L I') (measured L I' i) := by
          rw [← stored_eq hcfg hright hs, ← hcopy]
          exact hentry
        have hpair := hsep _ (List.mem_append_left _ (mem_evaluated_of_stored hs)) _
          (List.mem_append_right _ (measured_mem_evaluated hi)) hcode
        exact (congrArg Prod.snd hpair).symm
    · exact .rekeyed hkey hcfg' hentries

/-- **The checks are evidence of tampering exactly where the image does not
slip through**: for every layout, every image that passes with all of its
golden values provisioned, and every other image whose golden table is not
forged. -/
theorem tamper_evident_iff (ctx ctx' : HmacCtx) (tmp tmp' : Sha256Ctx)
    (hpass : bootChecks L I ctx tmp = .ok true) (hsep : Separated L I I')
    (hforge : Unforged L I I') :
    (Differs L I I' → ∃ p, bootChecks L I' ctx' tmp' = .error p) ↔
      (Differs L I I' → ¬ Slips L I I') := by
  obtain ⟨hcfg, hor, hblank⟩ := (bootChecks_eq_ok L I ctx tmp true).mp hpass
  have hright : ∀ i < vseNumComponents, Right L I i := by
    intro i hi
    refine (hor i hi).resolve_left ?_
    rw [hblank.mp rfl i hi]
    exact Bool.false_ne_true
  refine imp_congr_right fun _ => ?_
  rw [slips_iff hcfg hright hsep hforge]
  cases hrun : bootChecks L I' ctx' tmp' with
  | error p =>
    refine ⟨fun _ hslip => ?_, fun _ => ⟨p, rfl⟩⟩
    have hok := (bootChecks_eq_ok L I' ctx' tmp'
      (decide (∀ i < vseNumComponents, goldenIsBlank (goldenComponent L I' i) = false))).mpr
      ⟨hslip.1, hslip.2, decide_eq_true_iff⟩
    rw [hrun] at hok
    cases hok
  | ok c =>
    have hslip := (bootChecks_eq_ok L I' ctx' tmp' c).mp hrun
    constructor
    · rintro ⟨p, herr⟩
      cases herr
    · intro hnot
      exact absurd ⟨hslip.1, hslip.2.1⟩ hnot

/-! ## A small image -/

/-- Four bytes of `.text`, and a `.rodata` that is the golden table, the
golden value of the configuration and the development key. -/
def smallLayout : Layout where
  text := ⟨0x40000000, 0x40000004⟩
  rodata := ⟨0x40200000, 0x40200080⟩
  golden := 0x40200000
  goldenHmac := 0x40200040
  devMasterKey := 0x40200060
  text_start := by decide
  text_range := by decide
  rodata_start := by decide
  golden_lower := by decide
  golden_upper := by decide

/-- An instruction, and its code under the development key. -/
def nop : List U8 := [0x1f, 0x20, 0x03, 0xd5]

def nopCode : List U8 :=
  [0x4b, 0x1f, 0x8d, 0x07, 0x15, 0xf7, 0xd4, 0x7a, 0xdd, 0xf9, 0xda, 0xfe, 0xaf, 0x96, 0xc1, 0xa6,
   0xb9, 0x26, 0xeb, 0x4f, 0x06, 0xca, 0x72, 0x14, 0xb6, 0x5d, 0x62, 0x68, 0x3f, 0x7e, 0x04, 0xad]

/-- Another one. -/
def patch : List U8 := [0x1f, 0x20, 0x03, 0xd4]

def patchCode : List U8 :=
  [0x72, 0xdd, 0xc7, 0x17, 0x92, 0x9c, 0x43, 0x96, 0x7c, 0x5c, 0x5b, 0xb3, 0x03, 0xc6, 0x89, 0x0e,
   0x38, 0x3d, 0xdc, 0xfa, 0x6f, 0xb4, 0x11, 0xb7, 0x03, 0xbb, 0x0c, 0x8b, 0x9b, 0xe4, 0x92, 0x6d]

def rodataCode : List U8 :=
  [0x96, 0x70, 0x38, 0x53, 0x2c, 0xba, 0xd0, 0xe7, 0xb6, 0x56, 0xf1, 0xda, 0x5b, 0x01, 0x89, 0xf2,
   0x85, 0xfc, 0x04, 0xcc, 0x3e, 0xa1, 0x05, 0x50, 0x31, 0x5f, 0x56, 0x98, 0x7d, 0x79, 0x10, 0x46]

/-- The image with this instruction and this golden value for it. -/
def smallImage (code golden : List U8) : U64 → U8 := fun a =>
  if a < 0x40200000 then code.getD (a - 0x40000000).toNat 0
  else (golden ++ rodataCode ++ configCode ++ Login.devMasterKey).getD (a - 0x40200000).toNat 0

/-- The image that is trusted. -/
def trusted : U64 → U8 := smallImage nop nopCode

/-- The instruction alone is changed. -/
def patched : U64 → U8 := smallImage patch nopCode

/-- Its golden value is erased as well. -/
def blanked : U64 → U8 := smallImage patch (List.replicate 32 0)

/-- All that the checks of these images evaluate. -/
def messages : List (List U8) :=
  [Seal.configCheckGetBlob.bytes, nop, patch, configCode ++ Login.devMasterKey]

def codes : List (List U8) := [configCode, nopCode, patchCode, rodataCode]

theorem run_messages : messages.map (hmacSha256 Crypto.blankCtx Crypto.blankCtx.inner
    Login.devMasterKey) = codes.map .ok := by
  -- one evaluation for each, or the kernel would keep them all
  refine congrArg₂ List.cons Seal.run_configCode (congrArg₂ List.cons ?_
    (congrArg₂ List.cons ?_ (congrArg₂ List.cons ?_ rfl)))
  all_goals decide +kernel

theorem hmac_messages {k : ℕ} (hk : k < 4) :
    Fips.hmac Login.devMasterKey (messages.getD k []) = codes.getD k [] := by
  have hmsg : messages[k]? = some (messages.getD k []) := by
    rw [List.getD_eq_getElem _ _ hk]
    exact List.getElem?_eq_getElem hk
  have hcode : codes[k]? = some (codes.getD k []) := by
    rw [List.getD_eq_getElem _ _ hk]
    exact List.getElem?_eq_getElem hk
  have hrun := congrArg (fun l => l[k]?) run_messages
  simp only [List.getElem?_map, hmsg, hcode, Option.map_some, Option.some_inj] at hrun
  exact Seal.hmac_of_run (by decide) hrun

theorem key_small : vseGetMasterKey smallLayout trusted = Login.devMasterKey ∧
    vseGetMasterKey smallLayout patched = Login.devMasterKey ∧
    vseGetMasterKey smallLayout blanked = Login.devMasterKey := by
  decide +kernel

/-- Every evaluation is of one of the messages. -/
theorem evaluated_small : ∀ p ∈ evaluated smallLayout trusted ++ evaluated smallLayout patched ++
    evaluated smallLayout blanked, ∃ k < 4, p = (Login.devMasterKey, messages.getD k []) := by
  decide +kernel

/-- The codes are different. -/
theorem noCollision_small {p q : List U8 × List U8}
    (hp : ∃ k < 4, p = (Login.devMasterKey, messages.getD k []))
    (hq : ∃ k < 4, q = (Login.devMasterKey, messages.getD k [])) : Seal.NoCollision p q := by
  obtain ⟨k, hk, rfl⟩ := hp
  obtain ⟨k', hk', rfl⟩ := hq
  intro heq
  dsimp only at heq
  rw [hmac_messages hk, hmac_messages hk'] at heq
  have hinj : ∀ k < 4, ∀ k' < 4, codes.getD k [] = codes.getD k' [] → k = k' := by decide +kernel
  rw [hinj k hk k' hk' heq]

theorem separated_patched : Separated smallLayout trusted patched :=
  fun p hp q hq => noCollision_small (evaluated_small p (List.mem_append_left _ hp))
    (evaluated_small q (List.mem_append_left _ hq))

theorem separated_blanked : Separated smallLayout trusted blanked := by
  have hmem : ∀ p ∈ evaluated smallLayout trusted ++ evaluated smallLayout blanked,
      ∃ k < 4, p = (Login.devMasterKey, messages.getD k []) := by
    intro p hp
    refine evaluated_small p ?_
    rcases List.mem_append.mp hp with hp | hp
    · exact List.mem_append_left _ (List.mem_append_left _ hp)
    · exact List.mem_append_right _ hp
  exact fun p hp q hq => noCollision_small (hmem p hp) (hmem q hq)

theorem right_small {mem : U64 → U8} {i k : ℕ} (hkey : vseGetMasterKey smallLayout mem =
    Login.devMasterKey) (hk : k < 4) (hgolden : goldenComponent smallLayout mem i = codes.getD k [])
    (hbytes : measured smallLayout mem i = messages.getD k []) : Right smallLayout mem i := by
  rw [Right, hkey, hgolden, hbytes, hmac_messages hk]

theorem configRight_small {mem : U64 → U8} (hkey : vseGetMasterKey smallLayout mem =
    Login.devMasterKey) (hgolden : goldenHmac smallLayout mem = configCode) :
    ConfigRight smallLayout mem := by
  rw [ConfigRight, hkey, hgolden]
  exact (hmac_messages (show 0 < 4 by decide)).symm

/-- The first image passes, with both components enforced. -/
theorem passes_trusted (ctx : HmacCtx) (tmp : Sha256Ctx) :
    bootChecks smallLayout trusted ctx tmp = .ok true := by
  have hkey := key_small.1
  refine (bootChecks_eq_ok smallLayout trusted ctx tmp true).mpr
    ⟨configRight_small hkey (by decide +kernel), fun i hi => .inr ?_, fun _ => ?_, fun _ => rfl⟩
  · rcases (lt_numComponents_iff i).mp hi with rfl | rfl
    · exact right_small hkey (show 1 < 4 by decide) (by decide +kernel) (by decide +kernel)
    · exact right_small hkey (show 3 < 4 by decide) (by decide +kernel) (by decide +kernel)
  · decide +kernel

/-- The erased golden value is not a code, and the other is a copy. -/
theorem unforged_blanked : Unforged smallLayout trusted blanked := by
  intro i hi p hp _ hcode
  rcases (lt_numComponents_iff i).mp hi with rfl | rfl
  · obtain ⟨k, hk, rfl⟩ := evaluated_small p (List.mem_append_right _ hp)
    have hzero : ∀ k < 4, goldenComponent smallLayout blanked 0 ≠ codes.getD k [] := by
      decide +kernel
    exact absurd (hcode.trans (hmac_messages hk)) (hzero k hk)
  · decide +kernel

/-- **A changed instruction with its golden value is caught.** -/
theorem tamper_evident_patched :
    ∃ p, bootChecks smallLayout patched Crypto.blankCtx Crypto.blankCtx.inner = .error p := by
  have hcopies : ∀ i < vseNumComponents, ∃ s ∈ stored smallLayout trusted,
      goldenComponent smallLayout patched i = s.1 := by decide +kernel
  have hiff := tamper_evident_iff Crypto.blankCtx Crypto.blankCtx Crypto.blankCtx.inner
    Crypto.blankCtx.inner (passes_trusted _ _) separated_patched
    (fun i hi _ _ _ _ => hcopies i hi)
  refine hiff.mpr (fun _ hslip => ?_) ⟨0x40000003, by decide +kernel⟩
  cases hslip with
  | copied _ _ hentries =>
    refine absurd (hentries 0 (by decide)) ?_
    decide +kernel
  | rekeyed hkey _ _ => exact hkey (key_small.2.1.trans key_small.1.symm)

/-- **Erase the golden value and the changed instruction boots**: nothing
collides, nothing is forged, and the checks return as if the value were
still to be learned. -/
theorem blanked_text_boots :
    bootChecks smallLayout trusted Crypto.blankCtx Crypto.blankCtx.inner = .ok true ∧
      Separated smallLayout trusted blanked ∧ Unforged smallLayout trusted blanked ∧
      Differs smallLayout trusted blanked ∧
      bootChecks smallLayout blanked Crypto.blankCtx Crypto.blankCtx.inner = .ok false := by
  refine ⟨passes_trusted _ _, separated_blanked, unforged_blanked, ⟨0x40000003, by decide +kernel⟩, ?_⟩
  have hkey := key_small.2.2
  refine (bootChecks_eq_ok smallLayout blanked _ _ false).mpr
    ⟨configRight_small hkey (by decide +kernel), fun i hi => ?_, ?_⟩
  · rcases (lt_numComponents_iff i).mp hi with rfl | rfl
    · left
      decide +kernel
    · right
      exact right_small hkey (show 3 < 4 by decide) (by decide +kernel) (by decide +kernel)
  · decide +kernel

end Integrity

end HypervisorBase
