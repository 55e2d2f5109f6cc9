import HypervisorBase.State
/-!
# The performance monitor

The model of `core/vcpu/pmu.c`: the context each virtual CPU keeps, the
save and restore around a switch on the registers' architectural
semantics, and the emulation of a trapped access. The decoding of a
trapped system-register access is shared with the virtual interrupt
controller, and is written here as both functions write it.
-/

namespace HypervisorBase

/-! ## Trapped system-register accesses -/

/-- What the handlers read out of the syndrome of a trapped access. -/
structure SysAccess where
  rt : ℕ
  isRead : Bool
  enc : U32
  deriving DecidableEq, Repr

/-- `sys_reg_enc`. -/
def sysRegEnc (op0 op1 crn crm op2 : U32) : U32 :=
  (op0 <<< 14) ||| (op1 <<< 11) ||| (crn <<< 7) ||| (crm <<< 3) ||| op2

/-- The decoding of both handlers. -/
def sysAccess (esr : U64) : SysAccess :=
  let iss : U32 := (esr &&& 0x1FFFFFF).setWidth 32
  { rt := ((iss >>> 5) &&& 0x1F).toNat
    isRead := iss &&& 1 ≠ 0
    enc := sysRegEnc ((iss >>> 20) &&& 0x3) ((iss >>> 17) &&& 0x7) ((iss >>> 12) &&& 0xF)
      ((iss >>> 8) &&& 0xF) ((iss >>> 5) &&& 0x7) }

/-- The register a trapped `MSR` writes from; 31 is the zero register. -/
def sysOperand (x : ℕ → U64) (rt : ℕ) : U64 := if rt < 31 then x rt else 0

namespace Pmu

/-! ## The registers -/

/-- A write to `PMCR_EL0`: bit 1 clears the event counters, bit 2 the cycle
counter, and both read as zero. -/
def writePmcr (r : PmuRegs) (v : U64) : PmuRegs :=
  { r with
    pmcrEl0 := v &&& ~~~(6 : U64)
    pmevcntr := if v &&& 2 ≠ 0 then fun _ => 0 else r.pmevcntr
    pmccntrEl0 := if v &&& 4 ≠ 0 then 0 else r.pmccntrEl0 }

/-- A write to `PMCNTENSET_EL0` sets the bits written as one. -/
def writePmcntenset (r : PmuRegs) (v : U64) : PmuRegs :=
  { r with pmcntensetEl0 := r.pmcntensetEl0 ||| v }

/-- A write to `PMOVSCLR_EL0` clears the bits written as one. -/
def writePmovsclr (r : PmuRegs) (v : U64) : PmuRegs := { r with pmovsrEl0 := r.pmovsrEl0 &&& ~~~v }

/-- `MDCR_EL2_TPM | MDCR_EL2_TPMCR`. -/
def mdcrTraps : U64 := 0x60

/-- `pmu_trap_disable`. -/
def pmuTrapDisable (r : PmuRegs) : PmuRegs := { r with mdcrEl2 := r.mdcrEl2 &&& ~~~mdcrTraps }

/-- `pmu_trap_enable`. -/
def pmuTrapEnable (r : PmuRegs) : PmuRegs := { r with mdcrEl2 := r.mdcrEl2 ||| mdcrTraps }

/-! ## Around a switch -/

/-- `pmu_save`. -/
def pmuSave (ctx : PmuCtx) (r : PmuRegs) : PmuCtx × PmuRegs :=
  let r := pmuTrapDisable r
  let ctx := { ctx with
    pmccntrEl0 := ctx.pmccntrEl0 + r.pmccntrEl0
    pmcrEl0 := r.pmcrEl0
    pmcntensetEl0 := r.pmcntensetEl0
    pmovsrEl0 := r.pmovsrEl0
    pmevcntr := r.pmevcntr
    pmevtyper := r.pmevtyper }
  let pmcrOff := ctx.pmcrEl0 &&& ~~~(1 : U64)
  let r := writePmcr r pmcrOff
  let r := writePmcr r (pmcrOff ||| 4 ||| 2)
  (ctx, pmuTrapEnable r)

/-- `pmu_restore`. The reset in the middle comes after the event counters
have been loaded. -/
def pmuRestore (ctx : PmuCtx) (r : PmuRegs) : PmuRegs :=
  let r := pmuTrapDisable r
  let r := { r with pmevtyper := ctx.pmevtyper }
  let r := { r with pmevcntr := ctx.pmevcntr }
  let r := writePmcr r (4 ||| 2)
  let r := writePmovsclr r ctx.pmovsrEl0
  let r := writePmcntenset r ctx.pmcntensetEl0
  let r := if ctx.enabled then writePmcr r (ctx.pmcrEl0 ||| 1) else r
  pmuTrapEnable r

/-! ## Emulation -/

/-- A guest's write to `PMCR_EL0`, as the emulation performs it. -/
def emulatePmcr (ctx : PmuCtx) (val : U64) : PmuCtx :=
  { ctx with
    pmcrEl0 := val
    enabled := if val &&& 1 ≠ 0 then true else ctx.enabled
    pmccntrEl0 := if val &&& 2 ≠ 0 then 0 else ctx.pmccntrEl0
    pmevcntr := if val &&& 4 ≠ 0 then fun _ => 0 else ctx.pmevcntr }

/-- `evcntr_enc`. -/
def evcntrEnc (i : Fin 4) : U32 := 0xDF40 + BitVec.ofNat 32 i.val

/-- `evtyper_enc`. -/
def evtyperEnc (i : Fin 4) : U32 := 0xDF60 + BitVec.ofNat 32 i.val

/-- A register the emulation knows: what a read returns and what a write of
a value leaves. -/
def emulated (ctx : PmuCtx) (enc : U32) (val : U64) : Option (U64 × PmuCtx) :=
  if enc = sysRegEnc 3 3 9 12 0 then some (ctx.pmcrEl0, emulatePmcr ctx val)
  else if enc = sysRegEnc 3 3 9 12 1 then
    some (ctx.pmcntensetEl0, { ctx with pmcntensetEl0 := ctx.pmcntensetEl0 ||| val })
  else if enc = sysRegEnc 3 3 9 12 2 then
    some (ctx.pmcntensetEl0, { ctx with pmcntensetEl0 := ctx.pmcntensetEl0 &&& ~~~val })
  else if enc = sysRegEnc 3 3 9 12 3 then
    some (ctx.pmovsrEl0, { ctx with pmovsrEl0 := ctx.pmovsrEl0 &&& ~~~val })
  else if enc = sysRegEnc 3 3 9 13 0 then some (ctx.pmccntrEl0, { ctx with pmccntrEl0 := val })
  else if enc = sysRegEnc 3 3 14 15 7 then some (ctx.pmccfiltrEl0, { ctx with pmccfiltrEl0 := val })
  else if enc = sysRegEnc 3 0 9 14 1 then
    some (ctx.pmintensetEl1, { ctx with pmintensetEl1 := ctx.pmintensetEl1 ||| val })
  else if enc = sysRegEnc 3 0 9 14 2 then
    some (ctx.pmintensetEl1, { ctx with pmintensetEl1 := ctx.pmintensetEl1 &&& ~~~val })
  else
    (List.finRange 4).findSome? fun i =>
      if enc = evcntrEnc i then
        some (ctx.pmevcntr i, { ctx with pmevcntr := Function.update ctx.pmevcntr i val })
      else if enc = evtyperEnc i then
        some (ctx.pmevtyper i, { ctx with pmevtyper := Function.update ctx.pmevtyper i val })
      else none

/-- `pmu_handle_trap`, on the context and the registers of the vCPU that
trapped. A register it does not know reads as zero. -/
def pmuHandleTrap (ctx : PmuCtx) (x : ℕ → U64) (esr : U64) : PmuCtx × (ℕ → U64) :=
  let a := sysAccess esr
  match emulated ctx a.enc (sysOperand x a.rt) with
  | some (v, ctx') => if a.isRead then (ctx, putReg x a.rt v) else (ctx', x)
  | none => (ctx, if a.isRead then putReg x a.rt 0 else x)

/-! ## Queries -/

/-- What `pmu_query` reports. -/
structure PmuReport where
  cycles : U64
  instrs : U64
  cacheMisses : U64
  deriving DecidableEq, Repr

/-- The loop of `pmu_query` for one event: the counters that are set to
count it. -/
def countsOf (ctx : PmuCtx) (event : U64) : U64 :=
  (List.finRange 4).foldl (fun sum i =>
    if ctx.pmevtyper i &&& 0xFFFF = event then sum + ctx.pmevcntr i else sum) 0

/-- `pmu_query`, on the context of the current vCPU. Without one it returns
before it has enabled the traps again. -/
def pmuQuery (ctx : Option PmuCtx) (r : PmuRegs) : PmuReport × PmuRegs :=
  let r := pmuTrapDisable r
  match ctx with
  | none => (⟨0, 0, 0⟩, r)
  | some ctx =>
    (⟨ctx.pmccntrEl0 + r.pmccntrEl0, countsOf ctx 0x0008, countsOf ctx 0x0003⟩, pmuTrapEnable r)

end Pmu

end HypervisorBase
