import HypervisorBase.Hypercall.Dispatch
import HypervisorBase.Irq.Model
/-!
# Traps

The model of the handlers a guest's trap enters: `hyp_sync_handler` and
`hyp_irq_handler` of `boot/main.c`, the aborts of `core/fault/fault.c`,
and, as one step, the whole way from the trap to the return to a guest.
The guest's registers at the trap and what the hardware reports about it
are the label of the step.
-/

namespace HypervisorBase

namespace Trap

/-! ## Labels -/

/-- What a trap presents: a synchronous exception with its syndrome and
fault addresses, or an interrupt. -/
inductive Cause
  | sync (esr far hpfar : U64)
  | irq (expired : Bool) (iar : U64)

structure TrapLabel where
  /-- The registers of the guest when it trapped. -/
  regs : GuestRegs
  cause : Cause

/-- `ESR_EC`. -/
def esrEc (esr : U64) : U64 := (esr >>> 26) &&& 0x3F

/-- The exception classes `hyp_sync_handler` knows. -/
inductive Class
  | hvc64
  | smc64
  | dabtLower
  | iabtLower
  | wfi
  | sysReg
  | other
  deriving DecidableEq, Repr

def Class.ofEsr (esr : U64) : Class :=
  if esrEc esr = 0x16 then .hvc64
  else if esrEc esr = 0x17 then .smc64
  else if esrEc esr = 0x24 then .dabtLower
  else if esrEc esr = 0x20 then .iabtLower
  else if esrEc esr = 0x01 then .wfi
  else if esrEc esr = 0x18 then .sysReg
  else .other

/-- The trap stores nothing into the hypervisor's own memory. -/
def StoresOutside (h : Hyp) (t : TrapLabel) : Prop :=
  ∀ esr far hpfar, t.cause = .sync esr far hpfar → Class.ofEsr esr = .hvc64 →
    Hypercall.StoresOutside h t.regs.x

/-! ## Aborts -/

/-- The IPA the abort handlers compute. -/
def faultIpa (far hpfar : U64) : U64 := ((hpfar &&& ~~~(0xF : U64)) <<< 8) ||| (far &&& 0xFFF)

/-- The status codes `fault_dabt` takes for translation faults. -/
def isTranslationDfsc (esr : U64) : Bool :=
  let dfsc := (esr &&& 0x3F).toNat
  0x10 ≤ dfsc && dfsc ≤ 0x13

/-- The addresses `fault_dabt` hands to the emulated devices. -/
def isMmioFar (far : U64) : Bool := far &&& 0xFF000000 = 0x08000000

def isWriteAbort (esr : U64) : Bool := (esr >>> 6) &&& 1 ≠ 0

/-- `fault_iabt`. -/
def faultIabt (h : Hyp) : Hyp := h.modifyCurrent fun vc => vc.setElr (vc.regs.elrEl2 + 4)

/-- The trapped system-register accesses: the CPU interface first, then the
performance monitor. -/
def sysRegTrap (vc : Vcpu) (esr : U64) : Vcpu :=
  let vc := match Irq.vgicIccTrap vc.vgicCpu vc.regs.x esr with
    | some (cpu, x) => { vc.setX x with vgicCpu := cpu }
    | none =>
      let (pmu, x) := Pmu.pmuHandleTrap vc.pmu vc.regs.x esr
      { vc.setX x with pmu := pmu }
  vc.setElr (vc.regs.elrEl2 + 4)

section Tables

variable [P : PtPool]

/-- `fault_dabt`. The program counter is that of the trap. -/
def faultDabt (h : Hyp) (elr esr far hpfar : U64) : Option Hyp :=
  if isMmioFar far then some (Device.mmioHandle h far esr)
  else if isTranslationDfsc esr then
    Vse.fdetectMemFault h (currentVmId h) (faultIpa far hpfar) (isWriteAbort esr)
  else do
    let h ← Vse.fdetectMemFault h (currentVmId h) far (isWriteAbort esr)
    pure (h.modifyCurrent fun vc => vc.setElr (elr + 4))

/-! ## The handlers -/

/-- `hyp_sync_handler`, for a trap of the vCPU `c` with these registers.
The pointer it is given stays at that vCPU. -/
def hypSyncHandler (h : Hyp) (c : ℕ) (r : GuestRegs) (esr far hpfar : U64) : Option Hyp :=
  let results (x : ℕ → U64) (h : Hyp) : Hyp :=
    { h with vcpus := h.vcpus.modify c fun vc => vc.setX x }
  match Class.ofEsr esr with
  | .hvc64 => (Hypercall.hvcDispatch h r.x).map fun (x, h) => results x h
  | .smc64 => (Hypercall.psciHandler r.x).map fun v => results (Function.update r.x 0 v) h
  | .dabtLower => faultDabt h r.elrEl2 esr far hpfar
  | .iabtLower => some (faultIabt h)
  | .wfi => some (Sched.schedOnWfi h)
  | .sysReg => some (h.modifyCurrent fun vc => sysRegTrap vc esr)
  | .other => some h

/-- `SAVE_GUEST_REGS`, as the handlers see it. -/
def saveGuestRegs (h : Hyp) (c : ℕ) (r : GuestRegs) : Hyp :=
  { h with vcpus := h.vcpus.modify c fun vc => { vc with regs := r } }

/-- **A trap of the running guest**, up to the return to a guest. Without a
current vCPU the entry code spins. -/
def trapStep (h : Hyp) (t : TrapLabel) : Option Hyp :=
  match h.current with
  | none => none
  | some c =>
    let h := saveGuestRegs h c t.regs
    match t.cause with
    | .sync esr far hpfar => hypSyncHandler h c t.regs esr far hpfar
    | .irq expired iar => some (Irq.gicHandleIrq h expired iar)

end Tables

end Trap

end HypervisorBase
