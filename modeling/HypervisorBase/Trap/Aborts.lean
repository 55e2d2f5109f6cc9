import HypervisorBase.Device.Ownership
import HypervisorBase.Stage2.Queries
import HypervisorBase.Trap.Model
/-!
# Data aborts

A guest that touches an address its Stage-2 tables do not map either means
an emulated device or has made a mistake. Which it is depends on the
intermediate physical address, since the guest chooses its own virtual
ones. `fault_dabt` looks at the virtual address instead, with a window of
its own in place of the table of devices, and takes the status codes of
another kind of fault for those of a translation fault. What it calls is
`faultCalls`; `abort_classified_iff` says for which aborts that is what it
should call.
-/

namespace HypervisorBase

namespace Trap

/-! ## What the handler calls -/

/-- The calls `fault_dabt` makes, with what `fdetect_mem_fault` counts and
passes on. -/
inductive AbortCall
  | mmioHandle (fa : U64)
  | countFault
  | trustReportFault (vmId faultType : U32) (detail : U64)
  | idsNotifyFault (vmId faultType : U32) (detail : U64)
  deriving DecidableEq, Repr

/-- The detail of a fault: the address, with the direction in bit 63. -/
def faultDetail (addr : U64) (isWrite : Bool) : U64 := addr ||| if isWrite then 1 <<< 63 else 0

/-- A fault of VM `v`, counted once and reported to both. -/
def faultReport (v : U32) (addr : U64) (isWrite : Bool) : List AbortCall :=
  [.countFault, .trustReportFault v Vse.trustFaultMem (faultDetail addr isWrite),
    .idsNotifyFault v Vse.trustFaultMem (faultDetail addr isWrite)]

/-- `fdetect_mem_fault`: without initialisation it does nothing, and an id
outside the table is only counted. -/
def reportCalls (h : Hyp) (v : U32) (addr : U64) (isWrite : Bool) : List AbortCall :=
  if !h.fdetect.initialized then []
  else if (idx v).isNone then [.countFault]
  else faultReport v addr isWrite

/-- `fault_dabt`. -/
def faultCalls (h : Hyp) (esr far hpfar : U64) : List AbortCall :=
  if isMmioFar far then [.mmioHandle far]
  else reportCalls h (currentVmId h) (if isTranslationDfsc esr then faultIpa far hpfar else far)
    (isWriteAbort esr)

section Tables

variable [P : PtPool]

/-- What a call does. -/
def AbortCall.run (esr : U64) (h : Hyp) : AbortCall → Option Hyp
  | .mmioHandle fa => some (Device.mmioHandle h fa esr)
  | .countFault => some { h with fdetect := { h.fdetect with
      memFaults := h.fdetect.memFaults + 1, total := h.fdetect.total + 1 } }
  | .trustReportFault vmId faultType detail =>
    (Vse.trustReportFault h vmId faultType detail).map Prod.snd
  | .idsNotifyFault vmId faultType detail => Vse.idsNotifyFault h vmId faultType detail

theorem run_reportCalls (h : Hyp) (v : U32) (addr : U64) (isWrite : Bool) (esr : U64) :
    (reportCalls h v addr isWrite).foldlM (AbortCall.run esr) h =
      Vse.fdetectMemFault h v addr isWrite := by
  unfold reportCalls Vse.fdetectMemFault Vse.reportGuest
  cases h.fdetect.initialized with
  | false => rfl
  | true =>
    cases hv : idx v with
    | none => rfl
    | some ix =>
      simp only [Bool.not_true, Bool.false_eq_true, if_false, Option.isNone_some, faultReport,
        List.foldlM_cons, List.foldlM_nil, AbortCall.run, Option.bind_eq_bind, Option.bind_some,
        Option.bind_map, bind_pure]
      rfl

/-- **The handler is its calls.** Past the window and the status codes it
knows, it also moves the guest behind the access. -/
theorem faultDabt_eq (h : Hyp) (elr esr far hpfar : U64) :
    faultDabt h elr esr far hpfar =
      ((faultCalls h esr far hpfar).foldlM (AbortCall.run esr) h).map fun g =>
        if isMmioFar far ∨ isTranslationDfsc esr then g
        else g.modifyCurrent fun vc => vc.setElr (elr + 4) := by
  unfold faultDabt faultCalls
  by_cases hwindow : isMmioFar far = true
  · rw [if_pos hwindow, if_pos hwindow]
    simp [AbortCall.run, hwindow]
  · rw [if_neg hwindow, if_neg hwindow, run_reportCalls]
    by_cases hdfsc : isTranslationDfsc esr = true
    · simp [hdfsc]
    · simp only [hdfsc, hwindow, or_self, Bool.false_eq_true, if_false]
      cases Vse.fdetectMemFault h (currentVmId h) far (isWriteAbort esr) <;> rfl

end Tables

/-! ## What it should call -/

/-- `DFSC` of a translation fault, at any level. -/
def IsTranslationFault (esr : U64) : Prop := 0x04 ≤ (esr &&& 0x3F).toNat ∧ (esr &&& 0x3F).toNat ≤ 0x07

/-- The address the guest meant: `HPFAR_EL2[39:4]` above the offset in the
page. -/
def abortIpa (far hpfar : U64) : U64 := (((hpfar >>> 4) &&& 0xFFFFFFFFF) <<< 12) ||| (far &&& 0xFFF)

/-- An active region of the table contains the address. -/
def InDevice (h : Hyp) (addr : U64) : Prop := ∃ r ∈ h.mmio.regs, Device.Covers r addr

/-- **An abort is classified by its IPA.** -/
structure Classified (h : Hyp) (calls : List AbortCall) (esr far hpfar : U64) : Prop where
  device : InDevice h (abortIpa far hpfar) → calls = [.mmioHandle (abortIpa far hpfar)]
  fault : ¬ InDevice h (abortIpa far hpfar) → h.fdetect.initialized = true →
    calls = faultReport (currentVmId h) (abortIpa far hpfar) (isWriteAbort esr)

/-- The code's range of status codes has no translation fault in it. -/
theorem not_isTranslationDfsc {esr : U64} (hfault : IsTranslationFault esr) :
    isTranslationDfsc esr = false := by
  unfold isTranslationDfsc
  obtain ⟨-, hle⟩ := hfault
  simp only [Bool.and_eq_false_iff, decide_eq_false_iff_not]
  omega

theorem faultReport_inj {v : U32} {a b : U64} {wr : Bool} :
    faultReport v a wr = faultReport v b wr ↔ faultDetail a wr = faultDetail b wr := by
  simp [faultReport]

/-- **When an abort is classified by its IPA**: an access to a device if the
guest's own mapping is flat there and the address is in the handler's
window, and a mistake if it is outside of the window and the virtual
address differs at most in the bit that says the direction. -/
theorem abort_classified_iff (h : Hyp) {ix : Fin maxVms} (hguest : idx (currentVmId h) = some ix)
    (esr far hpfar : U64) (hfault : IsTranslationFault esr) :
    Classified h (faultCalls h esr far hpfar) esr far hpfar ↔
      (InDevice h (abortIpa far hpfar) →
        far &&& 0xFF000000 = 0x08000000 ∧ far = abortIpa far hpfar) ∧
      (¬ InDevice h (abortIpa far hpfar) → h.fdetect.initialized = true →
        far &&& 0xFF000000 ≠ 0x08000000 ∧
          faultDetail far (isWriteAbort esr) = faultDetail (abortIpa far hpfar) (isWriteAbort esr)) := by
  have hcalls : faultCalls h esr far hpfar =
      if isMmioFar far then [.mmioHandle far]
      else if h.fdetect.initialized then faultReport (currentVmId h) far (isWriteAbort esr)
      else [] := by
    unfold faultCalls reportCalls
    rw [not_isTranslationDfsc hfault, hguest]
    cases h.fdetect.initialized <;> rfl
  have hwindow : isMmioFar far = true ↔ far &&& 0xFF000000 = 0x08000000 := by
    simp [isMmioFar]
  rw [hcalls]
  constructor
  · intro hcl
    refine ⟨fun hdev => ?_, fun hno hinit => ?_⟩
    · have heq := hcl.device hdev
      by_cases hw : isMmioFar far = true
      · rw [if_pos hw] at heq
        exact ⟨hwindow.mp hw, by simpa using heq⟩
      · rw [if_neg hw] at heq
        split at heq <;> cases heq
    · have heq := hcl.fault hno hinit
      by_cases hw : isMmioFar far = true
      · rw [if_pos hw] at heq
        cases heq
      · rw [if_neg hw, if_pos hinit] at heq
        exact ⟨fun hin => hw (hwindow.mpr hin), faultReport_inj.mp heq⟩
  · rintro ⟨hdev, hmistake⟩
    refine ⟨fun hin => ?_, fun hno hinit => ?_⟩
    · obtain ⟨hw, hflat⟩ := hdev hin
      rw [if_pos (hwindow.mpr hw), ← hflat]
    · obtain ⟨hw, hdetail⟩ := hmistake hno hinit
      rw [if_neg fun hin => hw (hwindow.mp hin), if_pos hinit]
      exact faultReport_inj.mpr hdetail

/-- A guest of Linux on a platform with the configuration space of its bus
emulated, and faults reported. -/
def busGuest : Hyp :=
  let vm : Vm := { vmInit 1 .linux with state := .running, vcpus := [0] }
  { Hyp.blank with
    vms := [vm]
    vcpus := [vcpuInit 0 vm 0]
    current := some 0
    fdetect := ⟨true, 0, 0, 0, 0⟩
    mmio := ⟨[⟨Device.pcieEcamBase, Device.pcieEcamSize, some .pcieEcam, true, 0, 0⟩], 0⟩ }

/-- A read of the bus at its own address. -/
theorem abort_classified_busGuest :
    Classified busGuest (faultCalls busGuest 0x90000006 0x3F000000 0x3F0000) 0x90000006 0x3F000000
        0x3F0000 ↔
      (InDevice busGuest (abortIpa 0x3F000000 0x3F0000) →
        (0x3F000000 : U64) &&& 0xFF000000 = 0x08000000 ∧
          0x3F000000 = abortIpa 0x3F000000 0x3F0000) ∧
      (¬ InDevice busGuest (abortIpa 0x3F000000 0x3F0000) → busGuest.fdetect.initialized = true →
        (0x3F000000 : U64) &&& 0xFF000000 ≠ 0x08000000 ∧
          faultDetail 0x3F000000 (isWriteAbort 0x90000006) =
            faultDetail (abortIpa 0x3F000000 0x3F0000) (isWriteAbort 0x90000006)) :=
  have hguest : idx (currentVmId busGuest) = some ⟨0, by decide⟩ := by decide
  abort_classified_iff busGuest hguest 0x90000006 0x3F000000 0x3F0000 ⟨by decide, by decide⟩

/-- That read is reported as a fault of Linux and never gets to the bus. -/
theorem bus_read_is_a_fault :
    abortIpa 0x3F000000 0x3F0000 = 0x3F000000 ∧ InDevice busGuest 0x3F000000 ∧
      faultCalls busGuest 0x90000006 0x3F000000 0x3F0000 = faultReport 1 0x3F000000 false ∧
      ¬ Classified busGuest (faultCalls busGuest 0x90000006 0x3F000000 0x3F0000) 0x90000006 0x3F000000
        0x3F0000 := by
  have hipa : abortIpa 0x3F000000 0x3F0000 = 0x3F000000 := by decide
  have hdev : InDevice busGuest 0x3F000000 :=
    ⟨_, List.mem_singleton_self _, rfl, by decide, by decide⟩
  have hcalls : faultCalls busGuest 0x90000006 0x3F000000 0x3F0000 =
      faultReport 1 0x3F000000 false := by decide
  refine ⟨hipa, hdev, hcalls, fun hcl => ?_⟩
  have hmmio := hcl.device (by rw [hipa]; exact hdev)
  rw [hcalls] at hmmio
  exact absurd hmmio (by decide)

end Trap

end HypervisorBase
