import HypervisorBase.Vse.Trust
/-!
# Intrusion detection

The model of `vse/ids.c` and of `vse/fault_detect.c`, which feeds every
fault of a guest to the trust engine and then to the detectors. A storm
of faults makes the detector quarantine the VM itself (`IDS_ENFORCE`).
-/

namespace HypervisorBase

/-- Replaces the monitor at an index. -/
def Hyp.setMon (h : Hyp) (ix : Fin maxVms) (m : IdsVmMon) : Hyp :=
  { h with ids := { h.ids with mon := Function.update h.ids.mon ix m } }

namespace Vse

def idsLogCapacity : U32 := 128

def idsStormFaults : U32 := 4

def idsStormWindowUs : ℕ := 1000000

def idsRapidUs : ℕ := 2000000

def idsRepeatCount : U32 := 3

/-- `TRUST_FAULT_MEM`. -/
def trustFaultMem : U32 := 1

/-- `TRUST_FAULT_DMA`. -/
def trustFaultDma : U32 := 2

/-- `_log`: the next record of the audit ring. -/
def idsLog (h : Hyp) (vmId : U32) (type : IdsEvent) (sev : IdsSeverity) (faultType : U32)
    (detail : U64) : Hyp :=
  let (now, h) := timerNowUs h
  let r : IdsRecord :=
    { timeUs := now, vmId := vmId, type := type, severity := sev, faultType := faultType,
      detail := detail, trustAt := if vmId ≠ 0 then trustGet h vmId else .unknown }
  { h with ids := { h.ids with
      log := Function.update h.ids.log h.ids.logHead.toNat r
      logHead := (h.ids.logHead + 1) % idsLogCapacity
      logCount := h.ids.logCount + 1
      alerts := if sev = .alert then h.ids.alerts + 1 else h.ids.alerts } }

/-- An anomaly: counted, then logged as an alert. -/
def idsAlert (h : Hyp) (vmId : U32) (type : IdsEvent) (faultType : U32) (detail : U64) : Hyp :=
  idsLog { h with ids := { h.ids with anomalies := h.ids.anomalies + 1 } } vmId type .alert
    faultType detail

def idsInit (h : Hyp) : Hyp :=
  let (now, h) := timerNowUs h
  { h with ids :=
    { initialized := true
      log := fun _ => ⟨0, 0, .none, .info, 0, 0, .unknown⟩
      logHead := 0
      logCount := 0
      mon := fun ix => ⟨now, 0, 0, 0, 0, trustGet h (BitVec.ofNat 32 (ix.val + 1))⟩
      anomalies := 0
      alerts := 0
      enforcements := 0
      lastPollUs := now } }

/-- Repeat detection: the same fault type in a row. -/
def detectRepeat (h : Hyp) (vmId : U32) (ix : Fin maxVms) (faultType : U32) : Hyp :=
  let m := h.ids.mon ix
  if faultType = m.lastFaultType then
    let h := h.setMon ix { m with repeatRun := m.repeatRun + 1 }
    if m.repeatRun + 1 = idsRepeatCount then
      idsAlert h vmId .repeat faultType ((m.repeatRun + 1).setWidth 64)
    else h
  else h.setMon ix { m with repeatRun := 1, lastFaultType := faultType }

section Tables

variable [P : PtPool]

/-- The enforcement inside storm detection. -/
def enforceStorm (h : Hyp) (vmId faultType : U32) (windowFaults : U32) : Option Hyp :=
  if trustIsBlocked h vmId then some h
  else do
    let (_, h) ← trustQuarantine h vmId
    let h := { h with ids := { h.ids with enforcements := h.ids.enforcements + 1 } }
    pure (idsLog h vmId .enforce .alert faultType (windowFaults.setWidth 64))

/-- Storm detection: too many faults in a window. -/
def detectStorm (h : Hyp) (vmId : U32) (ix : Fin maxVms) (faultType : U32) (now : U64) :
    Option Hyp :=
  let m := h.ids.mon ix
  if idsStormWindowUs < (now - m.windowStartUs).toNat then
    some (h.setMon ix { m with windowStartUs := now, windowFaults := 1 })
  else
    let n := m.windowFaults + 1
    let h := h.setMon ix { m with windowFaults := n }
    if n = idsStormFaults + 1 then
      enforceStorm (idsAlert h vmId .storm faultType (n.setWidth 64)) vmId faultType n
    else some h

/-- Rapid escalation: quarantined soon after the first fault. -/
def detectRapid (h : Hyp) (vmId : U32) (ix : Fin maxVms) (faultType : U32) (now : U64) : Hyp :=
  let m := h.ids.mon ix
  if TrustLevel.quarantine.rank ≤ (trustGet h vmId).rank ∧ m.firstFaultUs ≠ 0 ∧
      (now - m.firstFaultUs).toNat < idsRapidUs then
    let h := idsAlert h vmId .rapid faultType (now - m.firstFaultUs)
    h.setMon ix { h.ids.mon ix with firstFaultUs := 0 }
  else h

def idsNotifyFault (h : Hyp) (vmId faultType : U32) (detail : U64) : Option Hyp :=
  if !h.ids.initialized then some h
  else
    match idx vmId with
    | none => some h
    | some ix => do
        let (now, h) := timerNowUs h
        let h := idsLog h vmId .fault .warn faultType detail
        let m := h.ids.mon ix
        let h := if m.firstFaultUs = 0 then h.setMon ix { m with firstFaultUs := now } else h
        let h := detectRepeat h vmId ix faultType
        let h ← detectStorm h vmId ix faultType now
        pure (detectRapid h vmId ix faultType now)

/-- What a notification has done when the storm detector runs: the fault
is on record, and the repeat monitor has seen it. -/
def evidence (h : Hyp) (vmId : U32) (ix : Fin maxVms) (faultType : U32) (detail : U64) : Hyp :=
  let g := idsLog (timerNowUs h).2 vmId .fault .warn faultType detail
  let g := if (g.ids.mon ix).firstFaultUs = 0 then
      g.setMon ix { g.ids.mon ix with firstFaultUs := h.timer 0 } else g
  detectRepeat g vmId ix faultType

theorem idsNotifyFault_eq {h : Hyp} {vmId : U32} {ix : Fin maxVms}
    (hids : h.ids.initialized = true) (hix : idx vmId = some ix) (faultType : U32) (detail : U64) :
    idsNotifyFault h vmId faultType detail =
      (detectStorm (evidence h vmId ix faultType detail) vmId ix faultType (h.timer 0)).map
        fun g => detectRapid g vmId ix faultType (h.timer 0) := by
  unfold idsNotifyFault
  rw [hids, hix]
  exact Option.map_eq_bind.symm

/-- A notification that is not for a VM, or too early, does nothing. -/
theorem idsNotifyFault_of_off {h : Hyp} {vmId : U32}
    (hoff : ¬ (h.ids.initialized = true ∧ ∃ ix, idx vmId = some ix)) (faultType : U32)
    (detail : U64) : idsNotifyFault h vmId faultType detail = some h := by
  unfold idsNotifyFault
  split
  · rfl
  · rename_i hids
    split
    · rfl
    · rename_i ix hix
      exact absurd ⟨by simpa using hids, ix, hix⟩ hoff

/-- **What a notification can do**: nothing, or one detector after the
other. -/
theorem idsNotifyFault_inv {h h' : Hyp} {vmId faultType : U32} {detail : U64}
    (hrun : idsNotifyFault h vmId faultType detail = some h') :
    ¬ (h.ids.initialized = true ∧ ∃ ix, idx vmId = some ix) ∧ h' = h ∨
    ∃ ix g, h.ids.initialized = true ∧ idx vmId = some ix ∧
      detectStorm (evidence h vmId ix faultType detail) vmId ix faultType (h.timer 0) = some g ∧
      h' = detectRapid g vmId ix faultType (h.timer 0) := by
  by_cases hon : h.ids.initialized = true ∧ ∃ ix, idx vmId = some ix
  · obtain ⟨hids, ix, hix⟩ := hon
    rw [idsNotifyFault_eq hids hix] at hrun
    obtain ⟨g, hstorm, rfl⟩ := Option.map_eq_some_iff.mp hrun
    exact .inr ⟨ix, g, hids, hix, hstorm, rfl⟩
  · rw [idsNotifyFault_of_off hon] at hrun
    cases hrun
    exact .inl ⟨hon, rfl⟩

/-- One VM of `ids_poll`'s loop, with the anomalies found so far. -/
def pollOne (st : U32 × Hyp) (ix : Fin maxVms) : U32 × Hyp :=
  let (n, h) := st
  let vmId := BitVec.ofNat 32 (ix.val + 1)
  let cur := trustGet h vmId
  let prev := (h.ids.mon ix).lastSeenLevel
  let (n, h) := if prev.rank < cur.rank ∧ prev ≠ .unknown then
      (n + 1, idsAlert h vmId .trustDrop 0 (BitVec.ofNat 64 (prev.rank * 256 + cur.rank)))
    else (n, h)
  (n, h.setMon ix { h.ids.mon ix with lastSeenLevel := cur })

def idsPoll (h : Hyp) : U32 × Hyp :=
  if !h.ids.initialized then (0, h)
  else
    let (now, h) := timerNowUs h
    let (n, h) := (List.finRange maxVms).foldl pollOne (0, h)
    let h := (trustAutoPromoteTick h now).2
    let h := idsLog h 0 .poll .info 0 (h.trust.totalFaults.setWidth 64)
    (n, { h with ids := { h.ids with lastPollUs := now } })

/-! ## Queries -/

def idsLogCount (h : Hyp) : U32 :=
  if h.ids.logCount < idsLogCapacity then h.ids.logCount else idsLogCapacity

/-- `ids_log_at`: the oldest record is number 0, and `none` is the null
pointer. -/
def idsLogAt (h : Hyp) (i : U32) : Option IdsRecord :=
  if idsLogCount h ≤ i then none
  else
    let start := if h.ids.logCount ≤ idsLogCapacity then 0 else h.ids.logHead
    some (h.ids.log ((start + i) % idsLogCapacity).toNat)

/-! ## Fault detection -/

def faultDetectInit (h : Hyp) : Hyp := { h with fdetect := ⟨true, 0, 0, 0, 0⟩ }

/-- What both reporting hooks do once they have counted the fault: a VM id
outside the table is the hypervisor itself and is not penalised. -/
def reportGuest (h : Hyp) (vmId faultType : U32) (detail : U64) : Option Hyp :=
  if (idx vmId).isNone then some h
  else do
    let (_, h) ← trustReportFault h vmId faultType detail
    idsNotifyFault h vmId faultType detail

def fdetectMemFault (h : Hyp) (vmId : U32) (ipa : U64) (isWrite : Bool) : Option Hyp :=
  if !h.fdetect.initialized then some h
  else
    let h := { h with fdetect := { h.fdetect with
      memFaults := h.fdetect.memFaults + 1, total := h.fdetect.total + 1 } }
    reportGuest h vmId trustFaultMem (ipa ||| if isWrite then 1 <<< 63 else 0)

def fdetectDmaViolation (h : Hyp) (vmId : U32) (faultPa : U64) : Option Hyp :=
  if !h.fdetect.initialized then some h
  else
    let h := { h with fdetect := { h.fdetect with
      dmaViolations := h.fdetect.dmaViolations + 1, total := h.fdetect.total + 1 } }
    reportGuest h vmId trustFaultDma faultPa

def fdetectIrqUnrouted (h : Hyp) : Hyp :=
  if !h.fdetect.initialized then h
  else { h with fdetect := { h.fdetect with
    irqUnrouted := h.fdetect.irqUnrouted + 1, total := h.fdetect.total + 1 } }

end Tables

end Vse

end HypervisorBase
