import HypervisorBase.Common.Ring
import HypervisorBase.Vse.Bookkeeping
import HypervisorBase.Vse.Footprint
/-!
# What a notification leaves behind

Intrusion detection appends its records to a ring of 128 slots, whose
position and total are separate 32-bit counters, and counts alerts and
what caused them apart. A `Journal` is all of that: `Recorded` relates it to
the list of all records so far, `Appends` says what one call adds to it,
and `Logs` what its records say. A notification is taken apart into
its detectors once, in `Noted`: the records it appends, and what becomes
of the monitor of the VM. Enforcement runs the trust engine in between,
which has no hand in either.
-/

namespace HypervisorBase

namespace Vse

/-! ## Enforcement leaves the monitor alone -/

section Frame

variable {h h' : Hyp} {i : ℕ} {id : U32} {e : Err}

theorem ids_vmStop (h : Hyp) (i : ℕ) : (vmStop h i).2.ids = h.ids := by
  rcases vmStop_cases h i with heq | ⟨vm, -, -, heq⟩ <;> rw [heq]

theorem ids_vmStart (h : Hyp) (i : ℕ) : (vmStart h i).2.ids = h.ids := by
  rcases vmStart_cases h i with heq | ⟨vm, -, -, heq⟩
  · rw [heq]
  · rw [heq]
    rfl

theorem ids_trustSet (h : Hyp) (id : U32) (l : TrustLevel) : (trustSet h id l).2.ids = h.ids := by
  unfold trustSet timerNowUs
  dsimp only
  repeat' split
  all_goals rfl

theorem ids_trustRevoke (h : Hyp) (id : U32) : (trustRevoke h id).2.ids = h.ids :=
  trustRevoke_keeps (R := fun g => g.ids = h.ids) rfl (ids_trustSet h id .revoked)
    fun g i hg => (ids_vmStop g i).trans hg

theorem ids_suspendRunnable (h : Hyp) (i : ℕ) : (suspendRunnable h i).ids = h.ids := by
  refine suspendRunnable_keeps (R := fun g => g.ids = h.ids) rfl ?_
  rcases vmSuspend_cases h i with heq | ⟨vm, -, -, heq⟩ <;> rw [heq]

theorem ids_restoreImage (h : Hyp) (bd : BackupDesc) : (restoreImage h bd).ids = h.ids := by
  unfold restoreImage
  split <;> rfl

theorem ids_resetEntry (h : Hyp) (i : ℕ) (entryIpa : U64) :
    (resetEntry h i entryIpa).ids = h.ids := by
  unfold resetEntry
  split <;> rfl

variable [P : PtPool]

theorem ids_vmFinalize (hrun : vmFinalize h i = some (e, h')) : h'.ids = h.ids := by
  rcases vmFinalize_cases hrun with ⟨-, -, rfl⟩ | ⟨vm, -, ⟨s₁, -, -, rfl⟩ | ⟨s₁, s₂, vm', pool, -, -, -, rfl⟩⟩
  all_goals rfl

/-- A failover leaves the detector alone. -/
theorem ids_doFailover {ix : Fin maxVms} (hrun : doFailover h id ix = some (e, h')) :
    h'.ids = h.ids := by
  rcases doFailover_inv hrun with ⟨-, -, rfl⟩ | ⟨i, -, ⟨-, -, rfl⟩ | ⟨-, hend⟩⟩
  · rfl
  · exact ids_trustRevoke h id
  rcases hend.keeps (R := fun g => g.ids = h.ids) rfl (fun g hg => (ids_vmStop g i).trans hg)
    (fun g hg => (ids_restoreImage g _).trans hg) (fun hfin hg => (ids_vmFinalize hfin).trans hg)
    (fun g hg => (ids_resetEntry g i _).trans hg) (fun g hg => (ids_vmStart g i).trans hg) with
    ⟨-, hids⟩ | ⟨-, k, hids, rfl⟩
  · exact hids
  · rw [ids_trustSet, hids]

theorem ids_failoverOnQuarantine (hrun : failoverOnQuarantine h id = some (e, h')) :
    h'.ids = h.ids := by
  rcases failoverOnQuarantine_inv hrun with rfl | ⟨ix, hdo⟩
  · rfl
  · exact ids_doFailover hdo

/-- **A quarantine is not the detector's business.** -/
theorem ids_trustQuarantine (hrun : trustQuarantine h id = some (e, h')) : h'.ids = h.ids := by
  rcases trustQuarantine_inv hrun with ⟨rfl, -⟩ | ⟨ix, i, g, e', -, -, -, rfl, hfail⟩
  · rfl
  · rw [ids_failoverOnQuarantine hfail, ids_suspendRunnable]
    exact ids_trustSet h id .quarantine

end Frame

variable {h h' h'' : Hyp} {id : U32} {ix : Fin maxVms} {e : Err} {l rs rs' : List IdsRecord}

theorem mon_setMon (h : Hyp) (ix : Fin maxVms) (m : IdsVmMon) : (h.setMon ix m).ids.mon ix = m := by
  simp [Hyp.setMon]

/-- The next index of the ring. -/
theorem toNat_nextHead (a : U32) : ((a + 1) % idsLogCapacity).toNat = (a.toNat + 1) % 128 := by
  have hmod : ((a + 1) % idsLogCapacity).toNat = (a.toNat + 1) % 2 ^ 32 % 128 := by
    rw [BitVec.toNat_umod, BitVec.toNat_add]
    rfl
  rw [hmod]
  omega

/-! ## The journal -/

/-- **The log and its counters**: the ring with its position and its total,
the alerts, and what was found or done. -/
structure Journal where
  log : ℕ → IdsRecord
  head : U32
  count : U32
  alerts : U32
  causes : U32

/-- `alerts` is counted where a record is written, `anomalies` and
`enforcements` where something is found or done. -/
def journal (d : Ids) : Journal :=
  ⟨d.log, d.logHead, d.logCount, d.alerts, d.anomalies + d.enforcements⟩

/-- A record is appended. An alert has a cause, which is counted too. -/
def Journal.enter (j : Journal) (r : IdsRecord) : Journal where
  log := Function.update j.log j.head.toNat r
  head := (j.head + 1) % idsLogCapacity
  count := j.count + 1
  alerts := if r.severity = .alert then j.alerts + 1 else j.alerts
  causes := if r.severity = .alert then j.causes + 1 else j.causes

/-- The number of alerts among these records. -/
def alertsIn (rs : List IdsRecord) : ℕ := rs.countP fun r => r.severity = .alert

/-- **The journal after these records**, in the counters' own arithmetic. -/
structure Journal.Holds (j : Journal) (l : List IdsRecord) : Prop where
  head : j.head.toNat = l.length % 128
  count : j.count = BitVec.ofNat 32 l.length
  ring : Ring.Holds 128 l j.log
  alerts : j.alerts = BitVec.ofNat 32 (alertsIn l)
  causes : j.causes = BitVec.ofNat 32 (alertsIn l)

/-- The count of alerts goes along with the records. -/
theorem ofNat_alertsIn (l : List IdsRecord) (r : IdsRecord) :
    BitVec.ofNat 32 (alertsIn (l ++ [r])) = if r.severity = .alert then
      BitVec.ofNat 32 (alertsIn l) + 1 else BitVec.ofNat 32 (alertsIn l) := by
  by_cases hsev : r.severity = .alert
  · rw [if_pos hsev, alertsIn, List.countP_append, List.countP_singleton, if_pos (decide_eq_true hsev),
      BitVec.ofNat_add]
    rfl
  · rw [if_neg hsev, alertsIn, List.countP_append, List.countP_singleton,
      if_neg fun h => hsev (of_decide_eq_true h)]
    rfl

/-- **One record keeps the journal.** -/
theorem Journal.Holds.enter {j : Journal} (hj : j.Holds l) (r : IdsRecord) :
    (j.enter r).Holds (l ++ [r]) := by
  have hlength : (l ++ [r]).length = l.length + 1 := by simp
  refine ⟨?_, ?_, ?_, ?_, ?_⟩
  · rw [hlength]
    refine (toNat_nextHead j.head).trans ?_
    rw [hj.head, Nat.mod_add_mod]
  · rw [hlength, BitVec.ofNat_add, ← hj.count]
    rfl
  · have hpush := hj.ring.push r
    rwa [← hj.head] at hpush
  · rw [ofNat_alertsIn, ← hj.alerts]
    rfl
  · rw [ofNat_alertsIn, ← hj.causes]
    rfl

/-- **The journal after any more records.** -/
theorem Journal.Holds.foldl {j : Journal} (hj : j.Holds l) (rs : List IdsRecord) :
    (rs.foldl Journal.enter j).Holds (l ++ rs) := by
  induction rs generalizing j l with
  | nil => rwa [List.append_nil]
  | cons r rs ih =>
    rw [List.append_cons]
    exact ih (hj.enter r)

/-- No slot is written for anything else. -/
theorem Journal.slots_foldl (j : Journal) (rs : List IdsRecord) (i : ℕ) :
    (rs.foldl Journal.enter j).log i = j.log i ∨ (rs.foldl Journal.enter j).log i ∈ rs := by
  induction rs generalizing j with
  | nil => exact .inl rfl
  | cons r rs ih =>
    rcases ih (j.enter r) with hkept | hnew
    · rw [List.foldl_cons, hkept]
      rcases eq_or_ne i j.head.toNat with rfl | hi
      · exact .inr (List.mem_cons.mpr (.inl (Function.update_self ..)))
      · exact .inl (Function.update_of_ne hi ..)
    · exact .inr (List.mem_cons_of_mem r hnew)

/-- **The ring and its counters after these records.** -/
def Recorded (l : List IdsRecord) (h : Hyp) : Prop := (journal h.ids).Holds l

theorem Recorded.head (hl : Recorded l h) : h.ids.logHead.toNat = l.length % 128 :=
  Journal.Holds.head hl

theorem Recorded.count (hl : Recorded l h) : h.ids.logCount = BitVec.ofNat 32 l.length :=
  Journal.Holds.count hl

theorem Recorded.ring (hl : Recorded l h) : Ring.Holds 128 l h.ids.log := Journal.Holds.ring hl

/-- **The log is empty after `ids_init`.** -/
theorem recorded_idsInit (h : Hyp) : Recorded [] (idsInit h) :=
  ⟨rfl, rfl, Ring.holds_nil _ _, rfl, rfl⟩

/-- **A call appends these records**, whatever was in the log before. -/
def Appends (rs : List IdsRecord) (h h' : Hyp) : Prop :=
  journal h'.ids = rs.foldl Journal.enter (journal h.ids)

theorem Appends.recorded (ha : Appends rs h h') (hl : Recorded l h) : Recorded (l ++ rs) h' := by
  rw [Recorded, ha]
  exact Journal.Holds.foldl hl rs

theorem Appends.slots (ha : Appends rs h h') (i : ℕ) :
    h'.ids.log i = h.ids.log i ∨ h'.ids.log i ∈ rs := by
  have hslots := (journal h.ids).slots_foldl rs i
  rwa [← ha] at hslots

theorem Appends.trans (a : Appends rs h h') (b : Appends rs' h' h'') :
    Appends (rs ++ rs') h h'' := by
  rw [Appends, List.foldl_append, ← a]
  exact b

theorem Appends.append_nil (a : Appends rs h h') (b : Appends [] h' h'') : Appends rs h h'' := by
  have hboth := a.trans b
  rwa [List.append_nil] at hboth

theorem Appends.nil_append (a : Appends [] h h') (b : Appends rs h' h'') : Appends rs h h'' :=
  a.trans b

theorem appends_nil (hids : journal h'.ids = journal h.ids) : Appends [] h h' := hids

theorem appends_nil_of_ids (hids : h'.ids = h.ids) : Appends [] h h' :=
  appends_nil (congrArg journal hids)

/-- The record `_log` writes. -/
def idsRecord (h : Hyp) (vmId : U32) (type : IdsEvent) (sev : IdsSeverity) (faultType : U32)
    (detail : U64) : IdsRecord :=
  { timeUs := h.timer 0, vmId := vmId, type := type, severity := sev, faultType := faultType,
    detail := detail, trustAt := if vmId ≠ 0 then trustGet h vmId else .unknown }

/-- A record that is no alert has no cause. -/
theorem appends_idsLog (h : Hyp) (vmId : U32) (type : IdsEvent) {sev : IdsSeverity}
    (hsev : sev ≠ .alert) (faultType : U32) (detail : U64) :
    Appends [idsRecord h vmId type sev faultType detail] h
      (idsLog h vmId type sev faultType detail) := by
  have hcauses : h.ids.anomalies + h.ids.enforcements =
      if sev = .alert then h.ids.anomalies + h.ids.enforcements + 1
      else h.ids.anomalies + h.ids.enforcements := (if_neg hsev).symm
  exact congrArg (Journal.mk _ _ _ _) hcauses

theorem appends_idsAlert (h : Hyp) (vmId : U32) (type : IdsEvent) (faultType : U32)
    (detail : U64) :
    Appends [idsRecord h vmId type .alert faultType detail] h
      (idsAlert h vmId type faultType detail) := by
  have hcauses : h.ids.anomalies + 1 + h.ids.enforcements =
      h.ids.anomalies + h.ids.enforcements + 1 := by
    rw [BitVec.add_assoc, BitVec.add_comm 1, BitVec.add_assoc]
  exact congrArg (Journal.mk _ _ _ _) hcauses

/-- The record of an enforcement, which is counted before it. -/
theorem appends_enforced (h : Hyp) (vmId faultType : U32) (detail : U64) :
    Appends [idsRecord h vmId .enforce .alert faultType detail] h
      (idsLog { h with ids := { h.ids with enforcements := h.ids.enforcements + 1 } } vmId .enforce
        .alert faultType detail) :=
  congrArg (Journal.mk _ _ _ _) (BitVec.add_assoc h.ids.anomalies h.ids.enforcements 1).symm

theorem appends_setMon (h : Hyp) (ix : Fin maxVms) (m : IdsVmMon) : Appends [] h (h.setMon ix m) :=
  appends_nil rfl

/-! ## The records of a call, read off the ring -/

/-- **The records a call has appended**: as many as the total has grown by,
from the old position of the ring on. No call appends more than the ring
holds. -/
def appended (h h' : Hyp) : List IdsRecord :=
  Ring.contents 128 h'.ids.log h.ids.logHead.toNat (h'.ids.logCount - h.ids.logCount).toNat

/-- **The ring shows what was appended**, as long as it is not overrun. -/
theorem appended_eq (hl : Recorded l h) (ha : Appends rs h h') (hfew : rs.length ≤ 128) :
    appended h h' = rs := by
  have hl' := ha.recorded hl
  have hgrown : (h'.ids.logCount - h.ids.logCount).toNat = rs.length := by
    rw [hl'.count, hl.count, List.length_append, Nat.add_comm, BitVec.ofNat_add,
      BitVec.add_sub_cancel, BitVec.toNat_ofNat, Nat.mod_eq_of_lt (by omega)]
  rw [appended, hgrown, hl.head, Ring.contents_mod,
    hl'.ring.contents_eq hfew (by rw [List.length_append]), List.drop_left]

/-! ## Alerts -/

/-- What a record says: its type, its severity and the VM. -/
def brief (r : IdsRecord) : IdsEvent × IdsSeverity × U32 := (r.type, r.severity, r.vmId)

/-- The number of alerts of a type for a VM. -/
def alertsOf (type : IdsEvent) (v : U32) (rs : List IdsRecord) : ℕ :=
  (rs.map brief).count (type, .alert, v)

/-- **Records that say this are appended.** -/
def Logs (bs : List (IdsEvent × IdsSeverity × U32)) (h h' : Hyp) : Prop :=
  ∃ rs, Appends rs h h' ∧ rs.map brief = bs

variable {bs bs' : List (IdsEvent × IdsSeverity × U32)}

theorem Logs.trans (a : Logs bs h h') (b : Logs bs' h' h'') : Logs (bs ++ bs') h h'' := by
  obtain ⟨rs, ha, rfl⟩ := a
  obtain ⟨rs', hb, rfl⟩ := b
  exact ⟨rs ++ rs', ha.trans hb, List.map_append⟩

theorem logs_nil (ha : Appends [] h h') : Logs [] h h' := ⟨[], ha, rfl⟩

theorem logs_idsAlert (h : Hyp) (vmId : U32) (type : IdsEvent) (faultType : U32) (detail : U64) :
    Logs [(type, .alert, vmId)] h (idsAlert h vmId type faultType detail) :=
  ⟨_, appends_idsAlert h vmId type faultType detail, rfl⟩

/-- What the records of a call say is read off the ring. -/
theorem Logs.appended (hs : Logs bs h h') (hl : Recorded l h) (hfew : bs.length ≤ 128) :
    Recorded (l ++ appended h h') h' ∧ (appended h h').map brief = bs := by
  obtain ⟨rs, ha, rfl⟩ := hs
  rw [appended_eq hl ha (by simpa using hfew)]
  exact ⟨ha.recorded hl, rfl⟩

/-! ## The repeat monitor -/

/-- The fault is the third of its type in a row. -/
def RepeatDue (h : Hyp) (ix : Fin maxVms) (faultType : U32) : Prop :=
  faultType = (h.ids.mon ix).lastFaultType ∧ (h.ids.mon ix).repeatRun + 1 = idsRepeatCount

instance (h : Hyp) (ix : Fin maxVms) (faultType : U32) : Decidable (RepeatDue h ix faultType) :=
  inferInstanceAs (Decidable (_ ∧ _))

/-- The monitor once the repeat detector has seen a fault. -/
def sees (m : IdsVmMon) (faultType : U32) : IdsVmMon :=
  { m with
    repeatRun := if faultType = m.lastFaultType then m.repeatRun + 1 else 1
    lastFaultType := faultType }

theorem mon_setMon_of_ne {jx : Fin maxVms} (h : Hyp) (m : IdsVmMon) (hjx : jx ≠ ix) :
    (h.setMon ix m).ids.mon jx = h.ids.mon jx := Function.update_of_ne hjx ..

theorem detectRepeat_mon (h : Hyp) (vmId : U32) (ix : Fin maxVms) (faultType : U32) :
    (detectRepeat h vmId ix faultType).ids.mon =
      Function.update h.ids.mon ix (sees (h.ids.mon ix) faultType) := by
  unfold detectRepeat sees
  dsimp only
  split
  · rename_i hsame
    rw [hsame]
    split <;> rfl
  · rfl

/-- The repeat detector alerts exactly if the run is long enough. -/
theorem detectRepeat_logs (h : Hyp) (vmId : U32) (ix : Fin maxVms) (faultType : U32) :
    Logs (if RepeatDue h ix faultType then [(.repeat, .alert, vmId)] else []) h
      (detectRepeat h vmId ix faultType) := by
  unfold detectRepeat
  dsimp only
  by_cases hsame : faultType = (h.ids.mon ix).lastFaultType
  · rw [if_pos hsame]
    have hmon := logs_nil (appends_setMon h ix
      { h.ids.mon ix with repeatRun := (h.ids.mon ix).repeatRun + 1 })
    by_cases hthird : (h.ids.mon ix).repeatRun + 1 = idsRepeatCount
    · rw [if_pos hthird, if_pos (show RepeatDue h ix faultType from ⟨hsame, hthird⟩)]
      exact hmon.trans (logs_idsAlert ..)
    · rw [if_neg hthird, if_neg fun hdue : RepeatDue h ix faultType => hthird hdue.2]
      exact hmon
  · rw [if_neg hsame, if_neg fun hdue : RepeatDue h ix faultType => hsame hdue.1]
    exact logs_nil (appends_setMon ..)

/-! ## A notification -/

/-- The start of the escalation as the monitor has it once this fault is
taken in. -/
def firstFault (h : Hyp) (ix : Fin maxVms) : U64 :=
  if (h.ids.mon ix).firstFaultUs = 0 then h.timer 0 else (h.ids.mon ix).firstFaultUs

/-- **Evidence**: the fault is on record, and the monitor has its first
fault and its run of repeats. -/
theorem evidence_mon (h : Hyp) (vmId : U32) (ix : Fin maxVms) (faultType : U32) (detail : U64) :
    (evidence h vmId ix faultType detail).ids.mon = Function.update h.ids.mon ix
      (sees { h.ids.mon ix with firstFaultUs := firstFault h ix } faultType) := by
  unfold evidence firstFault
  dsimp only
  rw [detectRepeat_mon]
  have hlog : (idsLog (timerNowUs h).2 vmId .fault .warn faultType detail).ids.mon = h.ids.mon := rfl
  rw [hlog]
  split
  · rw [mon_setMon]
    exact Function.update_idem ..
  · rw [hlog]

/-- A fault is logged, then the repeat is judged. -/
theorem evidence_logs (h : Hyp) (vmId : U32) (ix : Fin maxVms) (faultType : U32) (detail : U64) :
    Logs ((.fault, .warn, vmId) ::
        if RepeatDue h ix faultType then [(.repeat, .alert, vmId)] else []) h
      (evidence h vmId ix faultType detail) := by
  obtain ⟨g, hg⟩ : ∃ g, g = idsLog (timerNowUs h).2 vmId .fault .warn faultType detail := ⟨_, rfl⟩
  have hread : Logs [] h (timerNowUs h).2 := logs_nil (appends_nil rfl)
  have hfault : Logs [(.fault, .warn, vmId)] h g := by
    rw [hg]
    exact hread.trans ⟨_, appends_idsLog (timerNowUs h).2 vmId .fault (by decide) faultType detail, rfl⟩
  have hmon : g.ids.mon = h.ids.mon := by rw [hg]; rfl
  unfold evidence
  dsimp only
  rw [← hg]
  obtain ⟨k, hk⟩ : ∃ k, k = if (g.ids.mon ix).firstFaultUs = 0 then
      g.setMon ix { g.ids.mon ix with firstFaultUs := h.timer 0 } else g := ⟨_, rfl⟩
  rw [← hk]
  have hfirst : Logs [] g k ∧ (RepeatDue k ix faultType ↔ RepeatDue h ix faultType) := by
    rw [hk]
    split
    · refine ⟨logs_nil (appends_setMon ..), ?_⟩
      rw [RepeatDue, RepeatDue, mon_setMon, hmon]
    · refine ⟨logs_nil (appends_nil rfl), ?_⟩
      rw [RepeatDue, RepeatDue, hmon]
  have hrepeat := detectRepeat_logs k vmId ix faultType
  simp only [hfirst.2] at hrepeat
  exact (hfault.trans hfirst.1).trans hrepeat

/-- The monitor once the storm detector has seen a fault. -/
def ticks (now : U64) (m : IdsVmMon) : IdsVmMon :=
  { m with
    windowStartUs :=
      if idsStormWindowUs < (now - m.windowStartUs).toNat then now else m.windowStartUs
    windowFaults :=
      if idsStormWindowUs < (now - m.windowStartUs).toNat then 1 else m.windowFaults + 1 }

/-- What the storm detector may say: nothing, that there is a storm, or
also that it has been acted on. -/
def StormLogs (vmId : U32) (bs : List (IdsEvent × IdsSeverity × U32)) : Prop :=
  bs = [] ∨ bs = [(.storm, .alert, vmId)] ∨
    bs = [(.storm, .alert, vmId), (.enforce, .alert, vmId)]

/-- **The rapid detector fires** at this fault: the VM is blocked after it,
and its escalation started less than two seconds ago. -/
def RapidDue (id : U32) (ix : Fin maxVms) (h h' : Hyp) : Prop :=
  TrustLevel.quarantine.rank ≤ (trustGet h' id).rank ∧ firstFault h ix ≠ 0 ∧
    (h.timer 0 - firstFault h ix).toNat < idsRapidUs

instance (id : U32) (ix : Fin maxVms) (h h' : Hyp) : Decidable (RapidDue id ix h h') :=
  inferInstanceAs (Decidable (_ ∧ _ ∧ _))

/-- What a notification says, in order: the fault, and what each detector
makes of it. -/
def noteOf (vmId : U32) (again : Prop) [Decidable again]
    (storm : List (IdsEvent × IdsSeverity × U32)) (rapid : Prop) [Decidable rapid] :
    List (IdsEvent × IdsSeverity × U32) :=
  (.fault, .warn, vmId) :: (if again then [(.repeat, .alert, vmId)] else []) ++ storm ++
    if rapid then [(.rapid, .alert, vmId)] else []

section Notes

variable {vmId : U32} {again rapid : Prop} [Decidable again] [Decidable rapid]
  {storm : List (IdsEvent × IdsSeverity × U32)}

/-- At most the fault and four alerts. -/
theorem length_noteOf (hstorm : StormLogs vmId storm) :
    (noteOf vmId again storm rapid).length ≤ 5 := by
  rcases hstorm with rfl | rfl | rfl <;> by_cases again <;> by_cases rapid <;>
    simp [noteOf, *]

theorem StormLogs.count_eq_zero {type : IdsEvent} (hstorm : StormLogs vmId storm)
    (hne : type ≠ .storm) (hne' : type ≠ .enforce) (v : U32) :
    storm.count (type, .alert, v) = 0 := by
  refine List.count_eq_zero.mpr fun hmem => ?_
  rcases hstorm with rfl | rfl | rfl
  · cases hmem
  · simp [hne] at hmem
  · simp [hne, hne'] at hmem

/-- **How often a notification gives each alert.** -/
theorem count_noteOf (hstorm : StormLogs vmId storm) (v : U32) :
    (noteOf vmId again storm rapid).count (.repeat, .alert, v) =
      (if vmId = v ∧ again then 1 else 0) ∧
    (noteOf vmId again storm rapid).count (.rapid, .alert, v) =
      (if vmId = v ∧ rapid then 1 else 0) ∧
    (noteOf vmId again storm rapid).count (.trustDrop, .alert, v) = 0 := by
  have hrepeat := hstorm.count_eq_zero (show IdsEvent.repeat ≠ .storm by decide) (by decide) v
  have hrapid := hstorm.count_eq_zero (show IdsEvent.rapid ≠ .storm by decide) (by decide) v
  have hdrop := hstorm.count_eq_zero (show IdsEvent.trustDrop ≠ .storm by decide) (by decide) v
  simp only [noteOf, List.count_append, List.count_cons, hrepeat, hrapid, hdrop]
  by_cases again <;> by_cases rapid <;> simp [List.count_singleton, *]

/-- A storm alert comes from the storm detector. -/
theorem storm_mem_noteOf (hstorm : StormLogs vmId storm) {v : U32} :
    (.storm, .alert, v) ∈ noteOf vmId again storm rapid ↔ storm ≠ [] ∧ v = vmId := by
  rcases hstorm with rfl | rfl | rfl <;> by_cases again <;> by_cases rapid <;>
    simp [noteOf, *]

end Notes

/-- **What a notification does**: to the log, to the monitor of the VM and
to no other. -/
structure Noted (id faultType : U32) (ix : Fin maxVms) (h h' : Hyp) : Prop where
  initialized : h'.ids.initialized = true
  others : ∀ jx, jx ≠ ix → h'.ids.mon jx = h.ids.mon jx
  type : (h'.ids.mon ix).lastFaultType = faultType
  run : (h'.ids.mon ix).repeatRun =
    if faultType = (h.ids.mon ix).lastFaultType then (h.ids.mon ix).repeatRun + 1 else 1
  first : (h'.ids.mon ix).firstFaultUs = if RapidDue id ix h h' then 0 else firstFault h ix
  seen : (h'.ids.mon ix).lastSeenLevel = (h.ids.mon ix).lastSeenLevel
  start : (h'.ids.mon ix).windowStartUs = (ticks (h.timer 0) (h.ids.mon ix)).windowStartUs
  faults : (h'.ids.mon ix).windowFaults = (ticks (h.timer 0) (h.ids.mon ix)).windowFaults
  logs : ∃ storm, StormLogs id storm ∧ (storm ≠ [] ↔ StormDue h ix (h.timer 0)) ∧
    Logs (noteOf id (RepeatDue h ix faultType) storm (RapidDue id ix h h')) h h'

section Detectors

variable {faultType : U32} {now detail : U64}

/-- The rapid detector alerts on a blocked VM whose first fault is recent. -/
theorem detectRapid_logs (h : Hyp) (vmId : U32) (ix : Fin maxVms) (faultType : U32) (now : U64) :
    Logs (if TrustLevel.quarantine.rank ≤ (trustGet h vmId).rank ∧
        (h.ids.mon ix).firstFaultUs ≠ 0 ∧ (now - (h.ids.mon ix).firstFaultUs).toNat < idsRapidUs
      then [(.rapid, .alert, vmId)] else []) h (detectRapid h vmId ix faultType now) := by
  unfold detectRapid
  dsimp only
  by_cases hdue : TrustLevel.quarantine.rank ≤ (trustGet h vmId).rank ∧
      (h.ids.mon ix).firstFaultUs ≠ 0 ∧ (now - (h.ids.mon ix).firstFaultUs).toNat < idsRapidUs
  · rw [if_pos hdue, if_pos hdue]
    have halert := logs_idsAlert h vmId .rapid faultType (now - (h.ids.mon ix).firstFaultUs)
    exact halert.trans (logs_nil (appends_setMon ..))
  · rw [if_neg hdue, if_neg hdue]
    exact logs_nil (appends_nil rfl)

theorem detectRapid_mon (h : Hyp) (vmId : U32) (ix : Fin maxVms) (faultType : U32) (now : U64) :
    (detectRapid h vmId ix faultType now).ids.mon = Function.update h.ids.mon ix { h.ids.mon ix with
      firstFaultUs := if TrustLevel.quarantine.rank ≤ (trustGet h vmId).rank ∧
        (h.ids.mon ix).firstFaultUs ≠ 0 ∧ (now - (h.ids.mon ix).firstFaultUs).toNat < idsRapidUs
      then 0 else (h.ids.mon ix).firstFaultUs } := by
  unfold detectRapid
  dsimp only
  split
  · rfl
  · exact (Function.update_eq_self ix h.ids.mon).symm

theorem initialized_evidence (h : Hyp) (vmId : U32) (ix : Fin maxVms) (faultType : U32)
    (detail : U64) :
    (evidence h vmId ix faultType detail).ids.initialized = h.ids.initialized := by
  unfold evidence detectRepeat
  dsimp only
  repeat' split
  all_goals rfl

theorem initialized_detectRapid (h : Hyp) (vmId : U32) (ix : Fin maxVms) (faultType : U32)
    (now : U64) :
    (detectRapid h vmId ix faultType now).ids.initialized = h.ids.initialized := by
  unfold detectRapid
  dsimp only
  split <;> rfl

variable [P : PtPool]

/-- Enforcement logs one record, if it acts. -/
theorem enforceStorm_logs {n : U32} (hrun : enforceStorm h id faultType n = some h') :
    h'.ids.mon = h.ids.mon ∧ h'.ids.initialized = h.ids.initialized ∧
      (Logs [] h h' ∨ Logs [(.enforce, .alert, id)] h h') := by
  rcases enforceStorm_inv hrun with ⟨-, rfl⟩ | ⟨-, e, g, hq, rfl⟩
  · exact ⟨rfl, rfl, .inl (logs_nil (appends_nil rfl))⟩
  · have hids := ids_trustQuarantine hq
    have hmon : g.ids.mon = h.ids.mon := congrArg Ids.mon hids
    have hinit : g.ids.initialized = h.ids.initialized := congrArg Ids.initialized hids
    refine ⟨hmon, hinit, .inr ?_⟩
    have hquarantine := logs_nil (appends_nil_of_ids hids)
    exact hquarantine.trans ⟨_, appends_enforced .., rfl⟩

/-- **The storm detector** changes only the window of the VM, and speaks
when a storm is due. -/
theorem detectStorm_logs (hrun : detectStorm h id ix faultType now = some h') :
    h'.ids.initialized = h.ids.initialized ∧
    h'.ids.mon = Function.update h.ids.mon ix (ticks now (h.ids.mon ix)) ∧
    ∃ storm, StormLogs id storm ∧ (storm ≠ [] ↔ StormDue h ix now) ∧ Logs storm h h' := by
  rcases detectStorm_inv hrun with ⟨hexp, rfl⟩ | ⟨hexp, n, k, rfl, hk, hcases⟩
  · refine ⟨rfl, by simp only [ticks, if_pos hexp]; rfl, [], .inl rfl, ?_, logs_nil (appends_setMon ..)⟩
    exact iff_of_false (fun hne => hne rfl) fun hdue => absurd hexp (Nat.not_lt.mpr hdue.1)
  have hmon : Logs [] h k := by
    rw [hk]
    exact logs_nil (appends_setMon ..)
  have hwindow : k.ids.mon = Function.update h.ids.mon ix (ticks now (h.ids.mon ix)) := by
    simp only [ticks, if_neg hexp]
    rw [hk]
    rfl
  have hkinit : k.ids.initialized = h.ids.initialized := by
    rw [hk]
    rfl
  rcases hcases with ⟨hfew, rfl⟩ | ⟨hfifth, henforce⟩
  · refine ⟨hkinit, hwindow, [], .inl rfl, iff_of_false (fun hne => hne rfl) fun hdue => hfew ?_, hmon⟩
    rw [hdue.2]
  have hdue : StormDue h ix now := ⟨Nat.not_lt.mp hexp, (BitVec.add_left_inj 1).mp hfifth⟩
  obtain ⟨hsame, hinit, hlogs⟩ := enforceStorm_logs henforce
  have hstorm := hmon.trans (logs_idsAlert k id .storm faultType
    (((h.ids.mon ix).windowFaults + 1).setWidth 64))
  refine ⟨hinit.trans hkinit, hsame.trans hwindow, ?_⟩
  rcases hlogs with hlogs | hlogs
  · exact ⟨_, .inr (.inl rfl), iff_of_true nofun hdue, hstorm.trans hlogs⟩
  · exact ⟨_, .inr (.inr rfl), iff_of_true nofun hdue, hstorm.trans hlogs⟩

/-- **A notification of a VM**, detector by detector. -/
theorem idsNotifyFault_noted (hids : h.ids.initialized = true) (hix : idx id = some ix)
    (hrun : idsNotifyFault h id faultType detail = some h') : Noted id faultType ix h h' := by
  rw [idsNotifyFault_eq hids hix] at hrun
  obtain ⟨g, hstorm, rfl⟩ := Option.map_eq_some_iff.mp hrun
  have hlogs := evidence_logs h id ix faultType detail
  have hmon := evidence_mon h id ix faultType detail
  have hinit := (initialized_evidence h id ix faultType detail).trans hids
  generalize evidence h id ix faultType detail = k at hlogs hmon hinit hstorm
  obtain ⟨hinit', hwindow, storm, hkind, hspeaks, hstormLogs⟩ := detectStorm_logs hstorm
  have hrapidMon := detectRapid_mon g id ix faultType (h.timer 0)
  have hrapidLogs := detectRapid_logs g id ix faultType (h.timer 0)
  have hrapidInit : (detectRapid g id ix faultType (h.timer 0)).ids.initialized =
      g.ids.initialized := initialized_detectRapid ..
  have htrust : trustGet (detectRapid g id ix faultType (h.timer 0)) id = trustGet g id := by
    rw [trustGet, trustGet, (silent_detectRapid g id ix faultType (h.timer 0)).trust]
  generalize detectRapid g id ix faultType (h.timer 0) = h' at *
  -- the monitor the rapid detector looks at
  have hg : g.ids.mon ix = ticks (h.timer 0)
      (sees { h.ids.mon ix with firstFaultUs := firstFault h ix } faultType) := by
    rw [hwindow, Function.update_self, hmon, Function.update_self]
  have hfirst : (g.ids.mon ix).firstFaultUs = firstFault h ix := by
    rw [hg]
    rfl
  have hdue : (TrustLevel.quarantine.rank ≤ (trustGet g id).rank ∧ firstFault h ix ≠ 0 ∧
      (h.timer 0 - firstFault h ix).toNat < idsRapidUs) ↔ RapidDue id ix h h' := by
    rw [RapidDue, htrust]
  simp only [hfirst, hdue] at hrapidMon hrapidLogs
  have hix' : h'.ids.mon ix = { g.ids.mon ix with
      firstFaultUs := if RapidDue id ix h h' then 0 else firstFault h ix } := by
    rw [hrapidMon, Function.update_self]
  have hsame : StormDue k ix (h.timer 0) ↔ StormDue h ix (h.timer 0) := by
    rw [StormDue, StormDue, hmon, Function.update_self]
    rfl
  refine ⟨?_, fun jx hjx => ?_, ?_, ?_, ?_, ?_, ?_, ?_, storm, hkind, hspeaks.trans hsame,
    (hlogs.trans hstormLogs).trans hrapidLogs⟩
  · rw [hrapidInit, hinit', hinit]
  · rw [hrapidMon, Function.update_of_ne hjx, hwindow, Function.update_of_ne hjx, hmon,
      Function.update_of_ne hjx]
  · rw [hix', hg]
    rfl
  · rw [hix', hg]
    rfl
  · rw [hix']
  all_goals
    rw [hix', hg]
    rfl

end Detectors

end Vse

end HypervisorBase
