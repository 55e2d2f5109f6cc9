import HypervisorBase.Vse.Outcomes
/-!
# Bookkeeping

Most of what the trust engine and intrusion detection do is to keep their
own records. `OnlyVse` says that an operation has done no more than that:
whatever else the hypervisor keeps is as it was. A poll is always of this
kind. A reported fault is, unless it is the one that has the VM
quarantined: the one that fills the fault count, or the one that makes a
storm (`Escalates`).
-/

namespace HypervisorBase

namespace Vse

/-- **Only records of the trust engine and of intrusion detection have
changed**, and the clock has been read. -/
structure OnlyVse (h h' : Hyp) : Prop where
  rest : h' = { h with trust := h'.trust, fdetect := h'.fdetect, ids := h'.ids, timer := h'.timer }
  initialized : h'.trust.initialized = h.trust.initialized

variable {h h' h'' : Hyp} {id : U32} {ix : Fin maxVms}

theorem OnlyVse.refl (h : Hyp) : OnlyVse h h := ⟨rfl, rfl⟩

theorem OnlyVse.trans (a : OnlyVse h h') (b : OnlyVse h' h'') : OnlyVse h h'' where
  rest := by
    calc h'' = { h' with trust := h''.trust, fdetect := h''.fdetect, ids := h''.ids,
                         timer := h''.timer } := b.rest
      _ = { h with trust := h''.trust, fdetect := h''.fdetect, ids := h''.ids,
                   timer := h''.timer } := by rw [a.rest]
  initialized := b.initialized.trans a.initialized

/-- Whatever is read off the rest of the state is unchanged. -/
theorem OnlyVse.eq {α : Type*} (a : OnlyVse h h') (f : Hyp → α)
    (hf : ∀ g t d i m, f { g with trust := t, fdetect := d, ids := i, timer := m } = f g) :
    f h' = f h := by
  rw [a.rest]
  exact hf ..

/-! ## Trust -/

/-- `trust_set` does nothing, or reads the clock and replaces the VM's
record. -/
theorem trustSet_cases (h : Hyp) (id : U32) (l : TrustLevel) : (trustSet h id l).2 = h ∨
    ∃ ix r, idx id = some ix ∧ r.level = l ∧
      (trustSet h id l).2 = (timerNowUs h).2.setTrust ix r := by
  unfold trustSet
  split
  · exact .inl rfl
  · rename_i ix hix
    split
    · exact .inl rfl
    split
    · exact .inr ⟨ix, _, hix, rfl, rfl⟩
    · exact .inl rfl

theorem onlyVse_trustSet (h : Hyp) (id : U32) (l : TrustLevel) : OnlyVse h (trustSet h id l).2 := by
  rcases trustSet_cases h id l with heq | ⟨ix, r, -, -, heq⟩
  · rw [heq]
    exact .refl h
  · rw [heq]
    exact ⟨rfl, rfl⟩

theorem onlyVse_autoPromoteTick (h : Hyp) (nowUs : U64) :
    OnlyVse h (trustAutoPromoteTick h nowUs).2 := by
  refine trustAutoPromoteTick_keeps (R := OnlyVse h) (.refl h) fun n g ix hg => ?_
  refine promoteOne_keeps (R := OnlyVse h) hg fun _ _ _ => ?_
  have hclear : OnlyVse g (g.setTrust ix { g.trust.vm ix with faultCount := 0 }) := ⟨rfl, rfl⟩
  exact (hg.trans hclear).trans (onlyVse_trustSet ..)

/-! ## Intrusion detection -/

/-- **A poll only keeps books.** -/
theorem onlyVse_idsPoll (h : Hyp) : OnlyVse h (idsPoll h).2 :=
  idsPoll_keeps (R := OnlyVse h) (.refl h) (fun _ _ _ hg => hg.trans ⟨rfl, rfl⟩)
    fun g nowUs hg => hg.trans (onlyVse_autoPromoteTick g nowUs)

/-! ## A fault that is not acted on -/

/-- The fault fills the count of a VM that is still let run. -/
def CountDue (h : Hyp) (ix : Fin maxVms) : Prop :=
  trustThreshQuarantine ≤ ((h.trust.vm ix).faultCount + 1).toNat

/-- The fault makes a storm, if it is taken in at this time. -/
def StormDue (h : Hyp) (ix : Fin maxVms) (now : U64) : Prop :=
  (now - (h.ids.mon ix).windowStartUs).toNat ≤ idsStormWindowUs ∧
    (h.ids.mon ix).windowFaults = idsStormFaults

/-- **A fault of this VM would have it quarantined now**: it is still let
run, and the fault fills its count or, on one of the next three readings
of the clock, makes a storm. -/
def Escalates (h : Hyp) (ix : Fin maxVms) : Prop :=
  (h.trust.vm ix).level.rank < TrustLevel.quarantine.rank ∧
    (CountDue h ix ∨ ∃ k ≤ 2, StormDue h ix (h.timer k))

/-- What `trust_report_fault` leaves for the detectors when it does not
quarantine. -/
structure Reported (h h' : Hyp) (ix : Fin maxVms) : Prop where
  only : OnlyVse h h'
  ids : h'.ids = h.ids
  clock : ∃ k ≤ 2, h'.timer 0 = h.timer k
  blocked : TrustLevel.quarantine.rank ≤ (h.trust.vm ix).level.rank →
    TrustLevel.quarantine.rank ≤ (h'.trust.vm ix).level.rank

theorem Reported.refl (h : Hyp) (ix : Fin maxVms) : Reported h h ix :=
  ⟨.refl h, rfl, ⟨0, by omega, rfl⟩, id⟩

theorem reported_recordFault (h : Hyp) (ix : Fin maxVms) (faultType : U32) (detail : U64) :
    Reported h (recordFault h ix faultType detail) ix := by
  refine ⟨⟨rfl, rfl⟩, rfl, ⟨1, by omega, rfl⟩, ?_⟩
  intro hblocked
  simpa [recordFault, timerNowUs, Hyp.setTrust] using hblocked

variable {detail : U64} {faultType : U32}

/-- The downgrade to `TRUST_DEGRADED` on the way. -/
theorem reported_degraded
    (hlevel : ((recordFault h ix faultType detail).trust.vm ix).level = .trusted) :
    Reported h (trustSet (recordFault h ix faultType detail) id .degraded).2 ix := by
  have hrec := reported_recordFault h ix faultType detail
  have hrank : (h.trust.vm ix).level.rank < TrustLevel.quarantine.rank := by
    rw [← Nat.not_le]
    intro hblocked
    have hle := hrec.blocked hblocked
    rw [hlevel] at hle
    exact absurd hle (by decide)
  have hclock : ∀ n, (recordFault h ix faultType detail).timer n = h.timer (n + 1) := fun _ => rfl
  obtain ⟨g, hg⟩ : ∃ g, g = recordFault h ix faultType detail := ⟨_, rfl⟩
  rw [← hg] at hrec hclock ⊢
  rcases trustSet_cases g id .degraded with heq | ⟨ix', r, -, -, heq⟩
  · rw [heq]
    exact hrec
  · rw [heq]
    have hset : OnlyVse g ((timerNowUs g).2.setTrust ix' r) := ⟨rfl, rfl⟩
    exact ⟨hrec.only.trans hset, hrec.ids, ⟨2, by omega, hclock 1⟩, fun hblocked => by omega⟩

section Tables

variable [P : PtPool]

/-- **A report that does not escalate** is recorded, and that is all. -/
theorem trustReportFault_reported {e : Err}
    (hix : idx id = some ix) (hquiet : ¬ Escalates h ix)
    (hrun : trustReportFault h id faultType detail = some (e, h')) : Reported h h' ix := by
  rcases trustReportFault_inv hrun with ⟨rfl, -⟩ | ⟨jx, g, hjx, -, rfl, hcases⟩
  · exact .refl _ ix
  obtain rfl := Option.some.inj (hix.symm.trans hjx)
  rcases hcases with ⟨hfull, -⟩ | ⟨-, rfl | ⟨htrusted, rfl⟩⟩
  · -- the count would be filled
    rw [Full, level_recordFault, faultCount_recordFault] at hfull
    exact absurd ⟨hfull.2, .inl hfull.1⟩ hquiet
  · exact reported_recordFault h ix faultType detail
  · exact reported_degraded htrusted

end Tables

/-! ## The detectors -/

/-- Books are kept, but not those of the trust engine, and the clock may
have been read. -/
structure Silent (h h' : Hyp) : Prop where
  only : OnlyVse h h'
  trust : h'.trust = h.trust
  clock : ∃ n, ∀ k, h'.timer k = h.timer (n + k)

theorem Silent.of_timer (honly : OnlyVse h h') (htrust : h'.trust = h.trust)
    (htimer : h'.timer = h.timer) : Silent h h' :=
  ⟨honly, htrust, 0, fun k => by rw [htimer, Nat.zero_add]⟩

/-- The clock is read once. -/
theorem Silent.of_read (honly : OnlyVse h h') (htrust : h'.trust = h.trust)
    (htimer : ∀ k, h'.timer k = h.timer (k + 1)) : Silent h h' :=
  ⟨honly, htrust, 1, fun k => by rw [htimer, Nat.add_comm]⟩

theorem Silent.refl (h : Hyp) : Silent h h := .of_timer (.refl h) rfl rfl

theorem Silent.trans (a : Silent h h') (b : Silent h' h'') : Silent h h'' := by
  obtain ⟨n, hn⟩ := a.clock
  obtain ⟨m, hm⟩ := b.clock
  exact ⟨a.only.trans b.only, b.trust.trans a.trust, n + m,
    fun k => by rw [hm, hn, Nat.add_assoc]⟩

theorem silent_setMon (h : Hyp) (ix : Fin maxVms) (m : IdsVmMon) : Silent h (h.setMon ix m) :=
  .of_timer ⟨rfl, rfl⟩ rfl rfl

theorem silent_idsAlert (h : Hyp) (vmId : U32) (type : IdsEvent) (faultType : U32)
    (detail : U64) : Silent h (idsAlert h vmId type faultType detail) :=
  .of_read ⟨rfl, rfl⟩ rfl fun _ => rfl

/-- A record of the audit log, or of a monitor: the levels and the VM's
window of faults are as they were. -/
structure Logged (h h' : Hyp) (ix : Fin maxVms) : Prop where
  silent : Silent h h'
  start : (h'.ids.mon ix).windowStartUs = (h.ids.mon ix).windowStartUs
  faults : (h'.ids.mon ix).windowFaults = (h.ids.mon ix).windowFaults

theorem Logged.trans (a : Logged h h' ix) (b : Logged h' h'' ix) : Logged h h'' ix :=
  ⟨a.silent.trans b.silent, b.start.trans a.start, b.faults.trans a.faults⟩

theorem logged_idsAlert (h : Hyp) (ix : Fin maxVms) (vmId : U32) (type : IdsEvent)
    (faultType : U32) (detail : U64) : Logged h (idsAlert h vmId type faultType detail) ix :=
  ⟨silent_idsAlert .., rfl, rfl⟩

theorem logged_setMon {m : IdsVmMon} (hstart : m.windowStartUs = (h.ids.mon ix).windowStartUs)
    (hfaults : m.windowFaults = (h.ids.mon ix).windowFaults) : Logged h (h.setMon ix m) ix := by
  refine ⟨silent_setMon .., ?_, ?_⟩
  · rw [← hstart]
    simp [Hyp.setMon]
  · rw [← hfaults]
    simp [Hyp.setMon]

/-- The repeat detector leaves the storm window alone. -/
theorem logged_detectRepeat (h : Hyp) (ix : Fin maxVms) (vmId faultType : U32) :
    Logged h (detectRepeat h vmId ix faultType) ix := by
  unfold detectRepeat
  dsimp only
  split
  · split
    · refine Logged.trans ?_ (logged_idsAlert ..)
      exact logged_setMon rfl rfl
    · exact logged_setMon rfl rfl
  · exact logged_setMon rfl rfl

/-- The log entry, the first fault and the repeat monitor leave the window
alone. -/
theorem logged_evidence (h : Hyp) (ix : Fin maxVms) (vmId faultType : U32) (detail : U64) :
    Logged h (evidence h vmId ix faultType detail) ix := by
  have hread : Silent h (timerNowUs h).2 := .of_read ⟨rfl, rfl⟩ rfl fun _ => rfl
  have hlog : Logged h (idsLog (timerNowUs h).2 vmId .fault .warn faultType detail) ix :=
    ⟨hread.trans (.of_read ⟨rfl, rfl⟩ rfl fun _ => rfl), rfl, rfl⟩
  unfold evidence
  dsimp only
  refine Logged.trans (hlog.trans ?_) (logged_detectRepeat _ ix vmId faultType)
  split
  · exact logged_setMon rfl rfl
  · exact ⟨.refl _, rfl, rfl⟩

theorem silent_detectRapid (h : Hyp) (vmId : U32) (ix : Fin maxVms) (faultType : U32) (now : U64) :
    Silent h (detectRapid h vmId ix faultType now) := by
  unfold detectRapid
  dsimp only
  split
  · exact (silent_idsAlert ..).trans (silent_setMon ..)
  · exact .refl h

/-- The state in which the storm detector decides on enforcement. -/
def alerted (h : Hyp) (vmId : U32) (ix : Fin maxVms) (faultType : U32) : Hyp :=
  let n := (h.ids.mon ix).windowFaults + 1
  idsAlert (h.setMon ix { h.ids.mon ix with windowFaults := n }) vmId .storm faultType (n.setWidth 64)

theorem silent_alerted (h : Hyp) (vmId : U32) (ix : Fin maxVms) (faultType : U32) :
    Silent h (alerted h vmId ix faultType) := (silent_setMon ..).trans (silent_idsAlert ..)

/-- The same in a notification. -/
def stormPoint (h : Hyp) (vmId : U32) (ix : Fin maxVms) (faultType : U32) (detail : U64) : Hyp :=
  alerted (evidence h vmId ix faultType detail) vmId ix faultType

theorem silent_stormPoint (h : Hyp) (vmId : U32) (ix : Fin maxVms) (faultType : U32)
    (detail : U64) : Silent h (stormPoint h vmId ix faultType detail) :=
  (logged_evidence h ix vmId faultType detail).silent.trans (silent_alerted ..)

/-- A level from quarantine on is blocked. -/
theorem trustIsBlocked_of_rank (hinit : h.trust.initialized = true) (hix : idx id = some ix)
    (hrank : TrustLevel.quarantine.rank ≤ (h.trust.vm ix).level.rank) :
    trustIsBlocked h id = true := by
  have hget : trustGet h id = (h.trust.vm ix).level := by
    rw [trustGet, hix]
    exact if_pos hinit
  rw [trustIsBlocked, hget]
  cases hlevel : (h.trust.vm ix).level with
  | quarantine => rfl
  | revoked => rfl
  | unknown | trusted | degraded => rw [hlevel] at hrank; exact absurd hrank (by decide)

theorem rank_of_trustIsBlocked (hix : idx id = some ix) (hblocked : trustIsBlocked h id = true) :
    TrustLevel.quarantine.rank ≤ (h.trust.vm ix).level.rank := by
  rw [trustIsBlocked, trustGet, hix] at hblocked
  dsimp only at hblocked
  split at hblocked
  · rcases Bool.or_eq_true_iff.mp hblocked with hq | hr
    · exact Nat.le_of_eq (by rw [of_decide_eq_true hq])
    · rw [of_decide_eq_true hr]
      decide
  · cases hblocked

/-- The level is not one that blocks the VM. -/
theorem rank_lt_of_not_blocked (hinit : h.trust.initialized = true) (hix : idx id = some ix)
    (hnot : ¬ trustIsBlocked h id = true) :
    (h.trust.vm ix).level.rank < TrustLevel.quarantine.rank := by
  by_contra hrank
  exact hnot (trustIsBlocked_of_rank hinit hix (Nat.not_lt.mp hrank))

section Detect

variable [P : PtPool]

/-- The storm detector keeps books, or comes to a quarantine if this is a
storm of a VM that is not blocked yet. -/
theorem detectStorm_cases {now : U64} (hinit : h.trust.initialized = true)
    (hix : idx id = some ix) (hrun : detectStorm h id ix faultType now = some h') :
    ¬ (StormDue h ix now ∧ (h.trust.vm ix).level.rank < TrustLevel.quarantine.rank) ∧ Silent h h' ∨
    (StormDue h ix now ∧ (h.trust.vm ix).level.rank < TrustLevel.quarantine.rank) ∧
      ∃ e g, trustQuarantine (alerted h id ix faultType) id = some (e, g) ∧ Silent g h' := by
  rcases detectStorm_inv hrun with ⟨hover, rfl⟩ | ⟨hwindow, n, k, rfl, rfl, hcases⟩
  · exact .inl ⟨fun hdue => absurd hover (Nat.not_lt.mpr hdue.1.1), silent_setMon ..⟩
  rcases hcases with ⟨hfew, rfl⟩ | ⟨hfifth, henforce⟩
  · refine .inl ⟨fun hdue => hfew ?_, silent_setMon ..⟩
    rw [hdue.1.2]
  have hdue : StormDue h ix now := ⟨Nat.not_lt.mp hwindow, (BitVec.add_left_inj 1).mp hfifth⟩
  rcases enforceStorm_inv henforce with ⟨hblocked, rfl⟩ | ⟨hopen, e, g, hquar, rfl⟩
  · refine .inl ⟨fun hlow => ?_, silent_alerted h id ix faultType⟩
    exact absurd hlow.2 (Nat.not_lt.mpr (rank_of_trustIsBlocked hix hblocked))
  · exact .inr ⟨⟨hdue, rank_lt_of_not_blocked hinit hix hopen⟩, e, g, hquar,
      .of_read ⟨rfl, rfl⟩ rfl fun _ => rfl⟩

/-- **A notification would have the VM quarantined now.** -/
def StormNow (h : Hyp) (ix : Fin maxVms) : Prop :=
  h.ids.initialized = true ∧ StormDue h ix (h.timer 0) ∧
    (h.trust.vm ix).level.rank < TrustLevel.quarantine.rank

/-- **A notification** keeps books or comes to a quarantine. -/
theorem idsNotifyFault_cases (hinit : h.trust.initialized = true)
    (hrun : idsNotifyFault h id faultType detail = some h') :
    (∀ ix, idx id = some ix → ¬ StormNow h ix) ∧ Silent h h' ∨
    ∃ ix g g' e, idx id = some ix ∧ StormNow h ix ∧ g = stormPoint h id ix faultType detail ∧
      Silent h g ∧ trustQuarantine g id = some (e, g') ∧ Silent g' h' := by
  rcases idsNotifyFault_inv hrun with ⟨hoff, rfl⟩ | ⟨ix, g₃, hids, hix, hstorm, rfl⟩
  · exact .inl ⟨fun ix hix hnow => hoff ⟨hnow.1, ix, hix⟩, .refl _⟩
  have hlog := logged_evidence h ix id faultType detail
  have hsilent := hlog.silent
  have hsame : StormDue (evidence h id ix faultType detail) ix (h.timer 0) ↔ StormDue h ix (h.timer 0) := by
    rw [StormDue, StormDue, hlog.start, hlog.faults]
  have hcases := detectStorm_cases (hsilent.only.initialized.trans hinit) hix hstorm
  rw [hsame, hsilent.trust] at hcases
  rcases hcases with ⟨hnot, hquiet⟩ | ⟨⟨hdue, hlow⟩, e, g', hq, hafter⟩
  · refine .inl ⟨fun ix' hix' hnow => hnot ?_,
      (hsilent.trans hquiet).trans (silent_detectRapid ..)⟩
    obtain rfl : ix' = ix := Option.some.inj (hix'.symm.trans hix)
    exact hnow.2
  · exact .inr ⟨ix, _, g', e, hix, ⟨hids, hdue, hlow⟩, rfl, silent_stormPoint .., hq,
      hafter.trans (silent_detectRapid ..)⟩

/-- A notification that enforces nothing is bookkeeping. -/
theorem idsNotifyFault_onlyVse
    (hinit : h.trust.initialized = true) (hix : idx id = some ix)
    (hquiet : StormDue h ix (h.timer 0) →
      TrustLevel.quarantine.rank ≤ (h.trust.vm ix).level.rank)
    (hrun : idsNotifyFault h id faultType detail = some h') : OnlyVse h h' := by
  rcases idsNotifyFault_cases hinit hrun with ⟨-, hsilent⟩ | ⟨ix', -, -, -, hix', hnow, -⟩
  · exact hsilent.only
  · obtain rfl : ix' = ix := Option.some.inj (hix'.symm.trans hix)
    exact absurd hnow.2.2 (Nat.not_lt.mpr (hquiet hnow.2.1))

/-- **A fault that does not escalate is only recorded.** -/
theorem reportGuest_onlyVse (hinit : h.trust.initialized = true)
    (hquiet : ∀ ix, idx id = some ix → ¬ Escalates h ix)
    (hrun : reportGuest h id faultType detail = some h') : OnlyVse h h' := by
  unfold reportGuest at hrun
  split at hrun
  · cases hrun
    exact ⟨rfl, rfl⟩
  · rename_i hsome
    obtain ⟨ix, hix⟩ : ∃ ix, idx id = some ix := by
      rwa [Option.isNone_iff_eq_none, ← ne_eq, Option.ne_none_iff_exists'] at hsome
    obtain ⟨⟨e, g⟩, hfault, hnotify⟩ := Option.bind_eq_some_iff.mp hrun
    have hrep := trustReportFault_reported hix (hquiet ix hix) hfault
    refine hrep.only.trans (idsNotifyFault_onlyVse (hrep.only.initialized.trans hinit) hix ?_ hnotify)
    intro hdue
    refine hrep.blocked ?_
    by_contra hrank
    obtain ⟨k, hk, hclock⟩ := hrep.clock
    refine hquiet ix hix ⟨Nat.not_le.mp hrank, .inr ⟨k, hk, ?_⟩⟩
    rw [StormDue, hrep.ids, hclock] at hdue
    exact hdue

theorem fdetectMemFault_onlyVse {ipa : U64} {isWrite : Bool} (hinit : h.trust.initialized = true)
    (hquiet : ∀ ix, idx id = some ix → ¬ Escalates h ix)
    (hrun : fdetectMemFault h id ipa isWrite = some h') : OnlyVse h h' := by
  unfold fdetectMemFault at hrun
  split at hrun
  · cases hrun
    exact ⟨rfl, rfl⟩
  · have hcount : OnlyVse h { h with fdetect := { h.fdetect with
        memFaults := h.fdetect.memFaults + 1, total := h.fdetect.total + 1 } } := ⟨rfl, rfl⟩
    exact hcount.trans (reportGuest_onlyVse hinit hquiet hrun)

theorem fdetectDmaViolation_onlyVse {faultPa : U64} (hinit : h.trust.initialized = true)
    (hquiet : ∀ ix, idx id = some ix → ¬ Escalates h ix)
    (hrun : fdetectDmaViolation h id faultPa = some h') : OnlyVse h h' := by
  unfold fdetectDmaViolation at hrun
  split at hrun
  · cases hrun
    exact ⟨rfl, rfl⟩
  · have hcount : OnlyVse h { h with fdetect := { h.fdetect with
        dmaViolations := h.fdetect.dmaViolations + 1, total := h.fdetect.total + 1 } } := ⟨rfl, rfl⟩
    exact hcount.trans (reportGuest_onlyVse hinit hquiet hrun)

end Detect

end Vse

end HypervisorBase
