import Mathlib.Algebra.BigOperators.Fin
import HypervisorBase.Vse.Budget
import HypervisorBase.Vse.Window
/-!
# The chronicle of a VM

The trust table keeps the time of a VM's last fault and of its last change
of level, and a count of all quarantines. Beside it stands here what it is
about: `Annals` has all faults reported and all changes of level, with
their times, also the change that a failover takes back within the same
call.

`promotion_clean_iff` compares the promotion of a VM with this history:
`trust_auto_promote_tick` looks at the last fault only, and not at how long
the VM has been degraded. `trust_records` is the invariant of the records
themselves.
-/

namespace HypervisorBase

namespace Vse

/-! ## Histories -/

/-- A change of level. -/
structure Change where
  time : U64
  level : TrustLevel
  deriving DecidableEq, Repr

/-- The state, with every fault reported and every change of level. -/
structure Annals where
  hyp : Hyp
  faults : Fin maxVms → List U64
  changes : Fin maxVms → List Change

/-- Nothing has been written down yet. -/
def Annals.start (h : Hyp) : Annals := ⟨h, fun _ => [], fun _ => []⟩

/-- The change of level between two states, at the time it was made. -/
def changeOf (ix : Fin maxVms) (h h' : Hyp) : List Change :=
  if (h'.trust.vm ix).level = (h.trust.vm ix).level then []
  else [⟨(h'.trust.vm ix).downgradeTime, (h'.trust.vm ix).level⟩]

/-- The changes an operation makes: before a quarantine is handed to
failover, and after. -/
def changesOf (ix : Fin maxVms) (h : Hyp) (op : TrustOp) (h' : Hyp) : List Change :=
  match handover h op with
  | none => changeOf ix h h'
  | some (_, m) => changeOf ix h m ++ changeOf ix m h'

/-- The fault an operation reports, at the time of the call. -/
def faultsOf (ix : Fin maxVms) (h : Hyp) (op : TrustOp) : List U64 :=
  if reportsOn ix op then [h.timer 0] else []

variable {h h' m : Hyp} {ix : Fin maxVms} {op : TrustOp} {s s' : Annals}

/-! ## What the records say about the history -/

/-- **The record of a VM against its history**, on a clock that does not
go back: what has happened is past, the record has the time of the last
change, and no fault is later than both of its times. Faults of a revoked
VM are not recorded. -/
structure Told (ix : Fin maxVms) (h : Hyp) (faults : List U64) (changes : List Change) : Prop where
  clock : ∀ j k, j ≤ k → (h.timer j).toNat ≤ (h.timer k).toNat
  past : ∀ t ∈ faults, t.toNat ≤ (h.timer 0).toNat
  made : ∀ c ∈ changes, c.time.toNat ≤ (h.timer 0).toNat
  last : ∀ c ∈ changes, c.time.toNat ≤ (h.trust.vm ix).downgradeTime.toNat
  stamped : (h.trust.vm ix).level = .degraded →
    ∃ c ∈ changes, c.time = (h.trust.vm ix).downgradeTime
  quiet : (h.trust.vm ix).level ≠ .revoked → ∀ t ∈ faults,
    t.toNat ≤ (h.trust.vm ix).lastFaultUs.toNat ∨ t.toNat ≤ (h.trust.vm ix).downgradeTime.toNat

section Told

variable {live backup reported : Fin maxVms → Prop} {into : Option (Fin maxVms)}
  {faults new : List U64} {changes : List Change} {n : ℕ}

theorem changeOf_same (hsame : (h'.trust.vm ix).level = (h.trust.vm ix).level) :
    changeOf ix h h' = [] := if_pos hsame

theorem changeOf_levelled {r : TrustRecord} {l : TrustLevel} {t : U64}
    (hr : h'.trust.vm ix = levelled r l t) (hl : (h.trust.vm ix).level ≠ l) :
    changeOf ix h h' = [⟨t, l⟩] := by
  rw [changeOf, hr, if_neg fun heq => hl heq.symm]
  rfl

/-- A change of level, whatever faults are reported with it. -/
theorem Told.changed (htold : Told ix h faults changes) {r : TrustRecord} {l : TrustLevel} {k : ℕ}
    (hclock : ∀ k, h'.timer k = h.timer (n + k)) (hk : k < n)
    (hr : h'.trust.vm ix = levelled r l (h.timer k)) (hl : (h.trust.vm ix).level ≠ l)
    (hnew : ∀ t ∈ new, t = h.timer 0) :
    Told ix h' (faults ++ new) (changes ++ changeOf ix h h') := by
  rw [changeOf_levelled hr hl]
  have hmono := htold.clock
  -- a fault is stamped first, the change after it, and both before the next reading
  have hfirst : (h.timer 0).toNat ≤ (h.timer k).toNat := hmono 0 k (Nat.zero_le k)
  have hlast : (h.timer k).toNat ≤ (h'.timer 0).toNat := by
    rw [hclock]
    exact hmono k (n + 0) (by omega)
  have hfaults : ∀ t ∈ faults ++ new, t.toNat ≤ (h.timer 0).toNat := by
    intro t ht
    rcases List.mem_append.mp ht with hold | hnow
    · exact htold.past t hold
    · rw [hnew t hnow]
  have hchanges : ∀ c ∈ changes ++ [⟨h.timer k, l⟩], c.time.toNat ≤ (h.timer k).toNat := by
    intro c hc
    rcases List.mem_append.mp hc with hold | hnow
    · exact Nat.le_trans (htold.made c hold) hfirst
    · rw [List.mem_singleton.mp hnow]
  refine ⟨fun j j' hj => ?_, fun t ht => ?_, fun c hc => ?_, fun c hc => ?_, fun _ => ?_, fun _ t ht => ?_⟩
  · rw [hclock, hclock]
    exact hmono _ _ (by omega)
  · exact Nat.le_trans (hfaults t ht) (Nat.le_trans hfirst hlast)
  · exact Nat.le_trans (hchanges c hc) hlast
  · rw [hr]
    exact hchanges c hc
  · rw [hr]
    exact ⟨⟨h.timer k, l⟩, List.mem_append_right _ (List.mem_singleton.mpr rfl), rfl⟩
  · rw [hr]
    exact .inr (Nat.le_trans (hfaults t ht) hfirst)

/-- **A stretch of an operation is told.** -/
theorem Told.stretch (htold : Told ix h faults changes)
    (hst : Stretch live backup reported into n h h') (hnew : ∀ t ∈ new, t = h.timer 0)
    (hrep : new ≠ [] → (h.trust.vm ix).level ≠ .revoked → reported ix) :
    Told ix h' (faults ++ new) (changes ++ changeOf ix h h') := by
  have hmono := htold.clock
  have hlast : (h.timer 0).toNat ≤ (h'.timer 0).toNat := by
    rw [hst.timer]
    exact hmono 0 (n + 0) (Nat.zero_le _)
  have hclock : ∀ j k, j ≤ k → (h'.timer j).toNat ≤ (h'.timer k).toNat := by
    intro j k hjk
    rw [hst.timer, hst.timer]
    exact hmono _ _ (by omega)
  have hpast : ∀ t ∈ faults ++ new, t.toNat ≤ (h.timer 0).toNat := by
    intro t ht
    rcases List.mem_append.mp ht with hold | hnow
    · exact htold.past t hold
    · rw [hnew t hnow]
  -- where the level stays, so do the changes
  have hstays : ∀ r : TrustRecord, h'.trust.vm ix = r → r.level = (h.trust.vm ix).level →
      r.downgradeTime = (h.trust.vm ix).downgradeTime →
      ((h.trust.vm ix).level ≠ .revoked → ∀ t ∈ faults ++ new,
        t.toNat ≤ r.lastFaultUs.toNat ∨ t.toNat ≤ r.downgradeTime.toNat) →
      Told ix h' (faults ++ new) (changes ++ changeOf ix h h') := by
    intro r hr hlevel htime hquiet
    have hsame : changeOf ix h h' = [] := changeOf_same (by rw [hr, hlevel])
    rw [hsame, List.append_nil]
    refine ⟨hclock, fun t ht => Nat.le_trans (hpast t ht) hlast,
      fun c hc => Nat.le_trans (htold.made c hc) hlast, ?_, ?_, ?_⟩
    · rw [hr, htime]
      exact htold.last
    · rw [hr, hlevel, htime]
      exact htold.stamped
    · rw [hr, hlevel]
      exact hquiet
  obtain ⟨rule, -, hfaults, -, hturn⟩ := hst.turns ix
  generalize hr : h'.trust.vm ix = r at hturn
  cases hturn with
  | rest =>
    refine hstays _ hr rfl rfl fun hrev t ht => ?_
    have hnone : new = [] := by
      by_contra hsome
      exact hfaults.mpr (hrep hsome hrev)
    rw [hnone, List.append_nil] at ht
    exact htold.quiet hrev t ht
  | @fault k faultType detail hk =>
    refine hstays _ hr rfl rfl fun _ t ht => .inl ?_
    exact Nat.le_trans (hpast t ht) (hmono 0 k (Nat.zero_le k))
  | faultTo l faultType detail hk hk' hl => exact htold.changed hst.timer hk' hr hl hnew
  | moveTo l hk hl => exact htold.changed hst.timer hk hr hl hnew
  | clearTo l hk hl => exact htold.changed hst.timer hk hr hl hnew

end Told

theorem mem_faultsOf {t : U64} (ht : t ∈ faultsOf ix h op) : t = h.timer 0 := by
  unfold faultsOf at ht
  split at ht
  · exact List.mem_singleton.mp ht
  · cases ht

theorem reports_of_faultsOf (hsome : faultsOf ix h op ≠ []) (hrev : (h.trust.vm ix).level ≠ .revoked) :
    Reports h op ix := by
  unfold faultsOf at hsome
  split at hsome
  · rename_i hon
    cases op with
    | reportFault vmId faultType detail => exact ⟨of_decide_eq_true hon, hrev⟩
    | _ => cases hon
  · exact absurd rfl hsome

/-! ## The start -/

/-- A record `trust_init` has made. -/
structure Fresh (r : TrustRecord) : Prop where
  faultCount : r.faultCount = 0
  lastFaultUs : r.lastFaultUs = 0
  level : r.level ≠ .degraded

theorem fresh_trustInit (h : Hyp) (gm : U32 → Gmeas) (ix : Fin maxVms) :
    Fresh ((trustInit h gm).trust.vm ix) := by
  have hloop : ∀ (vms : List Vm) (t : Trust), (∀ ix, Fresh (t.vm ix)) →
      ∀ ix, Fresh ((vms.foldl (trustMark gm) t).vm ix) := by
    intro vms
    induction vms with
    | nil => exact fun t ht => ht
    | cons vm vms ih =>
      refine fun t ht => ih _ fun jx => ?_
      unfold trustMark
      split
      · exact ht jx
      · rename_i kx _
        by_cases hj : jx = kx
        · subst hj
          simp only [Function.update_self]
          refine ⟨(ht jx).faultCount, (ht jx).lastFaultUs, ?_⟩
          split <;> simp
        · simp only [Function.update_of_ne hj]
          exact ht jx
  exact hloop h.vms _ (fun _ => ⟨rfl, rfl, fun heq => (by cases heq)⟩) ix

theorem quarantineCount_trustInit (h : Hyp) (gm : U32 → Gmeas) :
    (trustInit h gm).trust.quarantineCount = 0 := by
  have hloop : ∀ (vms : List Vm) (t : Trust),
      (vms.foldl (trustMark gm) t).quarantineCount = t.quarantineCount := by
    intro vms
    induction vms with
    | nil => exact fun t => rfl
    | cons vm vms ih =>
      intro t
      rw [List.foldl_cons, ih]
      unfold trustMark
      split <;> rfl
  exact hloop h.vms _

theorem standing_trustInit (hr : Roster h) (gm : U32 → Gmeas) : Standing (trustInit h gm) :=
  ⟨⟨hr.length_le, hr.ids, hr.alive⟩, rfl⟩

theorem told_start (hclock : ∀ j k, j ≤ k → (h.timer j).toNat ≤ (h.timer k).toNat)
    (gm : U32 → Gmeas) (ix : Fin maxVms) : Told ix (trustInit h gm) [] [] :=
  ⟨hclock, List.forall_mem_nil _, List.forall_mem_nil _, List.forall_mem_nil _,
    fun hlevel => absurd hlevel (fresh_trustInit h gm ix).level, fun _ => List.forall_mem_nil _⟩

/-! ## Runs -/

section Tables

variable [P : PtPool]

def chronicle (s : Annals) (op : TrustOp) : Option Annals :=
  (trustStep s.hyp op).map fun h' => ⟨h', fun ix => s.faults ix ++ faultsOf ix s.hyp op,
    fun ix => s.changes ix ++ changesOf ix s.hyp op h'⟩

theorem chronicle_eq (hstep : chronicle s op = some s') : trustStep s.hyp op = some s'.hyp ∧
    (∀ ix, s'.faults ix = s.faults ix ++ faultsOf ix s.hyp op) ∧
    ∀ ix, s'.changes ix = s.changes ix ++ changesOf ix s.hyp op s'.hyp := by
  obtain ⟨h', hrun, rfl⟩ := Option.map_eq_some_iff.mp hstep
  exact ⟨hrun, fun _ => rfl, fun _ => rfl⟩

/-- **Every operation is told.** -/
theorem Told.step (hs : Standing s.hyp) (htold : Told ix s.hyp (s.faults ix) (s.changes ix))
    (hstep : chronicle s op = some s') : Told ix s'.hyp (s'.faults ix) (s'.changes ix) := by
  obtain ⟨hrun, hfaults, hchanges⟩ := chronicle_eq hstep
  rw [hfaults, hchanges]
  rcases trustStep_spans hs hrun with ⟨hand, n, hn⟩ | ⟨id, jx, m, hand, -, ⟨n, hn⟩, hafter⟩
  · rw [changesOf, hand]
    exact htold.stretch hn (fun _ => mem_faultsOf) reports_of_faultsOf
  · rw [changesOf, hand]
    have hmid := htold.stretch hn (fun _ => mem_faultsOf) reports_of_faultsOf
    obtain ⟨n', hn'⟩ := hafter.span
    have hend : Told ix s'.hyp ((s.faults ix ++ faultsOf ix s.hyp op) ++ [])
        ((s.changes ix ++ changeOf ix s.hyp m) ++ changeOf ix m s'.hyp) :=
      hmid.stretch hn' (fun _ ht => by cases ht) fun hne => absurd rfl hne
    rw [List.append_nil, List.append_assoc] at hend
    exact hend

/-- **Over a run** every change is told. -/
theorem told_run (hr : Roster h) (hclock : ∀ j k, j ≤ k → (h.timer j).toNat ≤ (h.timer k).toNat)
    {gm : U32 → Gmeas} {ops : List TrustOp}
    (hrun : exec chronicle (.start (trustInit h gm)) ops = some s) (ix : Fin maxVms) :
    Standing s.hyp ∧ Told ix s.hyp (s.faults ix) (s.changes ix) := by
  have hstep : ∀ (a : Annals) op b,
      (Standing a.hyp ∧ Told ix a.hyp (a.faults ix) (a.changes ix)) → chronicle a op = some b →
      Standing b.hyp ∧ Told ix b.hyp (b.faults ix) (b.changes ix) := by
    rintro a op b ⟨hs, htold⟩ hab
    exact ⟨trustStep_standing hs (chronicle_eq hab).1, htold.step hs hab⟩
  exact exec_invariant hstep ⟨standing_trustInit hr gm, told_start hclock gm ix⟩ hrun

/-! ## Promotions -/

/-- **`trust_auto_promote_tick` promotes the VM**, called by itself or by a
poll, which gives it the time it started at. -/
def Promotes (h : Hyp) (op : TrustOp) (nowUs : U64) (ix : Fin maxVms) : Prop :=
  (op = .autoPromoteTick nowUs ∨ op = .poll ∧ nowUs = h.timer 0) ∧
  (h.trust.vm ix).level ≠ .trusted ∧
  ∃ h', trustStep h op = some h' ∧ (h'.trust.vm ix).level = .trusted

/-- **A full clean period that ends now**: the VM is degraded, and neither
did its level change nor was a fault reported during the period. -/
structure CleanPeriod (s : Annals) (nowUs : U64) (ix : Fin maxVms) : Prop where
  degraded : (s.hyp.trust.vm ix).level = .degraded
  unchanged : ∀ c ∈ s.changes ix, c.time.toNat + trustCleanPeriodUs ≤ nowUs.toNat
  quiet : ∀ t ∈ s.faults ix, t.toNat + trustCleanPeriodUs ≤ nowUs.toNat

omit P in
theorem Lifts.promoted {nowUs : U64} {n : ℕ} (a : Lifts nowUs n h h')
    (hbefore : (h.trust.vm ix).level ≠ .trusted) (hafter : (h'.trust.vm ix).level = .trusted) :
    (h.trust.vm ix).level = .degraded ∧
      (h.trust.vm ix).lastFaultUs.toNat + trustCleanPeriodUs ≤ nowUs.toNat := by
  rcases a.vm ix with hsame | ⟨hlevel, hclean, -⟩
  · rw [hsame] at hafter
    exact absurd hafter hbefore
  · exact ⟨hlevel, hclean⟩

/-- What a promotion has looked at. -/
theorem Promotes.clean {nowUs : U64} (hs : Standing h) (hprom : Promotes h op nowUs ix) :
    (h.trust.vm ix).level = .degraded ∧
      (h.trust.vm ix).lastFaultUs.toNat + trustCleanPeriodUs ≤ nowUs.toNat := by
  obtain ⟨rfl | ⟨rfl, rfl⟩, hbefore, h', hrun, hafter⟩ := hprom
  · obtain rfl := Option.some.inj hrun
    obtain ⟨n, hlifts⟩ := lifts_autoPromoteTick hs.initialized nowUs
    exact hlifts.promoted hbefore hafter
  · obtain rfl := Option.some.inj hrun
    rcases lifts_idsPoll hs.initialized with hcalm | ⟨g, g', n, hg, hlifts, hg'⟩
    · rw [hcalm.trust] at hafter
      exact absurd hafter hbefore
    · rw [hg'.trust] at hafter
      rw [← hg.trust] at hbefore ⊢
      exact hlifts.promoted hbefore hafter

/-- **Which promotions follow a clean period.** In every history after
`trust_init` with a clock that does not go back, a VM that is promoted has
been degraded and without a fault for the whole clean period if and only
if its last change of level is that long ago. -/
theorem promotion_clean_iff (hr : Roster h)
    (hclock : ∀ j k, j ≤ k → (h.timer j).toNat ≤ (h.timer k).toNat) {gm : U32 → Gmeas}
    {ops : List TrustOp} (hrun : exec chronicle (.start (trustInit h gm)) ops = some s)
    {nowUs : U64} (hprom : Promotes s.hyp op nowUs ix) :
    CleanPeriod s nowUs ix ↔
      (s.hyp.trust.vm ix).downgradeTime.toNat + trustCleanPeriodUs ≤ nowUs.toNat := by
  obtain ⟨hs, htold⟩ := told_run hr hclock hrun ix
  obtain ⟨hlevel, hclean⟩ := hprom.clean hs
  constructor
  · intro hperiod
    obtain ⟨c, hc, htime⟩ := htold.stamped hlevel
    rw [← htime]
    exact hperiod.unchanged c hc
  · intro hlong
    refine ⟨hlevel, fun c hc => ?_, fun t ht => ?_⟩
    · have hle := htold.last c hc
      omega
    · have hle := htold.quiet (by rw [hlevel]; decide) t ht
      omega

end Tables

/-- The lone RTOS with a clock that stands still, but for one jump of forty
seconds after a number of readings. -/
def rtosAsleep (n : ℕ) : Hyp := { loneRtos with timer := fun k => if k < n then 0 else 40000000 }

theorem roster_rtosAsleep (n : ℕ) : Roster (rtosAsleep n) :=
  (standing_of_one (h := rtosAsleep n) rfl rfl (by decide) rfl).roster

theorem clock_rtosAsleep (n j k : ℕ) (hjk : j ≤ k) :
    ((rtosAsleep n).timer j).toNat ≤ ((rtosAsleep n).timer k).toNat := by
  change (if j < n then (0 : U64) else 40000000).toNat ≤ (if k < n then (0 : U64) else 40000000).toNat
  by_cases hj : j < n
  · rw [if_pos hj]
    exact Nat.zero_le _
  · rw [if_neg hj, if_neg (by omega)]

/-- The RTOS is quarantined and restored, and promoted when it has been
degraded for forty seconds. -/
theorem promotion_clean_rtos :
    letI := Stage2.poolAt2M
    ∃ s, exec chronicle (.start (trustInit (rtosAsleep 2) fun _ => .match)) [.quarantine 1, .restore 1] =
        some s ∧
      Promotes s.hyp .poll 40000000 ⟨0, by decide⟩ ∧ CleanPeriod s 40000000 ⟨0, by decide⟩ := by
  let _ := Stage2.poolAt2M
  obtain ⟨s, hrun, hprom, hlong⟩ : ∃ s,
      exec chronicle (.start (trustInit (rtosAsleep 2) fun _ => .match)) [.quarantine 1, .restore 1] =
        some s ∧
      Promotes s.hyp .poll 40000000 ⟨0, by decide⟩ ∧
      (s.hyp.trust.vm ⟨0, by decide⟩).downgradeTime.toNat + trustCleanPeriodUs ≤
        (40000000 : U64).toNat :=
    ⟨_, rfl, ⟨.inr ⟨rfl, rfl⟩, by decide, _, rfl, rfl⟩, by decide⟩
  exact ⟨s, hrun, hprom, (promotion_clean_iff (roster_rtosAsleep 2) (clock_rtosAsleep 2) hrun hprom).mpr
    hlong⟩

/-- The RTOS is quarantined, restored forty seconds later, and promoted at
once: it has been degraded for no time at all. -/
theorem promotion_at_once :
    letI := Stage2.poolAt2M
    Roster (rtosAsleep 1) ∧
    (∀ j k, j ≤ k → ((rtosAsleep 1).timer j).toNat ≤ ((rtosAsleep 1).timer k).toNat) ∧
    ∃ s, exec chronicle (.start (trustInit (rtosAsleep 1) fun _ => .match)) [.quarantine 1, .restore 1] =
        some s ∧
      s.changes ⟨0, by decide⟩ = [⟨0, .quarantine⟩, ⟨40000000, .degraded⟩] ∧
      Promotes s.hyp .poll 40000000 ⟨0, by decide⟩ ∧ ¬ CleanPeriod s 40000000 ⟨0, by decide⟩ := by
  let _ := Stage2.poolAt2M
  obtain ⟨s, hrun, hchanges, hprom⟩ : ∃ s,
      exec chronicle (.start (trustInit (rtosAsleep 1) fun _ => .match)) [.quarantine 1, .restore 1] =
        some s ∧
      s.changes ⟨0, by decide⟩ = [⟨0, .quarantine⟩, ⟨40000000, .degraded⟩] ∧
      Promotes s.hyp .poll 40000000 ⟨0, by decide⟩ :=
    ⟨_, rfl, rfl, ⟨.inr ⟨rfl, rfl⟩, by decide, _, rfl, rfl⟩⟩
  refine ⟨roster_rtosAsleep 1, clock_rtosAsleep 1, s, hrun, hchanges, hprom, fun hclean => ?_⟩
  have hlate := hclean.unchanged ⟨40000000, .degraded⟩ (by rw [hchanges]; simp)
  exact absurd hlate (by decide)

/-! ## The records -/

/-- **A record whose count goes with its level.** -/
structure Proportionate (r : TrustRecord) : Prop where
  trusted : r.level = .trusted → r.faultCount.toNat < trustThreshDegraded
  degraded : r.level = .degraded → r.faultCount.toNat < trustThreshQuarantine

/-- How often a VM has been put into quarantine. -/
def quarantines (changes : List Change) : ℕ := changes.countP fun c => c.level = .quarantine

section Rules

variable {t : ℕ → U64} {n : ℕ} {r r' : TrustRecord} {rule : Rule} {live backup : Prop}

/-- A fault that is not due fits under the threshold. -/
theorem lt_of_not_due (hdue : ¬ Due r) (hlow : r.level.rank < TrustLevel.quarantine.rank) :
    (r.faultCount + 1).toNat < trustThreshQuarantine := by
  by_contra hge
  exact hdue ⟨Nat.not_lt.mp hge, hlow⟩

/-- **The rules keep the proportion**, for a VM without a backup. -/
theorem Turn.proportionate (hturn : Turn t n r rule r') (hrule : rule.Allowed live backup r)
    (hlive : live) (hbackup : ¬ backup) (hr : Proportionate r) : Proportionate r' := by
  have htrusted : ∀ {l : TrustLevel}, l = .trusted → l.rank < TrustLevel.quarantine.rank := by
    rintro l rfl
    decide
  have hdegraded : ∀ {l : TrustLevel}, l = .degraded → l.rank < TrustLevel.quarantine.rank := by
    rintro l rfl
    decide
  cases hturn with
  | rest => exact hr
  | fault faultType detail hk =>
    obtain ⟨-, hdue, hmany⟩ := hrule
    refine ⟨fun hl => ?_, fun hl => lt_of_not_due (hdue hlive) (hdegraded hl)⟩
    by_contra hge
    exact hdue hlive (hmany hl (Nat.not_lt.mp hge))
  | faultTo l faultType detail hk hk' hl =>
    rcases hrule with ⟨hdue, hlevel, rfl⟩ | ⟨-, -, rfl⟩
    · exact ⟨fun hl' => (by cases hl'), fun _ => lt_of_not_due hdue (htrusted hlevel)⟩
    · exact ⟨fun hl' => (by cases hl'), fun hl' => (by cases hl')⟩
  | moveTo l hk hl =>
    obtain ⟨-, ⟨-, rfl⟩ | rfl | ⟨hhas, -⟩⟩ := hrule
    · exact ⟨fun hl' => (by cases hl'), fun hl' => (by cases hl')⟩
    · exact ⟨fun hl' => (by cases hl'), fun hl' => (by cases hl')⟩
    · exact absurd hhas hbackup
  | clearTo l hk hl =>
    have hfew : (0 : U32).toNat < trustThreshDegraded ∧ (0 : U32).toNat < trustThreshQuarantine := by
      decide
    exact ⟨fun _ => hfew.1, fun _ => hfew.2⟩

/-- A slot without a VM keeps its level. -/
theorem Turn.unknown (hturn : Turn t n r rule r') (hrule : rule.Allowed live backup r)
    (hlive : ¬ live) (hr : r.level = .unknown) : r'.level = .unknown := by
  cases hturn with
  | rest => exact hr
  | fault faultType detail hk => exact hr
  | faultTo l faultType detail hk hk' hl =>
    rcases hrule with ⟨-, hlevel, -⟩ | ⟨hvm, -⟩
    · rw [hr] at hlevel
      cases hlevel
    · exact absurd hvm hlive
  | moveTo l hk hl => exact absurd hrule.1 hlive
  | clearTo l hk hl =>
    rcases hrule with ⟨hvm, -⟩ | ⟨hlevel, -⟩
    · exact absurd hvm hlive
    · rw [hr] at hlevel
      cases hlevel

end Rules

section Count

variable {h h' : Hyp} {n : ℕ} {live backup reported : Fin maxVms → Prop}
  {into : Option (Fin maxVms)}

/-- A stretch puts the VM into quarantine that it counts. -/
theorem quarantines_changeOf (hst : Stretch live backup reported into n h h') (jx : Fin maxVms) :
    quarantines (changeOf jx h h') = if into = some jx then 1 else 0 := by
  obtain ⟨rule, -, -, hinto, hturn⟩ := hst.turns jx
  have hmoved : ∀ (r : TrustRecord) (l : TrustLevel) (k : ℕ),
      h'.trust.vm jx = levelled r l (h.timer k) → (h.trust.vm jx).level ≠ l →
      (l = .quarantine ↔ into = some jx) →
      quarantines (changeOf jx h h') = if into = some jx then 1 else 0 := by
    intro r l k hr hl hiff
    rw [changeOf_levelled hr hl]
    by_cases hq : l = .quarantine
    · rw [if_pos (hiff.mp hq), hq]
      rfl
    · rw [if_neg fun hi => hq (hiff.mpr hi)]
      simp [quarantines, hq]
  have hstays : ¬ rule.Quarantines → (h'.trust.vm jx).level = (h.trust.vm jx).level →
      quarantines (changeOf jx h h') = if into = some jx then 1 else 0 := by
    intro hnot hsame
    rw [changeOf_same hsame, if_neg fun hi => hnot (hinto.mpr hi)]
    rfl
  generalize hr : h'.trust.vm jx = r at hturn
  cases hturn with
  | rest => exact hstays not_false (by rw [hr])
  | fault faultType detail hk => exact hstays not_false (by rw [hr]; rfl)
  | faultTo l faultType detail hk hk' hl => exact hmoved _ l _ hr hl hinto
  | moveTo l hk hl => exact hmoved _ l _ hr hl hinto
  | clearTo l hk hl => exact hmoved _ l _ hr hl hinto

theorem sum_quarantines_changeOf (hst : Stretch live backup reported into n h h') :
    ∑ jx, quarantines (changeOf jx h h') = (counted into).toNat := by
  simp only [quarantines_changeOf hst]
  cases into with
  | none => simp [counted]
  | some ix => simp [counted]

end Count

section Runs

variable [P : PtPool]
variable {h : Hyp} {ix : Fin maxVms} {op : TrustOp} {ops : List TrustOp} {s s' : Annals}
  {gm : U32 → Gmeas}

/-- A VM without a backup, with a record in proportion. -/
structure Unaided (ix : Fin maxVms) (h : Hyp) : Prop where
  enrolled : Enrolled ix h
  alone : ¬ HasBackup h ix
  record : Proportionate (h.trust.vm ix)

/-- A VM without a backup stays without. -/
theorem Unaided.step {g : Hyp} (hu : Unaided ix h) (honce : ¬ Registers ix op)
    (hrun : trustStep h op = some g) : Unaided ix g := by
  obtain ⟨he, -⟩ := trustStep_spends hu.enrolled honce hrun
  obtain ⟨vm, hvm⟩ := hu.enrolled.vm
  have hocc : Occupied h ix := (List.getElem?_eq_some_iff.mp hvm).1
  refine ⟨he, trustStep_alone hu.enrolled honce hu.alone hrun, ?_⟩
  rcases trustStep_spans hu.enrolled.standing hrun with
    ⟨-, n, hn⟩ | ⟨id, jx, m, -, -, ⟨n, hn⟩, hafter⟩
  · obtain ⟨rule, hrule, -, -, hturn⟩ := hn.turns ix
    exact hturn.proportionate hrule hocc hu.alone hu.record
  · obtain ⟨rule, hrule, -, -, hturn⟩ := hn.turns ix
    obtain ⟨n', hn'⟩ := hafter.span
    obtain ⟨rule', hrule', -, -, hturn'⟩ := hn'.turns ix
    exact hturn'.proportionate hrule' hocc hu.alone
      (hturn.proportionate hrule hocc hu.alone hu.record)

/-- A slot without a VM. -/
structure Vacant (ix : Fin maxVms) (h : Hyp) : Prop where
  standing : Standing h
  vacant : ¬ Occupied h ix
  unknown : (h.trust.vm ix).level = .unknown

/-- A vacant place stays vacant. -/
theorem Vacant.step {g : Hyp} (hv : Vacant ix h) (hrun : trustStep h op = some g) : Vacant ix g := by
  refine ⟨trustStep_standing hv.standing hrun, ?_, ?_⟩
  · rcases trustStep_spans hv.standing hrun with ⟨-, n, hn⟩ | ⟨id, jx, m, -, -, ⟨n, hn⟩, hafter⟩
    · rw [Occupied, hn.slots]
      exact hv.vacant
    · obtain ⟨n', hn'⟩ := hafter.span
      rw [Occupied, hn'.slots, hn.slots]
      exact hv.vacant
  · rcases trustStep_spans hv.standing hrun with ⟨-, n, hn⟩ | ⟨id, jx, m, -, -, ⟨n, hn⟩, hafter⟩
    · obtain ⟨rule, hrule, -, -, hturn⟩ := hn.turns ix
      exact hturn.unknown hrule hv.vacant hv.unknown
    · obtain ⟨rule, hrule, -, -, hturn⟩ := hn.turns ix
      obtain ⟨n', hn'⟩ := hafter.span
      obtain ⟨rule', hrule', -, -, hturn'⟩ := hn'.turns ix
      exact hturn'.unknown hrule' hv.vacant (hturn.unknown hrule hv.vacant hv.unknown)

/-- The count of quarantines is the number of them, as far as it goes. -/
structure Tallied (s : Annals) : Prop where
  standing : Standing s.hyp
  count : s.hyp.trust.quarantineCount = BitVec.ofNat 32 (∑ ix, quarantines (s.changes ix))

omit P in
theorem quarantines_append (l l' : List Change) :
    quarantines (l ++ l') = quarantines l + quarantines l' := List.countP_append

/-- **One operation keeps the tally.** -/
theorem Tallied.step (ht : Tallied s) (hstep : chronicle s op = some s') : Tallied s' := by
  obtain ⟨hrun, -, hchanges⟩ := chronicle_eq hstep
  have hone : ∀ into, BitVec.ofNat 32 (counted into).toNat = counted into :=
    fun into => BitVec.ofNat_toNat ..
  refine ⟨trustStep_standing ht.standing hrun, ?_⟩
  simp only [hchanges, quarantines_append, Finset.sum_add_distrib, BitVec.ofNat_add]
  rw [← ht.count]
  rcases trustStep_spans ht.standing hrun with ⟨hand, n, hn⟩ | ⟨id, jx, m, hand, -, ⟨n, hn⟩, hafter⟩
  · simp only [changesOf, hand]
    rw [sum_quarantines_changeOf hn, hone, hn.count]
  · obtain ⟨n', hn'⟩ := hafter.span
    simp only [changesOf, hand, quarantines_append, Finset.sum_add_distrib, BitVec.ofNat_add]
    rw [sum_quarantines_changeOf hn, sum_quarantines_changeOf hn', hone, hone, hn'.count, hn.count,
      BitVec.add_assoc]

omit P in
theorem unaided_start (hr : Roster h) (hocc : Occupied h ix) (halone : ¬ HasBackup h ix) :
    Unaided ix (trustInit h gm) := by
  have hzero := (fresh_trustInit h gm ix).faultCount
  have hfew : (0 : U32).toNat < trustThreshDegraded ∧ (0 : U32).toNat < trustThreshQuarantine := by
    decide
  refine ⟨⟨standing_trustInit hr gm, _, List.getElem?_eq_getElem hocc⟩, halone, ?_⟩
  exact ⟨fun _ => by rw [hzero]; exact hfew.1, fun _ => by rw [hzero]; exact hfew.2⟩

omit P in
theorem vacant_start (hr : Roster h) (hvac : ¬ Occupied h ix) : Vacant ix (trustInit h gm) := by
  refine ⟨standing_trustInit hr gm, hvac, ?_⟩
  have hne : ∀ vm ∈ h.vms, idx vm.id ≠ some ix := by
    intro vm hvm hix
    obtain ⟨i, hi⟩ := List.mem_iff_getElem?.mp hvm
    have hlt := (List.getElem?_eq_some_iff.mp hi).1
    rw [hr.ids i vm hi, idx_ofNat (Nat.lt_of_lt_of_le hlt hr.length_le)] at hix
    obtain rfl := Option.some.inj hix
    exact hvac hlt
  exact foldl_trustMark_of_ne hne

/-- **The trust records over a run.** In every history after `trust_init`:
a VM that has no backup is trusted with fewer than
`TRUST_THRESH_DEGRADED` faults and degraded with fewer than
`TRUST_THRESH_QUARANTINE`, a slot without a VM stays unknown, and
`quarantine_count` is the number of times a VM was put into quarantine. -/
theorem trust_records (hr : Roster h)
    (hrun : exec chronicle (.start (trustInit h gm)) ops = some s) :
    (∀ ix, Occupied h ix → ¬ HasBackup h ix → (∀ op ∈ ops, ¬ Registers ix op) →
      Proportionate (s.hyp.trust.vm ix)) ∧
    (∀ ix, ¬ Occupied h ix → (s.hyp.trust.vm ix).level = .unknown) ∧
    s.hyp.trust.quarantineCount = BitVec.ofNat 32 (∑ ix, quarantines (s.changes ix)) := by
  refine ⟨fun ix hocc halone honce => ?_, fun ix hvac => ?_, ?_⟩
  · have hstep : ∀ a op b, Unaided ix (Annals.hyp a) → ¬ Registers ix op → chronicle a op = some b →
        Unaided ix b.hyp := fun a op b hu hop hab => hu.step hop (chronicle_eq hab).1
    have hstart : Unaided ix (trustInit h gm) := unaided_start hr hocc halone
    have hall := throughout_of_guarded (P := fun a => Unaided ix (Annals.hyp a)) hstep (fun _ hu => hu)
      hstart (guarded_of_mem honce (.start (trustInit h gm)))
    exact (throughout_iff.mp hall ops [] s (List.append_nil ops).symm hrun).record
  · have hstep : ∀ a op b, Vacant ix (Annals.hyp a) → chronicle a op = some b → Vacant ix b.hyp :=
      fun a op b hv hab => hv.step (chronicle_eq hab).1
    have hstart : Vacant ix (trustInit h gm) := vacant_start hr hvac
    exact (exec_invariant hstep hstart hrun).unknown
  · have hstart : Tallied (.start (trustInit h gm)) := by
      refine ⟨standing_trustInit hr gm, (quarantineCount_trustInit h gm).trans ?_⟩
      simp [quarantines, Annals.start]
    exact (exec_invariant (fun _ _ _ ht hab => ht.step hab) hstart hrun).count

end Runs

/-- Fifteen faults of the lone RTOS, which has no backup. -/
theorem trust_records_rtos :
    letI := Stage2.poolAt2M
    ∃ s, exec chronicle (.start (trustInit loneRtos fun _ => .match))
        (List.replicate 15 (.reportFault 1 1 0)) = some s ∧
      (s.hyp.trust.vm ⟨0, by decide⟩).level = .quarantine ∧
      Proportionate (s.hyp.trust.vm ⟨0, by decide⟩) ∧
      (s.hyp.trust.vm ⟨1, by decide⟩).level = .unknown ∧
      s.hyp.trust.quarantineCount = BitVec.ofNat 32 (∑ ix, quarantines (s.changes ix)) := by
  let _ := Stage2.poolAt2M
  have hr : Roster loneRtos := (standing_of_one rfl rfl (by decide) rfl).roster
  obtain ⟨s, hrun, hlevel⟩ : ∃ s, exec chronicle (.start (trustInit loneRtos fun _ => .match))
      (List.replicate 15 (.reportFault 1 1 0)) = some s ∧
      (s.hyp.trust.vm ⟨0, by decide⟩).level = .quarantine := ⟨_, rfl, rfl⟩
  obtain ⟨hrecord, hvacant, hcount⟩ := trust_records hr hrun
  refine ⟨s, hrun, hlevel, hrecord ⟨0, by decide⟩ (by decide) (fun hb => absurd hb.2 (by decide)) ?_,
    hvacant ⟨1, by decide⟩ (by decide), hcount⟩
  intro op hop
  rw [List.eq_of_mem_replicate hop]
  exact id

end Vse

end HypervisorBase
