import HypervisorBase.Vse.Levels
/-!
# The record of a VM

What the trust engine keeps about a VM is one record: its level, its
fault count and two times. `Rule` lists what can become of such a record,
`Rule.Allowed` when, and `Turn` how. An operation gives every record at
most one turn, or two where a quarantine hands the VM to failover
(`handover`): `trustStep_spans`. What is said of records over whole runs
follows from the rules alone.
-/

namespace HypervisorBase

namespace Vse

variable {h h' h'' : Hyp} {n m : ℕ} {i : ℕ} {id : U32} {ix : Fin maxVms} {e : Err}

/-! ## Readings of the clock -/

/-- The clock has been read `n` times. The trust table is as it was, and
no VM has come or gone. -/
structure Reads (n : ℕ) (h h' : Hyp) : Prop where
  trust : h'.trust = h.trust
  slots : h'.vms.length = h.vms.length
  timer : ∀ k, h'.timer k = h.timer (n + k)

theorem Reads.trans (a : Reads n h h') (b : Reads m h' h'') : Reads (n + m) h h'' :=
  ⟨b.trust.trans a.trust, b.slots.trans a.slots, fun k => by rw [b.timer, a.timer, Nat.add_assoc]⟩

theorem reads_one (htrust : h'.trust = h.trust) (hslots : h'.vms.length = h.vms.length)
    (htimer : ∀ k, h'.timer k = h.timer (k + 1)) : Reads 1 h h' :=
  ⟨htrust, hslots, fun k => by rw [htimer, Nat.add_comm]⟩

/-- The clock may have been read. -/
def Calm (h h' : Hyp) : Prop := ∃ n, Reads n h h'

theorem Calm.refl (h : Hyp) : Calm h h := ⟨0, rfl, rfl, fun k => by rw [Nat.zero_add]⟩

theorem Calm.trans (a : Calm h h') (b : Calm h' h'') : Calm h h'' := by
  obtain ⟨n, hn⟩ := a
  obtain ⟨m, hm⟩ := b
  exact ⟨n + m, hn.trans hm⟩

theorem Calm.trust (a : Calm h h') : h'.trust = h.trust := by
  obtain ⟨n, hn⟩ := a
  exact hn.trust

theorem Calm.initialized (a : Calm h h') (hinit : h.trust.initialized = true) :
    h'.trust.initialized = true := by
  rw [a.trust]
  exact hinit

theorem calm_of_eq (htrust : h'.trust = h.trust) (htimer : h'.timer = h.timer)
    (hslots : h'.vms.length = h.vms.length) : Calm h h' :=
  ⟨0, htrust, hslots, fun k => by rw [htimer, Nat.zero_add]⟩

theorem calm_vmStop (h : Hyp) (i : ℕ) : Calm h (vmStop h i).2 :=
  keeps_of_cases (R := Calm h) (vmStop_cases h i) (.refl h) fun _ _ =>
    calm_of_eq rfl rfl (List.length_set ..)

theorem calm_vmStart (h : Hyp) (i : ℕ) : Calm h (vmStart h i).2 :=
  keeps_of_cases (R := Calm h) (vmStart_cases h i) (.refl h) fun _ _ =>
    calm_of_eq rfl rfl (List.length_set ..)

theorem calm_vmSuspend (h : Hyp) (i : ℕ) : Calm h (vmSuspend h i).2 :=
  keeps_of_cases (R := Calm h) (vmSuspend_cases h i) (.refl h) fun _ _ =>
    calm_of_eq rfl rfl (List.length_set ..)

theorem calm_vmResume (h : Hyp) (i : ℕ) : Calm h (vmResume h i).2 :=
  keeps_of_cases (R := Calm h) (vmResume_cases h i) (.refl h) fun _ _ =>
    calm_of_eq rfl rfl (List.length_set ..)

theorem calm_suspendRunnable (h : Hyp) (i : ℕ) : Calm h (suspendRunnable h i) :=
  suspendRunnable_keeps (R := Calm h) (.refl h) (calm_vmSuspend h i)

theorem calm_restoreImage (h : Hyp) (bd : BackupDesc) : Calm h (restoreImage h bd) := by
  unfold restoreImage
  split <;> exact calm_of_eq rfl rfl rfl

theorem calm_resetEntry (h : Hyp) (i : ℕ) (entryIpa : U64) : Calm h (resetEntry h i entryIpa) := by
  unfold resetEntry
  split <;> exact calm_of_eq rfl rfl rfl

theorem calm_onVm {f : Hyp → ℕ → Err × Hyp} (hf : ∀ h i, Calm h (f h i).2) (h : Hyp) (id : U32) :
    Calm h (Hypercall.onVm f h id).2 := by
  unfold Hypercall.onVm
  split
  · exact .refl h
  · exact hf h _

theorem calm_failoverRegister (h : Hyp) (id : U32) (backupPa livePa backupSize entryIpa : U64) :
    Calm h (failoverRegister h id backupPa livePa backupSize entryIpa).2 := by
  unfold failoverRegister
  repeat' split
  all_goals exact calm_of_eq rfl rfl rfl

theorem Silent.calm (a : Silent h h') : Calm h h' := by
  obtain ⟨n, hn⟩ := a.clock
  exact ⟨n, a.trust, a.only.eq (fun g => g.vms.length) fun _ _ _ _ _ => rfl, hn⟩

theorem calm_pollOne (st : U32 × Hyp) (ix : Fin maxVms) : Calm st.2 (pollOne st ix).2 := by
  unfold pollOne
  dsimp only
  split
  · exact ((silent_idsAlert ..).trans (silent_setMon ..)).calm
  · exact (silent_setMon ..).calm

theorem calm_foldl_pollOne (l : List (Fin maxVms)) (st : U32 × Hyp) :
    Calm st.2 (l.foldl pollOne st).2 :=
  List.foldlRecOn (motive := fun st' : U32 × Hyp => Calm st.2 st'.2) l pollOne (.refl _)
    fun st' hst ix _ => hst.trans (calm_pollOne st' ix)

section Finalize

variable [P : PtPool]

theorem calm_vmFinalize (hrun : vmFinalize h i = some (e, h')) : Calm h h' := by
  rcases vmFinalize_cases hrun with ⟨-, -, rfl⟩ | ⟨vm, -, ⟨s₁, -, -, rfl⟩ | ⟨s₁, s₂, vm', pool, -, -, -, rfl⟩⟩
  · exact .refl _
  · exact calm_of_eq rfl rfl rfl
  · exact calm_of_eq rfl rfl (List.length_set ..)

end Finalize

/-! ## The rules -/

/-- A record after a fault. -/
def faulted (r : TrustRecord) (faultType : U32) (detail now : U64) : TrustRecord :=
  { r with
    faultCount := r.faultCount + 1
    lastFaultType := faultType
    lastFaultDetail := detail
    lastFaultUs := now }

/-- A record at another level. -/
def levelled (r : TrustRecord) (l : TrustLevel) (now : U64) : TrustRecord :=
  { r with level := l, downgradeTime := now }

/-- A record whose faults are forgotten. -/
def cleared (r : TrustRecord) : TrustRecord := { r with faultCount := 0 }

/-- What can become of a record. -/
inductive Rule
  | rest
  | fault
  | faultTo (l : TrustLevel)
  | moveTo (l : TrustLevel)
  | clearTo (l : TrustLevel)

/-- The rules that record a fault. -/
def Rule.Faults : Rule → Prop
  | .fault | .faultTo _ => True
  | .rest | .moveTo _ | .clearTo _ => False

/-- The rules that put a VM into quarantine. -/
def Rule.Quarantines : Rule → Prop
  | .faultTo l | .moveTo l | .clearTo l => l = .quarantine
  | .rest | .fault => False

/-- The next fault fills the count of a VM that is still let run. -/
def Due (r : TrustRecord) : Prop :=
  trustThreshQuarantine ≤ (r.faultCount + 1).toNat ∧ r.level.rank < TrustLevel.quarantine.rank

/-- **When a rule applies** to a record, of a slot that has a VM or not
and a backup or not. -/
def Rule.Allowed (live backup : Prop) (r : TrustRecord) : Rule → Prop
  | .rest => True
  | .fault => r.level ≠ .revoked ∧ (live → ¬ Due r) ∧
      (r.level = .trusted → trustThreshDegraded ≤ (r.faultCount + 1).toNat → Due r)
  | .faultTo l => ¬ Due r ∧ r.level = .trusted ∧ l = .degraded ∨ live ∧ Due r ∧ l = .quarantine
  | .moveTo l => live ∧ (r.level.rank < TrustLevel.quarantine.rank ∧ l = .quarantine ∨
      l = .revoked ∨ backup ∧ l = .degraded)
  | .clearTo l => live ∧ r.level = .quarantine ∧ l = .degraded ∨ r.level = .degraded ∧ l = .trusted

/-- **How a rule changes a record**, with `n` readings of the clock to
stamp it. -/
inductive Turn (t : ℕ → U64) (n : ℕ) (r : TrustRecord) : Rule → TrustRecord → Prop
  | rest : Turn t n r .rest r
  | fault {k : ℕ} (faultType : U32) (detail : U64) (hk : k < n) :
      Turn t n r .fault (faulted r faultType detail (t k))
  | faultTo {k k' : ℕ} (l : TrustLevel) (faultType : U32) (detail : U64) (hk : k ≤ k')
      (hk' : k' < n) (hl : r.level ≠ l) :
      Turn t n r (.faultTo l) (levelled (faulted r faultType detail (t k)) l (t k'))
  | moveTo {k : ℕ} (l : TrustLevel) (hk : k < n) (hl : r.level ≠ l) :
      Turn t n r (.moveTo l) (levelled r l (t k))
  | clearTo {k : ℕ} (l : TrustLevel) (hk : k < n) (hl : r.level ≠ l) :
      Turn t n r (.clearTo l) (levelled (cleared r) l (t k))

section Turns

variable {t : ℕ → U64} {r r' : TrustRecord} {rule : Rule}

/-- More readings do no harm. -/
theorem Turn.widen (a : Turn t n r rule r') (m : ℕ) : Turn t (n + m) r rule r' := by
  cases a with
  | rest => exact .rest
  | fault faultType detail hk => exact .fault faultType detail (by omega)
  | faultTo l faultType detail hk hk' hl => exact .faultTo l faultType detail hk (by omega) hl
  | moveTo l hk hl => exact .moveTo l (by omega) hl
  | clearTo l hk hl => exact .clearTo l (by omega) hl

theorem Turn.shift (a : Turn (fun k => t (m + k)) n r rule r') : Turn t (m + n) r rule r' := by
  cases a with
  | rest => exact .rest
  | fault faultType detail hk => exact .fault faultType detail (by omega)
  | faultTo l faultType detail hk hk' hl =>
    exact .faultTo l faultType detail (by omega) (by omega) hl
  | moveTo l hk hl => exact .moveTo l (by omega) hl
  | clearTo l hk hl => exact .clearTo l (by omega) hl

end Turns

/-! ## Stretches of an operation -/

/-- How much `quarantine_count` grows. -/
def counted : Option (Fin maxVms) → U32
  | none => 0
  | some _ => 1

/-- **A stretch of an operation**: every record takes one turn. The slots
with a VM, with a backup and with a fault to record are given, and the VM
that is put into quarantine. -/
structure Stretch (live backup reported : Fin maxVms → Prop) (into : Option (Fin maxVms)) (n : ℕ)
    (h h' : Hyp) : Prop where
  slots : h'.vms.length = h.vms.length
  timer : ∀ k, h'.timer k = h.timer (n + k)
  count : h'.trust.quarantineCount = h.trust.quarantineCount + counted into
  turns : ∀ jx, ∃ rule : Rule, rule.Allowed (live jx) (backup jx) (h.trust.vm jx) ∧
    (rule.Faults ↔ reported jx) ∧ (rule.Quarantines ↔ into = some jx) ∧
    Turn h.timer n (h.trust.vm jx) rule (h'.trust.vm jx)

def Span (live backup reported : Fin maxVms → Prop) (into : Option (Fin maxVms)) (h h' : Hyp) : Prop :=
  ∃ n, Stretch live backup reported into n h h'

section Spans

variable {live backup reported : Fin maxVms → Prop} {into : Option (Fin maxVms)} {l : TrustLevel}

/-- Calm steps before a stretch change nothing of it. -/
theorem Span.calm_left (a : Calm h h') (b : Span live backup reported into h' h'') :
    Span live backup reported into h h'' := by
  obtain ⟨n, hn⟩ := a
  obtain ⟨m, hm⟩ := b
  have htimer : h'.timer = fun k => h.timer (n + k) := funext hn.timer
  refine ⟨n + m, hm.slots.trans hn.slots, fun k => ?_, ?_, fun jx => ?_⟩
  · rw [hm.timer, hn.timer, Nat.add_assoc]
  · rw [hm.count, hn.trust]
  · obtain ⟨rule, hallowed, hfaults, hinto, hturn⟩ := hm.turns jx
    rw [hn.trust] at hallowed hturn
    rw [htimer] at hturn
    exact ⟨rule, hallowed, hfaults, hinto, hturn.shift⟩

/-- Nor do calm steps after it. -/
theorem Span.calm_right (a : Span live backup reported into h h') (b : Calm h' h'') :
    Span live backup reported into h h'' := by
  obtain ⟨n, hn⟩ := a
  obtain ⟨m, hm⟩ := b
  refine ⟨n + m, hm.slots.trans hn.slots, fun k => ?_, ?_, fun jx => ?_⟩
  · rw [hm.timer, hn.timer, Nat.add_assoc]
  · rw [hm.trust, hn.count]
  · obtain ⟨rule, hallowed, hfaults, hinto, hturn⟩ := hn.turns jx
    rw [hm.trust]
    exact ⟨rule, hallowed, hfaults, hinto, hturn.widen m⟩

theorem Span.of_iff {reported' : Fin maxVms → Prop} (a : Span live backup reported into h h')
    (hiff : ∀ jx, reported' jx ↔ reported jx) : Span live backup reported' into h h' := by
  rwa [show reported' = reported from funext fun jx => propext (hiff jx)]

/-- A record that rests. -/
theorem rests {t : ℕ → U64} {r : TrustRecord} {live backup : Prop} {jx : Fin maxVms}
    (hinto : into ≠ some jx) : ∃ rule : Rule, rule.Allowed live backup r ∧ (rule.Faults ↔ False) ∧
      (rule.Quarantines ↔ into = some jx) ∧ Turn t n r rule r :=
  ⟨.rest, trivial, Iff.rfl, ⟨False.elim, hinto⟩, .rest⟩

/-- Nothing happens to the records. -/
theorem Calm.span (a : Calm h h') : Span live backup (fun _ => False) none h h' := by
  obtain ⟨n, hn⟩ := a
  refine ⟨n, hn.slots, hn.timer, ?_, fun jx => ?_⟩
  · rw [hn.trust]
    exact (BitVec.add_zero _).symm
  · rw [hn.trust]
    exact rests fun hnone => by cases hnone

theorem into_none {q : Prop} (hq : ¬ q) (jx : Fin maxVms) :
    (none : Option (Fin maxVms)) = some jx ↔ jx = ix ∧ q :=
  ⟨fun hnone => (by cases hnone), fun hboth => absurd hboth.2 hq⟩

theorem into_some {q : Prop} (hq : q) (jx : Fin maxVms) : some ix = some jx ↔ jx = ix ∧ q :=
  ⟨fun hsome => ⟨(Option.some.inj hsome).symm, hq⟩, fun hboth => congrArg some hboth.1.symm⟩

/-- Something happens to one record. -/
theorem span_one (ix : Fin maxVms) (rule : Rule) (hslots : h'.vms.length = h.vms.length)
    (htimer : ∀ k, h'.timer k = h.timer (n + k))
    (hcount : h'.trust.quarantineCount = h.trust.quarantineCount + counted into)
    (hothers : ∀ jx, jx ≠ ix → h'.trust.vm jx = h.trust.vm jx)
    (hallowed : rule.Allowed (live ix) (backup ix) (h.trust.vm ix))
    (hreported : ∀ jx, reported jx ↔ jx = ix ∧ rule.Faults)
    (hinto : ∀ jx, into = some jx ↔ jx = ix ∧ rule.Quarantines)
    (hturn : Turn h.timer n (h.trust.vm ix) rule (h'.trust.vm ix)) :
    Span live backup reported into h h' := by
  refine ⟨n, hslots, htimer, hcount, fun jx => ?_⟩
  rw [hreported jx]
  by_cases hj : jx = ix
  · subst hj
    refine ⟨rule, hallowed, ?_, ?_, hturn⟩
    · exact ⟨fun hf => ⟨rfl, hf⟩, And.right⟩
    · exact ⟨fun hq => (hinto jx).mpr ⟨rfl, hq⟩, fun hi => ((hinto jx).mp hi).2⟩
  · rw [hothers jx hj]
    simp only [hj, false_and]
    exact rests fun hi => hj ((hinto jx).mp hi).1

/-! ### Levels -/

theorem vm_setTrust (h : Hyp) (ix : Fin maxVms) (r : TrustRecord) :
    (h.setTrust ix r).trust.vm ix = r := Function.update_self ..

/-- What `trust_set` leaves, as one state. -/
theorem trustSet_eq (hinit : h.trust.initialized = true) (hix : idx id = some ix) (l : TrustLevel) :
    (trustSet h id l).2 = if (h.trust.vm ix).level = l then h
      else (timerNowUs h).2.setTrust ix (levelled (h.trust.vm ix) l (h.timer 0)) := by
  unfold trustSet
  rw [hix]
  dsimp only
  rw [if_neg (by simp [hinit])]
  by_cases hl : (h.trust.vm ix).level = l
  · rw [if_neg (not_not.mpr hl), if_pos hl]
  · rw [if_pos hl, if_neg hl]
    rfl

/-- One record is written after one reading of the clock. -/
theorem span_written {rule : Rule} {r : TrustRecord}
    (hallowed : rule.Allowed (live ix) (backup ix) (h.trust.vm ix)) (hfaults : ¬ rule.Faults)
    (hq : ¬ rule.Quarantines) (hturn : Turn h.timer 1 (h.trust.vm ix) rule r) :
    Span live backup (fun _ => False) none h ((timerNowUs h).2.setTrust ix r) := by
  refine span_one ix rule (n := 1) rfl (fun k => ?_) (BitVec.add_zero _).symm (fun jx hj => ?_)
    hallowed (fun jx => ⟨False.elim, fun hboth => hfaults hboth.2⟩) (into_none hq) ?_
  · rw [Nat.add_comm]
    rfl
  · exact Function.update_of_ne hj _ _
  · rwa [vm_setTrust]

theorem span_trustSet (hinit : h.trust.initialized = true) (hix : idx id = some ix)
    (hq : l ≠ .quarantine) (hallowed : (h.trust.vm ix).level ≠ l →
      (Rule.moveTo l).Allowed (live ix) (backup ix) (h.trust.vm ix)) :
    Span live backup (fun _ => False) none h (trustSet h id l).2 := by
  rw [trustSet_eq hinit hix]
  split
  · exact (Calm.refl h).span
  · rename_i hl
    exact span_written (hallowed hl) (fun hf => hf) hq (.moveTo l Nat.one_pos hl)

/-- **A revocation.** -/
theorem span_trustRevoke (hinit : h.trust.initialized = true)
    (hlive : ∀ ix i, idx id = some ix → vmById h id = some i → live ix) :
    Span live backup (fun _ => False) none h (trustRevoke h id).2 := by
  unfold trustRevoke
  split
  · exact (Calm.refl h).span
  · exact (Calm.refl h).span
  · rename_i ix i hix hfound
    dsimp only
    have hset : Span live backup (fun _ => False) none h (trustSet h id .revoked).2 :=
      span_trustSet hinit hix (by decide) fun _ => ⟨hlive ix i hix hfound, .inr (.inl rfl)⟩
    split
    · exact hset.calm_right (calm_vmStop _ i)
    · exact hset

/-! ### Failover -/

section Failover

variable [P : PtPool]

/-- **A failover** fails and leaves the records alone, revokes the VM, or
succeeds and degrades it. -/
theorem doFailover_stages (hrun : doFailover h id ix = some (e, h')) :
    e ≠ .ok ∧ (Calm h h' ∨ h' = (trustRevoke h id).2) ∨
    e = .ok ∧ ∃ g, Calm h g ∧ h' = (trustSet g id .degraded).2 := by
  rcases doFailover_inv hrun with ⟨-, rfl, rfl⟩ | ⟨i, -, ⟨-, rfl, rfl⟩ | ⟨-, hend⟩⟩
  · exact .inl ⟨by decide, .inl (.refl _)⟩
  · exact .inl ⟨by decide, .inr rfl⟩
  rcases hend.keeps (R := Calm h) (calm_of_eq rfl rfl rfl) (fun g hg => hg.trans (calm_vmStop g i))
    (fun g hg => hg.trans (calm_restoreImage g _)) (fun hfin hg => hg.trans (calm_vmFinalize hfin))
    (fun g hg => hg.trans (calm_resetEntry g i _)) (fun g hg => hg.trans (calm_vmStart g i)) with
    ⟨herr, hcalm⟩ | hdone
  · exact .inl ⟨herr, .inl hcalm⟩
  · exact .inr hdone

/-- **A failover.** -/
theorem span_doFailover (hinit : h.trust.initialized = true) (hix : idx id = some ix)
    (hlive : live ix) (hbackup : backup ix) (hrun : doFailover h id ix = some (e, h')) :
    Span live backup (fun _ => False) none h h' := by
  rcases doFailover_stages hrun with ⟨-, hcalm | rfl⟩ | ⟨-, g, hcalm, rfl⟩
  · exact hcalm.span
  · refine span_trustRevoke hinit fun jx _ hjx _ => ?_
    obtain rfl := Option.some.inj (hix.symm.trans hjx)
    exact hlive
  · refine Span.calm_left hcalm (span_trustSet (hcalm.initialized hinit) hix (by decide) fun _ => ?_)
    exact ⟨hlive, .inr (.inr ⟨hbackup, rfl⟩)⟩

theorem span_failover (hinit : h.trust.initialized = true)
    (hlive : ∀ ix i, idx id = some ix → vmById h id = some i → live ix)
    (hbackup : ∀ ix, HasBackup h ix → backup ix)
    (hrun : failoverTrigger h id = some (e, h') ∨ failoverOnQuarantine h id = some (e, h')) :
    Span live backup (fun _ => False) none h h' := by
  rcases failover_attempts hrun with rfl | ⟨ix, i, hix, hfound, hhas, hdo⟩
  · exact (Calm.refl _).span
  · exact span_doFailover hinit hix (hlive ix i hix hfound) (hbackup ix hhas) hdo

end Failover

/-! ### Quarantine -/

/-- The state in which `trust_quarantine` hands the VM to failover, if it
takes effect. -/
def quarantineOf (h : Hyp) (vmId : U32) : Option Hyp :=
  (vmById h vmId).bind fun i =>
    if (levelAt h i).rank < TrustLevel.quarantine.rank then some (quarantined h vmId i) else none

/-- The trust table with a VM marked as quarantined, and counted. -/
def marked (t : Trust) (ix : Fin maxVms) (now : U64) : Trust :=
  { t with
    vm := Function.update t.vm ix (levelled (t.vm ix) .quarantine now)
    quarantineCount := t.quarantineCount + 1 }

theorem ne_quarantine (hlow : l.rank < TrustLevel.quarantine.rank) : l ≠ .quarantine := by
  rintro rfl
  exact Nat.lt_irrefl _ hlow

/-- The VM is marked at the next reading. -/
theorem quarantined_marked (hinit : h.trust.initialized = true) (hix : idx id = some ix)
    (hlow : (h.trust.vm ix).level.rank < TrustLevel.quarantine.rank) (i : ℕ) :
    ∃ g, Calm g (quarantined h id i) ∧ g.vms.length = h.vms.length ∧
      (∀ k, g.timer k = h.timer (k + 1)) ∧ g.trust = marked h.trust ix (h.timer 0) := by
  have hne := ne_quarantine hlow
  have hset := trustSet_eq hinit hix .quarantine
  rw [if_neg hne] at hset
  refine ⟨_, calm_suspendRunnable _ i, ?_, ?_, ?_⟩
  · rw [hset]
    rfl
  · rw [hset]
    exact fun _ => rfl
  · rw [hset]
    rfl

/-- **The mark of a quarantine**, before any failover. -/
theorem span_quarantined (hinit : h.trust.initialized = true) (hix : idx id = some ix)
    (hlow : (h.trust.vm ix).level.rank < TrustLevel.quarantine.rank) (hlive : live ix) (i : ℕ) :
    Span live backup (fun _ => False) (some ix) h (quarantined h id i) := by
  obtain ⟨g, hcalm, hslots, htimer, htrust⟩ := quarantined_marked hinit hix hlow i
  have hne := ne_quarantine hlow
  refine Span.calm_right (span_one ix (.moveTo .quarantine) (n := 1) hslots (fun k => ?_) ?_
    (fun jx hj => ?_) ⟨hlive, .inl ⟨hlow, rfl⟩⟩ (fun jx => ⟨False.elim, And.right⟩)
    (into_some rfl) ?_) hcalm
  · rw [htimer, Nat.add_comm]
  · rw [htrust]
    rfl
  · rw [htrust]
    exact Function.update_of_ne hj _ _
  · have hvm : g.trust.vm ix = levelled (h.trust.vm ix) .quarantine (h.timer 0) := by
      rw [htrust]
      exact Function.update_self ..
    rw [hvm]
    exact .moveTo _ Nat.one_pos hne

/-! ### Faults -/

/-- A fault is stamped with the next reading. -/
theorem recordFault_vm (h : Hyp) (ix : Fin maxVms) (faultType : U32) (detail : U64) :
    (recordFault h ix faultType detail).trust.vm =
      Function.update h.trust.vm ix (faulted (h.trust.vm ix) faultType detail (h.timer 0)) := rfl

/-- **A fault is recorded.** -/
theorem span_recordFault (hrule : Rule.fault.Allowed (live ix) (backup ix) (h.trust.vm ix))
    (faultType : U32) (detail : U64) :
    Span live backup (fun jx => jx = ix) none h (recordFault h ix faultType detail) := by
  refine span_one ix .fault (n := 1) rfl (fun k => ?_) (BitVec.add_zero _).symm (fun jx hj => ?_) hrule
    (fun jx => ⟨fun hj => ⟨hj, trivial⟩, And.left⟩)
    (into_none not_false) ?_
  · rw [Nat.add_comm]
    rfl
  · rw [recordFault_vm]
    exact Function.update_of_ne hj _ _
  · rw [recordFault_vm, Function.update_self]
    exact .fault faultType detail Nat.one_pos

/-- A fault that changes the level as well: the state is `g`, two readings
on. -/
theorem span_faultTo {g : Hyp} (l : TrustLevel) (faultType : U32) (detail : U64)
    (hrule : (Rule.faultTo l).Allowed (live ix) (backup ix) (h.trust.vm ix))
    (hl : (h.trust.vm ix).level ≠ l) (hslots : g.vms.length = h.vms.length)
    (htimer : ∀ k, g.timer k = h.timer (2 + k))
    (hcount : g.trust.quarantineCount = h.trust.quarantineCount + counted into)
    (hinto : ∀ jx, into = some jx ↔ jx = ix ∧ l = .quarantine)
    (hvm : g.trust.vm = Function.update h.trust.vm ix
      (levelled (faulted (h.trust.vm ix) faultType detail (h.timer 0)) l (h.timer 1))) :
    Span live backup (fun jx => jx = ix) into h g := by
  refine span_one ix (.faultTo l) (n := 2) hslots htimer hcount (fun jx hj => ?_) hrule
    (fun jx => ⟨fun hj => ⟨hj, trivial⟩, And.left⟩) hinto ?_
  · rw [hvm]
    exact Function.update_of_ne hj _ _
  · rw [hvm, Function.update_self]
    exact .faultTo l faultType detail (Nat.zero_le 1) (by omega) hl

/-- A fault that degrades a trusted VM. -/
theorem span_degrade (hinit : h.trust.initialized = true) (hix : idx id = some ix)
    (htrusted : (h.trust.vm ix).level = .trusted) (hdue : ¬ Due (h.trust.vm ix)) (faultType : U32)
    (detail : U64) : Span live backup (fun jx => jx = ix) none h
      (trustSet (recordFault h ix faultType detail) id .degraded).2 := by
  have hlevel := level_recordFault h ix faultType detail
  have hset := trustSet_eq (h := recordFault h ix faultType detail) hinit hix .degraded
  rw [hlevel, htrusted, if_neg (by decide)] at hset
  rw [hset]
  refine span_faultTo .degraded faultType detail (.inl ⟨hdue, htrusted, rfl⟩)
    (by rw [htrusted]; decide) ?_ (fun k => ?_) ?_ (into_none (by decide)) ?_
  · dsimp only [Hyp.setTrust, timerNowUs, recordFault]
  · rw [Nat.add_comm]
    rfl
  · exact (BitVec.add_zero _).symm
  · change Function.update (recordFault h ix faultType detail).trust.vm ix _ = _
    rw [recordFault_vm, Function.update_self, Function.update_idem]
    rfl

/-- A fault that has the VM quarantined. -/
theorem span_condemn (hinit : h.trust.initialized = true) (hix : idx id = some ix)
    (hdue : Due (h.trust.vm ix)) (hlive : live ix) (faultType : U32) (detail : U64) (i : ℕ) :
    Span live backup (fun jx => jx = ix) (some ix) h (quarantined (recordFault h ix faultType detail) id i) := by
  have hlevel := level_recordFault h ix faultType detail
  have hne := ne_quarantine hdue.2
  obtain ⟨g, hcalm, hslots, htimer, htrust⟩ := quarantined_marked (h := recordFault h ix faultType detail)
    hinit hix (by rw [hlevel]; exact hdue.2) i
  refine Span.calm_right (span_faultTo .quarantine faultType detail (.inr ⟨hlive, hdue, rfl⟩) hne
    hslots (fun k => ?_) ?_ (into_some rfl) ?_) hcalm
  · rw [htimer, Nat.add_comm 2]
    rfl
  · rw [htrust]
    rfl
  · rw [htrust]
    change Function.update (recordFault h ix faultType detail).trust.vm ix _ = _
    rw [recordFault_vm, Function.update_self, Function.update_idem]
    rfl

/-! ### Restoring and promoting -/

/-- A VM whose faults are forgotten when its level changes. -/
theorem trustSet_cleared (l : TrustLevel) (hinit : h.trust.initialized = true)
    (hix : idx id = some ix) (hl : (h.trust.vm ix).level ≠ l) :
    (trustSet (h.setTrust ix (cleared (h.trust.vm ix))) id l).2 =
      (timerNowUs h).2.setTrust ix (levelled (cleared (h.trust.vm ix)) l (h.timer 0)) := by
  have hne : (cleared (h.trust.vm ix)).level ≠ l := hl
  have hset := trustSet_eq (h := h.setTrust ix (cleared (h.trust.vm ix))) hinit hix l
  rw [vm_setTrust, if_neg hne] at hset
  rw [hset]
  unfold Hyp.setTrust timerNowUs
  dsimp only
  rw [Function.update_idem]

theorem span_clearTo (l : TrustLevel) (hinit : h.trust.initialized = true) (hix : idx id = some ix)
    (hl : (h.trust.vm ix).level ≠ l) (hq : l ≠ .quarantine)
    (hrule : (Rule.clearTo l).Allowed (live ix) (backup ix) (h.trust.vm ix)) :
    Span live backup (fun _ => False) none h
      (trustSet (h.setTrust ix (cleared (h.trust.vm ix))) id l).2 := by
  rw [trustSet_cleared l hinit hix hl]
  exact span_written hrule (fun hf => hf) hq (.clearTo l Nat.one_pos hl)

/-- **A restore** clears the count and sets the level. -/
theorem span_trustRestore (hinit : h.trust.initialized = true)
    (hlive : ∀ ix i, idx id = some ix → vmById h id = some i → live ix) :
    Span live backup (fun _ => False) none h (trustRestore h id).2 := by
  unfold trustRestore
  split
  · exact (Calm.refl h).span
  · exact (Calm.refl h).span
  · rename_i ix i hix hfound
    split
    · exact (Calm.refl h).span
    · rename_i hlevel
      have hq := not_not.mp hlevel
      have hset : Span live backup (fun _ => False) none h
          (trustSet (h.setTrust ix (cleared (h.trust.vm ix))) id .degraded).2 :=
        span_clearTo .degraded hinit hix (by rw [hq]; decide) (by decide)
          (.inl ⟨hlive ix i hix hfound, hq, rfl⟩)
      dsimp only
      split
      · exact hset.calm_right (calm_vmResume _ i)
      · exact hset

/-- **What a promotion scan does** to the records: those of degraded VMs
without a fault for the clean period may be promoted. -/
structure Lifts (nowUs : U64) (n : ℕ) (h h' : Hyp) : Prop where
  initialized : h'.trust.initialized = h.trust.initialized
  slots : h'.vms.length = h.vms.length
  timer : ∀ k, h'.timer k = h.timer (n + k)
  count : h'.trust.quarantineCount = h.trust.quarantineCount
  vm : ∀ jx, h'.trust.vm jx = h.trust.vm jx ∨
    (h.trust.vm jx).level = .degraded ∧
    (h.trust.vm jx).lastFaultUs.toNat + trustCleanPeriodUs ≤ nowUs.toNat ∧
    ∃ k < n, h'.trust.vm jx = levelled (cleared (h.trust.vm jx)) .trusted (h.timer k)

theorem Lifts.refl (nowUs : U64) (h : Hyp) : Lifts nowUs 0 h h :=
  ⟨rfl, rfl, fun k => by rw [Nat.zero_add], rfl, fun _ => .inl rfl⟩

theorem Lifts.trans {nowUs : U64} (a : Lifts nowUs n h h') (b : Lifts nowUs m h' h'') :
    Lifts nowUs (n + m) h h'' := by
  refine ⟨b.initialized.trans a.initialized, b.slots.trans a.slots, fun k => ?_,
    b.count.trans a.count, fun jx => ?_⟩
  · rw [b.timer, a.timer, Nat.add_assoc]
  · rcases b.vm jx with hb | ⟨hlevel, hclean, k, hk, hb⟩
    · rw [hb]
      rcases a.vm jx with ha | ⟨hlevel, hclean, k, hk, ha⟩
      · exact .inl ha
      · exact .inr ⟨hlevel, hclean, k, by omega, ha⟩
    · rcases a.vm jx with ha | ⟨-, -, k', -, ha⟩
      · rw [ha] at hlevel hclean hb
        exact .inr ⟨hlevel, hclean, n + k, by omega, by rw [hb, a.timer]⟩
      · -- a VM that has been promoted is not degraded
        rw [ha] at hlevel
        cases hlevel

theorem lifts_promoteOne (hinit : h.trust.initialized = true) (nowUs : U64) (c : U32)
    (ix : Fin maxVms) : ∃ n, Lifts nowUs n h (promoteOne nowUs (c, h) ix).2 := by
  refine promoteOne_keeps (R := fun g => ∃ n, Lifts nowUs n h g) ⟨0, .refl nowUs h⟩
    fun hdeg hle hclean => ⟨1, ?_⟩
  have hix : idx (BitVec.ofNat 32 (ix.val + 1)) = some ix := idx_ofNat ix.isLt
  have hset := trustSet_cleared .trusted hinit hix (by rw [hdeg]; decide)
  have hlift : Lifts nowUs 1 h ((timerNowUs h).2.setTrust ix
      (levelled (cleared (h.trust.vm ix)) .trusted (h.timer 0))) := by
    refine ⟨rfl, rfl, fun k => ?_, rfl, fun jx => ?_⟩
    · rw [Nat.add_comm]
      rfl
    · by_cases hj : jx = ix
      · subst hj
        refine .inr ⟨hdeg, ?_, 0, Nat.one_pos, Function.update_self ..⟩
        have hnat := BitVec.le_def.mp hle
        rw [BitVec.toNat_sub_of_le hle] at hclean
        omega
      · exact .inl (Function.update_of_ne hj _ _)
  exact hset ▸ hlift

/-- **A tick** lifts each VM that has been clean for long enough. -/
theorem lifts_autoPromoteTick (hinit : h.trust.initialized = true) (nowUs : U64) :
    ∃ n, Lifts nowUs n h (trustAutoPromoteTick h nowUs).2 := by
  refine trustAutoPromoteTick_keeps (R := fun g => ∃ n, Lifts nowUs n h g) ⟨0, .refl nowUs h⟩ ?_
  rintro c g ix ⟨n, hn⟩
  obtain ⟨m, hm⟩ := lifts_promoteOne (hn.initialized.trans hinit) nowUs c ix
  exact ⟨n + m, hn.trans hm⟩

theorem Lifts.span {nowUs : U64} (a : Lifts nowUs n h h') :
    Span live backup (fun _ => False) none h h' := by
  refine ⟨n, a.slots, a.timer, a.count.trans (BitVec.add_zero _).symm, fun jx => ?_⟩
  rcases a.vm jx with hsame | ⟨hlevel, -, k, hk, hlift⟩
  · rw [hsame]
    exact rests fun hnone => by cases hnone
  · rw [hlift]
    exact ⟨.clearTo .trusted, .inr ⟨hlevel, rfl⟩, Iff.rfl, by simp [Rule.Quarantines],
      .clearTo _ hk (by rw [hlevel]; decide)⟩

end Spans

end Vse

end HypervisorBase
