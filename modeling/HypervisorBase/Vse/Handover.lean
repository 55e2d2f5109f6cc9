import HypervisorBase.Vse.Record
/-!
# Operations as turns

Every operation of the trust engine, of intrusion detection and of
failover in terms of the rules for a record. An operation that brings
about a quarantine does so in two stretches: up to the state in which
`trust_quarantine` calls `failover_on_quarantine`, which is `handover`,
and from there to its end.
-/

namespace HypervisorBase

namespace Vse

variable {h h' : Hyp} {i : ℕ} {id : U32} {ix : Fin maxVms} {e : Err}

/-! ## The slots -/

/-- A slot that has a VM. -/
def Occupied (h : Hyp) (jx : Fin maxVms) : Prop := jx.val < h.vms.length

instance (h : Hyp) (jx : Fin maxVms) : Decidable (Occupied h jx) :=
  inferInstanceAs (Decidable (jx.val < h.vms.length))

/-- An operation that has a fault of the VM recorded. -/
def Reports (h : Hyp) : TrustOp → Fin maxVms → Prop
  | .reportFault vmId _ _, jx => idx vmId = some jx ∧ (h.trust.vm jx).level ≠ .revoked
  | _, _ => False

theorem occupied_of_vmById (hr : Roster h) (hix : idx id = some ix) (hfound : vmById h id = some i) :
    Occupied h ix := by
  obtain ⟨rfl, hi, vm, hvm⟩ := hr.vmById_eq hfound
  obtain rfl := Option.some.inj (hix.symm.trans (idx_ofNat hi))
  exact (List.getElem?_eq_some_iff.mp hvm).1

/-- In a slot with a VM, the VM is found under the slot's number. -/
theorem vmById_of_occupied (hr : Roster h) (hix : idx id = some ix) (hocc : Occupied h ix) :
    vmById h id = some ix.val := by
  rw [idx_eq_some hix]
  exact hr.vmById_of_vm (List.getElem?_eq_getElem hocc)

/-! ## The handover -/

section Tables

variable [P : PtPool]

instance (h : Hyp) (ix : Fin maxVms) : Decidable (FaultDue h ix) :=
  inferInstanceAs (Decidable (trustThreshQuarantine ≤ ((h.trust.vm ix).faultCount + 1).toNat ∧
    (h.trust.vm ix).level.rank < TrustLevel.quarantine.rank))

instance (h : Hyp) (ix : Fin maxVms) : Decidable (StormNow h ix) :=
  inferInstanceAs (Decidable (h.ids.initialized = true ∧
    ((h.timer 0 - (h.ids.mon ix).windowStartUs).toNat ≤ idsStormWindowUs ∧
      (h.ids.mon ix).windowFaults = idsStormFaults) ∧
    (h.trust.vm ix).level.rank < TrustLevel.quarantine.rank))

/-- **The VM an operation quarantines, and the state** in which
`trust_quarantine` then hands it to failover. -/
def handover (h : Hyp) : TrustOp → Option (U32 × Hyp)
  | .reportFault vmId faultType detail => (idx vmId).bind fun ix =>
    if h.trust.initialized ∧ FaultDue h ix then
      (quarantineOf (recordFault h ix faultType detail) vmId).map fun m => (vmId, m)
    else none
  | .quarantine vmId => (quarantineOf h vmId).map fun m => (vmId, m)
  | .notifyFault vmId faultType detail => (idx vmId).bind fun ix =>
    if StormNow h ix then
      (quarantineOf (stormPoint h vmId ix faultType detail) vmId).map fun m => (vmId, m)
    else none
  | _ => none

theorem quarantineOf_eq (hr : Roster h) (hrun : trustQuarantine h id = some (e, h')) :
    quarantineOf h id = none ∧ h' = h ∨ ∃ i e', vmById h id = some i ∧
      (levelAt h i).rank < TrustLevel.quarantine.rank ∧
      quarantineOf h id = some (quarantined h id i) ∧
      failoverOnQuarantine (quarantined h id i) id = some (e', h') := by
  unfold quarantineOf
  rcases trustQuarantine_cases hr hrun with ⟨hnot, rfl⟩ | ⟨i, e', hfound, hlow, hfail⟩
  · refine .inl ⟨?_, rfl⟩
    cases hfound : vmById h' id with
    | none => rfl
    | some i =>
      rw [Option.bind_some, if_neg (hnot i hfound)]
  · refine .inr ⟨i, e', hfound, hlow, ?_, hfail⟩
    rw [hfound, Option.bind_some, if_pos hlow]

/-- **The second stretch**: what comes after the handover. -/
structure Aftermath (h m h' : Hyp) (id : U32) : Prop where
  standing : Standing m
  backup : ∀ jx, HasBackup m jx → HasBackup h jx
  failover : ∃ e g, failoverOnQuarantine m id = some (e, g) ∧ Calm g h'
  span : Span (Occupied h) (HasBackup h) (fun _ => False) none m h'

/-- A quarantine that takes effect. -/
theorem trustQuarantine_aftermath (hs : Standing h) (hrun : trustQuarantine h id = some (e, h')) :
    quarantineOf h id = none ∧ h' = h ∨
    ∃ ix i, idx id = some ix ∧ Occupied h ix ∧
      (h.trust.vm ix).level.rank < TrustLevel.quarantine.rank ∧
      quarantineOf h id = some (quarantined h id i) ∧ Aftermath h (quarantined h id i) h' id := by
  rcases quarantineOf_eq hs.roster hrun with hnone | ⟨i, e', hfound, hlow, hof, hfail⟩
  · exact .inl hnone
  obtain ⟨rfl, hi, vm, hvm⟩ := hs.roster.vmById_eq hfound
  have hix := idx_ofNat hi
  have hocc := occupied_of_vmById hs.roster hix hfound
  have hsm := hs.of_becomes (quarantined_becomes hs.initialized hi hvm)
  rw [levelAt_fin h ⟨i, hi⟩] at hlow
  have hbackup : ∀ jx, HasBackup (quarantined h (BitVec.ofNat 32 (i + 1)) i) jx → HasBackup h jx := by
    intro jx hhas
    rwa [HasBackup, failover_quarantined] at hhas
  refine .inr ⟨⟨i, hi⟩, i, hix, hocc, hlow, hof, hsm, hbackup, ⟨e', h', hfail, .refl h'⟩, ?_⟩
  refine span_failover hsm.initialized (fun jx _ hjx _ => ?_) hbackup (.inr hfail)
  obtain rfl := Option.some.inj (hix.symm.trans hjx)
  exact hocc

/-- A later end. -/
theorem Aftermath.calm {m g : Hyp} (a : Aftermath h m g id) (hcalm : Calm g h') :
    Aftermath h m h' id := by
  obtain ⟨e, g₀, hfail, hg⟩ := a.failover
  exact ⟨a.standing, a.backup, ⟨e, g₀, hfail, hg.trans hcalm⟩, a.span.calm_right hcalm⟩

/-- An earlier start, with the same slots. -/
theorem Aftermath.of_same {g m : Hyp} (a : Aftermath g m h' id) (hocc : Occupied g = Occupied h)
    (hbackup : HasBackup g = HasBackup h) : Aftermath h m h' id := by
  refine ⟨a.standing, ?_, a.failover, ?_⟩
  · rw [← hbackup]
    exact a.backup
  · rw [← hocc, ← hbackup]
    exact a.span

/-! ## The operations -/

/-- **An operation as turns**: one stretch, or two with a handover in
between. -/
def Spans (h : Hyp) (op : TrustOp) (h' : Hyp) : Prop :=
  handover h op = none ∧ Span (Occupied h) (HasBackup h) (Reports h op) none h h' ∨
  ∃ id ix m, handover h op = some (id, m) ∧ idx id = some ix ∧
    Span (Occupied h) (HasBackup h) (Reports h op) (some ix) h m ∧ Aftermath h m h' id

/-- A fault that does not have the VM quarantined. -/
theorem trustReportFault_low (hinit : h.trust.initialized = true) (hix : idx id = some ix)
    (hrev : (h.trust.vm ix).level ≠ .revoked) (hdue : ¬ FaultDue h ix) (faultType : U32)
    (detail : U64) : trustReportFault h id faultType detail = some (.ok,
      if (h.trust.vm ix).level = .trusted ∧
          trustThreshDegraded ≤ ((h.trust.vm ix).faultCount + 1).toNat
        then (trustSet (recordFault h ix faultType detail) id .degraded).2
        else recordFault h ix faultType detail) := by
  unfold trustReportFault
  rw [hix]
  dsimp only
  rw [if_neg (by simp [hinit]), if_neg hrev, faultCount_recordFault, level_recordFault]
  by_cases hfull : trustThreshQuarantine ≤ ((h.trust.vm ix).faultCount + 1).toNat
  · have hblocked : ¬ (h.trust.vm ix).level.rank < TrustLevel.quarantine.rank :=
      fun hlow => hdue ⟨hfull, hlow⟩
    have huntrusted : (h.trust.vm ix).level ≠ .trusted := fun htrusted => hblocked (by
      rw [htrusted]
      decide)
    rw [if_pos hfull, if_neg hblocked, if_neg fun hboth => huntrusted hboth.1]
  · rw [if_neg hfull]
    by_cases hmany : trustThreshDegraded ≤ ((h.trust.vm ix).faultCount + 1).toNat
    · rw [if_pos hmany]
      by_cases htrusted : (h.trust.vm ix).level = .trusted
      · rw [if_pos htrusted, if_pos ⟨htrusted, hmany⟩]
      · rw [if_neg htrusted, if_neg fun hboth => htrusted hboth.1]
    · rw [if_neg hmany, if_neg fun hboth => hmany hboth.2]

/-- **A report**, as a stretch of the record. -/
theorem spans_reportFault {faultType : U32} {detail : U64} (hs : Standing h)
    (hrun : trustReportFault h id faultType detail = some (e, h')) :
    Spans h (.reportFault id faultType detail) h' := by
  cases hix : idx id with
  | none =>
    obtain rfl : h = h' := by
      rcases trustReportFault_inv hrun with ⟨hsame, -⟩ | ⟨jx, -, hjx, -⟩
      · exact hsame.symm
      · cases hix.symm.trans hjx
    refine .inl ⟨?_, (Calm.refl h).span.of_iff fun jx => ⟨fun hrep => ?_, False.elim⟩⟩
    · rw [handover, hix]
      rfl
    · cases hix.symm.trans hrep.1
  | some ix =>
    have hrec := hs.of_becomes (recordFault_becomes h ix faultType detail)
    have hand : handover h (.reportFault id faultType detail) = if FaultDue h ix then
        (quarantineOf (recordFault h ix faultType detail) id).map fun m => (id, m) else none := by
      rw [handover, hix, Option.bind_some]
      simp only [hs.initialized, true_and]
    by_cases hrev : (h.trust.vm ix).level = .revoked
    · -- the faults of a revoked VM are ignored
      have hdue : ¬ FaultDue h ix := fun hdue => by
        have hlow := hdue.2
        rw [hrev] at hlow
        exact absurd hlow (by decide)
      obtain rfl : h = h' := by
        rcases trustReportFault_inv hrun with ⟨hsame, -⟩ | ⟨jx, -, hjx, hnot, -⟩
        · exact hsame.symm
        · obtain rfl := Option.some.inj (hix.symm.trans hjx)
          exact absurd hrev hnot
      refine .inl ⟨by rw [hand, if_neg hdue], (Calm.refl h).span.of_iff fun jx => ?_⟩
      refine ⟨fun hrep => hrep.2 ?_, False.elim⟩
      obtain rfl := Option.some.inj (hix.symm.trans hrep.1)
      exact hrev
    have hreports : ∀ jx, Reports h (.reportFault id faultType detail) jx ↔ jx = ix := by
      refine fun jx => ⟨fun hrep => Option.some.inj (hrep.1.symm.trans hix), fun hj => ?_⟩
      subst hj
      exact ⟨hix, hrev⟩
    by_cases hdue : FaultDue h ix
    · rw [if_pos hdue] at hand
      rcases trustReportFault_cases hs.initialized hrun with ⟨hnot, -⟩ | ⟨jx, e', hjx, -, hq⟩
      · exact absurd hdue (hnot ix hix)
      obtain rfl := Option.some.inj (hix.symm.trans hjx)
      rcases trustQuarantine_aftermath hrec hq with ⟨hnone, rfl⟩ | ⟨jx, i, hjx, hocc, -, hof, hafter⟩
      · -- a slot without a VM: the fault is all there is
        have hvacant : ¬ Occupied h ix := fun hocc => by
          have hfound := vmById_of_occupied hrec.roster hix hocc
          have hlow := hdue.2
          rw [← level_recordFault h ix faultType detail, ← levelAt_fin] at hlow
          rw [quarantineOf, hfound, Option.bind_some, if_pos hlow] at hnone
          cases hnone
        refine .inl ⟨by rw [hand, hnone]; rfl, (span_recordFault ?_ faultType detail).of_iff hreports⟩
        exact ⟨hrev, fun hocc => absurd hocc hvacant, fun _ _ => hdue⟩
      · obtain rfl := Option.some.inj (hix.symm.trans hjx)
        refine .inr ⟨id, ix, _, by rw [hand, hof]; rfl, hix, ?_, hafter.of_same rfl rfl⟩
        exact (span_condemn hs.initialized hix hdue hocc faultType detail i).of_iff hreports
    · rw [if_neg hdue] at hand
      refine .inl ⟨hand, ?_⟩
      rw [trustReportFault_low hs.initialized hix hrev hdue] at hrun
      obtain ⟨-, rfl⟩ := Prod.mk.inj (Option.some.inj hrun)
      split
      · rename_i hboth
        exact (span_degrade hs.initialized hix hboth.1 hdue faultType detail).of_iff hreports
      · rename_i hnot
        refine (span_recordFault ?_ faultType detail).of_iff hreports
        exact ⟨hrev, fun _ => hdue, fun htrusted hmany => absurd ⟨htrusted, hmany⟩ hnot⟩

/-- **A quarantine**, with the handover it brings. -/
theorem spans_quarantine (hs : Standing h) (hrun : trustQuarantine h id = some (e, h')) :
    Spans h (.quarantine id) h' := by
  rcases trustQuarantine_aftermath hs hrun with ⟨hnone, rfl⟩ | ⟨ix, i, hix, hocc, hlow, hof, hafter⟩
  · exact .inl ⟨by rw [handover, hnone]; rfl, (Calm.refl _).span⟩
  · exact .inr ⟨id, ix, _, by rw [handover, hof]; rfl, hix,
      span_quarantined hs.initialized hix hlow hocc i, hafter⟩

/-- **A notification**, with its enforcement. -/
theorem spans_notifyFault {faultType : U32} {detail : U64} (hs : Standing h)
    (hrun : idsNotifyFault h id faultType detail = some h') :
    Spans h (.notifyFault id faultType detail) h' := by
  rcases idsNotifyFault_cases hs.initialized hrun with
    ⟨hnot, hquiet⟩ | ⟨ix, p, g, e, hix, hnow, hp, hbefore, hq, hafter⟩
  · refine .inl ⟨?_, hquiet.calm.span⟩
    rw [handover]
    cases hix : idx id with
    | none => rfl
    | some ix => rw [Option.bind_some, if_neg (hnot ix hix)]
  have hand : handover h (.notifyFault id faultType detail) =
      (quarantineOf p id).map fun m => (id, m) := by
    rw [handover, hix, Option.bind_some, if_pos hnow, hp]
  have honly := hbefore.only
  have hcalm := hafter.calm
  have hocc : Occupied p = Occupied h := honly.eq Occupied fun _ _ _ _ _ => rfl
  have hbackup : HasBackup p = HasBackup h := honly.eq HasBackup fun _ _ _ _ _ => rfl
  have hsp := hs.of_onlyVse honly
  rcases trustQuarantine_aftermath hsp hq with ⟨hnone, rfl⟩ | ⟨jx, i, hjx, hlive, hlow, hof, hafter⟩
  · exact .inl ⟨by rw [hand, hnone]; rfl, (hbefore.calm.trans hcalm).span⟩
  · refine .inr ⟨id, jx, _, by rw [hand, hof]; rfl, hjx, ?_, (hafter.calm hcalm).of_same hocc hbackup⟩
    rw [hocc] at hlive
    exact Span.calm_left hbefore.calm (span_quarantined hsp.initialized hjx hlow hlive i)

omit P in
/-- A poll promotes as a tick of its own first reading does. -/
theorem lifts_idsPoll (hinit : h.trust.initialized = true) :
    Calm h (idsPoll h).2 ∨ ∃ g g' n, Calm h g ∧ Lifts (h.timer 0) n g g' ∧ Calm g' (idsPoll h).2 := by
  unfold idsPoll
  split
  · exact .inl (.refl h)
  have hread : Calm h (timerNowUs h).2 := ⟨1, reads_one rfl rfl fun _ => rfl⟩
  have hpoll := calm_foldl_pollOne (List.finRange maxVms) (0, (timerNowUs h).2)
  obtain ⟨⟨n, g⟩, hfold⟩ : ∃ st, (List.finRange maxVms).foldl pollOne (0, (timerNowUs h).2) = st :=
    ⟨_, rfl⟩
  dsimp only
  rw [hfold] at hpoll ⊢
  have hg : Calm h g := hread.trans hpoll
  obtain ⟨m, hlifts⟩ := lifts_autoPromoteTick (hg.initialized hinit) (timerNowUs h).1
  exact .inr ⟨g, _, m, hg, hlifts, 1, reads_one rfl rfl fun _ => rfl⟩

/-- **Every operation is turns.** -/
theorem trustStep_spans {op : TrustOp} (hs : Standing h) (hrun : trustStep h op = some h') :
    Spans h op h' := by
  have hlive : ∀ {id : U32}, ∀ ix i, idx id = some ix → vmById h id = some i → Occupied h ix :=
    fun ix i hix hfound => occupied_of_vmById hs.roster hix hfound
  cases trustStep_effect hrun with
  | reportFault hcall => exact spans_reportFault hs hcall
  | quarantine hcall => exact spans_quarantine hs hcall
  | revoke vmId => exact .inl ⟨rfl, span_trustRevoke hs.initialized hlive⟩
  | restore vmId => exact .inl ⟨rfl, span_trustRestore hs.initialized hlive⟩
  | autoPromoteTick nowUs =>
    obtain ⟨n, hlifts⟩ := lifts_autoPromoteTick hs.initialized nowUs
    exact .inl ⟨rfl, hlifts.span⟩
  | notifyFault hcall => exact spans_notifyFault hs hcall
  | poll =>
    refine .inl ⟨rfl, ?_⟩
    rcases lifts_idsPoll hs.initialized with hcalm | ⟨g, g', n, hbefore, hlifts, hafter⟩
    · exact hcalm.span
    · exact (Span.calm_left hbefore hlifts.span).calm_right hafter
  | failoverRegister vmId backupPa livePa backupSize entryIpa =>
    exact .inl ⟨rfl, (calm_failoverRegister ..).span⟩
  | failoverTrigger hcall =>
    exact .inl ⟨rfl, span_failover hs.initialized hlive (fun _ hb => hb) (.inl hcall)⟩
  | failoverOnQuarantine hcall =>
    exact .inl ⟨rfl, span_failover hs.initialized hlive (fun _ hb => hb) (.inr hcall)⟩
  | hvcStop vmId => exact .inl ⟨rfl, (calm_onVm calm_vmStop h vmId).span⟩
  | hvcSuspend vmId => exact .inl ⟨rfl, (calm_onVm calm_vmSuspend h vmId).span⟩
  | hvcResume vmId => exact .inl ⟨rfl, (calm_onVm calm_vmResume h vmId).span⟩

end Tables

end Vse

end HypervisorBase
