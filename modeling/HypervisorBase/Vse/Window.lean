import HypervisorBase.Stage2.Queries
import HypervisorBase.Vse.Handover
/-!
# The window after a recovery

`trust_restore` and a failover both bring a VM back to `TRUST_DEGRADED`.
The first one clears the fault count, so that the VM has all of
`TRUST_THRESH_QUARANTINE` faults before the count has it quarantined
again. A failover leaves the count as it is, and the VM that was
quarantined for it is quarantined again by the next fault.
`window_fresh_iff` says which counts give a fresh window.
-/

namespace HypervisorBase

namespace Vse

/-! ## Recoveries -/

/-- The report of a fault of the VM. -/
def reportsOn (ix : Fin maxVms) : TrustOp → Bool
  | .reportFault vmId _ _ => idx vmId = some ix
  | _ => false

section Tables

variable [P : PtPool]

/-- **The VM has been brought back** to `TRUST_DEGRADED`: restored, or
restarted by a failover that was asked for or that followed a
quarantine. -/
def BroughtBack (h : Hyp) (op : TrustOp) (vmId : U32) : Prop :=
  op = .restore vmId ∧ (trustRestore h vmId).1 = .ok ∨
  op = .failoverTrigger vmId ∧ (∃ g, failoverTrigger h vmId = some (.ok, g)) ∨
  op = .failoverOnQuarantine vmId ∧ (∃ g, failoverOnQuarantine h vmId = some (.ok, g)) ∨
  ∃ m g, handover h op = some (vmId, m) ∧ failoverOnQuarantine m vmId = some (.ok, g)

/-- **A fresh window**: whatever happens next, the fault count alone has
the VM quarantined only when `TRUST_THRESH_QUARANTINE` more faults have
been reported, the one that does it included. -/
def FreshWindow (ix : Fin maxVms) (h : Hyp) : Prop :=
  ∀ ops h', exec trustStep h ops = some h' → FaultDue h' ix →
    trustThreshQuarantine ≤ ops.countP (reportsOn ix) + 1

variable {h h' : Hyp} {id : U32} {ix : Fin maxVms} {op : TrustOp} {ops : List TrustOp}

omit P in
/-- A restore that succeeds clears the count. -/
theorem trustRestore_ok (hinit : h.trust.initialized = true) (hix : idx id = some ix)
    (hok : (trustRestore h id).1 = .ok) :
    ((trustRestore h id).2.trust.vm ix).level = .degraded ∧
      ((trustRestore h id).2.trust.vm ix).faultCount = 0 := by
  unfold trustRestore at hok ⊢
  rw [hix] at hok ⊢
  cases hfound : vmById h id with
  | none =>
    rw [hfound] at hok
    cases hok
  | some i =>
    rw [hfound] at hok
    dsimp only at hok ⊢
    by_cases hq : (h.trust.vm ix).level = .quarantine
    swap
    · rw [if_pos hq] at hok
      cases hok
    rw [if_neg (not_not.mpr hq)]
    have hset := trustSet_cleared .degraded hinit hix (by rw [hq]; decide)
    have hdone : ∀ g, Calm (trustSet (h.setTrust ix (cleared (h.trust.vm ix))) id .degraded).2 g →
        (g.trust.vm ix).level = .degraded ∧ (g.trust.vm ix).faultCount = 0 := by
      intro g hg
      rw [hg.trust, hset, vm_setTrust]
      exact ⟨rfl, rfl⟩
    split
    · exact hdone _ (calm_vmResume _ i)
    · exact hdone _ (.refl _)

/-- A failover that succeeds leaves the count as it is. -/
theorem doFailover_ok (hinit : h.trust.initialized = true) (hix : idx id = some ix)
    (hrun : doFailover h id ix = some (.ok, h')) : (h'.trust.vm ix).level = .degraded ∧
      (h'.trust.vm ix).faultCount = (h.trust.vm ix).faultCount := by
  rcases doFailover_stages hrun with ⟨herr, -⟩ | ⟨-, g, hcalm, rfl⟩
  · exact absurd rfl herr
  · rw [trustSet_eq (hcalm.initialized hinit) hix, ← hcalm.trust]
    split
    · exact ⟨‹_›, rfl⟩
    · rw [vm_setTrust]
      exact ⟨rfl, rfl⟩

/-- Where either call succeeds, a failover has. -/
theorem doFailover_of_ok (hix : idx id = some ix)
    (hrun : failoverTrigger h id = some (.ok, h') ∨ failoverOnQuarantine h id = some (.ok, h')) :
    doFailover h id ix = some (.ok, h') := by
  rcases hrun with hrun | hrun
  · unfold failoverTrigger at hrun
    rw [hix] at hrun
    dsimp only at hrun
    split at hrun
    · cases hrun
    · split at hrun
      · cases hrun
      · exact hrun
  · unfold failoverOnQuarantine at hrun
    rw [hix] at hrun
    dsimp only at hrun
    split at hrun
    · cases hrun
    · split at hrun
      · cases hrun
      · exact hrun

/-- **The faults that a recovery leaves in the count**, told from the state
before it: the fault whose report brought about the failover is one of
them. -/
def countLeft (h : Hyp) (ix : Fin maxVms) : TrustOp → U32
  | .restore _ => 0
  | .reportFault _ _ _ => (h.trust.vm ix).faultCount + 1
  | _ => (h.trust.vm ix).faultCount

omit P in
theorem faultCount_quarantineOf {m : Hyp} (hinit : h.trust.initialized = true)
    (hix : idx id = some ix) (hq : quarantineOf h id = some m) :
    (m.trust.vm ix).faultCount = (h.trust.vm ix).faultCount := by
  obtain ⟨i, -, hq⟩ := Option.bind_eq_some_iff.mp hq
  split at hq
  · obtain rfl := Option.some.inj hq
    rw [quarantined, (calm_suspendRunnable _ i).trust, trustSet_eq hinit hix]
    dsimp only
    split
    · rfl
    · rw [vm_setTrust]
      rfl
  · cases hq

omit P in
/-- The count of a VM that is handed to failover. -/
theorem faultCount_handover {m : Hyp} (hinit : h.trust.initialized = true) (hix : idx id = some ix)
    (hand : handover h op = some (id, m)) : (m.trust.vm ix).faultCount = countLeft h ix op := by
  cases op with
  | reportFault vmId faultType detail =>
    obtain ⟨jx, hjx, hand⟩ := Option.bind_eq_some_iff.mp hand
    split at hand
    · obtain ⟨m', hq, heq⟩ := Option.map_eq_some_iff.mp hand
      cases heq
      obtain rfl := Option.some.inj (hix.symm.trans hjx)
      have hrecord : (recordFault h ix faultType detail).trust.initialized = true := hinit
      rw [faultCount_quarantineOf hrecord hix hq, faultCount_recordFault]
      rfl
    · cases hand
  | quarantine vmId =>
    obtain ⟨m', hq, heq⟩ := Option.map_eq_some_iff.mp hand
    cases heq
    exact faultCount_quarantineOf hinit hix hq
  | notifyFault vmId faultType detail =>
    obtain ⟨jx, hjx, hand⟩ := Option.bind_eq_some_iff.mp hand
    split at hand
    · obtain ⟨m', hq, heq⟩ := Option.map_eq_some_iff.mp hand
      cases heq
      have hsilent := silent_stormPoint h id jx faultType detail
      rw [faultCount_quarantineOf (hsilent.only.initialized.trans hinit) hix hq, hsilent.trust]
      rfl
    · cases hand
  | _ => cases hand

/-- A VM that has been brought back is degraded, with what the recovery
leaves in its count. -/
theorem BroughtBack.degraded (hs : Standing h) (hix : idx id = some ix)
    (hback : BroughtBack h op id) (hrun : trustStep h op = some h') :
    (h'.trust.vm ix).level = .degraded ∧ (h'.trust.vm ix).faultCount = countLeft h ix op := by
  rcases hback with ⟨rfl, hok⟩ | ⟨rfl, g, hok⟩ | ⟨rfl, g, hok⟩ | ⟨m, g, hand, hok⟩
  · obtain rfl := Option.some.inj hrun
    exact trustRestore_ok hs.initialized hix hok
  · rw [trustStep, hok] at hrun
    obtain rfl := Option.some.inj hrun
    exact doFailover_ok hs.initialized hix (doFailover_of_ok hix (.inl hok))
  · rw [trustStep, hok] at hrun
    obtain rfl := Option.some.inj hrun
    exact doFailover_ok hs.initialized hix (doFailover_of_ok hix (.inr hok))
  · rcases trustStep_spans hs hrun with ⟨hnone, -⟩ | ⟨id', ix', m', hand', -, -, hafter⟩
    · rw [hnone] at hand
      cases hand
    · obtain ⟨rfl, rfl⟩ := Prod.mk.inj (Option.some.inj (hand.symm.trans hand'))
      obtain ⟨e, g', hfail, hcalm⟩ := hafter.failover
      rw [hok] at hfail
      obtain ⟨-, rfl⟩ := Prod.mk.inj (Option.some.inj hfail)
      rw [hcalm.trust, ← faultCount_handover hs.initialized hix hand]
      exact doFailover_ok hafter.standing.initialized hix (doFailover_of_ok hix (.inr hok))

/-! ## The count -/

omit P in
theorem Turn.faultCount {t : ℕ → U64} {n : ℕ} {r r' : TrustRecord} {rule : Rule}
    (a : Turn t n r rule r') : rule.Faults ∧ r'.faultCount = r.faultCount + 1 ∨
      ¬ rule.Faults ∧ (r'.faultCount = r.faultCount ∨ r'.faultCount = 0) := by
  cases a with
  | rest => exact .inr ⟨id, .inl rfl⟩
  | fault => exact .inl ⟨trivial, rfl⟩
  | faultTo => exact .inl ⟨trivial, rfl⟩
  | moveTo => exact .inr ⟨id, .inl rfl⟩
  | clearTo => exact .inr ⟨id, .inr rfl⟩

/-- **Only a fault report raises the count.** -/
theorem trustStep_faultCount (hs : Standing h) (hrun : trustStep h op = some h') (ix : Fin maxVms) :
    (h'.trust.vm ix).faultCount = (h.trust.vm ix).faultCount ∨ (h'.trust.vm ix).faultCount = 0 ∨
    reportsOn ix op = true ∧ (h'.trust.vm ix).faultCount = (h.trust.vm ix).faultCount + 1 := by
  have hfirst : ∀ {into g}, Span (Occupied h) (HasBackup h) (Reports h op) into h g →
      (g.trust.vm ix).faultCount = (h.trust.vm ix).faultCount ∨ (g.trust.vm ix).faultCount = 0 ∨
      reportsOn ix op = true ∧ (g.trust.vm ix).faultCount = (h.trust.vm ix).faultCount + 1 := by
    rintro into g ⟨n, hn⟩
    obtain ⟨rule, -, hfaults, -, hturn⟩ := hn.turns ix
    rcases hturn.faultCount with ⟨hf, hcount⟩ | ⟨-, hsame | hzero⟩
    · have hrep := hfaults.mp hf
      cases op with
      | reportFault vmId faultType detail => exact .inr (.inr ⟨decide_eq_true hrep.1, hcount⟩)
      | _ => exact False.elim hrep
    · exact .inl hsame
    · exact .inr (.inl hzero)
  rcases trustStep_spans hs hrun with ⟨-, hn⟩ | ⟨id, ix', m, -, -, hn, hafter⟩
  · exact hfirst hn
  · obtain ⟨n', hn'⟩ := hafter.span
    obtain ⟨rule', -, hfaults', -, hturn'⟩ := hn'.turns ix
    rcases hturn'.faultCount with ⟨hf, -⟩ | ⟨-, hsame' | hzero⟩
    · exact (hfaults'.mp hf).elim
    · rw [hsame']
      exact hfirst hn
    · exact .inr (.inl hzero)

/-- The count is at most a number, or about to wrap. -/
def CountWithin (ix : Fin maxVms) (n : ℕ) (h : Hyp) : Prop :=
  (h.trust.vm ix).faultCount.toNat ≤ n ∨ (h.trust.vm ix).faultCount.toNat = 2 ^ 32 - 1

/-- **One operation** adds at most its own report. -/
theorem CountWithin.step {n : ℕ} (hcount : CountWithin ix n h) (hs : Standing h)
    (hrun : trustStep h op = some h') :
    CountWithin ix (n + if reportsOn ix op then 1 else 0) h' := by
  unfold CountWithin at hcount ⊢
  rcases trustStep_faultCount hs hrun ix with hsame | hzero | ⟨hrep, hmore⟩
  · rw [hsame]
    rcases hcount with hle | hmax
    · exact .inl (by omega)
    · exact .inr hmax
  · rw [hzero]
    exact .inl (Nat.zero_le _)
  · rw [if_pos hrep, hmore, BitVec.toNat_add]
    have hone : (1 : U32).toNat = 1 := rfl
    rcases hcount with hle | hmax <;> omega

/-- **Over a run** the count is at most the number of reports. -/
theorem CountWithin.run {n : ℕ} (hcount : CountWithin ix n h) (hs : Standing h)
    (hrun : exec trustStep h ops = some h') :
    CountWithin ix (n + ops.countP (reportsOn ix)) h' := by
  induction ops generalizing h n with
  | nil =>
    obtain rfl := Option.some.inj hrun
    exact hcount
  | cons op ops ih =>
    obtain ⟨g, hstep, hrest⟩ := Option.bind_eq_some_iff.mp hrun
    have hnext := ih (hcount.step hs hstep) (trustStep_standing hs hstep) hrest
    rw [List.countP_cons, Nat.add_comm (ops.countP _), ← Nat.add_assoc]
    exact hnext

/-- A count of nothing gives a fresh window. -/
theorem CountWithin.fresh (hcount : CountWithin ix 0 h) (hs : Standing h) : FreshWindow ix h := by
  intro ops h' hrun hdue
  have hfull := hdue.1
  rw [CountDue, BitVec.toNat_add] at hfull
  have hone : (1 : U32).toNat = 1 := rfl
  have hthresh : trustThreshQuarantine = 15 := rfl
  rcases hcount.run hs hrun with hle | hmax <;> omega

/-! ## A window that is not fresh -/

/-- The report of a fault that a degraded VM survives. -/
theorem trustStep_report (hs : Standing h) (hix : idx id = some ix)
    (hlevel : (h.trust.vm ix).level = .degraded) (hdue : ¬ FaultDue h ix) :
    trustStep h (.reportFault id 0 0) = some (recordFault h ix 0 0) := by
  have hlow := trustReportFault_low hs.initialized hix (by rw [hlevel]; decide) hdue 0 0
  rw [if_neg fun hboth => by rw [hlevel] at hboth; exact absurd hboth.1 (by decide)] at hlow
  rw [trustStep, hlow]
  rfl

/-- Reports of faults fill the count of a degraded VM. -/
theorem exec_reports {n : ℕ} (hs : Standing h) (hix : idx id = some ix)
    (hlevel : (h.trust.vm ix).level = .degraded)
    (hroom : (h.trust.vm ix).faultCount.toNat + n < trustThreshQuarantine) :
    ∃ h', exec trustStep h (List.replicate n (.reportFault id 0 0)) = some h' ∧
      (h'.trust.vm ix).level = .degraded ∧
      (h'.trust.vm ix).faultCount.toNat = (h.trust.vm ix).faultCount.toNat + n := by
  have hthresh : trustThreshQuarantine = 15 := rfl
  have hone : (1 : U32).toNat = 1 := rfl
  induction n generalizing h with
  | zero => exact ⟨h, rfl, hlevel, rfl⟩
  | succ n ih =>
    have hdue : ¬ FaultDue h ix := by
      intro hdue
      have hfull := hdue.1
      rw [CountDue, BitVec.toNat_add] at hfull
      omega
    have hstep := trustStep_report hs hix hlevel hdue
    have hcount := faultCount_recordFault h ix 0 0
    have hnext : ((recordFault h ix 0 0).trust.vm ix).faultCount.toNat =
        (h.trust.vm ix).faultCount.toNat + 1 := by
      rw [hcount, BitVec.toNat_add]
      omega
    obtain ⟨h', hrun, hdeg, hfinal⟩ := ih (trustStep_standing hs hstep)
      ((level_recordFault h ix 0 0).trans hlevel) (by omega)
    refine ⟨h', ?_, hdeg, by omega⟩
    rw [List.replicate_succ, exec_cons, hstep]
    exact hrun

/-- The fault count of a degraded VM shortens its window. -/
theorem not_fresh (hs : Standing h) (hix : idx id = some ix)
    (hlevel : (h.trust.vm ix).level = .degraded) (hpos : (h.trust.vm ix).faultCount.toNat ≠ 0)
    (hmax : (h.trust.vm ix).faultCount.toNat ≠ 2 ^ 32 - 1) : ¬ FreshWindow ix h := by
  intro hfresh
  have hthresh : trustThreshQuarantine = 15 := rfl
  have hone : (1 : U32).toNat = 1 := rfl
  have hlt := (h.trust.vm ix).faultCount.isLt
  have hlow : TrustLevel.degraded.rank < TrustLevel.quarantine.rank := by decide
  by_cases hfull : trustThreshQuarantine ≤ (h.trust.vm ix).faultCount.toNat
  · -- the next fault has it quarantined
    have hdue : FaultDue h ix := by
      refine ⟨?_, by rw [hlevel]; exact hlow⟩
      rw [CountDue, BitVec.toNat_add]
      omega
    have hfew := hfresh [] h rfl hdue
    rw [List.countP_nil] at hfew
    omega
  · -- so do the faults that are left of the old window
    obtain ⟨h', hrun, hdeg, hcount⟩ := exec_reports (n := 14 - (h.trust.vm ix).faultCount.toNat) hs
      hix hlevel (by omega)
    have hdue : FaultDue h' ix := by
      refine ⟨?_, by rw [hdeg]; exact hlow⟩
      rw [CountDue, BitVec.toNat_add]
      omega
    have hfew := hfresh _ h' hrun hdue
    have hreport : reportsOn ix (.reportFault id 0 0) = true := decide_eq_true hix
    rw [List.countP_replicate, if_pos hreport] at hfew
    omega

/-! ## Fresh windows -/

/-- **Which recoveries give a fresh window.** A restored VM always has
one. In general a VM that has been brought back has one if and only if no
faults are left in its count, or the count is about to wrap; a failover
leaves the faults that were in it before, and the one that brought it
about. -/
theorem window_fresh_iff (hs : Standing h) (hix : idx id = some ix) (hback : BroughtBack h op id)
    (hrun : trustStep h op = some h') :
    (op = .restore id → FreshWindow ix h') ∧
    (FreshWindow ix h' ↔ (countLeft h ix op).toNat = 0 ∨
      (countLeft h ix op).toNat = 2 ^ 32 - 1) := by
  have hs' := trustStep_standing hs hrun
  obtain ⟨hlevel, hcount⟩ := hback.degraded hs hix hrun
  rw [← hcount]
  have hfresh : (h'.trust.vm ix).faultCount.toNat = 0 ∨
      (h'.trust.vm ix).faultCount.toNat = 2 ^ 32 - 1 → FreshWindow ix h' := by
    rintro (hzero | hmax)
    · exact CountWithin.fresh (.inl (Nat.le_of_eq hzero)) hs'
    · exact CountWithin.fresh (.inr hmax) hs'
  refine ⟨?_, fun hwindow => ?_, hfresh⟩
  · rintro rfl
    exact hfresh (.inl (congrArg BitVec.toNat hcount))
  · by_contra hneither
    rw [not_or] at hneither
    exact not_fresh hs' hix hlevel hneither.1 hneither.2 hwindow

end Tables

/-- The lone RTOS is quarantined and restored. -/
theorem window_fresh_restored :
    letI := Stage2.poolAt2M
    ∃ g h', exec trustStep loneRtos [.quarantine 1] = some g ∧ BroughtBack g (.restore 1) 1 ∧
      trustStep g (.restore 1) = some h' ∧ FreshWindow ⟨0, by decide⟩ h' := by
  let _ := Stage2.poolAt2M
  have hs : Standing loneRtos := standing_of_one rfl rfl (by decide) rfl
  have hix : idx 1 = some (⟨0, by decide⟩ : Fin maxVms) := rfl
  obtain ⟨g, hrun, hok⟩ : ∃ g, exec trustStep loneRtos [.quarantine 1] = some g ∧
      (trustRestore g 1).1 = .ok := ⟨_, rfl, rfl⟩
  have hback : BroughtBack g (.restore 1) 1 := .inl ⟨rfl, hok⟩
  exact ⟨g, _, hrun, hback, rfl,
    (window_fresh_iff (exec_standing hs hrun) hix hback rfl).1 rfl⟩

/-- The lone RTOS has a backup. Fifteen faults have it quarantined, and a
failover brings it back. One more fault is enough now. -/
theorem window_not_fresh_failover :
    letI := Stage2.poolAt2M
    ∃ h, failoverRegister loneRtos 1 0x50000000 0 0x1000 0 = (.ok, h) ∧
      ∃ g h', exec trustStep h (List.replicate 14 (.reportFault 1 1 0)) = some g ∧
        BroughtBack g (.reportFault 1 1 0) 1 ∧ trustStep g (.reportFault 1 1 0) = some h' ∧
        levelAt h' 0 = .degraded ∧ FaultDue h' ⟨0, by decide⟩ ∧
        ¬ FreshWindow ⟨0, by decide⟩ h' := by
  let _ := Stage2.poolAt2M
  obtain ⟨h, hreg, g, hrun, h', m, hand, hfail, hstep, hlevel, hdue⟩ : ∃ h,
      failoverRegister loneRtos 1 0x50000000 0 0x1000 0 = (.ok, h) ∧
      ∃ g, exec trustStep h (List.replicate 14 (.reportFault 1 1 0)) = some g ∧
      ∃ h' m, handover g (.reportFault 1 1 0) = some (1, m) ∧
        failoverOnQuarantine m 1 = some (.ok, h') ∧ trustStep g (.reportFault 1 1 0) = some h' ∧
        levelAt h' 0 = .degraded ∧ FaultDue h' ⟨0, by decide⟩ :=
    ⟨_, rfl, _, rfl, _, _, rfl, rfl, rfl, rfl, by decide⟩
  refine ⟨h, hreg, g, h', hrun, .inr (.inr (.inr ⟨m, h', hand, hfail⟩)), hstep, hlevel, hdue, ?_⟩
  intro hfresh
  exact absurd (hfresh [] h' rfl hdue) (by decide)

end Vse

end HypervisorBase
