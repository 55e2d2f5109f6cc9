import HypervisorBase.Vse.Bookkeeping
import HypervisorBase.Vse.Enforcement
/-!
# What the operations can do

Fault reports, quarantine, intrusion detection and failover call each
other. Here each of them is taken apart once: either it keeps books, or it
comes to a quarantine that takes effect, or it comes to a failover.
-/

namespace HypervisorBase

namespace Vse

variable {h h' h'' : Hyp} {i : ℕ} {id : U32} {ix : Fin maxVms} {e : Err}

theorem OnlyVse.steady (a : OnlyVse h h') : Steady h h' := by
  have hvms : h'.vms = h.vms := a.eq Hyp.vms fun _ _ _ _ _ => rfl
  exact ⟨a.eq Hyp.power fun _ _ _ _ _ => rfl, a.eq Hyp.failover fun _ _ _ _ _ => rfl,
    fun j => by rw [hvms]⟩

theorem OnlyVse.vcpusAt (a : OnlyVse h h') (i : ℕ) : vcpusAt h' i = vcpusAt h i :=
  a.eq (fun g => HypervisorBase.vcpusAt g i) fun _ _ _ _ _ => rfl

theorem OnlyVse.stateAt (a : OnlyVse h h') (i : ℕ) : stateAt h' i = stateAt h i :=
  a.eq (fun g => HypervisorBase.stateAt g i) fun _ _ _ _ _ => rfl

/-! ## Restoring -/

/-- **A restoration** degrades a quarantined VM and resumes it if it is
suspended. -/
theorem trustRestore_cases (hr : Roster h) (hinit : h.trust.initialized = true) (id : U32) :
    (trustRestore h id).2 = h ∨ ∃ i g, vmById h id = some i ∧ levelAt h i = .quarantine ∧
      OnlyVse h g ∧ Becomes i h g .degraded (stateAt h i) ∧
      (trustRestore h id).2 = if stateAt h i = some .suspended then (vmResume g i).2 else g := by
  unfold trustRestore
  split
  · exact .inl rfl
  · exact .inl rfl
  · rename_i ix i hix hfound
    split
    · exact .inl rfl
    · rename_i hlevel
      obtain ⟨rfl, hi, -⟩ := hr.vmById_eq hfound
      obtain rfl : ix = ⟨i, hi⟩ := Option.some.inj (hix.symm.trans (idx_ofNat hi))
      obtain ⟨g₁, hg₁⟩ : ∃ g₁, g₁ = h.setTrust ⟨i, hi⟩
        { h.trust.vm ⟨i, hi⟩ with faultCount := 0 } := ⟨_, rfl⟩
      have hclear : Becomes i h g₁ (h.trust.vm ⟨i, hi⟩).level (stateAt h i) := by
        rw [hg₁]
        exact becomes_setTrust ⟨i, hi⟩ _ (.refl h)
      have honly : OnlyVse h g₁ := by rw [hg₁]; exact ⟨rfl, rfl⟩
      have hset := trustSet_becomes (hclear.touches.initialized.trans hinit) hi .degraded
      rw [hclear.state] at hset
      refine .inr ⟨i, (trustSet g₁ (BitVec.ofNat 32 (i + 1)) .degraded).2, hfound, ?_,
        honly.trans (onlyVse_trustSet ..), hclear.trans hset, ?_⟩
      · rw [levelAt_fin h ⟨i, hi⟩]
        exact not_not.mp hlevel
      · rw [hg₁, ← hset.state, hg₁]
        rfl

/-! ## Quarantine and failover -/

section Tables

variable [P : PtPool]

/-- **A quarantine takes effect** on a VM that is not blocked yet; what it
then hands to failover is `quarantined`. -/
theorem trustQuarantine_cases (hr : Roster h) (hrun : trustQuarantine h id = some (e, h')) :
    (∀ i, vmById h id = some i → ¬ (levelAt h i).rank < TrustLevel.quarantine.rank) ∧ h' = h ∨
    ∃ i e', vmById h id = some i ∧ (levelAt h i).rank < TrustLevel.quarantine.rank ∧
      failoverOnQuarantine (quarantined h id i) id = some (e', h') := by
  rcases trustQuarantine_inv hrun with ⟨rfl, hblocked⟩ | ⟨ix, i, g, e', hix, hfound, hlow, rfl, hfail⟩
  · refine .inl ⟨fun i hfound => ?_, rfl⟩
    obtain ⟨rfl, hi, -⟩ := hr.vmById_eq hfound
    exact Nat.not_lt.mpr (levelAt_fin _ ⟨i, hi⟩ ▸ hblocked _ i (idx_ofNat hi) hfound)
  · obtain ⟨rfl, hi, -⟩ := hr.vmById_eq hfound
    obtain rfl := Option.some.inj (hix.symm.trans (idx_ofNat hi))
    rw [← levelAt_fin] at hlow
    exact .inr ⟨i, e', hfound, hlow, hfail⟩

/-- **A failover is made** for a critical VM that has a backup. -/
theorem failoverOnQuarantine_cases (hrun : failoverOnQuarantine h id = some (e, h')) :
    (∀ ix i, idx id = some ix → vmById h id = some i →
      ¬ (HasBackup h ix ∧ (h.failover.backup ix).critical = true)) ∧ h' = h ∨
    ∃ ix i, idx id = some ix ∧ vmById h id = some i ∧ HasBackup h ix ∧
      (h.failover.backup ix).critical = true ∧ doFailover h id ix = some (e, h') := by
  simp only [failoverOnQuarantine, ← Bool.not_and] at hrun
  rcases failover_cases hrun with ⟨hnone, rfl⟩ | ⟨ix, i, hix, hfound, hinit, hcond, hdo⟩
  · refine .inl ⟨fun ix i hix hfound hboth => hnone ix i hix hfound ⟨hboth.1.1, ?_⟩, rfl⟩
    rw [hboth.1.2, hboth.2, Bool.and_self]
  · rw [Bool.and_eq_true] at hcond
    exact .inr ⟨ix, i, hix, hfound, ⟨hinit, hcond.1⟩, hcond.2, hdo⟩

theorem failoverTrigger_cases (hrun : failoverTrigger h id = some (e, h')) :
    (∀ ix i, idx id = some ix → vmById h id = some i → ¬ HasBackup h ix) ∧ h' = h ∨
    ∃ ix i, idx id = some ix ∧ vmById h id = some i ∧ HasBackup h ix ∧
      doFailover h id ix = some (e, h') := by
  rcases failover_cases hrun with h | ⟨ix, i, hix, hfound, hinit, hcond, hdo⟩
  · exact .inl h
  · exact .inr ⟨ix, i, hix, hfound, ⟨hinit, hcond⟩, hdo⟩

/-- Whichever way it is called, failover leaves the state or makes the
attempt. -/
theorem failover_attempts
    (hrun : failoverTrigger h id = some (e, h') ∨ failoverOnQuarantine h id = some (e, h')) :
    h' = h ∨ ∃ ix i, idx id = some ix ∧ vmById h id = some i ∧ HasBackup h ix ∧
      doFailover h id ix = some (e, h') := by
  rcases hrun with hrun | hrun
  · exact (failoverTrigger_cases hrun).imp_left And.right
  · rcases failoverOnQuarantine_cases hrun with ⟨-, heq⟩ | ⟨ix, i, hix, hfound, hhas, -, hdo⟩
    · exact .inl heq
    · exact .inr ⟨ix, i, hix, hfound, hhas, hdo⟩

/-! ## Faults -/

/-- **A fault report would have the VM quarantined now.** -/
def FaultDue (h : Hyp) (ix : Fin maxVms) : Prop :=
  CountDue h ix ∧ (h.trust.vm ix).level.rank < TrustLevel.quarantine.rank

/-- **A fault report** keeps books, degrades a trusted VM, or comes to a
quarantine. -/
theorem trustReportFault_cases {faultType : U32} {detail : U64} (hinit : h.trust.initialized = true)
    (hrun : trustReportFault h id faultType detail = some (e, h')) :
    (∀ ix, idx id = some ix → ¬ FaultDue h ix) ∧ (h' = h ∨ ∃ ix, idx id = some ix ∧
      (h' = recordFault h ix faultType detail ∨ (h.trust.vm ix).level = .trusted ∧
        h' = (trustSet (recordFault h ix faultType detail) id .degraded).2)) ∨
    ∃ ix e', idx id = some ix ∧ FaultDue h ix ∧
      trustQuarantine (recordFault h ix faultType detail) id = some (e', h') := by
  rcases trustReportFault_inv hrun with ⟨rfl, hrevoked⟩ | ⟨ix, g, hix, -, rfl, hcases⟩
  · refine .inl ⟨fun ix hix hdue => ?_, .inl rfl⟩
    have hlow := hdue.2
    rw [hrevoked ix hix hinit] at hlow
    exact absurd hlow (by decide)
  have hfull : Full ((recordFault h ix faultType detail).trust.vm ix) ↔ FaultDue h ix := by
    rw [Full, level_recordFault, faultCount_recordFault]
    rfl
  rcases hcases with ⟨hdue, e', hquar⟩ | ⟨hdue, hdone⟩
  · exact .inr ⟨ix, e', hix, hfull.mp hdue, hquar⟩
  refine .inl ⟨fun jx hjx hfault => ?_, .inr ⟨ix, hix, ?_⟩⟩
  · obtain rfl := Option.some.inj (hix.symm.trans hjx)
    exact hdue (hfull.mpr hfault)
  · rcases hdone with rfl | ⟨htrusted, rfl⟩
    · exact .inl rfl
    · rw [level_recordFault] at htrusted
      exact .inr ⟨htrusted, rfl⟩

end Tables

end Vse

end HypervisorBase
