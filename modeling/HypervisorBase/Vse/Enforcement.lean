import HypervisorBase.Vse.Bookkeeping
import HypervisorBase.Vse.Footprint
import HypervisorBase.Boot.Started
import HypervisorBase.Hypercall.Dispatch
import HypervisorBase.Common.Run
/-!
# Enforcement of trust

`trust.h` promises that a quarantined VM is suspended and a revoked one is
stopped. `Secure` is the invariant behind that promise, and every operation
of the trust engine, of intrusion detection and of failover keeps it. Two
things break it: `HVC_VM_RESUME` does not look at the level of the VM it
resumes, and `trust_init` marks a VM whose image fails its measurement
without suspending it. `trust_enforced_iff` says that these are the only
two.
-/

namespace HypervisorBase

namespace Vse

/-! ## The invariant -/

/-- A level and a state that go together: a quarantined VM does not run,
and a revoked one has been stopped. -/
def Fine (l : TrustLevel) (s : Option VmState) : Prop :=
  (l = .quarantine → s ≠ some .running) ∧ (l = .revoked → s = none ∨ s = some .stopped)

/-- **The invariant.** No virtual CPU belongs to two VMs. -/
structure Secure (h : Hyp) : Prop where
  roster : Roster h
  initialized : h.trust.initialized = true
  fine : ∀ i, Fine (levelAt h i) (stateAt h i)
  bounded : ∀ i, ∀ v ∈ vcpusAt h i, v < h.vcpus.length
  apart : ∀ i j v, v ∈ vcpusAt h i → v ∈ vcpusAt h j → i = j

variable {h h' : Hyp} {i : ℕ} {l : TrustLevel} {s : Option VmState} {id : U32} {e : Err}

/-- **An operation on one VM keeps the invariant** if the VM ends up with
a level and a state that go together. -/
theorem Secure.of_becomes (hs : Secure h) (hb : Becomes i h h' l s) (hfine : Fine l s) :
    Secure h' := by
  have hvcpus : ∀ j, j ≠ i → vcpusAt h' j = vcpusAt h j := fun j hj => by
    rw [vcpusAt, vcpusAt, hb.touches.vms j hj]
  have hpool := hb.touches.pool
  -- a virtual CPU that VM `i` has is an old one of its own, or beyond the old pool
  have hold : ∀ j v, j ≠ i → v ∈ vcpusAt h' i → v ∉ vcpusAt h' j := by
    intro j v hj hv hv'
    rw [hvcpus j hj] at hv'
    rcases hb.touches.fresh v hv with hv | hnew
    · exact hj (hs.apart j i v hv' hv)
    · exact absurd (hs.bounded j v hv') (by omega)
  refine ⟨hs.roster.of_touches hb.touches, hb.touches.initialized.trans hs.initialized,
    fun j => ?_, fun j v hv => ?_, fun j k v hv hv' => ?_⟩
  · by_cases hj : j = i
    · rw [hj, hb.level, hb.state]
      exact hfine
    · rw [hb.touches.levels j hj, stateAt, hb.touches.vms j hj]
      exact hs.fine j
  · by_cases hj : j = i
    · rw [hj] at hv
      rcases hb.touches.fresh v hv with hv | hnew
      · exact Nat.lt_of_lt_of_le (hs.bounded i v hv) hpool
      · exact hnew.2
    · rw [hvcpus j hj] at hv
      exact Nat.lt_of_lt_of_le (hs.bounded j v hv) hpool
  · by_cases hj : j = i
    · by_cases hk : k = i
      · rw [hj, hk]
      · rw [hj] at hv
        exact absurd hv' (hold k v hk hv)
    · by_cases hk : k = i
      · rw [hk] at hv'
        exact absurd hv (hold j v hj hv')
      · rw [hvcpus j hj] at hv
        rw [hvcpus k hk] at hv'
        exact hs.apart j k v hv hv'

theorem Secure.of_same (hs : Secure h) (hsame : SameVms h h') : Secure h' :=
  hs.of_becomes (hsame.becomes 0) (hs.fine 0)

/-- A call that returns early. -/
theorem Secure.of_unchanged {e₀ : Err} (hs : Secure h) (hrun : some (e₀, h) = some (e, h')) :
    Secure h' := (Prod.mk.inj (Option.some.inj hrun)).2 ▸ hs

/-! ## The trust engine keeps it -/

theorem fine_of_unblocked (hq : l ≠ .quarantine) (hr : l ≠ .revoked) : Fine l s :=
  ⟨fun h => absurd h hq, fun h => absurd h hr⟩

theorem fine_stopped : Fine l (some .stopped) := ⟨fun _ => by decide, fun _ => .inr rfl⟩

/-- A revoked VM is stopped. -/
theorem trustRevoke_secure (hs : Secure h) : Secure (trustRevoke h id).2 := by
  cases hfound : vmById h id with
  | none =>
    rw [trustRevoke_notfound hfound]
    exact hs
  | some i => exact hs.of_becomes (trustRevoke_becomes hs.roster hs.initialized hfound) fine_stopped

/-- A VM that `trust_quarantine` is done with does not run. -/
theorem suspendRunnable_becomes {vm : Vm} (hvm : h.vms[i]? = some vm) :
    Becomes i h (suspendRunnable h i) (levelAt h i)
      (some (if vm.state = .running then .suspended else vm.state)) := by
  unfold suspendRunnable
  rw [hvm]
  dsimp only
  split
  · exact vmSuspend_becomes hvm
  · rename_i hnot
    rw [if_neg fun hst => hnot (.inl hst), ← stateAt_of_vm hvm]
    exact .refl i h

/-- The state `trust_quarantine` hands to failover: the VM marked and
counted, and suspended if it could run. -/
def quarantined (h : Hyp) (vmId : U32) (i : ℕ) : Hyp :=
  let h := (trustSet h vmId .quarantine).2
  suspendRunnable { h with trust := { h.trust with
    quarantineCount := h.trust.quarantineCount + 1 } } i

theorem quarantined_becomes {vm : Vm} (hinit : h.trust.initialized = true) (hi : i < maxVms)
    (hvm : h.vms[i]? = some vm) :
    Becomes i h (quarantined h (BitVec.ofNat 32 (i + 1)) i) .quarantine
      (some (if vm.state = .running then .suspended else vm.state)) := by
  obtain ⟨h₁, hh₁⟩ : ∃ h₁, h₁ = (trustSet h (BitVec.ofNat 32 (i + 1)) .quarantine).2 := ⟨_, rfl⟩
  have hset := trustSet_becomes hinit hi .quarantine
  rw [← hh₁] at hset
  have hcount : Becomes i h { h₁ with trust := { h₁.trust with
      quarantineCount := h₁.trust.quarantineCount + 1 } } .quarantine (stateAt h i) :=
    hset.of_same ⟨rfl, rfl, rfl, rfl⟩
  obtain ⟨vm₁, hvm₁, hstate⟩ := exists_vm_of_state (hcount.state.trans (stateAt_of_vm hvm))
  have hsuspend := suspendRunnable_becomes hvm₁
  rw [hcount.level, hstate] at hsuspend
  unfold quarantined
  rw [← hh₁]
  exact hcount.trans hsuspend

theorem failover_quarantined (h : Hyp) (vmId : U32) (i : ℕ) :
    (quarantined h vmId i).failover = h.failover := by
  have hset : (trustSet h vmId .quarantine).2.failover = h.failover := by
    unfold trustSet timerNowUs
    dsimp only
    repeat' split
    all_goals rfl
  refine Eq.trans ?_ hset
  unfold quarantined suspendRunnable vmSuspend
  dsimp only
  repeat' split
  all_goals rfl

theorem fine_quarantined {st : VmState} :
    Fine .quarantine (some (if st = .running then .suspended else st)) := by
  refine ⟨fun _ => ?_, fun hrevoked => by cases hrevoked⟩
  split
  · decide
  · rename_i hst
    exact fun hrunning => hst (Option.some.inj hrunning)

theorem failoverRegister_rest (h : Hyp) (vmId : U32) (backupPa livePa backupSize entryIpa : U64) :
    (failoverRegister h vmId backupPa livePa backupSize entryIpa).2 = { h with
      failover := (failoverRegister h vmId backupPa livePa backupSize entryIpa).2.failover } := by
  unfold failoverRegister
  repeat' split
  all_goals rfl

theorem sameVms_failoverRegister (h : Hyp) (vmId : U32) (backupPa livePa backupSize entryIpa : U64) :
    SameVms h (failoverRegister h vmId backupPa livePa backupSize entryIpa).2 := by
  rw [failoverRegister_rest]
  exact ⟨rfl, rfl, rfl, rfl⟩

section Failover

variable [P : PtPool]

/-- A failover ends running and degraded, or stopped and revoked. -/
theorem doFailover_secure {ix : Fin maxVms} (hs : Secure h)
    (hrun : doFailover h id ix = some (e, h')) : Secure h' := by
  cases hfound : vmById h id with
  | none =>
    rw [doFailover_notfound hfound] at hrun
    exact hs.of_unchanged hrun
  | some i =>
    rcases doFailover_becomes hs.roster hs.initialized hfound hrun with hb | hb | hb
    · exact hs.of_becomes hb fine_stopped
    · exact hs.of_becomes hb fine_stopped
    · exact hs.of_becomes hb (fine_of_unblocked (by decide) (by decide))

theorem failoverOnQuarantine_secure (hs : Secure h)
    (hrun : failoverOnQuarantine h id = some (e, h')) : Secure h' := by
  rcases failoverOnQuarantine_inv hrun with rfl | ⟨ix, hdo⟩
  · exact hs
  · exact doFailover_secure hs hdo

theorem failoverTrigger_secure (hs : Secure h)
    (hrun : failoverTrigger h id = some (e, h')) : Secure h' := by
  rcases failoverTrigger_inv hrun with rfl | ⟨ix, hdo⟩
  · exact hs
  · exact doFailover_secure hs hdo

/-- **A quarantine suspends the VM before it tries to restart it.** -/
theorem trustQuarantine_secure (hs : Secure h)
    (hrun : trustQuarantine h id = some (e, h')) : Secure h' := by
  rcases trustQuarantine_inv hrun with ⟨rfl, -⟩ | ⟨ix, i, g, e', -, hfound, -, rfl, hfail⟩
  · exact hs
  · obtain ⟨rfl, hi, vm, hvm⟩ := hs.roster.vmById_eq hfound
    exact failoverOnQuarantine_secure
      (hs.of_becomes (quarantined_becomes hs.initialized hi hvm) fine_quarantined) hfail

end Failover

/-- **A restored VM is degraded by the time it runs again.** -/
theorem trustRestore_secure (hs : Secure h) : Secure (trustRestore h id).2 := by
  unfold trustRestore
  split
  · exact hs
  · exact hs
  · rename_i ix i hix hfound
    split
    · exact hs
    · obtain ⟨rfl, hi, vm, hvm⟩ := hs.roster.vmById_eq hfound
      obtain rfl : ix = ⟨i, hi⟩ := Option.some.inj (hix.symm.trans (idx_ofNat hi))
      have hclear : Becomes i h (h.setTrust ⟨i, hi⟩ { h.trust.vm ⟨i, hi⟩ with faultCount := 0 })
          (h.trust.vm ⟨i, hi⟩).level (stateAt h i) := becomes_setTrust ⟨i, hi⟩ _ (.refl h)
      have hset := hclear.trans (trustSet_becomes
        (hclear.touches.initialized.trans hs.initialized) hi .degraded)
      rw [hclear.state] at hset
      dsimp only
      split
      · obtain ⟨vm', hvm', -⟩ := exists_vm_of_state (hset.state.trans (stateAt_of_vm hvm))
        have hresume := vmResume_becomes hvm'
        rw [hset.level] at hresume
        exact hs.of_becomes (hset.trans hresume) (fine_of_unblocked (by decide) (by decide))
      · exact hs.of_becomes hset (fine_of_unblocked (by decide) (by decide))

/-- Recording a fault leaves every level as it is. -/
theorem recordFault_becomes (h : Hyp) (ix : Fin maxVms) (faultType : U32) (detail : U64) :
    Becomes ix.val h (recordFault h ix faultType detail) (levelAt h ix.val) (stateAt h ix.val) := by
  have hread : SameVms h (timerNowUs h).2 := ⟨rfl, rfl, rfl, rfl⟩
  have hrecord := becomes_setTrust ix { (timerNowUs h).2.trust.vm ix with
    faultCount := ((timerNowUs h).2.trust.vm ix).faultCount + 1
    lastFaultType := faultType
    lastFaultDetail := detail
    lastFaultUs := (timerNowUs h).1 } hread
  rw [levelAt_fin]
  exact hrecord.of_same ⟨rfl, rfl, rfl, rfl⟩

/-- **A report** keeps the VMs secure. -/
theorem trustReportFault_secure [P : PtPool] {faultType : U32} {detail : U64} (hs : Secure h)
    (hrun : trustReportFault h id faultType detail = some (e, h')) : Secure h' := by
  rcases trustReportFault_inv hrun with ⟨rfl, -⟩ | ⟨ix, g, hix, -, rfl, hcases⟩
  · exact hs
  have hs₁ : Secure (recordFault h ix faultType detail) :=
    hs.of_becomes (recordFault_becomes h ix faultType detail) (hs.fine ix.val)
  rcases hcases with ⟨-, e', hquar⟩ | ⟨-, rfl | ⟨-, rfl⟩⟩
  · exact trustQuarantine_secure hs₁ hquar
  · exact hs₁
  · rw [idx_eq_some hix]
    exact hs₁.of_becomes (trustSet_becomes hs₁.initialized ix.isLt .degraded)
      (fine_of_unblocked (by decide) (by decide))

theorem trustAutoPromoteTick_secure {nowUs : U64} (hs : Secure h) :
    Secure (trustAutoPromoteTick h nowUs).2 := by
  refine trustAutoPromoteTick_keeps hs fun n g ix hg => promoteOne_keeps hg fun _ _ _ => ?_
  have hclear := becomes_setTrust ix { g.trust.vm ix with faultCount := 0 } (.refl g)
  exact hg.of_becomes (hclear.trans (trustSet_becomes
    (hclear.touches.initialized.trans hg.initialized) ix.isLt .trusted))
    (fine_of_unblocked (by decide) (by decide))

/-! ## Intrusion detection keeps it -/

theorem Silent.sameVms (a : Silent h h') : SameVms h h' :=
  ⟨a.only.eq Hyp.vms fun _ _ _ _ _ => rfl, a.only.eq Hyp.vcpus fun _ _ _ _ _ => rfl,
    a.only.initialized, by rw [a.trust]⟩

theorem idsPoll_secure (hs : Secure h) : Secure (idsPoll h).2 :=
  idsPoll_keeps hs (fun _ _ _ hg => hg.of_same ⟨rfl, rfl, rfl, rfl⟩)
    fun _ _ hg => trustAutoPromoteTick_secure hg

section Detect

variable [P : PtPool]

/-- A notification changes the VMs only by a quarantine. -/
theorem idsNotifyFault_secure {faultType : U32} {detail : U64} (hs : Secure h)
    (hrun : idsNotifyFault h id faultType detail = some h') : Secure h' := by
  rcases idsNotifyFault_cases hs.initialized hrun with
    ⟨-, hsilent⟩ | ⟨ix, g, g', e, -, -, -, hbefore, hq, hafter⟩
  · exact hs.of_same hsilent.sameVms
  · have hquarantined := trustQuarantine_secure (hs.of_same hbefore.sameVms) hq
    exact hquarantined.of_same hafter.sameVms

end Detect

/-! ## The hypercalls of a guest -/

/-- A lifecycle call touches the VM with the id, if there is one. -/
theorem onVm_secure {f : Hyp → ℕ → Err × Hyp} (hs : Secure h)
    (hf : ∀ i vm, vmById h id = some i → h.vms[i]? = some vm → Secure (f h i).2) :
    Secure (Hypercall.onVm f h id).2 := by
  unfold Hypercall.onVm
  split
  · exact hs
  · rename_i i hfound
    obtain ⟨-, -, vm, hvm⟩ := hs.roster.vmById_eq hfound
    exact hf i vm hfound hvm

theorem hvcVmStop_secure (hs : Secure h) : Secure (Hypercall.hvcVmStop h id).2 :=
  onVm_secure hs fun _ _ _ hvm => hs.of_becomes (vmStop_becomes hvm).2 fine_stopped

theorem hvcVmSuspend_secure (hs : Secure h) : Secure (Hypercall.hvcVmSuspend h id).2 := by
  refine onVm_secure hs fun i vm _ hvm => hs.of_becomes (vmSuspend_becomes hvm) ?_
  have hfine := hs.fine i
  rw [stateAt_of_vm hvm] at hfine
  split
  · rename_i hst
    refine ⟨fun _ => by decide, fun hrevoked => ?_⟩
    rw [hst] at hfine
    exact absurd (hfine.2 hrevoked) (by decide)
  · exact hfine

/-- **The check `HVC_VM_RESUME` does not make**: the VM it would resume is
not quarantined. -/
def MayResume (h : Hyp) (vmId : U32) : Prop :=
  ∀ vm, vmAt h vmId = some vm → vm.state = .suspended → trustGet h vmId ≠ .quarantine

/-- **A resume that is allowed** does too. -/
theorem hvcVmResume_secure (hs : Secure h) (hmay : MayResume h id) :
    Secure (Hypercall.hvcVmResume h id).2 := by
  refine onVm_secure hs fun i vm hfound hvm => hs.of_becomes (vmResume_becomes hvm) ?_
  obtain ⟨rfl, hi, -⟩ := hs.roster.vmById_eq hfound
  have hfine := hs.fine i
  rw [stateAt_of_vm hvm] at hfine
  split
  · rename_i hst
    have hlevel := hmay vm (by rw [vmAt, hfound]; exact hvm) hst
    rw [trustGet_eq hs.initialized hi] at hlevel
    rw [hst] at hfine
    exact fine_of_unblocked hlevel fun hrevoked => absurd (hfine.2 hrevoked) (by decide)
  · exact hfine

/-! ## Runs -/

/-- The operations of the trust engine, of intrusion detection and of
failover, and the lifecycle calls of guests. -/
inductive TrustOp
  | reportFault (vmId faultType : U32) (detail : U64)
  | quarantine (vmId : U32)
  | revoke (vmId : U32)
  | restore (vmId : U32)
  | autoPromoteTick (nowUs : U64)
  | notifyFault (vmId faultType : U32) (detail : U64)
  | poll
  | failoverRegister (vmId : U32) (backupPa livePa backupSize entryIpa : U64)
  | failoverTrigger (vmId : U32)
  | failoverOnQuarantine (vmId : U32)
  | hvcStop (vmId : U32)
  | hvcSuspend (vmId : U32)
  | hvcResume (vmId : U32)

section Runs

variable [P : PtPool]

def trustStep (h : Hyp) : TrustOp → Option Hyp
  | .reportFault vmId faultType detail => (trustReportFault h vmId faultType detail).map Prod.snd
  | .quarantine vmId => (trustQuarantine h vmId).map Prod.snd
  | .revoke vmId => some (trustRevoke h vmId).2
  | .restore vmId => some (trustRestore h vmId).2
  | .autoPromoteTick nowUs => some (trustAutoPromoteTick h nowUs).2
  | .notifyFault vmId faultType detail => idsNotifyFault h vmId faultType detail
  | .poll => some (idsPoll h).2
  | .failoverRegister vmId backupPa livePa backupSize entryIpa =>
    some (failoverRegister h vmId backupPa livePa backupSize entryIpa).2
  | .failoverTrigger vmId => (failoverTrigger h vmId).map Prod.snd
  | .failoverOnQuarantine vmId => (failoverOnQuarantine h vmId).map Prod.snd
  | .hvcStop vmId => some (Hypercall.hvcVmStop h vmId).2
  | .hvcSuspend vmId => some (Hypercall.hvcVmSuspend h vmId).2
  | .hvcResume vmId => some (Hypercall.hvcVmResume h vmId).2

/-- **What an operation runs**, and the state it leaves. -/
inductive Effect (h : Hyp) : TrustOp → Hyp → Prop
  | reportFault {vmId faultType : U32} {detail : U64} {e : Err} {h' : Hyp} :
      trustReportFault h vmId faultType detail = some (e, h') →
      Effect h (.reportFault vmId faultType detail) h'
  | quarantine {vmId : U32} {e : Err} {h' : Hyp} :
      trustQuarantine h vmId = some (e, h') → Effect h (.quarantine vmId) h'
  | revoke (vmId : U32) : Effect h (.revoke vmId) (trustRevoke h vmId).2
  | restore (vmId : U32) : Effect h (.restore vmId) (trustRestore h vmId).2
  | autoPromoteTick (nowUs : U64) :
      Effect h (.autoPromoteTick nowUs) (trustAutoPromoteTick h nowUs).2
  | notifyFault {vmId faultType : U32} {detail : U64} {h' : Hyp} :
      idsNotifyFault h vmId faultType detail = some h' →
      Effect h (.notifyFault vmId faultType detail) h'
  | poll : Effect h .poll (idsPoll h).2
  | failoverRegister (vmId : U32) (backupPa livePa backupSize entryIpa : U64) :
      Effect h (.failoverRegister vmId backupPa livePa backupSize entryIpa)
        (failoverRegister h vmId backupPa livePa backupSize entryIpa).2
  | failoverTrigger {vmId : U32} {e : Err} {h' : Hyp} :
      failoverTrigger h vmId = some (e, h') → Effect h (.failoverTrigger vmId) h'
  | failoverOnQuarantine {vmId : U32} {e : Err} {h' : Hyp} :
      failoverOnQuarantine h vmId = some (e, h') → Effect h (.failoverOnQuarantine vmId) h'
  | hvcStop (vmId : U32) : Effect h (.hvcStop vmId) (Hypercall.hvcVmStop h vmId).2
  | hvcSuspend (vmId : U32) : Effect h (.hvcSuspend vmId) (Hypercall.hvcVmSuspend h vmId).2
  | hvcResume (vmId : U32) : Effect h (.hvcResume vmId) (Hypercall.hvcVmResume h vmId).2

theorem trustStep_effect {op : TrustOp} (hrun : trustStep h op = some h') : Effect h op h' := by
  cases op with
  | reportFault | quarantine | failoverTrigger | failoverOnQuarantine =>
    obtain ⟨⟨e, g⟩, hcall, rfl⟩ := Option.map_eq_some_iff.mp hrun
    constructor
    exact hcall
  | notifyFault => exact .notifyFault hrun
  | revoke | restore | autoPromoteTick | poll | failoverRegister | hvcStop | hvcSuspend
  | hvcResume =>
    obtain rfl := Option.some.inj hrun
    constructor

/-- The operations that may be let through: all but the resumption of a
quarantined VM. -/
def Allowed (h : Hyp) : TrustOp → Prop
  | .hvcResume vmId => MayResume h vmId
  | _ => True

/-- **An allowed operation keeps the invariant.** -/
theorem trustStep_secure {op : TrustOp} (hs : Secure h) (hallowed : Allowed h op)
    (hrun : trustStep h op = some h') : Secure h' := by
  cases trustStep_effect hrun with
  | reportFault hcall => exact trustReportFault_secure hs hcall
  | quarantine hcall => exact trustQuarantine_secure hs hcall
  | revoke vmId => exact trustRevoke_secure hs
  | restore vmId => exact trustRestore_secure hs
  | autoPromoteTick nowUs => exact trustAutoPromoteTick_secure hs
  | notifyFault hcall => exact idsNotifyFault_secure hs hcall
  | poll => exact idsPoll_secure hs
  | failoverRegister vmId backupPa livePa backupSize entryIpa =>
    exact hs.of_same (sameVms_failoverRegister ..)
  | failoverTrigger hcall => exact failoverTrigger_secure hs hcall
  | failoverOnQuarantine hcall => exact failoverOnQuarantine_secure hs hcall
  | hvcStop vmId => exact hvcVmStop_secure hs
  | hvcSuspend vmId => exact hvcVmSuspend_secure hs
  | hvcResume vmId => exact hvcVmResume_secure hs hallowed

end Runs

/-! ## What is enforced -/

/-- **Enforcement.** A VM whose trust is blocked does not run, and whatever
slots the scheduler has, none of them gives it one of the VM's virtual
CPUs. -/
structure Enforced (h : Hyp) : Prop where
  halted : ∀ vmId vm, vmAt h vmId = some vm → trustIsBlocked h vmId = true → vm.state ≠ .running
  unscheduled : ∀ vmId vm sched k v, vmAt h vmId = some vm → trustIsBlocked h vmId = true →
    v ∈ vm.vcpus → Sched.slotVcpu { h with sched := sched } k ≠ some v

theorem vmAt_eq_some {vm : Vm} (h' : vmAt h id = some vm) :
    ∃ i, vmById h id = some i ∧ h.vms[i]? = some vm := Option.bind_eq_some_iff.mp h'

/-- A virtual CPU the scheduler gets is one of a running VM. -/
theorem slotVcpu_eq_some {k v : ℕ} (hslot : Sched.slotVcpu h k = some v) :
    ∃ vmId vm, vmAt h vmId = some vm ∧ vm.state = .running ∧ v ∈ vm.vcpus := by
  obtain ⟨sl, -, hslot⟩ := Option.bind_eq_some_iff.mp hslot
  obtain ⟨vm, hvm, hslot⟩ := Option.bind_eq_some_iff.mp hslot
  split at hslot
  · cases hslot
  · rename_i hst
    obtain ⟨v', hv', hslot⟩ := Option.bind_eq_some_iff.mp hslot
    obtain ⟨vc, -, hslot⟩ := Option.bind_eq_some_iff.mp hslot
    split at hslot
    · cases hslot
    · obtain rfl := Option.some.inj hslot
      exact ⟨sl.vmId, vm, hvm, not_not.mp hst, List.mem_of_getElem? hv'⟩

/-- A blocked VM does not run. -/
theorem Secure.halted (hs : Secure h) {vm : Vm} (hat : vmAt h id = some vm)
    (hblocked : trustIsBlocked h id = true) : vm.state ≠ .running := by
  obtain ⟨i, hfound, hvm⟩ := vmAt_eq_some hat
  obtain ⟨rfl, hi, -⟩ := hs.roster.vmById_eq hfound
  have hfine := hs.fine i
  rw [stateAt_of_vm hvm] at hfine
  unfold trustIsBlocked at hblocked
  rw [trustGet_eq hs.initialized hi] at hblocked
  intro hrunning
  rw [hrunning] at hfine
  rcases Bool.or_eq_true_iff.mp hblocked with hq | hr
  · exact hfine.1 (of_decide_eq_true hq) rfl
  · exact absurd (hfine.2 (of_decide_eq_true hr)) (by decide)

/-- **The invariant enforces.** -/
theorem Secure.enforced (hs : Secure h) : Enforced h := by
  refine ⟨fun _ _ hvm hblocked => hs.halted hvm hblocked, ?_⟩
  intro vmId vm sched k v hvm hblocked hv hslot
  obtain ⟨vmId', vm', hvm', hrunning, hv'⟩ := slotVcpu_eq_some hslot
  obtain ⟨i, -, hi⟩ := vmAt_eq_some hvm
  obtain ⟨j, -, hj⟩ := vmAt_eq_some hvm'
  have hj : h.vms[j]? = some vm' := hj
  have hij : i = j := by
    refine hs.apart i j v ?_ ?_
    · rw [vcpusAt, hi]; exact hv
    · rw [vcpusAt, hj]; exact hv'
  rw [← hij, hi] at hj
  obtain rfl := Option.some.inj hj
  exact hs.halted hvm hblocked hrunning

/-- A VM that runs in quarantine is not enforced. -/
theorem not_enforced_of_running (hr : Roster h) (hinit : h.trust.initialized = true)
    (hlevel : levelAt h i = .quarantine) (hst : stateAt h i = some .running) : ¬ Enforced h := by
  intro henf
  obtain ⟨vm, hvm, hrunning⟩ := exists_vm_of_state hst
  have hfound := hr.vmById_of_vm hvm
  obtain ⟨-, hi, -⟩ := hr.vmById_eq hfound
  refine henf.halted (BitVec.ofNat 32 (i + 1)) vm (by rw [vmAt, hfound]; exact hvm) ?_ hrunning
  unfold trustIsBlocked
  rw [trustGet_eq hinit hi, hlevel]
  rfl

/-- **Resuming a quarantined VM makes it run in quarantine.** -/
theorem not_enforced_of_resume (hs : Secure h) (hnot : ¬ MayResume h id) :
    ¬ Enforced (Hypercall.hvcVmResume h id).2 := by
  unfold MayResume at hnot
  push Not at hnot
  obtain ⟨vm, hat, hst, hlevel⟩ := hnot
  obtain ⟨i, hfound, hvm⟩ := vmAt_eq_some hat
  obtain ⟨rfl, hi, -⟩ := hs.roster.vmById_eq hfound
  rw [trustGet_eq hs.initialized hi] at hlevel
  have hb := vmResume_becomes hvm
  rw [if_pos hst, hlevel] at hb
  unfold Hypercall.hvcVmResume Hypercall.onVm
  rw [hfound]
  exact not_enforced_of_running (hs.roster.of_touches hb.touches)
    (hb.touches.initialized.trans hs.initialized) hb.level hb.state

/-! ## After boot -/

/-- The initialisations `hyp_main` makes once the VMs run, given what the
measurement of each guest finds. -/
def vseInit (h : Hyp) (gm : U32 → Gmeas) : Hyp :=
  failoverInit (idsInit (faultDetectInit (trustInit h gm)))

theorem vseInit_rest (h : Hyp) (gm : U32 → Gmeas) : vseInit h gm = { h with
    trust := (vseInit h gm).trust, fdetect := (vseInit h gm).fdetect, ids := (vseInit h gm).ids
    failover := (vseInit h gm).failover, timer := (vseInit h gm).timer } := rfl

theorem initialized_vseInit (h : Hyp) (gm : U32 → Gmeas) :
    (vseInit h gm).trust.initialized = true := rfl

variable {gm : U32 → Gmeas} {vm : Vm}

/-- `trust_init`'s loop leaves the record of a VM it does not come to. -/
theorem foldl_trustMark_of_ne {vms : List Vm} {t : Trust} {ix : Fin maxVms}
    (hne : ∀ vm ∈ vms, idx vm.id ≠ some ix) :
    ((vms.foldl (trustMark gm) t).vm ix).level = (t.vm ix).level := by
  induction vms generalizing t with
  | nil => rfl
  | cons vm vms ih =>
    refine (ih fun x hx => hne x (List.mem_cons_of_mem _ hx)).trans ?_
    have hvm := hne vm (List.mem_cons_self ..)
    unfold trustMark
    split
    · rfl
    · rename_i ix' hix
      have hix' : ix ≠ ix' := fun heq => hvm (by rw [heq]; exact hix)
      simp only [Function.update_of_ne hix']

/-- **The level `trust_init` gives a VM** follows from its measurement. -/
theorem levelAt_vseInit (hr : Roster h) (hvm : h.vms[i]? = some vm) :
    levelAt (vseInit h gm) i = if gm vm.id = .mismatch then .quarantine else .trusted := by
  have hlen := hr.length_le
  have hi : i < h.vms.length := (List.getElem?_eq_some_iff.mp hvm).1
  have him : i < maxVms := Nat.lt_of_lt_of_le hi hlen
  have hsplit : h.vms = h.vms.take i ++ vm :: h.vms.drop (i + 1) := by
    rw [← (List.getElem?_eq_some_iff.mp hvm).2, List.getElem_cons_drop, List.take_append_drop]
  -- the VMs after it have other records
  have hafter : ∀ x ∈ h.vms.drop (i + 1), idx x.id ≠ some ⟨i, him⟩ := by
    intro x hx
    obtain ⟨j, hj⟩ := List.mem_iff_getElem?.mp hx
    rw [List.getElem?_drop] at hj
    have hjlt : i + 1 + j < h.vms.length := (List.getElem?_eq_some_iff.mp hj).1
    rw [hr.ids _ x hj, idx_ofNat (Nat.lt_of_lt_of_le hjlt hlen)]
    intro heq
    have := congrArg Fin.val (Option.some.inj heq)
    simp only at this
    omega
  refine (levelAt_fin (vseInit h gm) ⟨i, him⟩).trans ?_
  change (((h.vms.foldl (trustMark gm) _).vm ⟨i, him⟩).level) = _
  rw [hsplit, List.foldl_append, List.foldl_cons, foldl_trustMark_of_ne hafter]
  unfold trustMark
  rw [hr.ids i vm hvm, idx_ofNat him]
  simp

/-- **Without a mismatch the invariant holds after boot.** -/
theorem secure_vseInit (hr : Roster h) (hbounded : ∀ i, ∀ v ∈ vcpusAt h i, v < h.vcpus.length)
    (hapart : ∀ i j v, v ∈ vcpusAt h i → v ∈ vcpusAt h j → i = j)
    (hgm : ∀ vm ∈ h.vms, gm vm.id ≠ .mismatch) : Secure (vseInit h gm) := by
  refine ⟨⟨hr.length_le, hr.ids, hr.alive⟩, rfl, fun i => ?_, hbounded, hapart⟩
  cases hvm : h.vms[i]? with
  | none =>
    have hstate : stateAt (vseInit h gm) i = none := by rw [stateAt]; exact congrArg _ hvm
    rw [hstate]
    exact ⟨fun _ => by simp, fun _ => .inl rfl⟩
  | some vm =>
    rw [levelAt_vseInit hr hvm, if_neg (hgm vm (List.mem_of_getElem? hvm))]
    exact fine_of_unblocked (by decide) (by decide)

/-- A running VM with a mismatch is in quarantine and goes on running. -/
theorem not_enforced_of_mismatch (hr : Roster h) (hvm : vm ∈ h.vms) (hst : vm.state = .running)
    (hgm : gm vm.id = .mismatch) : ¬ Enforced (vseInit h gm) := by
  obtain ⟨i, hvm⟩ := List.mem_iff_getElem?.mp hvm
  refine not_enforced_of_running (i := i) ⟨hr.length_le, hr.ids, hr.alive⟩ rfl ?_ ?_
  · rw [levelAt_vseInit hr hvm, if_pos hgm]
  · rw [← hst]
    exact stateAt_of_vm hvm

section Boot

variable [P : PtPool]
variable {h₀ : Hyp}

open Boot

theorem roster_of_booted (hb : Booted h₀ h) : Roster h := by
  have hids : ∀ (i : ℕ) vm, h.vms[i]? = some vm → vm.id = BitVec.ofNat 32 (i + 1) :=
    fun i vm hvm => (hb.vm_eq hvm).2.1
  obtain ⟨p₁, t₁, p₂, t₂, p₃, t₃, hvms, -⟩ := hb.vms
  refine ⟨?_, hids, fun i => ?_⟩
  · rw [hvms]
    exact show 3 ≤ maxVms by decide
  · rw [stateAt, hvms]
    rcases i with _ | _ | _ | i <;> simp [linuxVm, rtosVm, androidVm, startedVm]

/-- The four virtual CPUs of the booted VMs. -/
theorem vcpusAt_of_booted (hb : Booted h₀ h) (i : ℕ) :
    vcpusAt h i = ([[0], [1], [2, 3]] : List (List ℕ))[i]?.getD [] := by
  obtain ⟨p₁, t₁, p₂, t₂, p₃, t₃, hvms, -⟩ := hb.vms
  rw [vcpusAt, hvms]
  rcases i with _ | _ | _ | i <;> rfl

theorem length_vcpus_of_booted (hb : Booted h₀ h) : h.vcpus.length = 4 := by
  have := congrArg List.length hb.vcpus
  rwa [List.length_map] at this

theorem running_of_booted (hb : Booted h₀ h) (hvm : vm ∈ h.vms) : vm.state = .running := by
  obtain ⟨p₁, t₁, p₂, t₂, p₃, t₃, hvms, -⟩ := hb.vms
  rw [hvms] at hvm
  simp only [List.mem_cons, List.not_mem_nil, or_false] at hvm
  rcases hvm with rfl | rfl | rfl <;> rfl

/-- The VMs are secure after boot if every measurement matches. -/
theorem secure_of_booted (hb : Booted h₀ h) (hgm : ∀ vm ∈ h.vms, gm vm.id ≠ .mismatch) :
    Secure (vseInit h gm) := by
  refine secure_vseInit (roster_of_booted hb) (fun i v hv => ?_) (fun i j v hv hv' => ?_) hgm
  · rw [length_vcpus_of_booted hb]
    rw [vcpusAt_of_booted hb] at hv
    rcases i with _ | _ | _ | i <;> simp at hv <;> omega
  · rw [vcpusAt_of_booted hb] at hv hv'
    rcases i with _ | _ | _ | i <;> rcases j with _ | _ | _ | j <;> simp at hv hv' <;> omega

/-- **Enforcement from boot on, exactly.** On every machine the platform
boots, and then, whatever the measurements find and whatever operations
follow in whatever order, enforcement holds throughout if and only if no
measurement is a mismatch and no operation is the resumption of a VM that
is suspended in quarantine. -/
theorem trust_enforced_iff (mem : U64 → U64) (phys : U64 → U8) (timer : ℕ → U64) :
    ∃ h, platformInit (Hyp.start mem phys timer) = some (.ok, h) ∧
      ∀ gm ops, Throughout trustStep Enforced (vseInit h gm) ops ↔
        (∀ vm ∈ h.vms, gm vm.id ≠ .mismatch) ∧ Guarded trustStep Allowed (vseInit h gm) ops := by
  obtain ⟨h, hboot, hb⟩ := exists_platformInit mem phys timer
  refine ⟨h, hboot, fun gm ops => ?_⟩
  have hexact : Secure (vseInit h gm) → (Throughout trustStep Enforced (vseInit h gm) ops ↔
      Guarded trustStep Allowed (vseInit h gm) ops) := by
    refine throughout_iff_guarded (fun _ hs => hs.enforced)
      (fun _ _ _ hs hallowed hrun => trustStep_secure hs hallowed hrun) fun h op hs hnot => ?_
    cases op with
    | hvcResume vmId => exact ⟨_, rfl, not_enforced_of_resume hs hnot⟩
    | _ => exact absurd trivial hnot
  constructor
  · intro hrun
    have hgm : ∀ vm ∈ h.vms, gm vm.id ≠ .mismatch := fun vm hvm hmismatch =>
      not_enforced_of_mismatch (roster_of_booted hb) hvm (running_of_booted hb hvm) hmismatch
        hrun.head
    exact ⟨hgm, (hexact (secure_of_booted hb hgm)).1 hrun⟩
  · rintro ⟨hgm, hguarded⟩
    exact (hexact (secure_of_booted hb hgm)).2 hguarded

/-- **A guest can undo a quarantine.** If the VM has no backup, one
hypercall makes it run again. -/
theorem resume_undoes_quarantine (hs : Secure h) (hfound : vmById h id = some i)
    (hst : stateAt h i = some .running)
    (hlevel : (levelAt h i).rank < TrustLevel.quarantine.rank)
    (hreg : ∀ ix, idx id = some ix → (h.failover.backup ix).registered = false) :
    ¬ Throughout trustStep Enforced h [.quarantine id, .hvcResume id] := by
  obtain ⟨rfl, hi, -⟩ := hs.roster.vmById_eq hfound
  have hix := idx_ofNat hi
  obtain ⟨vm, hvm, hrunning⟩ := exists_vm_of_state hst
  have hq := quarantined_becomes hs.initialized hi hvm
  have hs₁ := hs.of_becomes hq fine_quarantined
  rw [if_pos hrunning] at hq
  have hstep : trustStep h (.quarantine (BitVec.ofNat 32 (i + 1))) =
      some (quarantined h (BitVec.ofNat 32 (i + 1)) i) := by
    have hfail : ∃ e, failoverOnQuarantine (quarantined h (BitVec.ofNat 32 (i + 1)) i)
        (BitVec.ofNat 32 (i + 1)) = some (e, quarantined h (BitVec.ofNat 32 (i + 1)) i) := by
      unfold failoverOnQuarantine
      rw [hix, failover_quarantined]
      dsimp only
      split
      · exact ⟨_, rfl⟩
      · exact ⟨_, if_pos (by simp [hreg _ hix])⟩
    obtain ⟨e, hfail⟩ := hfail
    change Option.map Prod.snd (trustQuarantine h _) = _
    unfold trustQuarantine
    rw [hix, hfound]
    dsimp only
    rw [← levelAt_fin, if_neg (Nat.not_le.2 hlevel)]
    change Option.map _ ((failoverOnQuarantine (quarantined h _ i) _).bind _) = _
    rw [hfail]
    rfl
  intro hrun
  obtain ⟨vm₁, hvm₁, hst₁⟩ := exists_vm_of_state hq.state
  have hfound₁ := hs₁.roster.vmById_of_vm hvm₁
  refine not_enforced_of_resume hs₁ (fun hmay => ?_) ((hrun.2 _ hstep).2 _ rfl)
  refine hmay vm₁ (by rw [vmAt, hfound₁]; exact hvm₁) hst₁ ?_
  rw [trustGet_eq hs₁.initialized hi]
  exact hq.level

end Boot

/-- On a machine whose memory is zero and with every guest measured as
expected: Linux is quarantined and a guest resumes it. -/
theorem quarantined_linux_resumes :
    letI := Stage2.poolAt2M
    ∃ h, Boot.platformInit Hyp.blank = some (.ok, h) ∧
      ¬ Throughout trustStep Enforced (vseInit h fun _ => .match) [.quarantine 1, .hvcResume 1] := by
  let _ := Stage2.poolAt2M
  obtain ⟨h, hboot, hb⟩ := Boot.exists_platformInit (fun _ => 0) (fun _ => 0) fun _ => 0
  refine ⟨h, hboot, ?_⟩
  obtain ⟨p₁, t₁, p₂, t₂, p₃, t₃, hvms, -⟩ := hb.vms
  have hvm : h.vms[0]? = some (Boot.linuxVm p₁ t₁) := by rw [hvms]; rfl
  have hs : Secure (vseInit h fun _ => .match) := secure_of_booted hb fun _ _ => by decide
  have hlevel : levelAt (vseInit h fun _ => .match) 0 = .trusted :=
    levelAt_vseInit (roster_of_booted hb) hvm
  refine resume_undoes_quarantine hs (hs.roster.vmById_of_vm hvm) (stateAt_of_vm hvm) ?_
    fun _ _ => rfl
  rw [hlevel]
  decide

end Vse

end HypervisorBase
