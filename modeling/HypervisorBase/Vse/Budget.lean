import HypervisorBase.Vse.Levels
/-!
# The failover budget

A VM that is registered for failover may be restarted from its backup
`FAILOVER_MAX_ATTEMPTS` times. The next request after that revokes and
stops it. Failover is asked for directly and from inside a quarantine,
which fault reports and intrusion detection bring about, so what ties it
together is an invariant of the VM's record over every operation:
`trustStep_spends` says that an operation leaves the record, the virtual
CPUs and, once it is sunk, the VM as they are, or that it is a request
that spends one attempt.
-/

namespace HypervisorBase

namespace Vse

variable {h h' h'' : Hyp} {i j : ℕ} {l : TrustLevel} {s : Option VmState} {id : U32}
  {ix jx : Fin maxVms} {e : Err}

/-! ## Restarts and requests -/

/-- **The VM is restarted**: it has other virtual CPUs, which only
`vm_finalize` gives it, and runs. -/
def Restarted (i : ℕ) (h h' : Hyp) : Prop := vcpusAt h' i ≠ vcpusAt h i ∧ stateAt h' i = some .running

instance (i : ℕ) (h h' : Hyp) : Decidable (Restarted i h h') :=
  inferInstanceAs (Decidable (_ ∧ _))

/-- **A request for failover of the VM**: directly, or by a quarantine that
takes effect. -/
def Requests (h : Hyp) (ix : Fin maxVms) : TrustOp → Prop
  | .failoverTrigger vmId | .failoverOnQuarantine vmId => idx vmId = some ix
  | .quarantine vmId =>
    idx vmId = some ix ∧ (h.trust.vm ix).level.rank < TrustLevel.quarantine.rank
  | .reportFault vmId _ _ => idx vmId = some ix ∧ FaultDue h ix
  | .notifyFault vmId _ _ => idx vmId = some ix ∧ StormNow h ix
  | _ => False

/-- The VM is registered again. -/
def Registers (ix : Fin maxVms) : TrustOp → Prop
  | .failoverRegister vmId _ _ _ _ => idx vmId = some ix
  | _ => False

/-- Revoked and stopped. -/
def Sunk (ix : Fin maxVms) (h : Hyp) : Prop :=
  levelAt h ix = .revoked ∧ stateAt h ix = some .stopped

/-! ## The record of one VM -/

/-- Backups and the lists of virtual CPUs are as they were. -/
structure Idle (h h' : Hyp) : Prop where
  failover : h'.failover = h.failover
  vcpus : ∀ i, vcpusAt h' i = vcpusAt h i

theorem Idle.refl (h : Hyp) : Idle h h := ⟨rfl, fun _ => rfl⟩

theorem Idle.trans (a : Idle h h') (b : Idle h' h'') : Idle h h'' :=
  ⟨b.failover.trans a.failover, fun i => (b.vcpus i).trans (a.vcpus i)⟩

theorem OnlyVse.idle (a : OnlyVse h h') : Idle h h' := ⟨a.steady.failover, a.vcpusAt⟩

theorem idle_setState {vm : Vm} {st : VmState} (hvm : h.vms[i]? = some vm)
    (hvms : h'.vms = h.vms.set i { vm with state := st }) (hfailover : h'.failover = h.failover) :
    Idle h h' := by
  refine ⟨hfailover, fun j => ?_⟩
  have hlt : i < h.vms.length := (List.getElem?_eq_some_iff.mp hvm).1
  rw [vcpusAt, vcpusAt, hvms]
  by_cases hj : i = j
  · rw [← hj, List.getElem?_set_self hlt, hvm]
    rfl
  · rw [List.getElem?_set_ne hj]

theorem vmStop_idle (h : Hyp) (i : ℕ) : Idle h (vmStop h i).2 :=
  keeps_of_cases (R := Idle h) (vmStop_cases h i) (.refl h) fun _ hvm =>
    idle_setState hvm rfl rfl

theorem vmSuspend_idle (h : Hyp) (i : ℕ) : Idle h (vmSuspend h i).2 :=
  keeps_of_cases (R := Idle h) (vmSuspend_cases h i) (.refl h) fun _ hvm =>
    idle_setState hvm rfl rfl

theorem vmResume_idle (h : Hyp) (i : ℕ) : Idle h (vmResume h i).2 :=
  keeps_of_cases (R := Idle h) (vmResume_cases h i) (.refl h) fun _ hvm =>
    idle_setState hvm rfl rfl

theorem trustRevoke_idle (h : Hyp) (id : U32) : Idle h (trustRevoke h id).2 :=
  trustRevoke_keeps (R := Idle h) (.refl h) (onlyVse_trustSet h id .revoked).idle
    fun g i hg => hg.trans (vmStop_idle g i)

theorem suspendRunnable_idle (h : Hyp) (i : ℕ) : Idle h (suspendRunnable h i) :=
  suspendRunnable_keeps (R := Idle h) (.refl h) (vmSuspend_idle h i)

theorem quarantined_idle (h : Hyp) (id : U32) (i : ℕ) : Idle h (quarantined h id i) := by
  have hset := (onlyVse_trustSet h id .quarantine).idle
  unfold quarantined
  generalize (trustSet h id .quarantine).2 = g at hset ⊢
  have hcount : Idle g { g with trust := { g.trust with
      quarantineCount := g.trust.quarantineCount + 1 } } := ⟨rfl, fun _ => rfl⟩
  exact (hset.trans hcount).trans (suspendRunnable_idle _ i)

theorem recordFault_idle (h : Hyp) (ix : Fin maxVms) (faultType : U32) (detail : U64) :
    Idle h (recordFault h ix faultType detail) := ⟨rfl, fun _ => rfl⟩

/-- The VM is in a table that is in order. -/
structure Enrolled (ix : Fin maxVms) (h : Hyp) : Prop where
  standing : Standing h
  vm : ∃ vm, h.vms[ix.val]? = some vm

theorem Enrolled.of_becomes (he : Enrolled ix h) (hb : Becomes j h h' l s) : Enrolled ix h' := by
  refine ⟨he.standing.of_becomes hb, ?_⟩
  obtain ⟨vm, hvm⟩ := he.vm
  by_cases hj : ix.val = j
  · have hident := hb.touches.ident
    rw [← hj, hvm] at hident
    obtain ⟨vm', hvm', -⟩ := Option.map_eq_some_iff.mp hident
    exact ⟨vm', hvm'⟩
  · rw [hb.touches.vms _ hj]
    exact ⟨vm, hvm⟩

theorem Enrolled.of_same (he : Enrolled ix h) (hsame : SameVms h h') : Enrolled ix h' :=
  he.of_becomes (hsame.becomes 0)

/-- **No attempt is spent on the VM.** -/
structure Kept (ix : Fin maxVms) (h h' : Hyp) : Prop where
  initialized : h'.failover.initialized = h.failover.initialized
  backup : h'.failover.backup ix = h.failover.backup ix
  vcpus : vcpusAt h' ix = vcpusAt h ix
  sunk : Sunk ix h → Sunk ix h'

/-- **One attempt is spent on the VM**, which had it left. -/
structure Ventured (ix : Fin maxVms) (h h' : Hyp) : Prop where
  left : ¬ Spent h ix
  initialized : h'.failover.initialized = h.failover.initialized
  backup : h'.failover.backup ix = { h.failover.backup ix with
    failoverCount := (h.failover.backup ix).failoverCount + 1 }

theorem Kept.refl (ix : Fin maxVms) (h : Hyp) : Kept ix h h := ⟨rfl, rfl, rfl, fun hs => hs⟩

theorem Kept.trans (a : Kept ix h h') (b : Kept ix h' h'') : Kept ix h h'' :=
  ⟨b.initialized.trans a.initialized, b.backup.trans a.backup, b.vcpus.trans a.vcpus,
    fun hs => b.sunk (a.sunk hs)⟩

theorem Kept.ventured (a : Kept ix h h') (b : Ventured ix h' h'') : Ventured ix h h'' := by
  have hleft := b.left
  rw [Spent, a.backup] at hleft
  exact ⟨hleft, b.initialized.trans a.initialized, b.backup.trans (by rw [a.backup])⟩

theorem Ventured.kept (a : Ventured ix h h') (b : Kept ix h' h'') : Ventured ix h h'' :=
  ⟨a.left, b.initialized.trans a.initialized, b.backup.trans a.backup⟩

/-- An operation on one VM spends nothing if the backups are as they were,
and if it leaves that VM sunk once it is. -/
theorem kept_of_becomes (hb : Becomes j h h' l s) (hidle : Idle h h')
    (hself : j = ix → Sunk ix h → l = .revoked ∧ s = some .stopped) : Kept ix h h' := by
  refine ⟨by rw [hidle.failover], by rw [hidle.failover], hidle.vcpus ix, fun hsunk => ?_⟩
  by_cases hj : j = ix
  · have hend := hself hj hsunk
    rw [Sunk, ← hj, hb.level, hb.state]
    exact hend
  · have hne : ix.val ≠ j := fun heq => hj heq.symm
    rw [Sunk, hb.touches.levels _ hne, stateAt, hb.touches.vms _ hne]
    exact hsunk

theorem kept_of_same (hsame : SameVms h h') (hidle : Idle h h') : Kept ix h h' := by
  refine kept_of_becomes (hsame.becomes ix) hidle fun _ hsunk => ?_
  exact hsunk

/-! ## Failover and quarantine -/

theorem sunk_of_revoke (he : Enrolled ix h) (hfound : vmById h id = some ix.val) :
    Sunk ix (trustRevoke h id).2 := by
  have hb := trustRevoke_becomes he.standing.roster he.standing.initialized hfound
  exact ⟨hb.level, hb.state⟩

theorem trustRevoke_kept (he : Enrolled ix h) (hfound : vmById h id = some j) :
    Enrolled ix (trustRevoke h id).2 ∧ Kept ix h (trustRevoke h id).2 := by
  have hb := trustRevoke_becomes he.standing.roster he.standing.initialized hfound
  exact ⟨he.of_becomes hb, kept_of_becomes hb (trustRevoke_idle h id) fun _ _ => ⟨rfl, rfl⟩⟩

/-- A VM that is quarantined was not sunk. -/
theorem quarantined_kept (he : Enrolled ix h) (hfound : vmById h id = some j)
    (hlow : (levelAt h j).rank < TrustLevel.quarantine.rank) :
    Enrolled ix (quarantined h id j) ∧ Kept ix h (quarantined h id j) := by
  obtain ⟨rfl, hj, vm, hvm⟩ := he.standing.roster.vmById_eq hfound
  have hb := quarantined_becomes he.standing.initialized hj hvm
  refine ⟨he.of_becomes hb, kept_of_becomes hb (quarantined_idle h _ j) fun heq hsunk => ?_⟩
  rw [heq, hsunk.1] at hlow
  exact absurd hlow (by decide)

section Tables

variable [P : PtPool]

/-- **A failover spends an attempt** on the VM it is for, or revokes it if
none is left. -/
theorem doFailover_spends (he : Enrolled ix h) (hfound : vmById h id = some j)
    (hjx : idx id = some jx) (hrun : doFailover h id jx = some (e, h')) :
    Enrolled ix h' ∧ (Kept ix h h' ∨ idx id = some ix ∧ Ventured ix h h') := by
  rcases doFailover_cases he.standing.roster he.standing.initialized hfound hrun with
    ⟨-, rfl⟩ | ⟨hleft, hattempt⟩
  · obtain ⟨he', hkept⟩ := trustRevoke_kept he hfound
    exact ⟨he', .inl hkept⟩
  obtain ⟨rfl, hj, -⟩ := he.standing.roster.vmById_eq hfound
  obtain rfl : jx = ⟨j, hj⟩ := Option.some.inj (hjx.symm.trans (idx_ofNat hj))
  obtain ⟨l, s, hb⟩ : ∃ l s, Becomes j h h' l s := by
    rcases hattempt.outcome with hb | hb
    · exact ⟨_, _, hb⟩
    · exact ⟨_, _, hb⟩
  refine ⟨he.of_becomes hb, ?_⟩
  have hfailover := hattempt.steady.failover
  have hinit : h'.failover.initialized = h.failover.initialized := by
    rw [hfailover]
    rfl
  by_cases heq : (⟨j, hj⟩ : Fin maxVms) = ix
  · refine .inr ⟨by rw [hjx, heq], heq ▸ hleft, hinit, ?_⟩
    rw [hfailover, ← heq]
    simp [countAttempt, Hyp.setBackup]
  · -- another VM's attempt
    have hne : ix.val ≠ j := fun hval => heq (Fin.ext hval.symm)
    refine .inl ⟨hinit, ?_, ?_, fun hsunk => ?_⟩
    · rw [hfailover]
      simp [countAttempt, Hyp.setBackup, Ne.symm heq]
    · rw [vcpusAt, vcpusAt, hb.touches.vms _ hne]
    · rw [Sunk, hb.touches.levels _ hne, stateAt, hb.touches.vms _ hne]
      exact hsunk

/-- A failover spends an attempt of its own VM only. -/
theorem failover_spends (he : Enrolled ix h)
    (hrun : failoverTrigger h id = some (e, h') ∨ failoverOnQuarantine h id = some (e, h')) :
    Enrolled ix h' ∧ (Kept ix h h' ∨ idx id = some ix ∧ Ventured ix h h') := by
  rcases failover_attempts hrun with rfl | ⟨jx, j, hjx, hfound, -, hdo⟩
  · exact ⟨he, .inl (.refl ix h')⟩
  · exact doFailover_spends he hfound hjx hdo

/-- So does a quarantine. -/
theorem trustQuarantine_spends (he : Enrolled ix h) (hrun : trustQuarantine h id = some (e, h')) :
    Enrolled ix h' ∧ (Kept ix h h' ∨
      (idx id = some ix ∧ (h.trust.vm ix).level.rank < TrustLevel.quarantine.rank) ∧
        Ventured ix h h') := by
  rcases trustQuarantine_cases he.standing.roster hrun with ⟨-, rfl⟩ | ⟨j, e', hfound, hlow, hfail⟩
  · exact ⟨he, .inl (.refl ix h')⟩
  obtain ⟨heq, hkept⟩ := quarantined_kept he hfound hlow
  obtain ⟨he', hspend⟩ := failover_spends heq (.inr hfail)
  refine ⟨he', ?_⟩
  rcases hspend with hk | ⟨hix, hv⟩
  · exact .inl (hkept.trans hk)
  · refine .inr ⟨⟨hix, ?_⟩, hkept.ventured hv⟩
    obtain ⟨rfl, hj, -⟩ := he.standing.roster.vmById_eq hfound
    obtain rfl : (⟨j, hj⟩ : Fin maxVms) = ix := Option.some.inj ((idx_ofNat hj).symm.trans hix)
    rw [← levelAt_fin]
    exact hlow

/-! ## The other operations -/

theorem trustReportFault_spends {faultType : U32} {detail : U64} (he : Enrolled ix h)
    (hrun : trustReportFault h id faultType detail = some (e, h')) :
    Enrolled ix h' ∧ (Kept ix h h' ∨ (idx id = some ix ∧ FaultDue h ix) ∧ Ventured ix h h') := by
  have hrec : ∀ jx, Enrolled ix (recordFault h jx faultType detail) ∧
      Kept ix h (recordFault h jx faultType detail) := by
    intro jx
    have hb := recordFault_becomes h jx faultType detail
    refine ⟨he.of_becomes hb, kept_of_becomes hb (recordFault_idle h jx faultType detail) ?_⟩
    intro heq hsunk
    rw [heq]
    exact hsunk
  rcases trustReportFault_cases he.standing.initialized hrun with
    ⟨-, rfl | ⟨jx, hjx, rfl | ⟨htrusted, rfl⟩⟩⟩ | ⟨jx, e', hjx, hdue, hq⟩
  · exact ⟨he, .inl (.refl ix h')⟩
  · exact ⟨(hrec jx).1, .inl (hrec jx).2⟩
  · -- a trusted VM is degraded, so it was not sunk
    obtain ⟨he₁, hk₁⟩ := hrec jx
    have hlevel := level_recordFault h jx faultType detail
    generalize recordFault h jx faultType detail = g at he₁ hk₁ hlevel ⊢
    rw [idx_eq_some hjx]
    have hset := trustSet_becomes he₁.standing.initialized jx.isLt .degraded
    refine ⟨he₁.of_becomes hset, .inl (hk₁.trans (kept_of_becomes hset
      (onlyVse_trustSet g _ .degraded).idle fun heq hsunk => ?_))⟩
    have hlevel' := hsunk.1
    rw [← heq, levelAt_fin, hlevel, htrusted] at hlevel'
    cases hlevel'
  · obtain ⟨he₁, hk₁⟩ := hrec jx
    obtain ⟨he', hspend⟩ := trustQuarantine_spends he₁ hq
    refine ⟨he', ?_⟩
    rcases hspend with hk | ⟨⟨hix, -⟩, hv⟩
    · exact .inl (hk₁.trans hk)
    · obtain rfl : jx = ix := Option.some.inj (hjx.symm.trans hix)
      exact .inr ⟨⟨hix, hdue⟩, hk₁.ventured hv⟩

/-- And a notification, through its quarantine. -/
theorem idsNotifyFault_spends {faultType : U32} {detail : U64} (he : Enrolled ix h)
    (hrun : idsNotifyFault h id faultType detail = some h') :
    Enrolled ix h' ∧ (Kept ix h h' ∨ (idx id = some ix ∧ StormNow h ix) ∧ Ventured ix h h') := by
  have hsilent : ∀ {g g'}, Enrolled ix g → Silent g g' → Enrolled ix g' ∧ Kept ix g g' :=
    fun hg hs => ⟨hg.of_same hs.sameVms, kept_of_same hs.sameVms hs.only.idle⟩
  rcases idsNotifyFault_cases he.standing.initialized hrun with
    ⟨-, hs⟩ | ⟨jx, g, g', e, hjx, hnow, -, hbefore, hq, hafter⟩
  · exact ⟨(hsilent he hs).1, .inl (hsilent he hs).2⟩
  obtain ⟨hg, hk⟩ := hsilent he hbefore
  obtain ⟨hg', hspend⟩ := trustQuarantine_spends hg hq
  obtain ⟨he', hk'⟩ := hsilent hg' hafter
  refine ⟨he', ?_⟩
  rcases hspend with hkept | ⟨⟨hix, -⟩, hv⟩
  · exact .inl ((hk.trans hkept).trans hk')
  · obtain rfl : jx = ix := Option.some.inj (hjx.symm.trans hix)
    exact .inr ⟨⟨hix, hnow⟩, (hk.ventured hv).kept hk'⟩

omit P in
/-- Promotion leaves a sunk VM alone. -/
theorem Promoted.kept (he : Enrolled ix h) (hp : Promoted h h') (honly : OnlyVse h h') :
    Enrolled ix h' ∧ Kept ix h h' := by
  have hvms : h'.vms = h.vms := honly.eq Hyp.vms fun _ _ _ _ _ => rfl
  refine ⟨⟨hp.1, by rw [hvms]; exact he.vm⟩, ?_⟩
  refine ⟨by rw [honly.idle.failover], by rw [honly.idle.failover], honly.vcpusAt ix, ?_⟩
  intro hsunk
  rw [Sunk, honly.stateAt]
  refine ⟨?_, hsunk.2⟩
  rcases hp.2 ix with heq | ⟨hdegraded, -⟩
  · rw [heq]
    exact hsunk.1
  · rw [hsunk.1] at hdegraded
    cases hdegraded

omit P in
/-- A restore spends nothing. -/
theorem trustRestore_kept (he : Enrolled ix h) (id : U32) :
    Enrolled ix (trustRestore h id).2 ∧ Kept ix h (trustRestore h id).2 := by
  rcases trustRestore_cases he.standing.roster he.standing.initialized id with
    heq | ⟨j, g, hfound, hlevel, honly, hb, heq⟩
  · rw [heq]
    exact ⟨he, .refl ix h⟩
  obtain ⟨-, -, vm, hvm⟩ := he.standing.roster.vmById_eq hfound
  have hnot : j = ix → ¬ Sunk ix h := by
    intro heq hsunk
    rw [heq, hsunk.1] at hlevel
    cases hlevel
  have hkeep : ∀ {g' l s}, Becomes j h g' l s → Idle h g' → Enrolled ix g' ∧ Kept ix h g' :=
    fun hb' hidle => ⟨he.of_becomes hb', kept_of_becomes hb' hidle
      fun hj hsunk => absurd hsunk (hnot hj)⟩
  rw [heq]
  split
  · obtain ⟨vm', hvm', -⟩ := exists_vm_of_state (hb.state.trans (stateAt_of_vm hvm))
    exact hkeep (hb.trans (vmResume_becomes hvm')) (honly.idle.trans (vmResume_idle g j))
  · exact hkeep hb honly.idle

omit P in
/-- A lifecycle call of a guest spends nothing, and it leaves a stopped VM
stopped. -/
theorem onVm_kept {f : Hyp → ℕ → Err × Hyp} (he : Enrolled ix h) (hidle : ∀ j, Idle h (f h j).2)
    (hf : ∀ j vm, h.vms[j]? = some vm → ∃ s, Becomes j h (f h j).2 (levelAt h j) s ∧
      (vm.state = .stopped → s = some .stopped)) :
    Enrolled ix (Hypercall.onVm f h id).2 ∧ Kept ix h (Hypercall.onVm f h id).2 := by
  unfold Hypercall.onVm
  split
  · exact ⟨he, .refl ix h⟩
  · rename_i j hfound
    obtain ⟨-, -, vm, hvm⟩ := he.standing.roster.vmById_eq hfound
    obtain ⟨s, hb, hstopped⟩ := hf j vm hvm
    refine ⟨he.of_becomes hb, kept_of_becomes hb (hidle j) fun hj hsunk => ?_⟩
    have hst := hsunk.2
    rw [← hj, stateAt_of_vm hvm, Option.some_inj] at hst
    rw [hj]
    exact ⟨hsunk.1, hstopped hst⟩

variable {backupPa backupSize entryIpa livePa : U64}

omit P in
theorem failoverRegister_kept (he : Enrolled ix h)
    (hother : idx id ≠ some ix) :
    Enrolled ix (failoverRegister h id backupPa livePa backupSize entryIpa).2 ∧
      Kept ix h (failoverRegister h id backupPa livePa backupSize entryIpa).2 := by
  refine ⟨he.of_same (sameVms_failoverRegister ..), ?_⟩
  unfold failoverRegister
  split
  · exact .refl ix h
  rename_i jx hjx
  have hne : ix ≠ jx := fun heq => hother (by rw [heq]; exact hjx)
  split
  · exact .refl ix h
  split
  · exact .refl ix h
  split
  · exact .refl ix h
  · exact ⟨rfl, by simp [Hyp.setBackup, hne], rfl, fun hsunk => hsunk⟩

variable {op : TrustOp}

/-- **One operation**: it spends nothing on the VM, or it is a request that
spends one attempt. -/
theorem trustStep_spends (he : Enrolled ix h) (honce : ¬ Registers ix op)
    (hrun : trustStep h op = some h') :
    Enrolled ix h' ∧ (Kept ix h h' ∨ Requests h ix op ∧ Ventured ix h h') := by
  have hkept : ∀ {g}, Enrolled ix g ∧ Kept ix h g →
      Enrolled ix g ∧ (Kept ix h g ∨ Requests h ix op ∧ Ventured ix h g) :=
    fun hg => ⟨hg.1, .inl hg.2⟩
  cases trustStep_effect hrun with
  | reportFault hcall => exact trustReportFault_spends he hcall
  | quarantine hcall => exact trustQuarantine_spends he hcall
  | revoke vmId =>
    refine hkept ?_
    cases hfound : vmById h vmId with
    | none =>
      rw [trustRevoke_notfound hfound]
      exact ⟨he, .refl ix h⟩
    | some j => exact trustRevoke_kept he hfound
  | restore vmId => exact hkept (trustRestore_kept he vmId)
  | autoPromoteTick nowUs =>
    exact hkept ((trustAutoPromoteTick_promoted he.standing nowUs).kept he
      (onlyVse_autoPromoteTick h nowUs))
  | notifyFault hcall => exact idsNotifyFault_spends he hcall
  | poll => exact hkept ((idsPoll_promoted he.standing).kept he (onlyVse_idsPoll h))
  | failoverRegister vmId backupPa livePa backupSize entryIpa =>
    exact hkept (failoverRegister_kept he honce)
  | failoverTrigger hcall => exact failover_spends he (.inl hcall)
  | failoverOnQuarantine hcall => exact failover_spends he (.inr hcall)
  | hvcStop vmId =>
    exact hkept (onVm_kept he (vmStop_idle h) fun j vm hvm =>
      ⟨_, (vmStop_becomes hvm).2, fun _ => rfl⟩)
  | hvcSuspend vmId =>
    refine hkept (onVm_kept he (vmSuspend_idle h) fun j vm hvm =>
      ⟨_, vmSuspend_becomes hvm, fun hst => ?_⟩)
    rw [hst]
    rfl
  | hvcResume vmId =>
    refine hkept (onVm_kept he (vmResume_idle h) fun j vm hvm =>
      ⟨_, vmResume_becomes hvm, fun hst => ?_⟩)
    rw [hst]
    rfl

/-- A VM without a backup is not given one. -/
theorem trustStep_alone (he : Enrolled ix h) (honce : ¬ Registers ix op)
    (halone : ¬ HasBackup h ix) (hrun : trustStep h op = some h') : ¬ HasBackup h' ix := by
  intro hhas
  obtain ⟨-, hkept | ⟨-, hspent⟩⟩ := trustStep_spends he honce hrun
  · rw [HasBackup, hkept.initialized, hkept.backup] at hhas
    exact halone hhas
  · rw [HasBackup, hspent.initialized, hspent.backup] at hhas
    exact halone hhas

/-! ## A request when nothing is left -/

/-- The VM has a backup that a quarantine uses. -/
structure Guarantee (ix : Fin maxVms) (h : Hyp) : Prop where
  enrolled : Enrolled ix h
  backup : HasBackup h ix
  critical : (h.failover.backup ix).critical = true

omit P in
theorem Guarantee.vmById (hg : Guarantee ix h) (hix : idx id = some ix) :
    vmById h id = some ix.val := by
  obtain ⟨vm, hvm⟩ := hg.enrolled.vm
  rw [idx_eq_some hix]
  exact hg.enrolled.standing.roster.vmById_of_vm hvm

omit P in
theorem Guarantee.of_kept (hg : Guarantee ix h) (he : Enrolled ix h') (hk : Kept ix h h') :
    Guarantee ix h' := by
  refine ⟨he, ⟨hk.initialized.trans hg.backup.1, ?_⟩, ?_⟩
  · rw [hk.backup]
    exact hg.backup.2
  · rw [hk.backup]
    exact hg.critical

/-- **Without attempts left**, a failover sinks the VM. -/
theorem doFailover_sinks (hg : Guarantee ix h) (hix : idx id = some ix) (hspent : Spent h ix)
    (hrun : doFailover h id ix = some (e, h')) : Sunk ix h' := by
  have hfound := hg.vmById hix
  rcases doFailover_cases hg.enrolled.standing.roster hg.enrolled.standing.initialized hfound hrun
    with ⟨-, rfl⟩ | ⟨hleft, -⟩
  · exact sunk_of_revoke hg.enrolled hfound
  · exact absurd hspent hleft

theorem failoverOnQuarantine_sinks (hg : Guarantee ix h) (hix : idx id = some ix)
    (hspent : Spent h ix) (hrun : failoverOnQuarantine h id = some (e, h')) : Sunk ix h' := by
  rcases failoverOnQuarantine_cases hrun with ⟨hnone, -⟩ | ⟨jx, j, hjx, -, -, -, hdo⟩
  · exact absurd ⟨hg.backup, hg.critical⟩ (hnone ix ix.val hix (hg.vmById hix))
  · obtain rfl : jx = ix := Option.some.inj (hjx.symm.trans hix)
    exact doFailover_sinks hg hix hspent hdo

theorem failoverTrigger_sinks (hg : Guarantee ix h) (hix : idx id = some ix)
    (hspent : Spent h ix) (hrun : failoverTrigger h id = some (e, h')) : Sunk ix h' := by
  rcases failoverTrigger_cases hrun with ⟨hnone, -⟩ | ⟨jx, j, hjx, -, -, hdo⟩
  · exact absurd hg.backup (hnone ix ix.val hix (hg.vmById hix))
  · obtain rfl : jx = ix := Option.some.inj (hjx.symm.trans hix)
    exact doFailover_sinks hg hix hspent hdo

/-- So does a quarantine. -/
theorem trustQuarantine_sinks (hg : Guarantee ix h) (hix : idx id = some ix)
    (hlow : (h.trust.vm ix).level.rank < TrustLevel.quarantine.rank) (hspent : Spent h ix)
    (hrun : trustQuarantine h id = some (e, h')) : Sunk ix h' := by
  have hfound := hg.vmById hix
  rw [← levelAt_fin] at hlow
  rcases trustQuarantine_cases hg.enrolled.standing.roster hrun with
    ⟨hblocked, -⟩ | ⟨j, e', hj, -, hfail⟩
  · exact absurd hlow (hblocked ix.val hfound)
  · obtain rfl : j = ix.val := Option.some.inj (hj.symm.trans hfound)
    obtain ⟨he, hk⟩ := quarantined_kept hg.enrolled hfound hlow
    refine failoverOnQuarantine_sinks (hg.of_kept he hk) hix ?_ hfail
    rw [Spent, hk.backup]
    exact hspent

/-- **A request after the last attempt sinks the VM.** -/
theorem request_sinks (hg : Guarantee ix h) (hspent : Spent h ix)
    (hreq : Requests h ix op) (hrun : trustStep h op = some h') : Sunk ix h' := by
  cases trustStep_effect hrun with
  | failoverTrigger hcall => exact failoverTrigger_sinks hg hreq hspent hcall
  | failoverOnQuarantine hcall => exact failoverOnQuarantine_sinks hg hreq hspent hcall
  | quarantine hcall => exact trustQuarantine_sinks hg hreq.1 hreq.2 hspent hcall
  | @reportFault vmId faultType detail e g hcall =>
    rcases trustReportFault_cases hg.enrolled.standing.initialized hcall with
      ⟨hnot, -⟩ | ⟨jx, e', hjx, hdue, hq⟩
    · exact absurd hreq.2 (hnot ix hreq.1)
    · obtain rfl : jx = ix := Option.some.inj (hjx.symm.trans hreq.1)
      have hrec := hg.enrolled.of_becomes (recordFault_becomes h jx faultType detail)
      refine trustQuarantine_sinks ⟨hrec, hg.backup, hg.critical⟩ hjx ?_ hspent hq
      rw [level_recordFault]
      exact hdue.2
  | notifyFault hcall =>
    rcases idsNotifyFault_cases hg.enrolled.standing.initialized hcall with
      ⟨hnot, -⟩ | ⟨jx, g, g', e, hjx, hnow, -, hbefore, hq, hafter⟩
    · exact absurd hreq.2 (hnot ix hreq.1)
    · obtain rfl : jx = ix := Option.some.inj (hjx.symm.trans hreq.1)
      have hk : Kept jx h g := kept_of_same hbefore.sameVms hbefore.only.idle
      have hgg := hg.of_kept (hg.enrolled.of_same hbefore.sameVms) hk
      have hsunk := trustQuarantine_sinks hgg hjx (by rw [hbefore.trust]; exact hnow.2.2)
        (by rw [Spent, hk.backup]; exact hspent) hq
      have hk' : Kept jx g' h' := kept_of_same hafter.sameVms hafter.only.idle
      exact hk'.sunk hsunk
  | revoke | restore | autoPromoteTick | poll | failoverRegister | hvcStop | hvcSuspend
  | hvcResume => exact hreq.elim

/-! ## Runs -/

/-- The attempts spent on a VM. -/
def attempts (h : Hyp) (ix : Fin maxVms) : ℕ := (h.failover.backup ix).failoverCount.toNat

/-- **The restarts of a VM** over a run. -/
def restarts (i : ℕ) : Hyp → List TrustOp → ℕ
  | _, [] => 0
  | h, op :: ops =>
    match trustStep h op with
    | none => 0
    | some h' => (if Restarted i h h' then 1 else 0) + restarts i h' ops

/-- A step leaves the count, or it was below the maximum and is one more;
without a request the VM is not restarted. -/
theorem trustStep_attempts (hg : Guarantee ix h) (honce : ¬ Registers ix op)
    (hle : attempts h ix ≤ failoverMaxAttempts) (hrun : trustStep h op = some h') :
    Guarantee ix h' ∧ attempts h' ix ≤ failoverMaxAttempts ∧
      attempts h ix + (if Restarted ix h h' then 1 else 0) ≤ attempts h' ix := by
  obtain ⟨he, hk | ⟨-, hv⟩⟩ := trustStep_spends hg.enrolled honce hrun
  · have hsame : attempts h' ix = attempts h ix := by rw [attempts, attempts, hk.backup]
    have hnot : ¬ Restarted ix h h' := fun hrestarted => hrestarted.1 hk.vcpus
    refine ⟨hg.of_kept he hk, ?_, ?_⟩
    · rw [hsame]
      exact hle
    · rw [hsame, if_neg hnot]
      exact Nat.le_refl _
  · have hleft : attempts h ix < failoverMaxAttempts := Nat.not_le.mp hv.left
    have hmax : failoverMaxAttempts = 3 := rfl
    have hone : attempts h' ix = attempts h ix + 1 := by
      rw [attempts, attempts, hv.backup, BitVec.toNat_add]
      rw [attempts] at hleft
      have hsmall : (1 : U32).toNat = 1 := rfl
      rw [hsmall]
      omega
    refine ⟨⟨he, ⟨hv.initialized.trans hg.backup.1, ?_⟩, ?_⟩, by omega, ?_⟩
    · rw [hv.backup]
      exact hg.backup.2
    · rw [hv.backup]
      exact hg.critical
    · rw [hone]
      split <;> omega

/-- **Every restart is paid for.** -/
theorem restarts_le_attempts {ops : List TrustOp} {g : Hyp} (hg : Guarantee ix h)
    (honce : ∀ op ∈ ops, ¬ Registers ix op) (hle : attempts h ix ≤ failoverMaxAttempts)
    (hexec : exec trustStep h ops = some g) :
    Guarantee ix g ∧ attempts g ix ≤ failoverMaxAttempts ∧
      attempts h ix + restarts ix h ops ≤ attempts g ix := by
  induction ops generalizing h with
  | nil =>
    obtain rfl := Option.some.inj hexec
    exact ⟨hg, hle, Nat.le_refl _⟩
  | cons op ops ih =>
    obtain ⟨h', hrun, hexec⟩ := Option.bind_eq_some_iff.mp hexec
    obtain ⟨hg', hle', hpaid⟩ := trustStep_attempts hg (honce op List.mem_cons_self) hle hrun
    obtain ⟨hend, hmax, hrest⟩ :=
      ih hg' (fun op' hop => honce op' (List.mem_cons_of_mem op hop)) hle' hexec
    refine ⟨hend, hmax, ?_⟩
    rw [restarts, hrun]
    dsimp only
    omega

omit P in
/-- A registration that is accepted. -/
theorem failoverRegister_ok (hix : idx id = some ix)
    (hreg : failoverRegister h id backupPa livePa backupSize entryIpa = (.ok, h')) :
    h.failover.initialized = true ∧ backupPa ≠ 0 ∧ backupSize ≠ 0 ∧ (∃ i, vmById h id = some i) ∧
      h' = h.setBackup ix ⟨true, backupPa, livePa, backupSize, entryIpa, true, 0⟩ := by
  unfold failoverRegister at hreg
  rw [hix] at hreg
  dsimp only at hreg
  split at hreg
  · cases hreg
  rename_i hinit
  split at hreg
  · cases hreg
  rename_i hzero
  rw [not_or] at hzero
  split at hreg
  · cases hreg
  rename_i hfound
  rw [Option.isNone_iff_eq_none, ← ne_eq, Option.ne_none_iff_exists'] at hfound
  obtain ⟨-, rfl⟩ := Prod.mk.inj hreg
  exact ⟨by simpa using hinit, hzero.1, hzero.2, hfound, rfl⟩

omit P in
/-- After a registration no attempt is spent. -/
theorem guarantee_of_register (hs : Standing h)
    (hix : idx id = some ix)
    (hreg : failoverRegister h id backupPa livePa backupSize entryIpa = (.ok, h')) :
    Guarantee ix h' ∧ attempts h' ix = 0 := by
  obtain ⟨hinit, -, -, ⟨i, hfound⟩, rfl⟩ := failoverRegister_ok hix hreg
  obtain ⟨rfl, hi, hvm⟩ := hs.roster.vmById_eq hfound
  obtain rfl : (⟨i, hi⟩ : Fin maxVms) = ix := Option.some.inj ((idx_ofNat hi).symm.trans hix)
  refine ⟨⟨⟨hs.of_same ⟨rfl, rfl, rfl, rfl⟩, hvm⟩, ⟨by simpa [Hyp.setBackup] using hinit, ?_⟩, ?_⟩, ?_⟩
  · simp [Hyp.setBackup]
  · simp [Hyp.setBackup]
  · simp [attempts, Hyp.setBackup]

/-- **The failover budget.** Once a VM is registered for failover, whatever
operations follow that do not register it again: it is restarted at most
`FAILOVER_MAX_ATTEMPTS` times, and after that the first request for a
failover leaves it revoked and stopped, then and in every later state. -/
theorem failover_budget {ops : List TrustOp}
    (hs : Standing h) (hix : idx id = some ix)
    (hreg : failoverRegister h id backupPa livePa backupSize entryIpa = (.ok, h'))
    (honce : ∀ op ∈ ops, ¬ Registers ix op) :
    (∀ g, exec trustStep h' ops = some g → restarts ix h' ops ≤ failoverMaxAttempts) ∧
    ∀ pre op suf g g', ops = pre ++ op :: suf → exec trustStep h' pre = some g →
      restarts ix h' pre = failoverMaxAttempts → Requests g ix op → trustStep g op = some g' →
      Throughout trustStep (fun k => levelAt k ix = .revoked ∧ stateAt k ix = some .stopped)
        g' suf := by
  obtain ⟨hg, hzero⟩ := guarantee_of_register hs hix hreg
  have hle : attempts h' ix ≤ failoverMaxAttempts := by rw [hzero]; exact Nat.zero_le _
  refine ⟨fun g hexec => ?_, ?_⟩
  · obtain ⟨-, hmax, hpaid⟩ := restarts_le_attempts hg honce hle hexec
    omega
  rintro pre op suf g g' rfl hexec hall hreq hrun
  have hpre : ∀ op ∈ pre, ¬ Registers ix op := fun o ho => honce o (List.mem_append_left _ ho)
  have hop : ¬ Registers ix op := honce op (List.mem_append_right _ List.mem_cons_self)
  have hsuf : ∀ op ∈ suf, ¬ Registers ix op :=
    fun o ho => honce o (List.mem_append_right _ (List.mem_cons_of_mem op ho))
  obtain ⟨hgg, -, hpaid⟩ := restarts_le_attempts hg hpre hle hexec
  have hspent : Spent g ix := by
    change failoverMaxAttempts ≤ attempts g ix
    omega
  -- nothing is left to spend, and that stays so
  have hkeep : ∀ k op k', (Guarantee ix k ∧ Spent k ix) → ¬ Registers ix op →
      trustStep k op = some k' → (Guarantee ix k' ∧ Spent k' ix) ∧ Kept ix k k' := by
    rintro k op k' ⟨hk, hks⟩ honce hstep
    obtain ⟨he, hkept | ⟨-, hv⟩⟩ := trustStep_spends hk.enrolled honce hstep
    · refine ⟨⟨hk.of_kept he hkept, ?_⟩, hkept⟩
      rw [Spent, hkept.backup]
      exact hks
    · exact absurd hks hv.left
  have hlater : ∀ k op k', ((Guarantee ix k ∧ Spent k ix) ∧ Sunk ix k) → ¬ Registers ix op →
      trustStep k op = some k' → (Guarantee ix k' ∧ Spent k' ix) ∧ Sunk ix k' := by
    rintro k op k' ⟨hk, hsunk⟩ honce hstep
    obtain ⟨hk', hkept⟩ := hkeep k op k' hk honce hstep
    exact ⟨hk', hkept.sunk hsunk⟩
  have hsunk : Sunk ix g' := request_sinks hgg hspent hreq hrun
  exact throughout_of_guarded hlater (fun _ hk => hk.2)
    ⟨(hkeep g op g' ⟨hgg, hspent⟩ hop hrun).1, hsunk⟩ (guarded_of_mem hsuf g')

end Tables

/-- The lone RTOS is restarted three times. Then it is quarantined, and a
guest tries to resume it. -/
theorem failover_budget_loneRtos :
    letI := Stage2.poolAt2M
    ∃ h, failoverRegister loneRtos 1 0x50000000 0 0x1000 0 = (.ok, h) ∧
      restarts 0 h [.failoverTrigger 1, .failoverTrigger 1, .failoverTrigger 1] = 3 ∧
      ∃ g, exec trustStep h [.failoverTrigger 1, .failoverTrigger 1, .failoverTrigger 1] = some g ∧
        ∃ g', trustStep g (.quarantine 1) = some g' ∧
          Throughout trustStep (fun k => levelAt k 0 = .revoked ∧ stateAt k 0 = some .stopped) g'
            [.hvcResume 1] := by
  let _ := Stage2.poolAt2M
  have hs : Standing loneRtos := standing_of_one rfl rfl (by decide) rfl
  have hix : idx 1 = some (⟨0, by decide⟩ : Fin maxVms) := rfl
  have hreg : failoverRegister loneRtos 1 0x50000000 0 0x1000 0 = (.ok, _) := rfl
  have honce : ∀ op ∈ ([.failoverTrigger 1, .failoverTrigger 1, .failoverTrigger 1, .quarantine 1,
      .hvcResume 1] : List TrustOp), ¬ Registers ⟨0, by decide⟩ op := by
    simp [Registers]
  have hbudget := (failover_budget hs hix hreg honce).2
    [.failoverTrigger 1, .failoverTrigger 1, .failoverTrigger 1] (.quarantine 1) [.hvcResume 1]
  exact ⟨_, hreg, rfl, _, rfl, _, rfl, hbudget _ _ rfl rfl rfl ⟨rfl, by decide⟩ rfl⟩

end Vse

end HypervisorBase
