import HypervisorBase.Vse.Operations
/-!
# Trust levels over a run

`trust.c` lets a level improve in three ways: `trust_restore` brings a
quarantined VM back to degraded, `trust_auto_promote_tick` a degraded one
back to trusted, and a failover restarts a quarantined VM as degraded. A
revoked VM is terminal. Neither `failover_trigger` nor
`failover_on_quarantine` looks at the level, though, so a revoked VM with a
backup and attempts left is restarted as well. `levels_documented` says
that nothing else goes wrong.
-/

namespace HypervisorBase

namespace Vse

variable {h h' h'' : Hyp} {i : ℕ} {l : TrustLevel} {s : Option VmState} {id : U32} {e : Err}

/-- The table of VMs is in order and the trust engine works. -/
structure Standing (h : Hyp) : Prop where
  roster : Roster h
  initialized : h.trust.initialized = true

theorem Standing.of_becomes (hs : Standing h) (hb : Becomes i h h' l s) : Standing h' :=
  ⟨hs.roster.of_touches hb.touches, hb.touches.initialized.trans hs.initialized⟩

theorem Standing.of_same (hs : Standing h) (hsame : SameVms h h') : Standing h' :=
  hs.of_becomes (hsame.becomes 0)

theorem Standing.of_onlyVse (hs : Standing h) (a : OnlyVse h h') : Standing h' := by
  have hvms : h'.vms = h.vms := a.eq Hyp.vms fun _ _ _ _ _ => rfl
  refine ⟨⟨?_, ?_, fun i => ?_⟩, a.initialized.trans hs.initialized⟩
  · rw [hvms]
    exact hs.roster.length_le
  · rw [hvms]
    exact hs.roster.ids
  · rw [a.stateAt]
    exact hs.roster.alive i

/-- Two VMs found under one id are the same. -/
theorem eq_of_id {j : ℕ} (hi : i < maxVms) (hj : j < maxVms)
    (heq : BitVec.ofNat 32 (i + 1) = BitVec.ofNat 32 (j + 1)) : i = j := by
  have hidx := idx_ofNat hi
  rw [heq, idx_ofNat hj, Option.some_inj] at hidx
  exact (congrArg Fin.val hidx).symm

/-! ## Recoveries -/

/-- **The documented recoveries**: the operation, the VM, its state
afterwards and the two levels. A failover counts if the VM then runs. -/
inductive Recovers : TrustOp → ℕ → Option VmState → TrustLevel → TrustLevel → Prop
  | restore (i : ℕ) (s : Option VmState) :
      Recovers (.restore (BitVec.ofNat 32 (i + 1))) i s .quarantine .degraded
  | tick (nowUs : U64) (i : ℕ) (s : Option VmState) :
      Recovers (.autoPromoteTick nowUs) i s .degraded .trusted
  | poll (i : ℕ) (s : Option VmState) : Recovers .poll i s .degraded .trusted
  | trigger (i : ℕ) :
      Recovers (.failoverTrigger (BitVec.ofNat 32 (i + 1))) i (some .running) .quarantine .degraded
  | onQuarantine (i : ℕ) :
      Recovers (.failoverOnQuarantine (BitVec.ofNat 32 (i + 1))) i (some .running) .quarantine
        .degraded

variable {op : TrustOp}

theorem Recovers.ne_revoked {l l' : TrustLevel} (hrec : Recovers op i s l l') :
    l ≠ .revoked := by
  cases hrec <;> decide

/-- **A level falls only by a documented recovery.** -/
def Documented (h : Hyp) (op : TrustOp) (h' : Hyp) : Prop :=
  ∀ i, (levelAt h' i).rank < (levelAt h i).rank →
    Recovers op i (stateAt h' i) (levelAt h i) (levelAt h' i)

/-- No level falls. -/
def NoFall (h h' : Hyp) : Prop := ∀ i, (levelAt h i).rank ≤ (levelAt h' i).rank

theorem NoFall.documented (hn : NoFall h h') (op : TrustOp) : Documented h op h' :=
  fun i hlt => absurd hlt (Nat.not_lt.mpr (hn i))

theorem noFall_of_becomes (hb : Becomes i h h' l s) (hle : (levelAt h i).rank ≤ l.rank) :
    NoFall h h' := by
  intro j
  by_cases hj : j = i
  · rw [hj, hb.level]
    exact hle
  · exact Nat.le_of_eq (by rw [hb.touches.levels j hj])

theorem noFall_of_same (hsame : SameVms h h') : NoFall h h' :=
  noFall_of_becomes (hsame.becomes 0) (Nat.le_refl _)

theorem NoFall.trans (a : NoFall h h') (b : NoFall h' h'') : NoFall h h'' :=
  fun i => Nat.le_trans (a i) (b i)

theorem rank_le_revoked (l : TrustLevel) : l.rank ≤ TrustLevel.revoked.rank := by
  cases l <;> decide

theorem eq_revoked_of_rank {l : TrustLevel} (hle : TrustLevel.revoked.rank ≤ l.rank) :
    l = .revoked := by
  cases l with
  | revoked => rfl
  | unknown | trusted | degraded | quarantine => exact absurd hle (by decide)

/-- **A documented step keeps a revoked VM revoked.** -/
theorem Documented.revoked (hd : Documented h op h')
    (hrev : levelAt h i = .revoked) : levelAt h' i = .revoked := by
  by_contra hne
  have hlt : (levelAt h' i).rank < (levelAt h i).rank := by
    rw [hrev]
    exact Nat.not_le.mp fun hle => hne (eq_revoked_of_rank hle)
  exact (hd i hlt).ne_revoked hrev

/-! ## Restoring and promoting -/

/-- The only levels that change go from degraded to trusted. -/
def Promoted (h h' : Hyp) : Prop := Standing h' ∧ ∀ i,
  levelAt h' i = levelAt h i ∨ levelAt h i = .degraded ∧ levelAt h' i = .trusted

theorem Promoted.trans (a : Promoted h h') (b : Promoted h' h'') : Promoted h h'' := by
  refine ⟨b.1, fun i => ?_⟩
  rcases b.2 i with hb | ⟨hb, hb'⟩
  · rw [hb]
    exact a.2 i
  · rcases a.2 i with ha | ⟨-, ha⟩
    · exact .inr ⟨ha.symm.trans hb, hb'⟩
    · rw [ha] at hb
      cases hb

theorem promoted_of_same (hs : Standing h) (hsame : SameVms h h') : Promoted h h' :=
  ⟨hs.of_same hsame, fun i => .inl (hsame.becomes i).level⟩

/-- A promotion lifts one VM from degraded to trusted. -/
theorem promoteOne_promoted (hs : Standing h) (nowUs : U64) (n : U32) (ix : Fin maxVms) :
    Promoted h (promoteOne nowUs (n, h) ix).2 := by
  refine promoteOne_keeps (R := Promoted h) (promoted_of_same hs (.refl h)) fun hdegraded _ _ => ?_
  have hclear := becomes_setTrust ix { h.trust.vm ix with faultCount := 0 } (.refl h)
  have hset := hclear.trans (trustSet_becomes
    (hclear.touches.initialized.trans hs.initialized) ix.isLt .trusted)
  refine ⟨hs.of_becomes hset, fun j => ?_⟩
  by_cases hj : j = ix.val
  · rw [hj, levelAt_fin h ix]
    exact .inr ⟨hdegraded, hset.level⟩
  · exact .inl (hset.touches.levels j hj)

theorem trustAutoPromoteTick_promoted (hs : Standing h) (nowUs : U64) :
    Promoted h (trustAutoPromoteTick h nowUs).2 :=
  trustAutoPromoteTick_keeps (R := Promoted h) (promoted_of_same hs (.refl h))
    fun n _ ix hg => hg.trans (promoteOne_promoted hg.1 nowUs n ix)

theorem idsPoll_promoted (hs : Standing h) : Promoted h (idsPoll h).2 :=
  idsPoll_keeps (R := Promoted h) (promoted_of_same hs (.refl h))
    (fun _ _ _ hg => hg.trans (promoted_of_same hg.1 ⟨rfl, rfl, rfl, rfl⟩))
    fun _ nowUs hg => hg.trans (trustAutoPromoteTick_promoted hg.1 nowUs)

/-- Whatever promotes may do so if it is one of the documented ways. -/
theorem Promoted.documented (hp : Promoted h h')
    (hrec : ∀ i s, Recovers op i s .degraded .trusted) : Documented h op h' := by
  intro i hlt
  rcases hp.2 i with heq | ⟨hbefore, hafter⟩
  · rw [heq] at hlt
    exact absurd hlt (Nat.lt_irrefl _)
  · rw [hbefore, hafter]
    exact hrec i _

/-- **A restore** recovers its own VM only. -/
theorem trustRestore_documented (hs : Standing h) (id : U32) :
    Standing (trustRestore h id).2 ∧ Documented h (.restore id) (trustRestore h id).2 := by
  rcases trustRestore_cases hs.roster hs.initialized id with heq | ⟨i, g, hfound, hlevel, -, hb, heq⟩
  · rw [heq]
    exact ⟨hs, NoFall.documented (fun _ => Nat.le_refl _) _⟩
  obtain ⟨rfl, -, vm, hvm⟩ := hs.roster.vmById_eq hfound
  obtain ⟨s, hrestored⟩ : ∃ s, Becomes i h (trustRestore h (BitVec.ofNat 32 (i + 1))).2
      .degraded s := by
    rw [heq]
    split
    · obtain ⟨vm', hvm', -⟩ := exists_vm_of_state (hb.state.trans (stateAt_of_vm hvm))
      have hresume := vmResume_becomes hvm'
      rw [hb.level] at hresume
      exact ⟨_, hb.trans hresume⟩
    · exact ⟨_, hb⟩
  refine ⟨hs.of_becomes hrestored, fun j hlt => ?_⟩
  by_cases hj : j = i
  · rw [hj, hlevel, hrestored.level]
    exact .restore i _
  · rw [hrestored.touches.levels j hj] at hlt
    exact absurd hlt (Nat.lt_irrefl _)

/-! ## Faults and quarantine -/

section Tables

variable [P : PtPool]

/-- **A quarantine raises the level**, also where failover restarts the VM
as degraded. -/
theorem trustQuarantine_noFall (hs : Standing h) (hrun : trustQuarantine h id = some (e, h')) :
    Standing h' ∧ NoFall h h' := by
  rcases trustQuarantine_cases hs.roster hrun with ⟨-, rfl⟩ | ⟨i, e', hfound, hlow, hfail⟩
  · exact ⟨hs, fun _ => Nat.le_refl _⟩
  obtain ⟨rfl, hi, vm, hvm⟩ := hs.roster.vmById_eq hfound
  have hq := quarantined_becomes hs.initialized hi hvm
  have hsq := hs.of_becomes hq
  have hfinal : ∀ {l s}, Becomes i h h' l s → TrustLevel.degraded.rank ≤ l.rank →
      Standing h' ∧ NoFall h h' := by
    intro l s hb hl
    have hrank : TrustLevel.quarantine.rank = TrustLevel.degraded.rank + 1 := rfl
    exact ⟨hs.of_becomes hb, noFall_of_becomes hb (by omega)⟩
  rcases failoverOnQuarantine_cases hfail with ⟨-, rfl⟩ | ⟨ix, j, -, hfound', -, -, hdo⟩
  · exact hfinal hq (by decide)
  · obtain ⟨hid, hj, -⟩ := hsq.roster.vmById_eq hfound'
    obtain rfl := eq_of_id hi hj hid
    rcases doFailover_becomes hsq.roster hsq.initialized hfound' hdo with hb | hb | hb
    · exact hfinal (hq.trans hb) (by decide)
    · rw [hq.level] at hb
      exact hfinal (hq.trans hb) (by decide)
    · exact hfinal (hq.trans hb) (by decide)

/-- **A report** never improves a level. -/
theorem trustReportFault_noFall {faultType : U32} {detail : U64} (hs : Standing h)
    (hrun : trustReportFault h id faultType detail = some (e, h')) : Standing h' ∧ NoFall h h' := by
  have hrec := fun ix => recordFault_becomes h ix faultType detail
  have hs₁ := fun ix => hs.of_becomes (hrec ix)
  rcases trustReportFault_cases hs.initialized hrun with ⟨-, rfl | ⟨ix, hix, hbooks⟩⟩ |
    ⟨ix, e', hix, -, hq⟩
  · exact ⟨hs, fun _ => Nat.le_refl _⟩
  · rcases hbooks with rfl | ⟨htrusted, rfl⟩
    · exact ⟨hs₁ ix, noFall_of_becomes (hrec ix) (Nat.le_refl _)⟩
    · rw [idx_eq_some hix]
      have hset := trustSet_becomes (hs₁ ix).initialized ix.isLt .degraded
      refine ⟨(hs₁ ix).of_becomes hset, noFall_of_becomes ((hrec ix).trans hset) ?_⟩
      rw [levelAt_fin, htrusted]
      decide
  · obtain ⟨hs₂, hno₂⟩ := trustQuarantine_noFall (hs₁ ix) hq
    exact ⟨hs₂, (noFall_of_becomes (hrec ix) (Nat.le_refl _)).trans hno₂⟩

theorem idsNotifyFault_noFall {faultType : U32} {detail : U64} (hs : Standing h)
    (hrun : idsNotifyFault h id faultType detail = some h') : Standing h' ∧ NoFall h h' := by
  rcases idsNotifyFault_cases hs.initialized hrun with
    ⟨-, hsilent⟩ | ⟨ix, g, g', e, -, -, -, hbefore, hq, hafter⟩
  · exact ⟨hs.of_same hsilent.sameVms, noFall_of_same hsilent.sameVms⟩
  · have hsg := hs.of_same hbefore.sameVms
    obtain ⟨hsg', hno⟩ := trustQuarantine_noFall hsg hq
    exact ⟨hsg'.of_same hafter.sameVms,
      ((noFall_of_same hbefore.sameVms).trans hno).trans (noFall_of_same hafter.sameVms)⟩

/-! ## Failover on request -/

/-- **A failover would restart the VM**: it has a backup and attempts
left. -/
def Restartable (h : Hyp) (ix : Fin maxVms) : Prop := HasBackup h ix ∧ ¬ Spent h ix

variable {ix : Fin maxVms}

/-- A failover never lowers the level of a VM but from quarantine, unless
it restarts a revoked one. -/
theorem doFailover_levels (hs : Standing h) (hfound : vmById h id = some i)
    (hix : idx id = some ix) (hbackup : HasBackup h ix)
    (hspare : (h.trust.vm ix).level = .revoked → ¬ Restartable h ix)
    (hrun : doFailover h id ix = some (e, h')) :
    Standing h' ∧ (NoFall h h' ∨ levelAt h i = .quarantine ∧
      Becomes i h h' .degraded (some .running)) := by
  obtain ⟨rfl, hi, -⟩ := hs.roster.vmById_eq hfound
  obtain rfl : ix = ⟨i, hi⟩ := Option.some.inj (hix.symm.trans (idx_ofNat hi))
  rw [← levelAt_fin h ⟨i, hi⟩] at hspare
  rcases doFailover_cases hs.roster hs.initialized hfound hrun with ⟨-, rfl⟩ | ⟨hleft, hattempt⟩
  · have hb := trustRevoke_becomes hs.roster hs.initialized hfound
    exact ⟨hs.of_becomes hb, .inl (noFall_of_becomes hb (rank_le_revoked _))⟩
  rcases hattempt.outcome with hb | hb
  · exact ⟨hs.of_becomes hb, .inl (noFall_of_becomes hb (Nat.le_refl _))⟩
  · refine ⟨hs.of_becomes hb, ?_⟩
    cases hlevel : levelAt h i with
    | revoked => exact absurd ⟨hbackup, hleft⟩ (hspare hlevel)
    | quarantine => exact .inr ⟨rfl, hb⟩
    | unknown | trusted | degraded =>
      exact .inl (noFall_of_becomes hb
        (Nat.le_trans (Nat.le_of_eq (congrArg TrustLevel.rank hlevel)) (by decide)))

/-- **The requests that spare revoked VMs**: no failover is asked for a
revoked VM that it would restart. -/
def SparesRevoked (h : Hyp) : TrustOp → Prop
  | .failoverTrigger vmId | .failoverOnQuarantine vmId =>
    ∀ ix, idx vmId = some ix → (h.trust.vm ix).level = .revoked → ¬ Restartable h ix
  | _ => True

/-- **A failover** recovers its own VM only. -/
theorem failover_documented (hs : Standing h)
    (hix : idx id = some ix) (hfound : vmById h id = some i) (hbackup : HasBackup h ix)
    (hspare : (h.trust.vm ix).level = .revoked → ¬ Restartable h ix)
    (hrec : id = BitVec.ofNat 32 (i + 1) → Recovers op i (some .running) .quarantine .degraded)
    (hrun : doFailover h id ix = some (e, h')) : Standing h' ∧ Documented h op h' := by
  obtain ⟨hs', hno | ⟨hlevel, hb⟩⟩ := doFailover_levels hs hfound hix hbackup hspare hrun
  · exact ⟨hs', hno.documented op⟩
  · refine ⟨hs', fun j hlt => ?_⟩
    by_cases hj : j = i
    · rw [hj, hlevel, hb.level, hb.state]
      exact hrec (hs.roster.vmById_eq hfound).1
    · rw [hb.touches.levels j hj] at hlt
      exact absurd hlt (Nat.lt_irrefl _)

omit P in
/-- A lifecycle call of a guest leaves the levels alone. -/
theorem onVm_documented {f : Hyp → ℕ → Err × Hyp} (hs : Standing h)
    (hf : ∀ i vm, h.vms[i]? = some vm → ∃ s, Becomes i h (f h i).2 (levelAt h i) s) :
    Standing (Hypercall.onVm f h id).2 ∧ Documented h op (Hypercall.onVm f h id).2 := by
  unfold Hypercall.onVm
  split
  · exact ⟨hs, NoFall.documented (fun _ => Nat.le_refl _) op⟩
  · rename_i i hfound
    obtain ⟨-, -, vm, hvm⟩ := hs.roster.vmById_eq hfound
    obtain ⟨s, hb⟩ := hf i vm hvm
    exact ⟨hs.of_becomes hb, (noFall_of_becomes hb (Nat.le_refl _)).documented op⟩

/-- **One operation.** -/
theorem trustStep_documented (hs : Standing h) (hspare : SparesRevoked h op)
    (hrun : trustStep h op = some h') : Standing h' ∧ Documented h op h' := by
  have hsame : Standing h ∧ Documented h op h := ⟨hs, NoFall.documented (fun _ => Nat.le_refl _) op⟩
  cases trustStep_effect hrun with
  | reportFault hcall =>
    obtain ⟨hs', hno⟩ := trustReportFault_noFall hs hcall
    exact ⟨hs', hno.documented _⟩
  | quarantine hcall =>
    obtain ⟨hs', hno⟩ := trustQuarantine_noFall hs hcall
    exact ⟨hs', hno.documented _⟩
  | revoke vmId =>
    cases hfound : vmById h vmId with
    | none =>
      rw [trustRevoke_notfound hfound]
      exact hsame
    | some i =>
      have hb := trustRevoke_becomes hs.roster hs.initialized hfound
      exact ⟨hs.of_becomes hb, (noFall_of_becomes hb (rank_le_revoked _)).documented _⟩
  | restore vmId => exact trustRestore_documented hs vmId
  | autoPromoteTick nowUs =>
    have hp := trustAutoPromoteTick_promoted hs nowUs
    exact ⟨hp.1, hp.documented fun i s => .tick nowUs i s⟩
  | notifyFault hcall =>
    obtain ⟨hs', hno⟩ := idsNotifyFault_noFall hs hcall
    exact ⟨hs', hno.documented _⟩
  | poll =>
    have hp := idsPoll_promoted hs
    exact ⟨hp.1, hp.documented fun i s => .poll i s⟩
  | failoverRegister vmId backupPa livePa backupSize entryIpa =>
    have hreg := sameVms_failoverRegister h vmId backupPa livePa backupSize entryIpa
    exact ⟨hs.of_same hreg, (noFall_of_same hreg).documented _⟩
  | failoverTrigger hcall =>
    rcases failoverTrigger_cases hcall with ⟨-, rfl⟩ | ⟨ix, i, hix, hfound, hbackup, hdo⟩
    · exact hsame
    · refine failover_documented hs hix hfound hbackup (hspare ix hix) (fun hid => ?_) hdo
      rw [hid]
      exact .trigger i
  | failoverOnQuarantine hcall =>
    rcases failoverOnQuarantine_cases hcall with ⟨-, rfl⟩ | ⟨ix, i, hix, hfound, hbackup, -, hdo⟩
    · exact hsame
    · refine failover_documented hs hix hfound hbackup (hspare ix hix) (fun hid => ?_) hdo
      rw [hid]
      exact .onQuarantine i
  | hvcStop vmId => exact onVm_documented hs fun i vm hvm => ⟨_, (vmStop_becomes hvm).2⟩
  | hvcSuspend vmId => exact onVm_documented hs fun i vm hvm => ⟨_, vmSuspend_becomes hvm⟩
  | hvcResume vmId => exact onVm_documented hs fun i vm hvm => ⟨_, vmResume_becomes hvm⟩

theorem doFailover_standing (hs : Standing h) (hfound : vmById h id = some i)
    (hrun : doFailover h id ix = some (e, h')) : Standing h' := by
  rcases doFailover_becomes hs.roster hs.initialized hfound hrun with hb | hb | hb
  · exact hs.of_becomes hb
  · exact hs.of_becomes hb
  · exact hs.of_becomes hb

/-- **Every operation leaves the table of VMs in order**, also one that
restarts a revoked VM. -/
theorem trustStep_standing (hs : Standing h) (hrun : trustStep h op = some h') :
    Standing h' := by
  cases trustStep_effect hrun with
  | failoverTrigger hcall =>
    rcases failoverTrigger_cases hcall with ⟨-, rfl⟩ | ⟨ix, i, -, hfound, -, hdo⟩
    · exact hs
    · exact doFailover_standing hs hfound hdo
  | failoverOnQuarantine hcall =>
    rcases failoverOnQuarantine_cases hcall with ⟨-, rfl⟩ | ⟨ix, i, -, hfound, -, -, hdo⟩
    · exact hs
    · exact doFailover_standing hs hfound hdo
  | _ => exact (trustStep_documented hs (by trivial) hrun).1

theorem exec_standing {ops : List TrustOp} (hs : Standing h) (hrun : exec trustStep h ops = some h') :
    Standing h' :=
  exec_invariant (fun _ _ _ hs hstep => trustStep_standing hs hstep) hs hrun

/-! ## Runs -/

/-- **Levels over a run.** Once the trust engine is initialised, whatever
operations follow, as long as no failover is asked for a revoked VM that it
would restart: a level falls only by a documented recovery, and a VM that
is revoked stays so in every later state. -/
theorem levels_documented {ops : List TrustOp} (hs : Standing h)
    (hguard : Guarded trustStep SparesRevoked h ops) :
    Guarded trustStep (fun g op => ∀ g', trustStep g op = some g' → Documented g op g') h ops ∧
    ∀ pre suf g i, ops = pre ++ suf → exec trustStep h pre = some g → levelAt g i = .revoked →
      Throughout trustStep (fun g => levelAt g i = .revoked) g suf := by
  have hstanding : ∀ g op g', Standing g → SparesRevoked g op → trustStep g op = some g' →
      Standing g' := fun _ _ _ hs hspare hrun => (trustStep_documented hs hspare hrun).1
  refine ⟨guarded_of_guarded hstanding (fun g op hs hspare g' hrun =>
    (trustStep_documented hs hspare hrun).2) hs hguard, ?_⟩
  intro pre suf g i hsplit hexec hrev
  have hreached : Standing g :=
    throughout_iff.mp (throughout_of_guarded hstanding (fun _ hs => hs) hs hguard) pre suf g
      hsplit hexec
  rw [hsplit] at hguard
  -- from there on the invariant is that the VM is revoked
  have hkeep : ∀ g op g', (Standing g ∧ levelAt g i = .revoked) → SparesRevoked g op →
      trustStep g op = some g' → Standing g' ∧ levelAt g' i = .revoked := by
    rintro g op g' ⟨hs, hrev⟩ hspare hrun
    obtain ⟨hs', hdoc⟩ := trustStep_documented hs hspare hrun
    exact ⟨hs', hdoc.revoked hrev⟩
  exact throughout_of_guarded hkeep (fun _ hg => hg.2) ⟨hreached, hrev⟩ (hguard.rest hexec)

end Tables

/-- On a machine whose memory is zero and with every guest measured as
expected: the RTOS is revoked, reports faults and is polled. -/
theorem levels_documented_rtos :
    letI := Stage2.poolAt2M
    ∃ h, Boot.platformInit Hyp.blank = some (.ok, h) ∧
      ∃ g, exec trustStep (vseInit h fun _ => .match) [.revoke 2] = some g ∧
        levelAt g 1 = .revoked ∧
        Throughout trustStep (fun g => levelAt g 1 = .revoked) g [.reportFault 2 1 0, .poll] := by
  let _ := Stage2.poolAt2M
  obtain ⟨h, hboot, hb⟩ := Boot.exists_platformInit (fun _ => 0) (fun _ => 0) fun _ => 0
  have hr := roster_of_booted hb
  have hs : Standing (vseInit h fun _ => .match) := ⟨⟨hr.length_le, hr.ids, hr.alive⟩, rfl⟩
  obtain ⟨p₁, t₁, p₂, t₂, p₃, t₃, hvms, -⟩ := hb.vms
  have hvm : (vseInit h fun _ => .match).vms[1]? = some (Boot.rtosVm p₂ t₂) := by
    change h.vms[1]? = _
    rw [hvms]
    rfl
  have hrev := (trustRevoke_becomes hs.roster hs.initialized (hs.roster.vmById_of_vm hvm)).level
  have hguard : Guarded trustStep SparesRevoked (vseInit h fun _ => .match)
      [.revoke 2, .reportFault 2 1 0, .poll] :=
    ⟨trivial, fun _ _ => ⟨trivial, fun _ _ => ⟨trivial, fun _ _ => trivial⟩⟩⟩
  refine ⟨h, hboot, (trustRevoke (vseInit h fun _ => .match) 2).2, rfl, hrev, ?_⟩
  exact (levels_documented hs hguard).2 [.revoke 2] _ _ 1 rfl rfl hrev

/-- A machine with one VM, a running RTOS without memory regions. -/
def loneRtos : Hyp :=
  let rtos : Vm := { vmInit 1 .rtos with state := .running, vcpus := [0] }
  vseInit { Hyp.blank with
    vms := [rtos]
    vcpus := [vcpuInit 0 rtos 0] } fun _ => .match

theorem standing_of_one {vm : Vm} (hvms : h.vms = [vm]) (hid : vm.id = 1) (hst : vm.state ≠ .none)
    (hinit : h.trust.initialized = true) : Standing h := by
  refine ⟨⟨?_, fun i vm' hvm' => ?_, fun i => ?_⟩, hinit⟩
  · rw [hvms]
    exact show 1 ≤ maxVms by decide
  · rw [hvms] at hvm'
    rcases i with _ | i
    · obtain rfl := Option.some.inj hvm'
      exact hid
    · cases hvm'
  · rw [stateAt, hvms]
    rcases i with _ | i
    · exact fun hnone => hst (Option.some.inj hnone)
    · exact fun hnone => by cases hnone

/-- The RTOS gets a backup, is revoked, and a failover is triggered: it is
degraded and runs. -/
theorem revoked_rtos_restarts :
    letI := Stage2.poolAt2M
    ∃ g, exec trustStep loneRtos [.failoverRegister 1 0x50000000 0 0x1000 0, .revoke 1] = some g ∧
      levelAt g 0 = .revoked ∧
      ∃ g', trustStep g (.failoverTrigger 1) = some g' ∧ levelAt g' 0 = .degraded ∧
        stateAt g' 0 = some .running :=
  ⟨_, rfl, rfl, _, rfl, rfl, rfl⟩

end Vse

end HypervisorBase
