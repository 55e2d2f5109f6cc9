import HypervisorBase.Vse.Handover
import HypervisorBase.Vse.Restart
/-!
# When failover brings a quarantined VM back

A quarantine ends with a failover if the VM has a backup, and whether that
succeeds is settled before it starts: it takes an attempt that is left,
regions that `s2_map` accepts and as many virtual CPUs as the VM has, which
are taken anew from the pool each time. `Rescuable` says this of the state
before, for any number of failovers in a row, and `trustQuarantine_rescue`
that nothing else decides.
-/

namespace HypervisorBase

open Stage2

section Finalize

variable [P : PtPool] {h h' : Hyp} {i : ℕ} {vm : Vm} {e : Err}

/-- The loop over the regions succeeds if `s2_map` accepts each of them. -/
theorem mapRegions_ok_iff {r : U64} {mem : List MemRegion} {s s' : S2State}
    (hrun : mapRegions r mem s = some (e, s')) : e = .ok ↔ ∀ reg ∈ mem, reg.Aligned := by
  induction mem generalizing s with
  | nil =>
    cases hrun
    exact ⟨fun _ reg hreg => absurd hreg List.not_mem_nil, fun _ => rfl⟩
  | cons reg mem ih =>
    obtain ⟨⟨e₁, s₁⟩, hmap, hrun⟩ := Option.bind_eq_some_iff.mp hrun
    rw [List.forall_mem_cons]
    rcases s2Map_eq_some.1 hmap with ⟨rfl, -, hnot⟩ | ⟨rfl, hal, -⟩
    · cases hrun
      exact ⟨nofun, fun hall => absurd hall.1 hnot⟩
    · rw [ih hrun]
      exact ⟨fun hrest => ⟨hal, hrest⟩, And.right⟩

omit P in
theorem numVcpus_eq_succ (type : VmType) : ∃ n, numVcpus type = n + 1 := by
  unfold numVcpus
  split
  · exact ⟨1, rfl⟩
  · exact ⟨0, rfl⟩

/-- **When a `vm_finalize` that returns succeeds**, and how many virtual
CPUs it then takes. -/
theorem vmFinalize_ok_iff (hvm : h.vms[i]? = some vm) (hrun : vmFinalize h i = some (e, h')) :
    (e = .ok ↔ (∀ reg ∈ vm.mem, reg.Aligned) ∧
      h.vcpus.length + numVcpus vm.type ≤ maxVcpus) ∧
    (e = .ok → h'.vcpus.length = h.vcpus.length + numVcpus vm.type) := by
  rcases vmFinalize_cases hrun with ⟨hnone, -⟩ | ⟨vm', hvm', hcases⟩
  · cases hnone.symm.trans hvm
  obtain rfl := Option.some.inj (hvm.symm.trans hvm')
  rcases hcases with ⟨s₁, hregions, herr, -⟩ | ⟨s₁, s₂, vm', pool, hregions, -, hinit, rfl⟩
  · refine ⟨⟨fun hok => absurd hok herr, fun hboth => ?_⟩, fun hok => absurd hok herr⟩
    exact (mapRegions_ok_iff hregions).mpr hboth.1
  have hal := (mapRegions_ok_iff hregions).mp rfl
  obtain ⟨n, hn⟩ := numVcpus_eq_succ vm.type
  rw [hn] at hinit ⊢
  have hlength : h.vcpus.length + (n + 1) ≤ maxVcpus →
      e = .ok ∧ pool.length = h.vcpus.length + (n + 1) := by
    intro hroom
    rw [initVcpus_eq hroom] at hinit
    cases hinit
    exact ⟨rfl, by simp⟩
  have hroom : e = .ok → h.vcpus.length + (n + 1) ≤ maxVcpus := by
    rintro rfl
    exact initVcpus_room hinit
  exact ⟨⟨fun hok => ⟨hal, hroom hok⟩, fun hboth => (hlength hboth.2).1⟩,
    fun hok => (hlength (hroom hok)).2⟩

end Finalize

namespace Vse

variable {h h' g : Hyp} {id : U32} {i k : ℕ} {ix : Fin maxVms} {vm : Vm} {e : Err}

/-- **What it takes to restart a VM `k` times in a row**: a backup of a
critical VM with `k` attempts left, regions of whole pages, and room in the
pool for its virtual CPUs `k` times over. -/
structure Rescuable (h : Hyp) (ix : Fin maxVms) (k : ℕ) : Prop where
  backup : HasBackup h ix
  critical : (h.failover.backup ix).critical = true
  attempts : (h.failover.backup ix).failoverCount.toNat + k ≤ failoverMaxAttempts
  built : ∃ vm, h.vms[ix.val]? = some vm ∧ (∀ reg ∈ vm.mem, reg.Aligned) ∧
    h.vcpus.length + k * numVcpus vm.type ≤ maxVcpus

/-- **What becomes of a VM that is quarantined**: it comes back if it can be
restarted, and one restart is used up by it; if not, it stays blocked. -/
def Fate (ix : Fin maxVms) (h h' : Hyp) : Prop :=
  (Rescuable h ix 1 ∧ (h'.trust.vm ix).level = .degraded ∧
    ∀ k, Rescuable h' ix k ↔ Rescuable h ix (k + 1)) ∨
  ¬ Rescuable h ix 1 ∧ TrustLevel.quarantine.rank ≤ (h'.trust.vm ix).level.rank

/-- The layout of each VM is kept. -/
theorem layout_of_retains [P : PtPool] (a : Retains h h') (i : ℕ) :
    (h'.vms[i]?).map Vm.layout = (h.vms[i]?).map Vm.layout := by
  rw [← List.getElem?_map, a.layout, List.getElem?_map]

/-- What a restart draws on. -/
def stock (ix : Fin maxVms) (h : Hyp) : Failover × ℕ × Option (U64 × List MemRegion × VmType) :=
  (h.failover, h.vcpus.length, (h.vms[ix.val]?).map Vm.layout)

theorem Rescuable.of_stock (hr : Rescuable h ix k) (hstock : stock ix h' = stock ix h) :
    Rescuable h' ix k := by
  obtain ⟨hfailover, hrest⟩ := Prod.mk.inj hstock
  obtain ⟨hpool, hlayout⟩ := Prod.mk.inj hrest
  obtain ⟨vm, hvm, hal, hroom⟩ := hr.built
  rw [hvm] at hlayout
  obtain ⟨vm', hvm', hsame⟩ := Option.map_eq_some_iff.mp hlayout
  have hmem : vm'.mem = vm.mem := congrArg (fun l => l.2.1) hsame
  have htype : vm'.type = vm.type := congrArg (fun l => l.2.2) hsame
  refine ⟨?_, ?_, ?_, vm', hvm', ?_, ?_⟩
  · rw [HasBackup, hfailover]
    exact hr.backup
  · rw [hfailover]
    exact hr.critical
  · rw [hfailover]
    exact hr.attempts
  · rw [hmem]
    exact hal
  · rw [hpool, htype]
    exact hroom

theorem rescuable_congr (hstock : stock ix h' = stock ix h) :
    Rescuable h' ix k ↔ Rescuable h ix k :=
  ⟨fun hr => hr.of_stock hstock.symm, fun hr => hr.of_stock hstock⟩

/-- Keeping books draws on nothing. -/
theorem OnlyVse.stock (a : OnlyVse h h') (ix : Fin maxVms) : Vse.stock ix h' = Vse.stock ix h :=
  a.eq (Vse.stock ix) fun _ _ _ _ _ => rfl

/-- Nor does the suspension of a VM that is quarantined. -/
theorem stock_quarantined [P : PtPool] (h : Hyp) (id : U32) (i : ℕ) :
    stock ix (quarantined h id i) = stock ix h := by
  have hset := (onlyVse_trustSet h id .quarantine).stock ix
  unfold quarantined
  generalize (trustSet h id .quarantine).2 = g at hset ⊢
  refine suspendRunnable_keeps (R := fun k => stock ix k = stock ix h) hset ?_
  refine Eq.trans ?_ hset
  have hlayout := layout_of_retains (retains_vmSuspend { g with trust := { g.trust with
    quarantineCount := g.trust.quarantineCount + 1 } } i) ix.val
  rw [stock, hlayout]
  rcases vmSuspend_cases { g with trust := { g.trust with
      quarantineCount := g.trust.quarantineCount + 1 } } i with heq | ⟨vm, -, -, heq⟩ <;>
    rw [heq] <;> rfl

section Tables

variable [P : PtPool]

omit P in
/-- Starting the VM again leaves the pool as long as it is. -/
theorem length_vcpus_restart (g : Hyp) (i : ℕ) (entryIpa : U64) :
    (vmStart (resetEntry g i entryIpa) i).2.vcpus.length = g.vcpus.length := by
  have hreset : (resetEntry g i entryIpa).vcpus.length = g.vcpus.length := by
    unfold resetEntry
    split
    · rfl
    · exact List.length_modify ..
  rcases vmStart_cases (resetEntry g i entryIpa) i with heq | ⟨vm, -, -, heq⟩ <;> rw [heq] <;>
    exact hreset

/-- **When a failover that returns succeeds**, and how many virtual CPUs it
then takes. -/
theorem doFailover_ok_iff (hfound : vmById h id = some i) (hvm : h.vms[i]? = some vm)
    (hrun : doFailover h id ix = some (e, h')) :
    (e = .ok ↔ ¬ Spent h ix ∧ (∀ reg ∈ vm.mem, reg.Aligned) ∧
      h.vcpus.length + numVcpus vm.type ≤ maxVcpus) ∧
    (e = .ok → h'.vcpus.length = h.vcpus.length + numVcpus vm.type) := by
  rcases doFailover_inv hrun with ⟨hnone, -⟩ | ⟨j, hj, ⟨hspent, rfl, -⟩ | ⟨hleft, hend⟩⟩
  · cases hnone.symm.trans hfound
  · exact ⟨⟨nofun, fun hboth => absurd hspent hboth.1⟩, nofun⟩
  obtain rfl := Option.some.inj (hfound.symm.trans hj)
  rw [← countAttempt] at hend
  -- what `vm_finalize` finds is the VM, stopped, and the pool as it was
  have hbuilt : ∀ {s g e'}, vmStop (countAttempt h ix) i = (.ok, s) →
      vmFinalize (restoreImage s (h.failover.backup ix)) i = some (e', g) →
      (e' = .ok ↔ (∀ reg ∈ vm.mem, reg.Aligned) ∧
        h.vcpus.length + numVcpus vm.type ≤ maxVcpus) ∧
      (e' = .ok → g.vcpus.length = h.vcpus.length + numVcpus vm.type ∧
        stateAt g i = some .ready) := by
    intro s g e' hstop hfin
    have hstopped := vms_vmStop (h := countAttempt h ix) hvm
    have hpool : (vmStop (countAttempt h ix) i).2.vcpus.length = h.vcpus.length :=
      length_vcpus_vmStop ..
    rw [hstop] at hstopped hpool
    have hvms : (restoreImage s (h.failover.backup ix)).vms = s.vms := by rw [restoreImage_rest]
    have hvcpus : (restoreImage s (h.failover.backup ix)).vcpus = s.vcpus := by
      rw [restoreImage_rest]
    rw [← hvms] at hstopped
    obtain ⟨hiff, hlength⟩ := vmFinalize_ok_iff hstopped hfin
    rw [hvcpus, hpool] at hiff hlength
    refine ⟨hiff, fun hok => ⟨hlength hok, ?_⟩⟩
    subst hok
    obtain ⟨⟨vcpus, hready⟩, -⟩ := vmFinalize_vcpu hstopped hfin
    rw [stateAt, hready]
    rfl
  cases hend with
  | stopFails hstop herr =>
    obtain ⟨hok, -⟩ := vmStop_becomes (h := countAttempt h ix) hvm
    exact absurd ((congrArg Prod.fst hstop).symm.trans hok) herr
  | finalizeFails hstop hfin herr =>
    refine ⟨⟨fun hyes => absurd hyes herr, fun hboth => ?_⟩, fun hyes => absurd hyes herr⟩
    exact (hbuilt hstop hfin).1.mpr hboth.2
  | startFails hstop hfin hstart herr =>
    obtain ⟨hok, -⟩ := restart_becomes ((hbuilt hstop hfin).2 rfl).2 (h.failover.backup ix).entryIpa
    exact absurd ((congrArg Prod.fst hstart).symm.trans hok) herr
  | @restarts s g k hstop hfin hstart hok hset =>
    obtain ⟨hiff, hlength⟩ := hbuilt hstop hfin
    refine ⟨⟨fun _ => ⟨hleft, hiff.mp rfl⟩, fun _ => hok⟩, fun _ => ?_⟩
    have hrest := length_vcpus_restart g i (h.failover.backup ix).entryIpa
    rw [hstart] at hrest
    rw [hset, (onlyVse_trustSet k id .degraded).eq (fun g => g.vcpus.length) fun _ _ _ _ _ => rfl]
    exact hrest.trans (hlength rfl).1

/-- **A restart is one fewer that is left**: the attempt is counted, the
virtual CPUs are taken, and the regions are the same. -/
theorem rescuable_of_restart (hs : Standing h)
    (hfound : vmById h id = some ix.val) (hvm : h.vms[ix.val]? = some vm)
    (hdo : doFailover h id ix = some (.ok, h')) :
    Rescuable h' ix k ↔ Rescuable h ix (k + 1) := by
  obtain ⟨hiff, hlength⟩ := doFailover_ok_iff hfound hvm hdo
  obtain ⟨hleft, -, -⟩ := hiff.mp rfl
  have hpool := hlength rfl
  obtain ⟨vm', hvm', hsame⟩ : ∃ vm', h'.vms[ix.val]? = some vm' ∧ vm'.layout = vm.layout := by
    have hlayout := layout_of_retains (retains_of_parts (Hypercall.parts_of_doFailover hdo)) ix.val
    rw [hvm] at hlayout
    exact Option.map_eq_some_iff.mp hlayout
  have hmem : vm'.mem = vm.mem := congrArg (fun l => l.2.1) hsame
  have htype : vm'.type = vm.type := congrArg (fun l => l.2.2) hsame
  have hbackup : h'.failover = (countAttempt h ix).failover := by
    rcases doFailover_cases hs.roster hs.initialized hfound hdo with ⟨hspent, -⟩ | ⟨-, hattempt⟩
    · exact absurd hspent hleft
    · exact hattempt.steady.failover
  have hdesc : h'.failover.backup ix = { h.failover.backup ix with
      failoverCount := (h.failover.backup ix).failoverCount + 1 } := by
    rw [hbackup]
    exact Function.update_self ..
  have hcount : (h'.failover.backup ix).failoverCount.toNat =
      (h.failover.backup ix).failoverCount.toNat + 1 := by
    rw [hdesc]
    rw [Spent, failoverMaxAttempts] at hleft
    exact BitVec.toNat_add_of_lt (by change _ + 1 < _; omega)
  have hhas : HasBackup h' ix ↔ HasBackup h ix := by
    rw [HasBackup, HasBackup, hdesc, hbackup]
    exact Iff.rfl
  have hcritical : (h'.failover.backup ix).critical = (h.failover.backup ix).critical := by
    rw [hdesc]
  constructor
  · rintro ⟨hb, hc, hk, vm₁, hvm₁, hal, hroom⟩
    obtain rfl := Option.some.inj (hvm'.symm.trans hvm₁)
    rw [htype, hpool] at hroom
    refine ⟨hhas.mp hb, hcritical ▸ hc, by omega, vm, hvm, hmem ▸ hal, ?_⟩
    rw [Nat.succ_mul]
    omega
  · rintro ⟨hb, hc, hk, vm₁, hvm₁, hal, hroom⟩
    obtain rfl := Option.some.inj (hvm.symm.trans hvm₁)
    rw [Nat.succ_mul] at hroom
    refine ⟨hhas.mpr hb, hcritical ▸ hc, by omega, vm', hvm', hmem ▸ hal, ?_⟩
    rw [htype, hpool]
    omega

/-- **Failover decides it**: by the backup, or by whether the restart
succeeds. -/
theorem failoverOnQuarantine_rescue (hs : Standing h) (hix : idx id = some ix)
    (hvm : h.vms[ix.val]? = some vm)
    (hblocked : TrustLevel.quarantine.rank ≤ (h.trust.vm ix).level.rank)
    (hrun : failoverOnQuarantine h id = some (e, h')) : Fate ix h h' := by
  have hfound : vmById h id = some ix.val := by
    rw [idx_eq_some hix]
    exact hs.roster.vmById_of_vm hvm
  rcases failoverOnQuarantine_cases hrun with ⟨hnone, rfl⟩ | ⟨jx, i, hjx, -, hhas, hcritical, hdo⟩
  · exact .inr ⟨fun hr => hnone ix _ hix hfound ⟨hr.backup, hr.critical⟩, hblocked⟩
  obtain rfl := Option.some.inj (hix.symm.trans hjx)
  obtain ⟨hiff, hlength⟩ := doFailover_ok_iff hfound hvm hdo
  have hone : Rescuable h ix 1 ↔ e = .ok := by
    rw [hiff, Spent]
    constructor
    · intro hr
      have hleft := hr.attempts
      obtain ⟨vm', hvm', hal, hroom⟩ := hr.built
      obtain rfl := Option.some.inj (hvm.symm.trans hvm')
      rw [Nat.one_mul] at hroom
      exact ⟨by omega, hal, hroom⟩
    · rintro ⟨hleft, hal, hroom⟩
      exact ⟨hhas, hcritical, by omega, vm, hvm, hal, by rwa [Nat.one_mul]⟩
  rcases doFailover_stages hdo with ⟨herr, hend⟩ | ⟨rfl, -⟩
  · refine .inr ⟨fun hr => herr (hone.mp hr), ?_⟩
    rcases hend with hcalm | rfl
    · rw [hcalm.trust]
      exact hblocked
    · have hlevel := (trustRevoke_becomes hs.roster hs.initialized hfound).level
      rw [levelAt_fin] at hlevel
      rw [hlevel]
      decide
  · exact .inl ⟨hone.mpr rfl, (doFailover_ok hs.initialized hix hdo).1,
      fun k => rescuable_of_restart hs hfound hvm hdo⟩

/-- **A quarantine that takes effect**, said of the state before it. -/
theorem trustQuarantine_rescue (hs : Standing h) (hix : idx id = some ix)
    (hvm : h.vms[ix.val]? = some vm)
    (hlow : (h.trust.vm ix).level.rank < TrustLevel.quarantine.rank)
    (hrun : trustQuarantine h id = some (e, h')) : Fate ix h h' := by
  have hfound : vmById h id = some ix.val := by
    rw [idx_eq_some hix]
    exact hs.roster.vmById_of_vm hvm
  rw [← levelAt_fin] at hlow
  rcases trustQuarantine_cases hs.roster hrun with ⟨hnot, -⟩ | ⟨i, e', hi, -, hfail⟩
  · exact absurd hlow (hnot _ hfound)
  obtain rfl := Option.some.inj (hfound.symm.trans hi)
  have hstock : ∀ {k}, Rescuable (quarantined h id ix.val) ix k ↔ Rescuable h ix k :=
    rescuable_congr (stock_quarantined h id ix.val)
  have hb := quarantined_becomes hs.initialized ix.isLt hvm
  rw [← idx_eq_some hix] at hb
  obtain ⟨vm', hvm', -⟩ := exists_vm_of_state hb.state
  have hquarantine := hb.level
  rw [levelAt_fin] at hquarantine
  have hrescue := failoverOnQuarantine_rescue (hs.of_becomes hb) hix hvm'
    (by rw [hquarantine]) hfail
  simpa only [Fate, hstock] using hrescue

/-- **A report at the threshold** has the VM quarantined; any other only
keeps books. -/
theorem trustReportFault_rescue {faultType : U32} {detail : U64} (hs : Standing h)
    (hix : idx id = some ix) (hvm : h.vms[ix.val]? = some vm)
    (hrun : trustReportFault h id faultType detail = some (e, h')) :
    FaultDue h ix ∧ Fate ix h h' ∨ ¬ FaultDue h ix ∧ OnlyVse h h' := by
  rcases trustReportFault_cases hs.initialized hrun with
    ⟨hnot, hkept⟩ | ⟨jx, e', hjx, hfull, hquar⟩
  · refine .inr ⟨hnot ix hix, ?_⟩
    rcases hkept with rfl | ⟨jx, -, rfl | ⟨-, rfl⟩⟩
    · exact .refl _
    · exact ⟨rfl, rfl⟩
    · have hrecord : OnlyVse h (recordFault h jx faultType detail) := ⟨rfl, rfl⟩
      exact hrecord.trans (onlyVse_trustSet ..)
  obtain rfl := Option.some.inj (hix.symm.trans hjx)
  have hlow := hfull.2
  rw [← level_recordFault h ix faultType detail] at hlow
  have hstock : ∀ {k}, Rescuable (recordFault h ix faultType detail) ix k ↔ Rescuable h ix k :=
    rescuable_congr rfl
  have hsr : Standing (recordFault h ix faultType detail) := hs.of_onlyVse ⟨rfl, rfl⟩
  have hfate := trustQuarantine_rescue hsr hix hvm hlow hquar
  refine .inl ⟨hfull, ?_⟩
  simpa only [Fate, hstock] using hfate

/-- **A notification in a storm** has the VM quarantined; any other leaves
its level alone. -/
theorem idsNotifyFault_rescue {faultType : U32} {detail : U64} (hs : Standing h)
    (hix : idx id = some ix) (hvm : h.vms[ix.val]? = some vm)
    (hrun : idsNotifyFault h id faultType detail = some h') :
    StormNow h ix ∧ (TrustLevel.quarantine.rank ≤ (h'.trust.vm ix).level.rank ↔
      ¬ Rescuable h ix 1) ∨
    ¬ StormNow h ix ∧ h'.trust = h.trust := by
  rcases idsNotifyFault_cases hs.initialized hrun with
    ⟨hnot, hsilent⟩ | ⟨jx, g, g', e, hjx, hnow, -, hbefore, hquar, hafter⟩
  · exact .inr ⟨hnot ix hix, hsilent.trust⟩
  obtain rfl := Option.some.inj (hix.symm.trans hjx)
  have hvm' : g.vms[ix.val]? = some vm := by
    rw [hbefore.only.eq Hyp.vms fun _ _ _ _ _ => rfl, hvm]
  have hlow := hnow.2.2
  rw [← hbefore.trust] at hlow
  refine .inl ⟨hnow, ?_⟩
  rw [← rescuable_congr (hbefore.only.stock ix), hafter.trust]
  rcases trustQuarantine_rescue (hs.of_onlyVse hbefore.only) hix hvm' hlow hquar with
    ⟨hyes, hlevel, -⟩ | ⟨hno, hblocked⟩
  · rw [hlevel]
    exact ⟨fun hle => absurd hle (by decide), fun hnot => absurd hyes hnot⟩
  · exact iff_of_true hblocked hno

end Tables

end Vse

end HypervisorBase
