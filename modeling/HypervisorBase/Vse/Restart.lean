import HypervisorBase.Boot.Started
import HypervisorBase.Common.Copy
import HypervisorBase.Vm.AddressSpace
import HypervisorBase.Vse.Budget
import HypervisorBase.Vse.Window
/-!
# Restarts from a backup

A failover stops the VM, copies the backup over its image, finalizes it
again, resets the entry point and starts it. When all of that succeeds the
VM runs, degraded, on a new virtual CPU and in the address space it was
first given: what `vm_finalize` maps in its regions does not depend on what
was there. Only the copy can go wrong. `memcpy` goes upwards, and
registration does not look whether the image starts inside the backup.
-/

namespace HypervisorBase

open Stage2

theorem memcpy_eq (dst src : U64) (n : ℕ) (phys : U64 → U8) :
    memcpy dst src n phys = copyUp dst src n phys := by
  induction n generalizing dst src phys with
  | zero => rfl
  | succ n ih => exact ih ..

/-! ## The address space -/

/-- **In its regions, a space that is finalized has what the regions say**,
and nothing of what was there. -/
theorem Stage2.Space.finalize_in {m m' : Space} {vm : Vm} {p : ℕ} {reg : MemRegion}
    (hreg : reg ∈ vm.mem) (hp : p ∈ visited reg.ipaBase (reg.size.toNat / 4096)) :
    m.finalize vm p = m'.finalize vm p := by
  have hbuild : m.build vm.mem p = m'.build vm.mem p := by
    rw [Space.build_eq, Space.build_eq]
    cases hlast : lastWrite vm.mem p with
    | none => exact absurd hp (lastWrite_eq_none_iff.mp hlast reg hreg)
    | some write => rfl
  by_cases hfault : vm.type = .linux ∧ p = faultPage
  · rw [Space.finalize, Space.finalize, if_pos hfault.1, if_pos hfault.1, hfault.2,
      Function.update_self, Function.update_self]
  · rw [Space.finalize_of_ne hfault, Space.finalize_of_ne hfault, hbuild]

/-- An address of a region is on a page that the loop comes to. -/
theorem MemRegion.Aligned.visited {reg : MemRegion} (hal : reg.Aligned) {j : ℕ}
    (hj : j < 2 ^ 39) (hin : reg.Contains j) :
    j / 4096 ∈ visited reg.ipaBase (reg.size.toNat / 4096) := by
  obtain ⟨hipa, -, hsize⟩ := hal
  obtain ⟨hle, hlt⟩ := hin
  refine ⟨j / 4096 - reg.ipaBase.toNat / 4096, by omega, ?_⟩
  simp only [pageAt, vpn, BitVec.toNat_add, BitVec.toNat_ofNat]
  omega

section Rebuilt

variable [P : PtPool] {a b c d : Hyp} {i : ℕ} {vm vm' : Vm}

/-- **Two successful runs of `vm_finalize`** for the same regions, from
whatever tables, translate the addresses of the regions alike. -/
theorem vmFinalize_alike (hshape : Shape a.s2 a.roots) (hshape' : Shape c.s2 c.roots)
    (hvm : a.vms[i]? = some vm) (hvm' : c.vms[i]? = some vm') (hlayout : vm'.layout = vm.layout)
    (hrun : vmFinalize a i = some (.ok, b)) (hrun' : vmFinalize c i = some (.ok, d)) {j : U64}
    (hj : ∃ reg ∈ vm.mem, reg.Contains j.toNat) :
    ipaResult b.s2 vm.s2Pgd j = ipaResult d.s2 vm.s2Pgd j := by
  by_cases hlt : j.toNat < 2 ^ 39
  swap
  · rw [ipaResult, if_neg hlt, ipaResult, if_neg hlt]
  obtain ⟨hbuilt, hal⟩ := vmFinalize_refines hshape.refines hvm hrun
  obtain ⟨hbuilt', -⟩ := vmFinalize_refines hshape'.refines hvm' hrun'
  obtain ⟨reg, hreg, hin⟩ := hj
  have hpgd : vm'.s2Pgd = vm.s2Pgd := congrArg Prod.fst hlayout
  have hroot' := Hyp.roots_of_vm hvm'
  rw [hpgd] at hroot'
  rw [ipaResult_eq hbuilt (Hyp.roots_of_vm hvm) hlt, ipaResult_eq hbuilt' hroot' hlt,
    Function.update_self, Function.update_self, Space.finalize_congr hlayout,
    Space.finalize_in hreg ((hal reg hreg).visited hlt hin)]

/-! ## The virtual CPU -/

omit P in
/-- A VM that is set up found room in the pool. -/
theorem initVcpus_room {n w : ℕ} {pool pool' : List Vcpu}
    (hrun : initVcpus i (n + 1) w vm pool = (.ok, vm', pool')) : pool.length + (n + 1) ≤ maxVcpus := by
  induction n generalizing w vm pool with
  | zero =>
    unfold initVcpus at hrun
    split at hrun
    · cases hrun
    · omega
  | succ n ih =>
    rw [initVcpus] at hrun
    split at hrun
    · cases hrun
    · have hrest := ih hrun
      rw [List.length_append, List.length_singleton] at hrest
      omega

/-- **A successful `vm_finalize`** gives the VM new virtual CPUs, the first
of them fresh, and touches no guest memory. -/
theorem vmFinalize_vcpu (hvm : a.vms[i]? = some vm) (hrun : vmFinalize a i = some (.ok, b)) :
    (∃ vcpus, b.vms[i]? = some { vm with vcpus := a.vcpus.length :: vcpus, state := .ready }) ∧
    b.vcpus[a.vcpus.length]? = some (vcpuInit i vm 0) ∧ b.phys = a.phys := by
  rcases vmFinalize_cases hrun with ⟨-, herr, -⟩ | ⟨vm', hvm', hcases⟩
  · cases herr
  obtain rfl := Option.some.inj (hvm.symm.trans hvm')
  rcases hcases with ⟨s₁, -, herr, -⟩ | ⟨s₁, s₂, vm', pool, -, -, hinit, rfl⟩
  · exact absurd rfl herr
  obtain ⟨n, hn⟩ : ∃ n, numVcpus vm.type = n + 1 := by
    unfold numVcpus
    split
    · exact ⟨1, rfl⟩
    · exact ⟨0, rfl⟩
  rw [hn] at hinit
  rw [initVcpus_eq (initVcpus_room hinit)] at hinit
  obtain ⟨-, hinit⟩ := Prod.mk.inj hinit
  obtain ⟨rfl, rfl⟩ := Prod.mk.inj hinit
  have hi := (List.getElem?_eq_some_iff.mp hvm).1
  refine ⟨⟨List.range' (a.vcpus.length + 1) n, ?_⟩, ?_, rfl⟩
  · rw [Hyp.setVm, List.getElem?_set_self hi, List.nil_append, List.range'_succ]
    rfl
  · change (a.vcpus ++ _)[a.vcpus.length]? = _
    rw [List.getElem?_append_right (Nat.le_refl _), Nat.sub_self, List.range'_succ]
    rfl

end Rebuilt

namespace Vse

section Failover

variable [P : PtPool]
variable {h h' g : Hyp} {id : U32} {ix : Fin maxVms} {i : ℕ} {vm : Vm} {e : Err}

/-- **The steps of a failover that succeeds.** -/
theorem doFailover_steps (hfound : vmById h id = some i)
    (hrun : doFailover h id ix = some (.ok, h')) :
    ∃ g k, vmFinalize (restoreImage (vmStop (countAttempt h ix) i).2 (h.failover.backup ix)) i =
        some (.ok, g) ∧
      vmStart (resetEntry g i (h.failover.backup ix).entryIpa) i = (.ok, k) ∧
      h' = (trustSet k id .degraded).2 := by
  rcases doFailover_inv hrun with ⟨hnone, -⟩ | ⟨j, hj, ⟨-, hbusy, -⟩ | ⟨-, hend⟩⟩
  · cases hnone.symm.trans hfound
  · cases hbusy
  obtain rfl := Option.some.inj (hfound.symm.trans hj)
  rw [← countAttempt] at hend
  cases hend with
  | stopFails hstop herr => exact absurd rfl herr
  | finalizeFails hstop hfin herr => exact absurd rfl herr
  | startFails hstop hfin hstart herr => exact absurd rfl herr
  | restarts hstop hfin hstart hok hset =>
    rw [hstop]
    exact ⟨_, _, hfin, hstart, hset⟩

omit P in
theorem phys_vmStop (h : Hyp) (i : ℕ) : (vmStop h i).2.phys = h.phys := by
  rcases vmStop_cases h i with heq | ⟨vm, -, -, heq⟩ <;> rw [heq]

omit P in
/-- A VM that is stopped already is left as it is. -/
theorem vms_vmStop (hvm : h.vms[i]? = some vm) :
    (vmStop h i).2.vms[i]? = some { vm with state := .stopped } := by
  by_cases hst : vm.state = .stopped
  · have hsame : (vmStop h i).2 = h := by
      unfold vmStop
      rw [hvm]
      dsimp only
      rw [if_pos hst]
    rw [hsame, hvm, ← hst]
  · exact (vmStop_inv hvm hst).2

omit P in
/-- The copy changes guest memory only. -/
theorem restoreImage_rest (h : Hyp) (bd : BackupDesc) :
    restoreImage h bd = { h with phys := (restoreImage h bd).phys } := by
  unfold restoreImage
  split <;> rfl

omit P in
theorem phys_restoreImage (hphys : g.phys = h.phys) (bd : BackupDesc) :
    (restoreImage g bd).phys = (restoreImage h bd).phys := by
  unfold restoreImage
  split
  · exact congrArg (memcpy bd.livePa bd.backupPa bd.backupSize.toNat) hphys
  · exact hphys

omit P in
theorem length_vcpus_vmStop (h : Hyp) (i : ℕ) : (vmStop h i).2.vcpus.length = h.vcpus.length := by
  rcases vmStop_cases h i with heq | ⟨vm, -, -, heq⟩
  · rw [heq]
  · rw [heq]
    exact length_stopVcpus ..

/-- **The VM runs again**: degraded, on a virtual CPU that is new and fresh
but for its entry point. -/
structure Recovered (ix : Fin maxVms) (vm : Vm) (entryIpa : U64) (h h' : Hyp) : Prop where
  degraded : (h'.trust.vm ix).level = .degraded
  running : ∃ vm', h'.vms[ix.val]? = some vm' ∧ vm'.state = .running ∧ vm'.layout = vm.layout ∧
    ∃ c vc, vm'.vcpus[0]? = some c ∧ h.vcpus.length ≤ c ∧ h'.vcpus[c]? = some vc ∧
      vc = vcpuSetEntry (vcpuInit ix.val vm 0) entryIpa 0 ∧ vc.regs.elrEl2 = entryIpa ∧ vc.regs.x 0 = 0

/-- **What a failover leaves** when it succeeds: the VM is restarted, the
tables are those of the new `vm_finalize`, and the memory is the copy. -/
theorem doFailover_restarts (hs : Standing h) (hix : idx id = some ix)
    (hvm : h.vms[ix.val]? = some vm) (hrun : doFailover h id ix = some (.ok, h')) :
    Recovered ix vm (h.failover.backup ix).entryIpa h h' ∧
    ∃ a g, a.s2 = (vmStop (countAttempt h ix) ix.val).2.s2 ∧
      a.vms = (vmStop (countAttempt h ix) ix.val).2.vms ∧
      vmFinalize a ix.val = some (.ok, g) ∧ h'.s2 = g.s2 ∧
      h'.phys = (restoreImage h (h.failover.backup ix)).phys := by
  have hfound : vmById h id = some ix.val := by
    rw [idx_eq_some hix]
    exact hs.roster.vmById_of_vm hvm
  have hlevel := (doFailover_ok hs.initialized hix hrun).1
  obtain ⟨g, k, hfinal, hstart, rfl⟩ := doFailover_steps hfound hrun
  generalize hbd : h.failover.backup ix = bd at hfinal hstart ⊢
  have hstopped := vms_vmStop (h := countAttempt h ix) hvm
  have hphys : (vmStop (countAttempt h ix) ix.val).2.phys = h.phys := phys_vmStop ..
  have hpool : h.vcpus.length = (vmStop (countAttempt h ix) ix.val).2.vcpus.length :=
    (length_vcpus_vmStop (countAttempt h ix) ix.val).symm
  generalize (vmStop (countAttempt h ix) ix.val).2 = s at hfinal hstopped hphys hpool ⊢
  have hvms : (restoreImage s bd).vms = s.vms := by rw [restoreImage_rest]
  have hs2 : (restoreImage s bd).s2 = s.s2 := by rw [restoreImage_rest]
  have hvcpus : (restoreImage s bd).vcpus = s.vcpus := by rw [restoreImage_rest]
  have hcopy : (restoreImage s bd).phys = (restoreImage h bd).phys := phys_restoreImage hphys bd
  generalize restoreImage s bd = a at hfinal hvms hs2 hvcpus hcopy
  rw [← hvms] at hstopped
  obtain ⟨⟨vcpus, hready⟩, hfresh, hkept⟩ := vmFinalize_vcpu hstopped hfinal
  rw [hvcpus, ← hpool] at hready hfresh
  -- step 3 finds the new virtual CPU, and step 4 a VM that is ready
  have hreset : resetEntry g ix.val bd.entryIpa = { g with
      vcpus := g.vcpus.modify h.vcpus.length fun vc => vcpuSetEntry vc bd.entryIpa 0 } := by
    rw [resetEntry, hready]
    rfl
  rw [hreset, vmStart, hready] at hstart
  obtain ⟨-, rfl⟩ := Prod.mk.inj hstart
  have hi := (List.getElem?_eq_some_iff.mp hready).1
  have honly := onlyVse_trustSet ({ g with
    vcpus := g.vcpus.modify h.vcpus.length fun vc => vcpuSetEntry vc bd.entryIpa 0 }.setVm ix.val
      { vm with state := .running, vcpus := h.vcpus.length :: vcpus }) id .degraded
  refine ⟨⟨hlevel, { vm with state := .running, vcpus := h.vcpus.length :: vcpus }, ?_, rfl, rfl,
    h.vcpus.length, _, rfl, Nat.le_refl _, ?_, rfl, rfl, rfl⟩, a, g, hs2, hvms, hfinal, ?_, ?_⟩
  · exact (honly.eq (fun h => h.vms[ix.val]?) fun _ _ _ _ _ => rfl).trans (List.getElem?_set_self hi)
  · refine (honly.eq (fun k => k.vcpus[h.vcpus.length]?) fun _ _ _ _ _ => rfl).trans ?_
    change (g.vcpus.modify h.vcpus.length _)[h.vcpus.length]? = _
    rw [List.getElem?_modify_eq, hfresh]
    rfl
  · exact honly.eq Hyp.s2 fun _ _ _ _ _ => rfl
  · exact (honly.eq Hyp.phys fun _ _ _ _ _ => rfl).trans (hkept.trans hcopy)

/-! ## Runs -/

/-- A restore is bookkeeping, and the resumption of a suspended VM. -/
theorem parts_of_trustRestore (h : Hyp) (id : U32) : Hypercall.Parts h (trustRestore h id).2 := by
  unfold trustRestore
  split
  · exact .refl
  · exact .refl
  · split
    · exact .refl
    · rename_i ix i _ _ _
      have hclear : OnlyVse h (h.setTrust ix { h.trust.vm ix with faultCount := 0 }) := ⟨rfl, rfl⟩
      have hset := hclear.trans (onlyVse_trustSet _ id .degraded)
      dsimp only
      split
      · exact (Hypercall.Parts.vse hset).tail (.resume _ i)
      · exact .vse hset

open Hypercall in
/-- **Every operation is a sequence of parts**, as a hypercall is. -/
theorem parts_of_trustStep {op : TrustOp} (hrun : trustStep h op = some h') : Parts h h' := by
  cases trustStep_effect hrun with
  | reportFault hcall => exact parts_of_trustReportFault hcall
  | quarantine hcall => exact parts_of_trustQuarantine hcall
  | revoke vmId => exact parts_of_trustRevoke h vmId
  | restore vmId => exact parts_of_trustRestore h vmId
  | autoPromoteTick nowUs => exact .vse (onlyVse_autoPromoteTick h nowUs)
  | notifyFault hcall => exact parts_of_idsNotifyFault hcall
  | poll => exact .vse (onlyVse_idsPoll h)
  | failoverRegister =>
    unfold failoverRegister
    repeat' split
    all_goals first | exact .refl | exact .single (.backup ..)
  | failoverTrigger hcall =>
    rcases failoverTrigger_cases hcall with ⟨-, rfl⟩ | ⟨ix, i, -, -, -, hdo⟩
    · exact .refl
    · exact parts_of_doFailover hdo
  | failoverOnQuarantine hcall => exact parts_of_failoverOnQuarantine hcall
  | hvcStop vmId => exact parts_of_onVm (fun i => .stop h i) vmId
  | hvcSuspend vmId => exact parts_of_onVm (fun i => .suspend h i) vmId
  | hvcResume vmId => exact parts_of_onVm (fun i => .resume h i) vmId

/-- No operation takes tables or regions away. -/
theorem trustStep_retains {op : TrustOp} (hrun : trustStep h op = some h') : Retains h h' :=
  retains_of_parts (parts_of_trustStep hrun)

theorem exec_retains {ops : List TrustOp} (hrun : exec trustStep h ops = some h') : Retains h h' :=
  exec_invariant (fun _ _ _ hr hstep => Retains.trans hr (trustStep_retains hstep)) (.refl h) hrun

/-- **The descriptor of a VM stays as it was registered**, but for its
count of attempts. -/
theorem exec_descriptor {ops : List TrustOp} {bd : BackupDesc} (he : Enrolled ix h)
    (hbd : ∃ n, h.failover.backup ix = { bd with failoverCount := n })
    (honce : ∀ op ∈ ops, ¬ Registers ix op) (hrun : exec trustStep h ops = some h') :
    Enrolled ix h' ∧ ∃ n, h'.failover.backup ix = { bd with failoverCount := n } := by
  induction ops generalizing h with
  | nil =>
    obtain rfl := Option.some.inj hrun
    exact ⟨he, hbd⟩
  | cons op ops ih =>
    obtain ⟨k, hstep, hrun⟩ := Option.bind_eq_some_iff.mp hrun
    obtain ⟨n, hn⟩ := hbd
    obtain ⟨hek, hspends⟩ := trustStep_spends he (honce op List.mem_cons_self) hstep
    refine ih hek ?_ (fun op' hmem => honce op' (List.mem_cons_of_mem op hmem)) hrun
    rcases hspends with hkept | ⟨-, hspent⟩
    · exact ⟨n, hkept.backup.trans hn⟩
    · exact ⟨n + 1, by rw [hspent.backup, hn]⟩

/-- The image is what the backup was. -/
def Copied (backupPa livePa backupSize : U64) (h h' : Hyp) : Prop :=
  ∀ k < backupSize.toNat, h'.phys (livePa + BitVec.ofNat 64 k) = h.phys (backupPa + BitVec.ofNat 64 k)

omit P in
/-- **The copy is exact** unless it reads what it has written over. -/
theorem copied_iff {bd : BackupDesc} (hb : bd.backupPa ≠ 0) (hl : bd.livePa ≠ 0)
    (hn : bd.backupSize ≠ 0) (hne : bd.livePa ≠ bd.backupPa)
    (hphys : h'.phys = (restoreImage h bd).phys) :
    Copied bd.backupPa bd.livePa bd.backupSize h h' ↔ ∀ k < bd.backupSize.toNat,
      h.phys (bd.backupPa + BitVec.ofNat 64 (k % (bd.livePa - bd.backupPa).toNat)) =
        h.phys (bd.backupPa + BitVec.ofNat 64 k) := by
  have hcopy : h'.phys = copyUp bd.livePa bd.backupPa bd.backupSize.toNat h.phys := by
    rw [hphys, restoreImage, if_pos ⟨hb, hl, hn, fun heq => hne heq.symm⟩, ← memcpy_eq]
  unfold Copied
  rw [hcopy]
  exact copyUp_exact_iff hne (Nat.le_of_lt bd.backupSize.isLt)

/-- **What a failover restores.** For every backup that was registered, with
an image at another address, and whatever happened since: if a failover
succeeds, the VM runs again, and in its regions the addresses translate as
after any `vm_finalize` of the VM, as its first. The image is the backup if
and only if the backup repeats itself with the distance from backup to
image, and so for every content if it is no longer than that. -/
theorem failover_restores_iff {h₀ h₁ : Hyp} {ops : List TrustOp}
    {backupPa livePa backupSize entryIpa : U64} (hs : Standing h₀) (hshape : Shape h₀.s2 h₀.roots)
    (hix : idx id = some ix)
    (hreg : failoverRegister h₀ id backupPa livePa backupSize entryIpa = (.ok, h₁))
    (hlive : livePa ≠ 0) (hother : livePa ≠ backupPa) (honce : ∀ op ∈ ops, ¬ Registers ix op)
    (hrun : exec trustStep h₁ ops = some h) (hvm : h.vms[ix.val]? = some vm)
    (hcall : failoverTrigger h id = some (.ok, h') ∨ failoverOnQuarantine h id = some (.ok, h')) :
    Recovered ix vm entryIpa h h' ∧
    (∀ (a b : Hyp) (vm' : Vm), Shape a.s2 a.roots → a.vms[ix.val]? = some vm' →
      vm'.layout = vm.layout → vmFinalize a ix.val = some (.ok, b) →
      ∀ j : U64, (∃ reg ∈ vm.mem, reg.Contains j.toNat) →
        ipaResult h'.s2 vm.s2Pgd j = ipaResult b.s2 vm.s2Pgd j) ∧
    (Copied backupPa livePa backupSize h h' ↔ ∀ k < backupSize.toNat,
      h.phys (backupPa + BitVec.ofNat 64 (k % (livePa - backupPa).toNat)) =
        h.phys (backupPa + BitVec.ofNat 64 k)) ∧
    (backupSize.toNat ≤ (livePa - backupPa).toNat → Copied backupPa livePa backupSize h h') := by
  obtain ⟨-, hbackup, hsize, ⟨i, hfound⟩, rfl⟩ := failoverRegister_ok hix hreg
  have hocc : Occupied h₀ ix := occupied_of_vmById hs.roster hix hfound
  have he : Enrolled ix (h₀.setBackup ix ⟨true, backupPa, livePa, backupSize, entryIpa, true, 0⟩) :=
    ⟨hs.of_same ⟨rfl, rfl, rfl, rfl⟩, _, List.getElem?_eq_getElem hocc⟩
  have hstart : ∃ n, (h₀.setBackup ix
      ⟨true, backupPa, livePa, backupSize, entryIpa, true, 0⟩).failover.backup ix =
        { (⟨true, backupPa, livePa, backupSize, entryIpa, true, 0⟩ : BackupDesc) with
          failoverCount := n } := ⟨0, Function.update_self ..⟩
  -- the descriptor is still the registered one, and the tables are still well formed
  obtain ⟨he', n, hbd⟩ := exec_descriptor he hstart honce hrun
  have hretains := exec_retains hrun
  have hshape' : Shape h.s2 h.roots := by
    rw [hretains.roots]
    exact (hretains.tables hshape).shape
  obtain ⟨hrec, a, g, hs2, hvms, hfinal, htables, hphys⟩ :=
    doFailover_restarts he'.standing hix hvm (doFailover_of_ok hix hcall)
  rw [hbd] at hrec hphys
  have hcopied := copied_iff hbackup hlive hsize hother hphys
  refine ⟨hrec, fun b c vm' hshapeb hvm' hlayout hfinal' j hj => ?_, hcopied, fun hshort => ?_⟩
  · -- the tables after the stop have their shape, and the VM its layout
    have hstop := retains_vmStop (countAttempt h ix) ix.val
    have hshapea : Shape a.s2 a.roots := by
      have hroots : a.roots = (vmStop (countAttempt h ix) ix.val).2.roots := by
        rw [Hyp.roots, hvms, Hyp.roots]
      rw [hs2, hroots, hstop.roots]
      exact (hstop.tables hshape').shape
    have hvma : a.vms[ix.val]? = some { vm with state := .stopped } := by
      rw [hvms]
      exact vms_vmStop (h := countAttempt h ix) hvm
    rw [htables]
    exact vmFinalize_alike hshapea hshapeb hvma hvm' hlayout hfinal hfinal' hj
  · refine hcopied.mpr fun k hk => ?_
    rw [Nat.mod_eq_of_lt (Nat.lt_of_lt_of_le hk hshort)]

end Failover

/-- An RTOS with one region, up and running. -/
def rtosLife : List LifeOp :=
  [.create .rtos, .addMem 0 0x60000000 0 0x2000 (memR ||| memW ||| memX), .finalize 0, .start 0]

/-- Two bytes that differ, and nothing else. -/
def twoBytes : U64 → U8 := fun a => if a = 0x50000000 then 1 else if a = 0x50000001 then 2 else 0

theorem exists_restart (livePa : U64) (hlive : livePa = 0x60000000 ∨ livePa = 0x50000001) :
    letI := Stage2.poolAt2M
    ∃ h vm h₁ vm₁ h', exec LifeOp.run (Hyp.start (fun _ => 0) twoBytes fun _ => 0) rtosLife = some h ∧
      (vseInit h fun _ => .match).vms = [vm] ∧ vm.id = 1 ∧ vm.state = .running ∧
      failoverRegister (vseInit h fun _ => .match) 1 0x50000000 livePa 2 0x1000 = (.ok, h₁) ∧
      h₁.phys = twoBytes ∧ h₁.vms[0]? = some vm₁ ∧
      failoverTrigger h₁ 1 = some (.ok, h') ∧ h'.phys = memcpy livePa 0x50000000 2 twoBytes := by
  rcases hlive with rfl | rfl
  · exact ⟨_, _, _, _, _, rfl, rfl, rfl, rfl, rfl, rfl, rfl, rfl, rfl⟩
  · exact ⟨_, _, _, _, _, rfl, rfl, rfl, rfl, rfl, rfl, rfl, rfl, rfl⟩

/-- The RTOS is restarted from two bytes that are elsewhere. -/
theorem failover_restores_rtos :
    letI := Stage2.poolAt2M
    ∃ h h₁ vm h', exec LifeOp.run (Hyp.start (fun _ => 0) twoBytes fun _ => 0) rtosLife = some h ∧
      failoverRegister (vseInit h fun _ => .match) 1 0x50000000 0x60000000 2 0x1000 = (.ok, h₁) ∧
      h₁.vms[0]? = some vm ∧ failoverTrigger h₁ 1 = some (.ok, h') ∧
      Recovered ⟨0, by decide⟩ vm 0x1000 h₁ h' ∧ Copied 0x50000000 0x60000000 2 h₁ h' := by
  let _ := Stage2.poolAt2M
  obtain ⟨h, rtos, h₁, vm, h', hlife, hvms, hid, hrunning, hreg, -, hvm, hcall, -⟩ :=
    exists_restart 0x60000000 (.inl rfl)
  have hs : Standing (vseInit h fun _ => .match) :=
    standing_of_one hvms hid (by rw [hrunning]; decide) rfl
  have hshape : Shape h.s2 h.roots := shape_of_lifeOps hlife
  have hix : idx 1 = some (⟨0, by decide⟩ : Fin maxVms) := rfl
  obtain ⟨hrec, -, -, hcopied⟩ := failover_restores_iff hs hshape hix hreg (by decide) (by decide)
    (List.forall_mem_nil _) rfl hvm (.inl hcall)
  exact ⟨h, h₁, vm, h', hlife, hreg, hvm, hcall, hrec, hcopied (by decide)⟩

/-- The image starts at the second byte of the backup. The copy writes the
first byte over the second and then copies that. -/
theorem failover_corrupts_image :
    letI := Stage2.poolAt2M
    ∃ h h₁ h', exec LifeOp.run (Hyp.start (fun _ => 0) twoBytes fun _ => 0) rtosLife = some h ∧
      Standing (vseInit h fun _ => .match) ∧
      failoverRegister (vseInit h fun _ => .match) 1 0x50000000 0x50000001 2 0x1000 = (.ok, h₁) ∧
      failoverTrigger h₁ 1 = some (.ok, h') ∧
      h₁.phys 0x50000001 = 2 ∧ h'.phys 0x50000002 = 1 ∧ ¬ Copied 0x50000000 0x50000001 2 h₁ h' := by
  let _ := Stage2.poolAt2M
  obtain ⟨h, rtos, h₁, vm, h', hlife, hvms, hid, hrunning, hreg, hbefore, -, hcall, hafter⟩ :=
    exists_restart 0x50000001 (.inr rfl)
  have hs : Standing (vseInit h fun _ => .match) :=
    standing_of_one hvms hid (by rw [hrunning]; decide) rfl
  have htwo : h₁.phys 0x50000001 = 2 := by
    rw [hbefore]
    decide
  have hone : h'.phys 0x50000002 = 1 := by
    rw [hafter]
    decide
  refine ⟨h, h₁, h', hlife, hs, hreg, hcall, htwo, hone, fun hcopied => ?_⟩
  have hsecond := hcopied 1 (by decide)
  exact absurd (hone.symm.trans (hsecond.trans htwo)) (by decide)

end Vse

end HypervisorBase
