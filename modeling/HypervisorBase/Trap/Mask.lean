import HypervisorBase.Irq.Delivery
import HypervisorBase.Trap.Termination
import HypervisorBase.Vm.Teardown
/-!
# The priority mask of a vCPU that has not set it

`vgic_cpu_init` would open the mask of a new vCPU, so that a guest gets
its interrupts before it has come to its own interrupt controller.
Nothing calls it. `vcpu_init` clears the vCPU, and a mask of zero lets
nothing through, whatever the priority. From boot on, a vCPU has that mask
until it writes `ICC_PMR_EL1` (`Unset.step`), and until then
`gic_inject_virq_lr` does nothing at all. As everywhere, no message is
received into the hypervisor's own memory, where the masks are
(`Ipc.StoresOutside`).
-/

namespace HypervisorBase

namespace Trap

/-! ## Until the mask is set -/

/-- The VM of a vCPU, and its priority mask. -/
def maskOf (vc : Vcpu) : ℕ × U8 := (vc.vm, vc.vgicCpu.iccPmr)

theorem lasting_maskOf : Lasting maskOf := fun _ _ _ _ => rfl

/-- **The vCPU `c` writes `ICC_PMR_EL1`.** -/
def SetsMask (h : Hyp) (c : ℕ) (t : TrapLabel) : Prop := h.current = some c ∧ WritesMask t

section Tables

variable [P : PtPool]

/-- **A step before the vCPU `c` has set its mask**: setting VMs up, the
launch, a trap of any guest, and whatever leaves the VMs and the pool
alone. -/
inductive Before (c : ℕ) : Hyp → Hyp → Prop
  | life {h h' : Hyp} {op : LifeOp} : op.run h = some h' → Before c h h'
  | launch {h h' : Hyp} : Sched.schedRun h = some h' → Before c h h'
  | trap {h h' : Hyp} {t : TrapLabel} : trapStep h t = some h' → ¬ SetsMask h c t → Before c h h'
  | aside {h h' : Hyp} : h'.vms = h.vms → h'.vcpus = h.vcpus → Before c h h'

end Tables

/-- **The mask has not been set**: that of the vCPU `c`, once there is
one, is still zero, and its VM is there. -/
def Unset (c : ℕ) (h : Hyp) : Prop :=
  ∀ vc, h.vcpus[c]? = some vc → vc.vm < h.vms.length ∧ vc.vgicCpu.iccPmr = 0

variable {h h' : Hyp} {c : ℕ}

/-- **What grows keeps the mask.** -/
theorem Unset.of_grows (hu : Unset c h) (hg : Grows maskOf h h') : Unset c h' := by
  intro vc' hvc'
  obtain ⟨vc, hsame, hold | hnew⟩ := hg.cases hvc'
  · obtain ⟨hvm, hpmr⟩ := hu vc hold
    obtain ⟨hvm', hpmr'⟩ := Prod.mk.inj hsame
    rw [hvm', hpmr']
    exact ⟨Nat.lt_of_lt_of_le hvm hg.vms, hpmr⟩
  · obtain ⟨hvm', hpmr'⟩ := Prod.mk.inj hsame
    rw [hvm', hpmr', hnew.vgicCpu]
    exact ⟨hnew.vm, rfl⟩

section Tables

variable [P : PtPool]

/-- **A part of a trap leaves the mask alone** unless it writes it. -/
theorem Unset.part {v : ℕ} {t : TrapLabel} (hu : Unset c h) (hp : TrapPart t v h h')
    (ht : v = c → ¬ WritesMask t) : Unset c h' := by
  cases hp with
  | part hpart => exact hu.of_grows (grows_of_part lasting_maskOf hpart)
  | here hl =>
    cases hl with
    | own hf =>
      by_cases hv : v = c
      · refine hu.of_grows (.of_map (Nat.le_refl _) (map_modify (fun vc => ?_) _ _))
        have hvm : _ = vc.vm := congrArg Prod.fst (hf.bound vc)
        exact Prod.ext hvm (hf.mask (ht hv) vc)
      · intro vc hvc
        dsimp only at hvc
        rw [List.getElem?_modify_ne _ _ hv] at hvc
        exact hu vc hvc
    | switch _ =>
      refine hu.of_grows (.of_map ?_ (Sched.map_vcpuDoSwitch lasting_maskOf _ _ _))
      rw [(Sched.onlySched_vcpuDoSwitch ..).vms]
    | beside hb => exact hu.of_grows (.of_same hb.vms hb.vcpus)

/-- **And so does a trap.** -/
theorem Unset.trap {t : TrapLabel} (hu : Unset c h) (hrun : trapStep h t = some h')
    (ht : ¬ SetsMask h c t) : Unset c h' :=
  trapStep_keeps hrun (fun _ _ _ hc hp hk => hk.part hp fun hv hmask => ht ⟨hv ▸ hc, hmask⟩) hu

/-! ## Runs -/

/-- The lifecycle leaves the masks of the virtual CPUs that are there. -/
theorem grows_lifeOp {op : LifeOp} (hrun : op.run h = some h') : Grows maskOf h h' := by
  cases op with
  | create type =>
    obtain ⟨⟨e, g⟩, hcreate, rfl⟩ := Option.map_eq_some_iff.mp hrun
    unfold vmCreate at hcreate
    split at hcreate
    · cases hcreate
      exact .refl h
    · obtain ⟨⟨⟨pgd, vttbr⟩, s⟩, -, hcreate⟩ := Option.bind_eq_some_iff.mp hcreate
      cases hcreate
      refine .of_map ?_ rfl
      dsimp only
      rw [List.length_append]
      exact Nat.le_add_right _ _
  | addMem i pa ipa sz flags =>
    obtain ⟨⟨e, g⟩, hadd, rfl⟩ := Option.map_eq_some_iff.mp hrun
    rcases vmAddMem_cases hadd with rfl | ⟨vm, -, rfl⟩
    · exact .refl _
    · exact .of_map (Nat.le_of_eq List.length_set.symm) rfl
  | finalize i =>
    obtain ⟨⟨e, g⟩, hfinal, rfl⟩ := Option.map_eq_some_iff.mp hrun
    exact grows_of_part lasting_maskOf (.rebuild hfinal)
  | start i =>
    obtain rfl := Option.some.inj hrun
    exact grows_of_part lasting_maskOf (.start h i)
  | call caller x =>
    obtain ⟨⟨x', g⟩, hcall, rfl⟩ := Option.map_eq_some_iff.mp hrun
    have hcaller : Grows maskOf h { h with current := caller } := .of_same rfl rfl
    exact hcaller.trans (grows_of_parts lasting_maskOf (Hypercall.parts_of_hvcDispatch hcall))

/-- So does the start of the scheduler. -/
theorem grows_schedRun (hrun : Sched.schedRun h = some h') : Grows maskOf h h' := by
  have hready : Grows maskOf h (Sched.startReady h) := by
    have hvms := length_vms_of_retains (Boot.retains_startReady h)
    exact .of_map (Nat.le_of_eq hvms.symm) (by rw [Sched.startReady_rest])
  refine hready.trans ?_
  obtain ⟨ch, vc, -, hvc, rfl⟩ := Sched.schedRun_cases hrun
  exact .of_map (Nat.le_refl _) (map_set hvc rfl)

/-- **A step keeps the mask unset.** -/
theorem Unset.step (hu : Unset c h) (hstep : Before c h h') : Unset c h' := by
  cases hstep with
  | life hrun => exact hu.of_grows (grows_lifeOp hrun)
  | launch hrun => exact hu.of_grows (grows_schedRun hrun)
  | trap hrun ht => exact hu.trap hrun ht
  | aside hvms hvcpus => exact hu.of_grows (.of_same hvms hvcpus)

/-- **And so does a run from the start.** -/
theorem unset_of_run {mem : U64 → U64} {phys : U64 → U8} {timer : ℕ → U64}
    (hrun : Relation.ReflTransGen (Before c) (Hyp.start mem phys timer) h) : Unset c h := by
  induction hrun with
  | refl =>
    intro vc hvc
    cases hvc
  | tail _ hlast ih => exact ih.step hlast

/-- Setting VMs up is such a run. -/
theorem before_of_lifeOps {ops : List LifeOp} (hrun : exec LifeOp.run h ops = some h') :
    Relation.ReflTransGen (Before c) h h' := by
  induction ops generalizing h with
  | nil =>
    cases hrun
    exact .refl
  | cons op ops ih =>
    obtain ⟨g, hop, hrest⟩ := Option.bind_eq_some_iff.mp hrun
    exact .head (.life hop) (ih hrest)

/-! ## An injection -/

/-- The interrupt is pending in a list register. -/
def InList (h : Hyp) (virq : U32) : Prop := ∃ n < h.numLrs, Irq.IsPending (h.lr n) virq

omit P in
/-- **A mask of zero lets nothing through.** -/
theorem gicInjectVirqLr_unset (hu : Unset c h) {vc : Vcpu} (hcur : h.current = some c)
    (hvc : h.vcpus[c]? = some vc) (hlr : 0 < h.numLrs) (virq : U32) (prio : U8) :
    Ipc.gicInjectVirqLr h virq prio = h := by
  classical
  obtain ⟨hvm, hpmr⟩ := hu vc hvc
  let cpu : Irq.OnCpu h := ⟨c, vc, h.vms[vc.vm], hcur, hvc, List.getElem?_eq_getElem hvm, hlr⟩
  rw [Irq.gicInjectVirqLr_eq cpu, if_neg]
  intro hpass
  have hmasked : Ipc.vgicIsMasked vc.vgicCpu (Ipc.vgicGetPriority cpu.vm.vgic virq) = true := by
    unfold Ipc.vgicIsMasked
    rw [hpmr]
    exact decide_eq_true (BitVec.le_def.mpr (Nat.zero_le _))
  exact Bool.noConfusion (hmasked.symm.trans hpass.2)

omit P in
/-- **The mask of `vgic_cpu_init` lets through** every enabled interrupt
but those of the lowest priority. -/
theorem inList_of_vgicCpuInit (cpu : Irq.OnCpu h) (hinit : cpu.vc.vgicCpu = Irq.vgicCpuInit)
    {virq : U32} (henabled : Ipc.vgicIsEnabled cpu.vm.vgic virq = true)
    (hprio : Ipc.vgicGetPriority cpu.vm.vgic virq ≠ 0xFF) (prio : U8) :
    InList (Ipc.gicInjectVirqLr h virq prio) virq := by
  classical
  have hopen : Ipc.vgicIsMasked cpu.vc.vgicCpu (Ipc.vgicGetPriority cpu.vm.vgic virq) = false := by
    unfold Ipc.vgicIsMasked
    rw [hinit]
    refine decide_eq_false fun hle => hprio ?_
    change (0xFF : U8) ≤ _ at hle
    bv_omega
  rw [Irq.gicInjectVirqLr_eq cpu, if_pos ⟨henabled, hopen⟩]
  refine ⟨Irq.target h, Irq.target_lt cpu.listRegs, ?_⟩
  dsimp only
  rw [Function.update_self]
  exact Irq.isPending_lrValue ..

/-- **An injection before the mask is set.** From the start on, for every
VM that was set up, every vCPU that has not written `ICC_PMR_EL1` and is
on the CPU, every interrupt and every state of the list registers with a
free one: the interrupt is pending afterwards if and only if it was
before. -/
theorem unset_delivery_iff {mem : U64 → U64} {phys : U64 → U8} {timer : ℕ → U64}
    (hrun : Relation.ReflTransGen (Before c) (Hyp.start mem phys timer) h) {vc : Vcpu}
    (hcur : h.current = some c) (hvc : h.vcpus[c]? = some vc)
    (hfree : ∃ n < h.numLrs, h.lr n >>> 62 = 0) (virq : U32) (prio : U8) :
    InList (Ipc.gicInjectVirqLr h virq prio) virq ↔ InList h virq := by
  obtain ⟨n, hn, -⟩ := hfree
  rw [gicInjectVirqLr_unset (unset_of_run hrun) hcur hvc (by omega) virq prio]

end Tables

/-- A real-time VM is created, finalized and started. -/
def rtosSetUp : List LifeOp := [.create .rtos, .finalize 0, .start 0]

theorem exists_rtosSetUp :
    letI := Stage2.poolAt2M
    ∃ h vc, exec LifeOp.run Hyp.blank rtosSetUp = some h ∧
      h.vcpus[0]? = some vc ∧ h.numLrs = 2 ∧ h.lr = fun _ => 0 :=
  ⟨_, _, rfl, rfl, rfl, rfl⟩

/-- Its vCPU is on the CPU with empty list registers, and the console's
interrupt comes. -/
theorem unset_delivery_rtos :
    letI := Stage2.poolAt2M
    ∃ h vc, exec LifeOp.run Hyp.blank rtosSetUp = some h ∧
      h.vcpus[0]? = some vc ∧
      (InList (Ipc.gicInjectVirqLr { h with current := some 0 } 33 0x80) 33 ↔
        InList { h with current := some 0 } 33) := by
  let _ := Stage2.poolAt2M
  obtain ⟨h, vc, hrun, hvc, hnum, hlr⟩ := exists_rtosSetUp
  refine ⟨h, vc, hrun, hvc, ?_⟩
  have hfree : ∃ n < h.numLrs, h.lr n >>> 62 = 0 := by
    rw [hnum, hlr]
    exact ⟨0, by decide, rfl⟩
  exact unset_delivery_iff (h := { h with current := some 0 })
    ((before_of_lifeOps (c := 0) hrun).tail (.aside rfl rfl)) rfl hvc hfree 33 0x80

/-- The interrupt is not pending afterwards. -/
theorem unset_never_delivered :
    letI := Stage2.poolAt2M
    ∃ h vc, exec LifeOp.run Hyp.blank rtosSetUp = some h ∧
      h.vcpus[0]? = some vc ∧
      (∃ n < h.numLrs, h.lr n >>> 62 = 0) ∧
      ¬ InList (Ipc.gicInjectVirqLr { h with current := some 0 } 33 0x80) 33 := by
  let _ := Stage2.poolAt2M
  obtain ⟨h, vc, hrun, hvc, hnum, hlr⟩ := exists_rtosSetUp
  refine ⟨h, vc, hrun, hvc, ?_, ?_⟩
  · rw [hnum, hlr]
    exact ⟨0, by decide, rfl⟩
  · have hunset : Unset 0 { h with current := some 0 } :=
      unset_of_run ((before_of_lifeOps hrun).tail (.aside rfl rfl))
    have hpos : 0 < h.numLrs := by
      rw [hnum]
      decide
    rw [gicInjectVirqLr_unset hunset rfl hvc hpos]
    rintro ⟨n, -, hstate, -⟩
    dsimp only at hstate
    rw [hlr] at hstate
    exact absurd hstate (show (0 : U64) >>> 62 ≠ 1 by decide)

end Trap

end HypervisorBase
