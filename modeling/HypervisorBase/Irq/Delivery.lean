import HypervisorBase.Irq.Model
/-!
# Delivery of virtual interrupts

A virtual interrupt is pending for a vCPU when one of the list registers
that vCPU runs with holds it. The vCPU on the CPU runs with the registers
as they are. Any other one will find its own saved list register 0 and,
since a switch exchanges no more than that, whatever stands in the others
(`lr_vcpuDoSwitch`). `irq_route_to_vm` and `ipc_notify` both write the
registers of the vCPU that happens to run, and `virq_reaches_iff` says
when that is nevertheless a delivery to the right VM and to no other.
-/

namespace HypervisorBase

namespace Irq

/-! ## Pending interrupts -/

/-- List register `n` as the vCPU `c` runs with it. -/
def lrFor (h : Hyp) (c n : ℕ) : U64 :=
  if h.current = some c then h.lr n
  else if n = 0 then ((h.vcpus[c]?).map Vcpu.ichLr0).getD 0
  else h.lr n

/-- The registers another vCPU runs with are those a switch to it leaves. -/
theorem lr_vcpuDoSwitch {h : Hyp} {c : ℕ} {vc : Vcpu} (hc : h.vcpus[c]? = some vc)
    (hcur : h.current ≠ some c) (n : ℕ) :
    (Sched.vcpuDoSwitch h h.current c).lr n = lrFor h c n := by
  -- the vCPU that leaves is another one, and its save does not touch the registers
  obtain ⟨g, hg, hlr, hvc⟩ : ∃ g, Sched.vcpuDoSwitch h h.current c = Sched.switchIn g c ∧
      g.lr = h.lr ∧ g.vcpus[c]? = some vc := by
    cases hprev : h.current with
    | none => exact ⟨h, rfl, rfl, hc⟩
    | some p =>
      refine ⟨Sched.switchOut h p, rfl, ?_, ?_⟩
      · unfold Sched.switchOut
        split <;> rfl
      · have hne : p ≠ c := fun heq => hcur (by rw [hprev, heq])
        unfold Sched.switchOut
        split
        · exact hc
        · exact (List.getElem?_set_ne hne).trans hc
  rw [hg, lrFor, if_neg hcur, hc]
  unfold Sched.switchIn
  rw [hvc]
  dsimp only
  by_cases hn : n = 0
  · rw [hn, if_pos rfl, Function.update_self]
    rfl
  · rw [if_neg hn, Function.update_of_ne hn, hlr]

/-- A list register that holds a pending interrupt. -/
def IsPending (lr : U64) (virq : U32) : Prop := lr >>> 62 = 1 ∧ lr.setWidth 32 = virq

/-- The id of the VM a vCPU belongs to. -/
def ownerId (h : Hyp) (c : ℕ) : Option U32 :=
  ((h.vcpus[c]?).bind fun vc => h.vms[vc.vm]?).map Vm.id

/-- An interrupt is pending for a vCPU of a VM. -/
def PendingFor (h : Hyp) (vmId virq : U32) : Prop :=
  ∃ c, ownerId h c = some vmId ∧ ∃ n < h.numLrs, IsPending (lrFor h c n) virq

/-- **Delivery to a VM and to no other**: the interrupt is pending for it
afterwards, and every vCPU of another VM runs with the list registers it
had. -/
structure ReachesOnly (h h' : Hyp) (vmId virq : U32) : Prop where
  pending : PendingFor h' vmId virq
  others : ∀ c e n, ownerId h c = some e → e ≠ vmId → lrFor h' c n = lrFor h c n

/-! ## An injection -/

/-- A vCPU is on the CPU. -/
structure OnCpu (h : Hyp) where
  c : ℕ
  vc : Vcpu
  vm : Vm
  current : h.current = some c
  vcpu : h.vcpus[c]? = some vc
  owner : h.vms[vc.vm]? = some vm
  listRegs : 0 < h.numLrs

variable {h : Hyp} {virq vmId : U32} {prio : U8}

/-- The interrupt passes the distributor and the mask of the vCPU on the
CPU. -/
def Passes (cpu : OnCpu h) (virq : U32) : Prop :=
  Ipc.vgicIsEnabled cpu.vm.vgic virq = true ∧
    Ipc.vgicIsMasked cpu.vc.vgicCpu (Ipc.vgicGetPriority cpu.vm.vgic virq) = false

/-- The value an injection writes. -/
def injected (cpu : OnCpu h) (virq : U32) : U64 :=
  Ipc.lrValue virq (Ipc.vgicGetPriority cpu.vm.vgic virq)

/-- The register it takes. -/
def target (h : Hyp) : ℕ := Ipc.freeLr h.lr h.numLrs

/-- The injection is let through, and changes the register it takes. -/
def Changes (cpu : OnCpu h) (virq : U32) : Prop :=
  Passes cpu virq ∧ h.lr (target h) ≠ injected cpu virq

theorem target_lt (hpos : 0 < h.numLrs) : target h < h.numLrs := by
  rw [target, Ipc.freeLr]
  cases hfind : (List.range h.numLrs).find? fun i => h.lr i >>> 62 = 0 with
  | none => exact hpos
  | some i => exact List.mem_range.mp (List.mem_of_find?_eq_some hfind)

/-- An injection writes one list register, or does nothing. -/
theorem gicInjectVirqLr_eq (cpu : OnCpu h) (virq : U32) (prio : U8) [Decidable (Passes cpu virq)] :
    Ipc.gicInjectVirqLr h virq prio = if Passes cpu virq then
      { h with lr := Function.update h.lr (target h) (injected cpu virq) } else h := by
  unfold Ipc.gicInjectVirqLr
  rw [cpu.current, Option.bind_some, cpu.vcpu]
  dsimp only
  rw [cpu.owner]
  dsimp only
  by_cases henabled : Ipc.vgicIsEnabled cpu.vm.vgic virq = true
  · by_cases hmasked : Ipc.vgicIsMasked cpu.vc.vgicCpu (Ipc.vgicGetPriority cpu.vm.vgic virq) = true
    · rw [if_neg (by simp [henabled]), if_pos hmasked,
        if_neg fun hpass => by rw [hpass.2] at hmasked; cases hmasked]
    · rw [if_neg (by simp [henabled]), if_neg hmasked,
        if_pos ⟨henabled, Bool.not_eq_true _ ▸ hmasked⟩]
      rfl
  · rw [if_pos (by simpa using henabled), if_neg fun hpass => henabled hpass.1]

theorem isPending_lrValue (virq : U32) (prio : U8) : IsPending (Ipc.lrValue virq prio) virq := by
  constructor
  · apply BitVec.eq_of_getLsbD_eq
    intro i hi
    have hcases : i = 0 ∨ i = 1 ∨ 2 ≤ i := by omega
    rcases hcases with rfl | rfl | hge
    · simp [Ipc.lrValue]
    · simp [Ipc.lrValue]
    · rw [BitVec.getLsbD_ushiftRight, BitVec.getLsbD_of_ge _ _ (by omega)]
      simp
      omega
  · apply BitVec.eq_of_getLsbD_eq
    intro i hi
    simp [Ipc.lrValue, hi]

theorem ownerId_cpu (cpu : OnCpu h) : ownerId h cpu.c = some cpu.vm.id := by
  rw [ownerId, cpu.vcpu, Option.bind_some, cpu.owner]
  rfl

/-- **When an injection is a delivery to a VM and to no other.** Where it
changes a register, the VM on the CPU must be the one addressed, and the
register must be the one a switch exchanges unless no other VM has a
vCPU. Where it changes nothing, the interrupt must be pending already. -/
def Deliverable (cpu : OnCpu h) (vmId virq : U32) : Prop :=
  (Changes cpu virq → cpu.vm.id = vmId ∧
    (target h = 0 ∨ ∀ c e, ownerId h c = some e → e = vmId)) ∧
  (¬ Changes cpu virq → PendingFor h vmId virq)

theorem reachesOnly_self : ReachesOnly h h vmId virq ↔ PendingFor h vmId virq :=
  ⟨ReachesOnly.pending, fun hpending => ⟨hpending, fun _ _ _ _ _ => rfl⟩⟩

/-- The registers after a write, as each vCPU runs with them. -/
theorem lrFor_update (cpu : OnCpu h) (v : U64) (c n : ℕ) :
    lrFor { h with lr := Function.update h.lr (target h) v } c n =
      if n = target h ∧ (c = cpu.c ∨ n ≠ 0) then v else lrFor h c n := by
  unfold lrFor
  dsimp only
  simp only [cpu.current, Option.some_inj]
  by_cases hn : n = target h
  · subst hn
    by_cases hc : cpu.c = c
    · rw [if_pos hc, if_pos ⟨rfl, .inl hc.symm⟩, Function.update_self]
    · by_cases hzero : target h = 0
      · rw [if_neg hc, if_pos hzero,
          if_neg fun hboth => hboth.2.elim (fun heq => hc heq.symm) fun hne => hne hzero,
          if_neg hc, if_pos hzero]
      · rw [if_neg hc, if_neg hzero, if_pos ⟨rfl, .inr hzero⟩, Function.update_self]
  · have hnot : ¬ (n = target h ∧ (c = cpu.c ∨ n ≠ 0)) := fun hboth => hn hboth.1
    rw [if_neg hnot, Function.update_of_ne hn]

/-- **An injection delivers exactly when it may.** -/
theorem reachesOnly_inject_iff (cpu : OnCpu h) (vmId virq : U32) (prio : U8) :
    ReachesOnly h (Ipc.gicInjectVirqLr h virq prio) vmId virq ↔ Deliverable cpu vmId virq := by
  classical
  rw [gicInjectVirqLr_eq cpu]
  by_cases hchanges : Changes cpu virq
  · rw [if_pos hchanges.1]
    have hwrite := lrFor_update cpu (injected cpu virq)
    constructor
    · intro hreach
      refine ⟨fun _ => ⟨?_, ?_⟩, fun hnot => absurd hchanges hnot⟩
      · by_contra hother
        have hsame := hreach.others cpu.c _ (target h) (ownerId_cpu cpu) hother
        rw [hwrite, if_pos ⟨rfl, .inl rfl⟩, lrFor, if_pos cpu.current] at hsame
        exact hchanges.2 hsame.symm
      · by_contra hboth
        push Not at hboth
        obtain ⟨hzero, c, e, howner, hother⟩ := hboth
        have hsame := hreach.others c e (target h) howner hother
        rw [hwrite, if_pos ⟨rfl, .inr hzero⟩] at hsame
        -- a register beyond the first is the same for every vCPU
        have hlr : lrFor h c (target h) = h.lr (target h) := by
          rw [lrFor, if_neg hzero, ite_self]
        exact hchanges.2 (hsame.trans hlr).symm
    · intro hmay
      obtain ⟨hvm, hsafe⟩ := hmay.1 hchanges
      refine ⟨⟨cpu.c, ?_, target h, target_lt cpu.listRegs, ?_⟩, fun c e n howner hother => ?_⟩
      · rw [← hvm]
        exact ownerId_cpu cpu
      · rw [hwrite, if_pos ⟨rfl, .inl rfl⟩]
        exact isPending_lrValue ..
      · rcases hsafe with hzero | halone
        · have hc : c ≠ cpu.c := by
            intro heq
            rw [heq, ownerId_cpu cpu, Option.some_inj] at howner
            exact hother (howner.symm.trans hvm)
          rw [hwrite, if_neg]
          rintro ⟨hn, hor⟩
          exact hor.elim hc fun hne => hne (hn.trans hzero)
        · exact absurd (halone c e howner) hother
  · -- dropped, or written over by itself
    have hsame : (if Passes cpu virq then { h with
        lr := Function.update h.lr (target h) (injected cpu virq) } else h) = h := by
      split
      · rename_i hpass
        have heq : h.lr (target h) = injected cpu virq :=
          not_not.mp fun hne => hchanges ⟨hpass, hne⟩
        rw [← heq, Function.update_eq_self]
      · rfl
    rw [hsame, reachesOnly_self]
    exact ⟨fun hpending => ⟨fun hch => absurd hch hchanges, fun _ => hpending⟩,
      fun hmay => hmay.2 hchanges⟩

/-! ## Routes and doorbells -/

theorem ipcNotify_ok {d : U32} (hok : (Ipc.ipcNotify h d).1 = .ok) :
    (Ipc.ipcNotify h d).2 = Ipc.gicInjectVirqLr h Ipc.ipcDoorbellVirq 0xA0 := by
  unfold Ipc.ipcNotify at hok ⊢
  split
  · rename_i hbad
    rw [if_pos hbad] at hok
    cases hok
  · rename_i hgood
    rw [if_neg hgood] at hok
    split
    · rename_i hnone
      rw [hnone] at hok
      cases hok
    · rename_i dst hdst
      rw [hdst] at hok
      dsimp only at hok ⊢
      split
      · rename_i hstopped
        rw [if_pos hstopped] at hok
        cases hok
      · rfl

/-- **Where a virtual interrupt goes.** In every state with a vCPU on the
CPU, for every physical interrupt that has a route and every doorbell that
`ipc_notify` accepts, the interrupt reaches the VM it is meant for and no
other if and only if the VM on the CPU may be given it in that VM's place. -/
theorem virq_reaches_iff (h : Hyp) (cpu : OnCpu h) :
    (∀ phys r, routeOf h phys = some r →
      (ReachesOnly h (irqRouteToVm h phys) r.vmId r.virq ↔ Deliverable cpu r.vmId r.virq)) ∧
    ∀ d, (Ipc.ipcNotify h d).1 = .ok →
      (ReachesOnly h (Ipc.ipcNotify h d).2 d Ipc.ipcDoorbellVirq ↔
        Deliverable cpu d Ipc.ipcDoorbellVirq) := by
  constructor
  · intro phys r hroute
    rw [irqRouteToVm, hroute]
    exact reachesOnly_inject_iff cpu r.vmId r.virq 0x80
  · intro d hok
    rw [ipcNotify_ok hok]
    exact reachesOnly_inject_iff cpu d Ipc.ipcDoorbellVirq 0xA0

/-- Linux and the RTOS both run, the RTOS is on the CPU with its priority
mask open, and interrupt 34 is routed to Linux. -/
def rtosOnCpu : Hyp :=
  let linux : Vm := { vmInit 1 .linux with state := .running, vcpus := [0] }
  let rtos : Vm := { vmInit 2 .rtos with state := .running, vcpus := [1] }
  { Hyp.blank with
    vms := [linux, rtos]
    vcpus := [vcpuInit 0 linux 0, { vcpuInit 1 rtos 0 with vgicCpu := ⟨0xFF, 3, 1⟩ }]
    current := some 1
    routes := [⟨34, 1, 34, true⟩] }

def rtosCpu : OnCpu rtosOnCpu where
  c := 1
  vc := _
  vm := _
  current := rfl
  vcpu := rfl
  owner := rfl
  listRegs := by decide

/-- The route and the doorbell of that state are of the kind the
equivalence is about. -/
theorem virq_reaches_rtosOnCpu :
    (ReachesOnly rtosOnCpu (irqRouteToVm rtosOnCpu 34) 1 34 ↔ Deliverable rtosCpu 1 34) ∧
      (ReachesOnly rtosOnCpu (Ipc.ipcNotify rtosOnCpu 1).2 1 Ipc.ipcDoorbellVirq ↔
        Deliverable rtosCpu 1 Ipc.ipcDoorbellVirq) :=
  ⟨(virq_reaches_iff rtosOnCpu rtosCpu).1 34 ⟨34, 1, 34, true⟩ (by decide),
    (virq_reaches_iff rtosOnCpu rtosCpu).2 1 (by decide)⟩

/-- Interrupt 34 of Linux goes to the RTOS. -/
theorem linux_irq_goes_to_rtos :
    ¬ ReachesOnly rtosOnCpu (irqRouteToVm rtosOnCpu 34) 1 34 := by
  have hroute : irqRouteToVm rtosOnCpu 34 = Ipc.gicInjectVirqLr rtosOnCpu 34 0x80 := rfl
  rw [hroute, reachesOnly_inject_iff rtosCpu]
  intro hmay
  have hchanges : Changes rtosCpu 34 := ⟨⟨by decide, by decide⟩, by decide⟩
  exact absurd (hmay.1 hchanges).1 (by decide)

end Irq

end HypervisorBase
