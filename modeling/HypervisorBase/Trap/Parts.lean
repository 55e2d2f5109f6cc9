import HypervisorBase.Device.Mmio
import HypervisorBase.Hypercall.Pool
import HypervisorBase.Trap.Model
/-!
# What a trap is made of

Whatever a trap does, it does in a few ways (`TrapPart`): it runs through
the parts of a hypercall, or works locally, which is to write the registers
of the vCPU that trapped, to switch to another one, and to keep its own
records. `trapStep_cases` says which traps do more than the local part, and
`trapStep_keeps` that what every part keeps, a trap keeps. `Held` is what a
hypercall leaves to the guest that made it.
-/

namespace HypervisorBase

namespace Trap

/-! ## What a trap leaves alone -/

/-- Everything but the VMs, their tables, the pool and the vCPU that runs
may change. -/
structure Beside (h h' : Hyp) : Prop where
  vms : h'.vms = h.vms
  vcpus : h'.vcpus = h.vcpus
  current : h'.current = h.current
  vttbrEl2 : h'.vttbrEl2 = h.vttbrEl2
  s2 : h'.s2 = h.s2
  initialized : h'.trust.initialized = h.trust.initialized

variable {h h' h'' : Hyp} {c : ℕ}

/-- What surrounds a switch. -/
theorem beside_of_booked (hb : Sched.Booked h h') : Beside h h' :=
  ⟨hb.only.vms, hb.vcpus, hb.current, hb.vttbrEl2, by rw [hb.only.rest], hb.initialized⟩

theorem beside_of_aside (ha : Hypercall.Aside h h') : Beside h h' := by
  rw [ha.rest]
  exact ⟨rfl, rfl, rfl, rfl, rfl, rfl⟩

/-- An interrupt that is routed reaches list registers and records only. -/
theorem beside_handleAcked (h : Hyp) (iar : U64) : Beside h (Irq.handleAcked h iar) := by
  have hinject : ∀ virq prio, Beside h (Ipc.gicInjectVirqLr h virq prio) :=
    fun virq prio => beside_of_aside (Hypercall.aside_gicInjectVirqLr h virq prio)
  unfold Irq.handleAcked
  dsimp only
  repeat' split
  all_goals try exact ⟨rfl, rfl, rfl, rfl, rfl, rfl⟩
  · obtain ⟨h₁, h₂, h₃, h₄, h₅, h₆⟩ := hinject 33 0x80
    exact ⟨h₁, h₂, h₃, h₄, h₅, h₆⟩
  unfold Irq.irqRouteToVm
  split
  · exact hinject _ _
  · unfold Vse.fdetectIrqUnrouted
    split <;> exact ⟨rfl, rfl, rfl, rfl, rfl, rfl⟩

/-! ## What a hypercall leaves to its caller -/

/-- The VM of a vCPU and the register it is switched in with. -/
def boundTo (vc : Vcpu) : ℕ × U64 := (vc.vm, vc.vttbrEl2)

/-- A vCPU of this VM with this register is one of the VM's. -/
def Bound (h : Hyp) (b : ℕ × U64) : Prop := (h.vms.map Vm.vttbr)[b.1]? = some b.2

/-- **The guest goes on**: the same vCPU runs with the same tables, and
the pool has gained vCPUs of the VMs that are there. -/
structure Held (h h' : Hyp) : Prop where
  current : h'.current = h.current
  vttbrEl2 : h'.vttbrEl2 = h.vttbrEl2
  vms : h'.vms.map Vm.vttbr = h.vms.map Vm.vttbr
  pool : ∃ news, h'.vcpus.map boundTo = h.vcpus.map boundTo ++ news ∧ ∀ b ∈ news, Bound h b

theorem Held.of_map (hcur : h'.current = h.current) (hreg : h'.vttbrEl2 = h.vttbrEl2)
    (hvms : h'.vms.map Vm.vttbr = h.vms.map Vm.vttbr)
    (hpool : h'.vcpus.map boundTo = h.vcpus.map boundTo) : Held h h' :=
  ⟨hcur, hreg, hvms, [], by rw [hpool, List.append_nil], List.forall_mem_nil _⟩

theorem Beside.held (b : Beside h h') : Held h h' :=
  .of_map b.current b.vttbrEl2 (by rw [b.vms]) (by rw [b.vcpus])

theorem held_modify (h : Hyp) (c : ℕ) {f : Vcpu → Vcpu} (hf : ∀ vc, boundTo (f vc) = boundTo vc) :
    Held h { h with vcpus := h.vcpus.modify c f } :=
  .of_map rfl rfl rfl (map_modify hf _ _)

theorem Held.trans (a : Held h h') (b : Held h' h'') : Held h h'' := by
  obtain ⟨news, hpool, hnews⟩ := a.pool
  obtain ⟨news', hpool', hnews'⟩ := b.pool
  refine ⟨b.current.trans a.current, b.vttbrEl2.trans a.vttbrEl2, b.vms.trans a.vms,
    news ++ news', by rw [hpool', hpool, List.append_assoc], fun t ht => ?_⟩
  rcases List.mem_append.mp ht with ht | ht
  · exact hnews t ht
  · have hbound := hnews' t ht
    rwa [Bound, a.vms] at hbound

/-- New vCPUs get the tables of their VM. -/
theorem initVcpus_bound {i n w : ℕ} {vm vm' : Vm} {pool pool' : List Vcpu} {e : Err}
    (hrun : initVcpus i n w vm pool = (e, vm', pool')) : vm'.vttbr = vm.vttbr ∧
      ∃ news, pool'.map boundTo = pool.map boundTo ++ news ∧ ∀ b ∈ news, b = (i, vm.vttbr) := by
  induction n generalizing w vm pool with
  | zero =>
    cases hrun
    exact ⟨rfl, [], (List.append_nil _).symm, List.forall_mem_nil _⟩
  | succ n ih =>
    unfold initVcpus at hrun
    split at hrun
    · cases hrun
      exact ⟨rfl, [], (List.append_nil _).symm, List.forall_mem_nil _⟩
    · obtain ⟨hvm, news, hnews, hall⟩ := ih hrun
      refine ⟨hvm, (i, vm.vttbr) :: news, ?_, ?_⟩
      · rw [hnews, List.map_append, List.append_assoc]
        rfl
      · exact List.forall_mem_cons.mpr ⟨rfl, hall⟩

section Tables

variable [P : PtPool]

/-- A rebuild gives the pool virtual CPUs of its own VM. -/
theorem held_vmFinalize {i : ℕ} {e : Err} (hrun : vmFinalize h i = some (e, h')) : Held h h' := by
  rcases vmFinalize_cases hrun with
    ⟨-, -, rfl⟩ | ⟨vm, hvm, ⟨s, -, -, rfl⟩ | ⟨s, s', vm', pool, -, -, hinit, rfl⟩⟩
  · exact .of_map rfl rfl rfl rfl
  · exact .of_map rfl rfl rfl rfl
  · obtain ⟨hsame, news, hnews, hall⟩ := initVcpus_bound hinit
    refine ⟨rfl, rfl, map_set_of_eq hvm hsame, news, hnews, fun b hb => ?_⟩
    rw [hall b hb, Bound, List.getElem?_map, hvm]
    rfl

/-- **A part of a hypercall leaves the guest on the CPU**, in its tables. -/
theorem held_of_part (hpart : Hypercall.Part h h') : Held h h' := by
  cases hpart with
  | aside ha => exact (beside_of_aside ha).held
  | vse hv =>
    rw [hv.rest]
    exact .of_map rfl rfl rfl rfl
  | backup ix b => exact .of_map rfl rfl rfl rfl
  | start i =>
    rcases vmStart_cases h i with heq | ⟨vm, hvm, -, heq⟩ <;> rw [heq]
    · exact .of_map rfl rfl rfl rfl
    · exact .of_map rfl rfl (map_set_of_eq hvm rfl) rfl
  | stop i =>
    rcases vmStop_cases h i with heq | ⟨vm, hvm, -, heq⟩ <;> rw [heq]
    · exact .of_map rfl rfl rfl rfl
    · exact .of_map rfl rfl (map_set_of_eq hvm rfl) (map_stopVcpus (fun _ _ _ _ => rfl) _ _)
  | suspend i =>
    rcases vmSuspend_cases h i with heq | ⟨vm, hvm, -, heq⟩ <;> rw [heq]
    · exact .of_map rfl rfl rfl rfl
    · exact .of_map rfl rfl (map_set_of_eq hvm rfl) rfl
  | resume i =>
    rcases vmResume_cases h i with heq | ⟨vm, hvm, -, heq⟩ <;> rw [heq]
    · exact .of_map rfl rfl rfl rfl
    · exact .of_map rfl rfl (map_set_of_eq hvm rfl) rfl
  | rebuild hbuild => exact held_vmFinalize hbuild
  | restart entryIpa hbuild =>
    refine (held_vmFinalize hbuild).trans ?_
    unfold Vse.resetEntry
    split
    · exact .of_map rfl rfl rfl rfl
    · exact .of_map rfl rfl rfl
        (map_modify (g := fun vc => vcpuSetEntry vc entryIpa 0) (fun _ => rfl) _ _)
  | map hmap =>
    rw [Hypercall.shmemMap_rest hmap]
    exact .of_map rfl rfl rfl rfl
  | unmap ipa sz =>
    rw [Hypercall.shmemUnmap_rest]
    exact .of_map rfl rfl rfl rfl

theorem held_of_parts (hparts : Hypercall.Parts h h') : Held h h' :=
  hparts.invariant (fun _ _ hpart hi => hi.trans (held_of_part hpart))
    (.of_map rfl rfl rfl rfl)

end Tables

/-! ## Local parts -/

/-- An access that `vgic_icc_trap` takes for a write to `ICC_PMR_EL1`. -/
def IsPmrWrite (esr : U64) : Prop :=
  (sysAccess esr).enc = sysRegEnc 3 0 4 6 0 ∧ (sysAccess esr).isRead = false

/-- The trap writes `ICC_PMR_EL1`. -/
def WritesMask (t : TrapLabel) : Prop :=
  ∃ esr far hpfar, t.cause = .sync esr far hpfar ∧ Class.ofEsr esr = .sysReg ∧ IsPmrWrite esr

/-- **What a trap may write into the vCPU that takes it**: its registers,
and its priority mask only by the instruction for that. -/
structure OwnWrite (t : TrapLabel) (f : Vcpu → Vcpu) : Prop where
  bound : ∀ vc, boundTo (f vc) = boundTo vc
  state : ∀ vc, (f vc).state = vc.state
  mask : ¬ WritesMask t → ∀ vc, (f vc).vgicCpu.iccPmr = vc.vgicCpu.iccPmr

theorem OwnWrite.regs (t : TrapLabel) (r : Vcpu → GuestRegs) :
    OwnWrite t fun vc => { vc with regs := r vc } :=
  ⟨fun _ => rfl, fun _ => rfl, fun _ _ => rfl⟩

/-- **One thing a trap of the vCPU `c` does by itself.** -/
inductive Local (t : TrapLabel) (c : ℕ) : Hyp → Hyp → Prop
  | own (h : Hyp) {f : Vcpu → Vcpu} : OwnWrite t f →
      Local t c h { h with vcpus := h.vcpus.modify c f }
  /-- To the vCPU of a slot that may run. -/
  | switch (h : Hyp) {k next : ℕ} : Sched.slotVcpu h k = some next →
      Local t c h (Sched.vcpuDoSwitch h h.current next)
  | beside {h h' : Hyp} : Beside h h' → Local t c h h'

abbrev Locals (t : TrapLabel) (c : ℕ) : Hyp → Hyp → Prop := Relation.ReflTransGen (Local t c)

variable {t : TrapLabel}

theorem locals_of_beside (hb : Beside h h') : Locals t c h h' := .single (.beside hb)

/-- A switch, on a slot that may run. -/
theorem locals_switchTo {ch : Sched.Choice} (hch : Sched.slotVcpu h ch.slot = some ch.vcpu)
    (isPreempt : Bool) : Locals t c h (Sched.switchTo h ch isPreempt) := by
  obtain ⟨g, g', hbefore, hswitch, hafter⟩ := Sched.switchTo_cases h ch isPreempt
  have hcur : h.current = g.current := hbefore.current.symm
  have hslot : Sched.slotVcpu g ch.slot = some ch.vcpu :=
    (Sched.slotVcpu_congr hbefore.same hbefore.standing ch.slot).trans hch
  have hnoted : Beside h { h with sched := { h.sched with cur := ch.slot } } :=
    ⟨rfl, rfl, rfl, rfl, rfl, rfl⟩
  have hbooked : Locals t c h g :=
    (locals_of_beside hnoted).trans (locals_of_beside (beside_of_booked hbefore))
  refine Relation.ReflTransGen.tail ?_ (.beside (beside_of_booked hafter))
  rcases hswitch with rfl | ⟨-, rfl⟩
  · rw [hcur]
    exact hbooked.tail (.switch g hslot)
  · exact hbooked

/-- A change to the vCPU that runs is one to the vCPU that trapped. -/
theorem locals_modifyCurrent {f : Vcpu → Vcpu} (hcur : h.current = some c) (hf : OwnWrite t f) :
    Locals t c h (h.modifyCurrent f) := by
  unfold Hyp.modifyCurrent
  split
  · exact .refl
  · rename_i v hv
    obtain rfl := Option.some.inj (hv.symm.trans hcur)
    exact .single (.own h hf)

/-- A scheduling event stays with the current context. -/
theorem locals_event (hcur : h.current = some c) (event : Sched.Event) :
    Locals t c h (event.run h) := by
  have henter : Locals t c h (event.enter h) := by
    cases event with
    | timer => exact .refl
    | wfi =>
      have hpast : Locals t c h (h.modifyCurrent fun vc => vc.setElr (vc.regs.elrEl2 + 4)) :=
        locals_modifyCurrent hcur (.regs t _)
      exact hpast.tail (.beside ⟨rfl, rfl, rfl, rfl, rfl, rfl⟩)
  rw [Sched.Event.run_eq]
  split
  · exact henter.tail (.beside ⟨rfl, rfl, rfl, rfl, rfl, rfl⟩)
  · rename_i ch hch
    obtain ⟨hsame, -, -, hstanding⟩ := Sched.enter_spec h event
    refine henter.trans (locals_switchTo ?_ _)
    rw [Sched.slotVcpu_congr hsame hstanding]
    exact Sched.slotVcpu_of_choice hch

theorem locals_gicHandleIrq (hcur : h.current = some c) (expired : Bool) (iar : U64) :
    Locals t c h (Irq.gicHandleIrq h expired iar) := by
  refine Relation.ReflTransGen.tail ?_ (.beside (beside_handleAcked _ iar))
  unfold Irq.handleTimer
  dsimp only
  split
  · have htick : Locals t c h (if !h.schedStopped then Sched.schedOnTimer h else h) := by
      split
      · exact locals_event hcur .timer
      · exact .refl
    exact htick.tail (.beside ⟨rfl, rfl, rfl, rfl, rfl, rfl⟩)
  · exact .refl

theorem locals_mmioHandle (hcur : h.current = some c) (fa esr : U64) :
    Locals t c h (Device.mmioHandle h fa esr) := by
  rcases Device.mmioHandle_eq h fa esr with heq | ⟨m, p, val, heq⟩ <;> rw [heq]
  have hdevice : Locals t c h { h with mmio := m, phys := p } :=
    locals_of_beside ⟨rfl, rfl, rfl, rfl, rfl, rfl⟩
  unfold Device.putResult
  split
  · exact hdevice
  · refine hdevice.trans (locals_modifyCurrent ?_ (.regs t _))
    exact hcur

/-- **An access to a system register** writes the mask only where it is one
to the mask. -/
theorem ownWrite_sysRegTrap {esr far hpfar : U64} (hcause : t.cause = .sync esr far hpfar)
    (hclass : Class.ofEsr esr = .sysReg) : OwnWrite t fun vc => sysRegTrap vc esr := by
  refine ⟨fun vc => ?_, fun vc => ?_, fun hmask vc => ?_⟩
  · unfold sysRegTrap
    dsimp only
    split <;> rfl
  · unfold sysRegTrap
    dsimp only
    split <;> rfl
  · have hesr : ¬ IsPmrWrite esr := fun hpmr => hmask ⟨esr, far, hpfar, hcause, hclass, hpmr⟩
    unfold sysRegTrap
    dsimp only
    split
    · rename_i cpu x htrap
      obtain ⟨⟨v, cpu'⟩, hemu, heq⟩ := Option.map_eq_some_iff.mp htrap
      dsimp only at heq
      by_cases hread : (sysAccess esr).isRead = true
      · rw [if_pos hread] at heq
        obtain ⟨rfl, rfl⟩ := Prod.mk.inj heq
        rfl
      · rw [if_neg hread] at heq
        obtain ⟨rfl, rfl⟩ := Prod.mk.inj heq
        -- the other two registers of the CPU interface are other fields
        unfold Irq.iccEmulated at hemu
        rw [if_neg fun henc => hesr ⟨henc, Bool.not_eq_true _ ▸ hread⟩] at hemu
        split at hemu
        · cases hemu
          rfl
        split at hemu
        · cases hemu
          rfl
        · cases hemu
    · rfl

/-! ## The trap -/

/-- The VM that runs is not among the registers that are saved. -/
theorem currentVm_saveGuestRegs (h : Hyp) (c : ℕ) (r : GuestRegs) :
    currentVm (saveGuestRegs h c r) = currentVm h := by
  unfold currentVm saveGuestRegs
  dsimp only
  congr 1
  funext v
  rw [List.getElem?_modify]
  cases h.vcpus[v]? with
  | none => rfl
  | some vc => by_cases hv : c = v <;> simp [hv]

theorem currentVmId_saveGuestRegs (h : Hyp) (c : ℕ) (r : GuestRegs) :
    currentVmId (saveGuestRegs h c r) = currentVmId h := by
  rw [currentVmId, currentVmId, currentVm_saveGuestRegs]

section Tables

variable [P : PtPool]

/-- **What a trap that returns has done.** Local parts are all there is to
it, unless it is a hypercall, or an abort outside of the emulated devices,
which is reported as a fault of the guest. -/
theorem trapStep_cases (hrun : trapStep h t = some h') : ∃ c, h.current = some c ∧
    (Locals t c h h' ∨
    ∃ g, Locals t c h (saveGuestRegs h c t.regs) ∧ Locals t c g h' ∧
      ∃ esr far hpfar, t.cause = .sync esr far hpfar ∧
        ((Class.ofEsr esr = .hvc64 ∧
          ∃ x, Hypercall.hvcDispatch (saveGuestRegs h c t.regs) t.regs.x = some (x, g)) ∨
        (Class.ofEsr esr = .dabtLower ∧ isMmioFar far = false ∧
          ∃ ipa wr, Vse.fdetectMemFault (saveGuestRegs h c t.regs)
            (currentVmId (saveGuestRegs h c t.regs)) ipa wr = some g))) := by
  unfold trapStep at hrun
  split at hrun
  · cases hrun
  rename_i c hc
  refine ⟨c, hc, ?_⟩
  dsimp only at hrun
  have hsave : Locals t c h (saveGuestRegs h c t.regs) := .single (.own h (.regs t fun _ => t.regs))
  have hcur : (saveGuestRegs h c t.regs).current = some c := hc
  generalize saveGuestRegs h c t.regs = h₁ at hsave hcur hrun
  have hresults : ∀ g x, Locals t c g { g with vcpus := g.vcpus.modify c fun vc => vc.setX x } :=
    fun g x => .single (.own g (.regs t fun vc => { vc.regs with x := x }))
  split at hrun
  · rename_i esr far hpfar hcause
    unfold hypSyncHandler at hrun
    dsimp only at hrun
    split at hrun
    · rename_i hclass
      obtain ⟨⟨x, g⟩, hcall, rfl⟩ := Option.map_eq_some_iff.mp hrun
      exact .inr ⟨g, hsave, hresults g x, esr, far, hpfar, hcause, .inl ⟨hclass, x, hcall⟩⟩
    · obtain ⟨r, -, rfl⟩ := Option.map_eq_some_iff.mp hrun
      exact .inl (hsave.trans (hresults h₁ _))
    · rename_i hclass
      unfold faultDabt at hrun
      split at hrun
      · cases hrun
        exact .inl (hsave.trans (locals_mmioHandle hcur far esr))
      rename_i hfar
      have hfar : isMmioFar far = false := Bool.not_eq_true _ ▸ hfar
      split at hrun
      · exact .inr ⟨h', hsave, .refl, esr, far, hpfar, hcause, .inr ⟨hclass, hfar, _, _, hrun⟩⟩
      · obtain ⟨g, hg, hrun⟩ := Option.bind_eq_some_iff.mp hrun
        cases hrun
        have hcurrent := (held_of_parts (Hypercall.parts_of_fdetectMemFault hg)).current
        exact .inr ⟨g, hsave, locals_modifyCurrent (hcurrent.trans hcur) (.regs t _), esr, far,
          hpfar, hcause, .inr ⟨hclass, hfar, _, _, hg⟩⟩
    · cases hrun
      exact .inl (hsave.trans (locals_modifyCurrent hcur (.regs t _)))
    · cases hrun
      exact .inl (hsave.trans (locals_event hcur .wfi))
    · rename_i hclass
      cases hrun
      exact .inl (hsave.trans (locals_modifyCurrent hcur (ownWrite_sysRegTrap hcause hclass)))
    · cases hrun
      exact .inl hsave
  · cases hrun
    exact .inl (hsave.trans (locals_gicHandleIrq hcur _ _))

/-- **One thing a trap of the vCPU `c` does.** -/
inductive TrapPart (t : TrapLabel) (c : ℕ) : Hyp → Hyp → Prop
  | part {h h' : Hyp} : Hypercall.Part h h' → TrapPart t c h h'
  | here {h h' : Hyp} : Local t c h h' → TrapPart t c h h'

/-- **A trap that returns is a sequence of parts.** -/
theorem parts_of_trapStep (hrun : trapStep h t = some h') :
    ∃ c, h.current = some c ∧ Relation.ReflTransGen (TrapPart t c) h h' := by
  have hlocal : ∀ {c g g'}, Locals t c g g' → Relation.ReflTransGen (TrapPart t c) g g' :=
    fun hl => hl.lift id fun _ _ hp => .here hp
  have hcall : ∀ {c g g'}, Hypercall.Parts g g' → Relation.ReflTransGen (TrapPart t c) g g' :=
    fun hl => hl.lift id fun _ _ hp => .part hp
  obtain ⟨c, hc, hl | ⟨g, hsave, hlast, _, _, _, -, ⟨-, _, hx⟩ | ⟨-, -, _, _, hg⟩⟩⟩ :=
    trapStep_cases hrun
  · exact ⟨c, hc, hlocal hl⟩
  · exact ⟨c, hc, ((hlocal hsave).trans (hcall (Hypercall.parts_of_hvcDispatch hx))).trans
      (hlocal hlast)⟩
  · exact ⟨c, hc, ((hlocal hsave).trans (hcall (Hypercall.parts_of_fdetectMemFault hg))).trans
      (hlocal hlast)⟩

/-- **The rule for a trap**: what each of its parts keeps, it keeps. -/
theorem trapStep_keeps {I : Hyp → Prop} (hrun : trapStep h t = some h')
    (hkeep : ∀ c k k', h.current = some c → TrapPart t c k k' → I k → I k') (hI : I h) : I h' := by
  obtain ⟨c, hc, hparts⟩ := parts_of_trapStep hrun
  clear hrun
  induction hparts with
  | refl => exact hI
  | tail _ hlast ih => exact hkeep c _ _ hc hlast ih

end Tables

end Trap

end HypervisorBase
