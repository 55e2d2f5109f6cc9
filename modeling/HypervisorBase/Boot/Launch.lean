import HypervisorBase.Irq.Model
import HypervisorBase.Vse.Enforcement
/-!
# The launch of the first guest

The rest of `platform_init`, which fills the tables of emulated devices
and interrupt routes, and the rest of `hyp_main`, up to the return to the
first guest. From the state `platform_init` leaves, the scheduler has four
slots and launches the RTOS.
-/

namespace HypervisorBase

namespace Boot

/-- The devices of the profile that only one VM may use. -/
def registerDevices (h : Hyp) : Hyp :=
  profile.foldl (fun h e =>
    if e.flags &&& memIo ≠ 0 ∧ e.ipaBase ≠ uartBase ∧ e.ipaBase ≠ gicdBase ∧ e.ipaBase ≠ gicrBase then
      (Device.mmioRegisterVmDevice h e.vmId e.ipaBase e.size none).2
    else h) h

/-- The tables `platform_init` fills beside the VMs: the configuration
space with its owner, the devices of the profile, and the routes. -/
def platformTables (h : Hyp) : Hyp :=
  let h := (Device.mmioRegister { h with pcie := [] } Device.pcieEcamBase Device.pcieEcamSize
    (some .pcieEcam)).2
  let h := registerDevices (Device.pcieAssignVm h 1 0xFF 0 0).2
  let h := (Irq.irqRouteAdd (Irq.irqRouterInit h) 33 1 33).2
  let h := (Irq.irqRouteAdd h 34 1 34).2
  (Irq.irqRouteAdd h 35 1 35).2

/-- `hyp_main` once the VMs run, up to the scheduler. -/
def services (h : Hyp) (gm : U32 → Vse.Gmeas) : Hyp :=
  let h := Vse.vseInit (Ipc.ipcInit (platformTables h)) gm
  Sched.schedInit (Vse.failoverRegister h 2 0x90000000 0x60008000 0x2000 0x8000).2

/-- **`hyp_main` once the VMs run**, up to the return to the first guest,
given what the measurement of each guest finds. -/
def launch (h : Hyp) (gm : U32 → Vse.Gmeas) : Option Hyp := Sched.schedRun (services h gm)

/-! ## What the services leave alone -/

theorem exists_mmioAdd (h : Hyp) (owner : U32) (base sz : U64) (fn : Option MmioFn) :
    ∃ m, (Device.mmioAdd h owner base sz fn).2 = { h with mmio := m } := by
  unfold Device.mmioAdd
  split
  · exact ⟨h.mmio, rfl⟩
  · exact ⟨_, rfl⟩

theorem exists_irqRouteAdd (h : Hyp) (phys vmId virq : U32) :
    ∃ r, (Irq.irqRouteAdd h phys vmId virq).2 = { h with routes := r } := by
  unfold Irq.irqRouteAdd
  split
  · exact ⟨h.routes, rfl⟩
  · exact ⟨_, rfl⟩

theorem exists_registerDevices (h : Hyp) : ∃ m, registerDevices h = { h with mmio := m } := by
  unfold registerDevices
  generalize profile = es
  induction es generalizing h with
  | nil => exact ⟨h.mmio, rfl⟩
  | cons e es ih =>
    rw [List.foldl_cons]
    split
    · obtain ⟨m, hm⟩ := exists_mmioAdd h e.vmId e.ipaBase e.size none
      obtain ⟨m', hm'⟩ := ih (Device.mmioRegisterVmDevice h e.vmId e.ipaBase e.size none).2
      refine ⟨m', hm'.trans ?_⟩
      rw [Device.mmioRegisterVmDevice, hm]
    · exact ih h

theorem exists_platformTables (h : Hyp) :
    ∃ m p r, platformTables h = { h with mmio := m, pcie := p, routes := r } := by
  obtain ⟨m₁, hm₁⟩ := exists_mmioAdd { h with pcie := [] } 0 Device.pcieEcamBase
    Device.pcieEcamSize (some .pcieEcam)
  obtain ⟨p, hp⟩ : ∃ p, (Device.pcieAssignVm { h with mmio := m₁, pcie := [] } 1 0xFF 0 0).2 =
      { h with mmio := m₁, pcie := p } := ⟨_, rfl⟩
  obtain ⟨m₂, hm₂⟩ := exists_registerDevices { h with mmio := m₁, pcie := p }
  obtain ⟨r₁, hr₁⟩ := exists_irqRouteAdd { h with mmio := m₂, pcie := p, routes := [] } 33 1 33
  obtain ⟨r₂, hr₂⟩ := exists_irqRouteAdd { h with mmio := m₂, pcie := p, routes := r₁ } 34 1 34
  obtain ⟨r₃, hr₃⟩ := exists_irqRouteAdd { h with mmio := m₂, pcie := p, routes := r₂ } 35 1 35
  refine ⟨m₂, p, r₃, ?_⟩
  rw [platformTables, Device.mmioRegister, hm₁]
  dsimp only
  rw [hp, hm₂, Irq.irqRouterInit]
  dsimp only
  rw [hr₁, hr₂, hr₃]

/-- **What the services write**: their own tables, and the slots. -/
theorem exists_services (h : Hyp) (gm : U32 → Vse.Gmeas) : ∃ m p r q t d i f c,
    t.initialized = true ∧ services h gm = { h with
      mmio := m, pcie := p, routes := r, queues := q, trust := t, fdetect := d, ids := i
      failover := f, timer := c
      sched := h.vms.foldl Sched.addVmSlots ⟨[], 0, Sched.statsInit, h.sched.timerUs⟩ } := by
  obtain ⟨m, p, r, htables⟩ := exists_platformTables h
  have hinit := Vse.initialized_vseInit (Ipc.ipcInit (platformTables h)) gm
  have hrest := Vse.vseInit_rest (Ipc.ipcInit (platformTables h)) gm
  rw [services]
  generalize Vse.vseInit (Ipc.ipcInit (platformTables h)) gm = g at hinit hrest ⊢
  rw [htables] at hrest
  refine ⟨m, p, r, g.queues, g.trust, g.fdetect, g.ids,
    (Vse.failoverRegister g 2 0x90000000 0x60008000 0x2000 0x8000).2.failover, g.timer, hinit, ?_⟩
  rw [Vse.failoverRegister_rest]
  generalize (Vse.failoverRegister g 2 0x90000000 0x60008000 0x2000 0x8000).2.failover = f
  rw [hrest]
  rfl

/-- The VMs and their vCPUs are those `platform_init` left. -/
theorem sameVms_services (h : Hyp) (gm : U32 → Vse.Gmeas) : (services h gm).vms = h.vms ∧
    (services h gm).vcpus = h.vcpus ∧ (services h gm).trust.initialized = true := by
  obtain ⟨m, p, r, q, t, d, i, f, c, hinit, heq⟩ := exists_services h gm
  rw [heq]
  exact ⟨rfl, rfl, hinit⟩

/-- The slots of the three VMs. -/
def bootSlots : List SchedSlot := [⟨1, 0, 2000000⟩, ⟨2, 0, 500000⟩, ⟨3, 0, 2000000⟩, ⟨3, 1, 2000000⟩]

theorem slots_of_vms {s : Sched} {p₁ t₁ p₂ t₂ p₃ t₃ : U64} (hs : s.slots = []) :
    ([linuxVm p₁ t₁, rtosVm p₂ t₂, androidVm p₃ t₃].foldl Sched.addVmSlots s).slots = bootSlots := by
  have hset : ∀ (s : Sched) (vmId dur : U32), (Sched.statsSetSlice s vmId dur).slots = s.slots := by
    intro s vmId dur
    unfold Sched.statsSetSlice
    split <;> rfl
  have hadd : ∀ (s : Sched) (vmId vcpuId dur : U32), s.slots.length < Sched.maxSlots → dur ≠ 0 →
      (Sched.schedAddSlot s vmId vcpuId dur).slots = s.slots ++ [⟨vmId, vcpuId, dur⟩] := by
    intro s vmId vcpuId dur hlen hdur
    rw [Sched.schedAddSlot, if_neg (by omega), if_pos hdur]
    exact hset ..
  have h₁ : (Sched.addVmSlots s (linuxVm p₁ t₁)).slots = [⟨1, 0, 2000000⟩] := by
    refine (hadd s 1 0 2000000 (by rw [hs]; decide) (by decide)).trans ?_
    rw [hs]
    rfl
  have h₂ : (Sched.addVmSlots (Sched.addVmSlots s (linuxVm p₁ t₁)) (rtosVm p₂ t₂)).slots =
      [⟨1, 0, 2000000⟩, ⟨2, 0, 500000⟩] := by
    refine (hadd _ 2 0 500000 (by rw [h₁]; decide) (by decide)).trans ?_
    rw [h₁]
    rfl
  obtain ⟨s₂, hs₂⟩ : ∃ s₂, s₂ = Sched.addVmSlots (Sched.addVmSlots s (linuxVm p₁ t₁))
    (rtosVm p₂ t₂) := ⟨_, rfl⟩
  rw [List.foldl_cons, List.foldl_cons, List.foldl_cons, List.foldl_nil, ← hs₂]
  rw [← hs₂] at h₂
  have h₃ := hadd s₂ 3 0 2000000 (by rw [h₂]; decide) (by decide)
  rw [h₂] at h₃
  refine (hadd (Sched.schedAddSlot s₂ 3 0 2000000) 3 1 2000000 (by rw [h₃]; decide)
    (by decide)).trans ?_
  rw [h₃]
  rfl

section Booted

variable [P : PtPool] {h₀ h : Hyp}

/-- The scheduler has one slot for each VM after boot. -/
theorem slots_services (hb : Booted h₀ h) (gm : U32 → Vse.Gmeas) :
    (services h gm).sched.slots = bootSlots := by
  obtain ⟨p₁, t₁, p₂, t₂, p₃, t₃, hvms, -⟩ := hb.vms
  obtain ⟨m, p, r, q, t, d, i, f, c, -, heq⟩ := exists_services h gm
  rw [heq]
  dsimp only
  rw [hvms]
  exact slots_of_vms rfl

omit P in
/-- Nothing is left to start. -/
theorem startReady_of_running {g : Hyp} (hrun : ∀ vm ∈ g.vms, vm.state = .running) :
    Sched.startReady g = g := by
  have hone : ∀ i, (vmStart g i).2 = g := by
    intro i
    unfold vmStart
    cases hvm : g.vms[i]? with
    | none => rfl
    | some vm =>
      dsimp only
      rw [if_pos]
      rw [hrun vm (List.mem_of_getElem? hvm)]
      decide
  unfold Sched.startReady
  generalize List.range g.vms.length = l
  induction l with
  | nil => rfl
  | cons i l ih => rw [List.foldl_cons, hone, ih]

omit P in
/-- The first real-time slot is the RTOS's. -/
theorem firstSlot_of_booted {g : Hyp} {p₁ t₁ p₂ t₂ p₃ t₃ : U64}
    (hvms : g.vms = [linuxVm p₁ t₁, rtosVm p₂ t₂, androidVm p₃ t₃])
    (hslots : g.sched.slots = bootSlots) : Sched.firstSlot g = some ⟨1, 1, 500000⟩ := by
  have hat₁ : vmAt g 1 = some (linuxVm p₁ t₁) := by rw [vmAt, vmById, hvms]; rfl
  have hat₂ : vmAt g 2 = some (rtosVm p₂ t₂) := by rw [vmAt, vmById, hvms]; rfl
  have hlinux : Sched.slotIsRt g 0 = false := by
    rw [Sched.slotIsRt, hslots]
    change (((vmAt g 1).map fun vm => vm.sched.realtime).getD false) = false
    rw [hat₁]
    rfl
  have hrtos : Sched.slotIsRt g 1 = true := by
    rw [Sched.slotIsRt, hslots]
    change (((vmAt g 2).map fun vm => vm.sched.realtime).getD false) = true
    rw [hat₂]
    rfl
  have hlaunch : Sched.launchAt g 1 = some ⟨1, 1, 500000⟩ := by
    rw [Sched.launchAt, hslots]
    change (vmAt g 2).bind _ = _
    rw [hat₂]
    rfl
  have hrange : List.range g.sched.slots.length = [0, 1, 2, 3] := by rw [hslots]; rfl
  unfold Sched.firstSlot
  dsimp only
  rw [hrange, List.findSome?_cons, hlinux, List.findSome?_cons, hrtos, if_pos rfl, hlaunch]
  rfl

omit P in
/-- `sched_run` with every VM running and a slot to launch. -/
theorem schedRun_eq {g : Hyp} (ch : Sched.Choice) (vc : Vcpu) (hslots : g.sched.slots ≠ [])
    (hvms : g.vms ≠ []) (hrun : ∀ vm ∈ g.vms, vm.state = .running)
    (hfirst : Sched.firstSlot g = some ch) (hvc : g.vcpus[ch.vcpu]? = some vc) :
    Sched.schedRun g = some (Sched.timerSetUs { g with
      sched := { g.sched with cur := ch.slot }
      current := some ch.vcpu
      vcpus := g.vcpus.set ch.vcpu { vc with state := .running }
      lr := Function.update g.lr 0 vc.ichLr0
      vttbrEl2 := vc.vttbrEl2 } ch.durationUs) := by
  have hsome : ¬ (g.sched.slots.isEmpty = true ∨ g.vms.isEmpty = true) := by
    rw [List.isEmpty_iff, List.isEmpty_iff]
    exact fun hor => hor.elim hslots hvms
  rw [Sched.schedRun, if_neg hsome, startReady_of_running hrun]
  dsimp only
  rw [hfirst]
  dsimp only
  rw [hvc, Option.map_some]

/-- **The RTOS is launched.** -/
theorem exists_launch (hb : Booted h₀ h) (gm : U32 → Vse.Gmeas) :
    ∃ g vc, launch h gm = some g ∧ h.vcpus[1]? = some vc ∧ g.current = some 1 ∧ g.vms = h.vms ∧
      g.vcpus = h.vcpus.set 1 { vc with state := .running } ∧ g.trust.initialized = true := by
  obtain ⟨hvms, hvcpus, hinit⟩ := sameVms_services h gm
  have hslots := slots_services hb gm
  rw [launch]
  generalize services h gm = g at hvms hvcpus hinit hslots
  obtain ⟨p₁, t₁, p₂, t₂, p₃, t₃, hboot, -⟩ := hb.vms
  obtain ⟨vc, hvc⟩ : ∃ vc, h.vcpus[1]? = some vc := by
    have hlen := Vse.length_vcpus_of_booted hb
    exact ⟨_, List.getElem?_eq_getElem (by omega)⟩
  have hlaunch := schedRun_eq ⟨1, 1, 500000⟩ vc
    (by rw [hslots]; exact List.cons_ne_nil _ _)
    (by rw [hvms, hboot]; exact List.cons_ne_nil _ _)
    (by rw [hvms]; exact fun vm hvm => Vse.running_of_booted hb hvm)
    (firstSlot_of_booted (hvms.trans hboot) hslots) (by rw [hvcpus]; exact hvc)
  refine ⟨_, vc, hlaunch, hvc, rfl, hvms, ?_, hinit⟩
  rw [← hvcpus]
  rfl

end Booted

end Boot

end HypervisorBase
