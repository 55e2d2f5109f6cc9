import HypervisorBase.Trap.Termination
/-!
# A guest's own registers and tables

A trap runs through the parts of a hypercall, writes the registers of the
vCPU that trapped, or switches to another one (`TrapPart`). So the saved
context of every other vCPU is untouched (`context_private`), and no VM,
table or vCPU ever moves (`vms_stay`). A switch also loads the tables of the VM that comes, but
`vm_stop` loads those of the VM it stops, and nothing puts the caller's
back: a guest translates with its own tables precisely as long as no guest
stops another VM (`own_tables_iff`).
-/

namespace HypervisorBase

namespace Trap

variable {h h' : Hyp} {c : ℕ}

/-! ## The tables a guest runs with -/

/-- **Every vCPU of the pool has the tables of its VM.** -/
def Tied (h : Hyp) : Prop := ∀ b ∈ h.vcpus.map boundTo, Bound h b

/-- **And the vCPU that runs has its own loaded.** -/
structure Regime (h : Hyp) : Prop where
  tied : Tied h
  loaded : ∃ c, h.current = some c ∧
    ((h.vcpus.map boundTo)[c]?).map Prod.snd = some h.vttbrEl2

theorem Tied.of_held (ht : Tied h) (hh : Held h h') : Tied h' := by
  obtain ⟨news, hpool, hnews⟩ := hh.pool
  intro b hb
  rw [Bound, hh.vms]
  rw [hpool] at hb
  exact (List.mem_append.mp hb).elim (ht b) (hnews b)

theorem Regime.of_held (hr : Regime h) (hh : Held h h') : Regime h' := by
  obtain ⟨news, hpool, -⟩ := hh.pool
  obtain ⟨c, hc, hload⟩ := hr.loaded
  refine ⟨hr.tied.of_held hh, c, hh.current.trans hc, ?_⟩
  obtain ⟨b, hb, -⟩ := Option.map_eq_some_iff.mp hload
  have hlt : c < (h.vcpus.map boundTo).length := (List.getElem?_eq_some_iff.mp hb).1
  rw [hpool, hh.vttbrEl2, List.getElem?_append_left hlt]
  exact hload

/-- A switch loads the tables of the vCPU that comes. -/
theorem Regime.vcpuDoSwitch (hr : Regime h) (prev : Option ℕ) (next : ℕ) :
    Regime (Sched.vcpuDoSwitch h prev next) := by
  have hlasting : Lasting boundTo := fun _ _ _ _ => rfl
  have hout : ∀ p, Held h (Sched.switchOut h p) := by
    intro p
    refine .of_map ?_ ?_ ?_ (Sched.map_switchOut hlasting h p)
    all_goals
      unfold Sched.switchOut
      cases h.vcpus[p]? <;> rfl
  have hin : ∀ g, Regime g → Regime (Sched.switchIn g next) := by
    intro g hg
    have hmap := Sched.map_switchIn hlasting g next
    unfold Sched.switchIn at hmap ⊢
    cases hvc : g.vcpus[next]? with
    | none => exact hg
    | some vc =>
      rw [hvc] at hmap
      dsimp only at hmap ⊢
      refine ⟨fun b hb => hg.tied b (by rwa [hmap] at hb), next, rfl, ?_⟩
      dsimp only
      rw [hmap, List.getElem?_map, hvc]
      rfl
  unfold Sched.vcpuDoSwitch
  cases prev with
  | none => exact hin h hr
  | some p => exact hin _ (hr.of_held (hout p))

/-- The guest translates with the tables of its own VM. -/
def OwnTables (h : Hyp) : Prop := (currentVm h).map Vm.vttbr = some h.vttbrEl2

/-- **Under the regime the guest runs on its own tables.** -/
theorem Regime.own (hr : Regime h) : OwnTables h := by
  obtain ⟨c, hc, hload⟩ := hr.loaded
  rw [List.getElem?_map, Option.map_map] at hload
  obtain ⟨vc, hvc, hvttbr⟩ := Option.map_eq_some_iff.mp hload
  have hbound := hr.tied (boundTo vc) (List.mem_map_of_mem (List.mem_of_getElem? hvc))
  rw [Bound, List.getElem?_map] at hbound
  rw [OwnTables, currentVm, hc, Option.bind_some, hvc, Option.bind_some, ← hvttbr]
  exact hbound

/-! ## Stopping a VM -/

/-- **The VM whose tables a trap flushes.** `vm_stop` ends in `s2_flush_tlb`,
which writes the register of the VM it stops into `VTTBR_EL2`.
`HVC_VM_STOP` stops the VM it names, unless that is stopped already. A
fault, or a DMA transfer that is one, is charged to the VM that runs, and
`fatal` says whether it goes as far as to stop it. -/
def flushedVm (h : Hyp) (t : TrapLabel) (fatal : Bool) : Option Vm :=
  let id : U32 := (t.regs.x 0).setWidth 32
  match t.cause with
  | .irq _ _ => none
  | .sync esr _ _ =>
    if Class.ofEsr esr = .hvc64 ∧ id = 0x0003 then
      (vmAt h ((t.regs.x 1).setWidth 32)).filter fun vm => vm.state ≠ .stopped
    else if (Class.ofEsr esr = .dabtLower ∨ Class.ofEsr esr = .hvc64 ∧ id = 0x0068) ∧ fatal then
      currentVm h
    else none

/-- `s2_flush_tlb` in a trap. Nothing else in it reads or writes the
register. -/
def s2FlushTlb (h : Hyp) (t : TrapLabel) (fatal : Bool) : Hyp :=
  match flushedVm h t fatal with
  | none => h
  | some vm => { h with vttbrEl2 := vm.vttbr }

/-- The hypercall stops a VM whose tables are not the ones in use. -/
def StopsOther (h : Hyp) (l : TrapLabel × Bool) : Prop :=
  ∃ vm, flushedVm h l.1 false = some vm ∧ vm.vttbr ≠ h.vttbrEl2

/-- What is flushed was named in a call, or is the VM that runs. -/
theorem flushedVm_cases {t : TrapLabel} {fatal : Bool} {vm : Vm}
    (hf : flushedVm h t fatal = some vm) :
    flushedVm h t false = some vm ∨ currentVm h = some vm := by
  unfold flushedVm at *
  dsimp only at hf ⊢
  split at hf
  · cases hf
  · split at hf
    · rename_i hcall
      exact .inl (by rw [if_pos hcall, hf])
    · split at hf
      · exact .inr hf
      · cases hf

/-- A trap that stops no other VM writes what is in the register. -/
theorem Regime.s2FlushTlb_eq {l : TrapLabel × Bool} (hr : Regime h) (hown : ¬ StopsOther h l) :
    s2FlushTlb h l.1 l.2 = h := by
  unfold s2FlushTlb
  split
  · rfl
  · rename_i vm hvm
    have hsame : vm.vttbr = h.vttbrEl2 := by
      rcases flushedVm_cases hvm with hcall | hcur
      · by_contra hne
        exact hown ⟨vm, hcall, hne⟩
      · have hloaded := hr.own
        rw [OwnTables, hcur] at hloaded
        exact Option.some.inj hloaded
    rw [hsame]

/-- The id of `HVC_VM_STOP` is not one of PSCI's. -/
theorem not_psci_of_stop {v : U64} (hid : v.setWidth 32 = (3 : U32)) : v &&& 0x80000000 = 0 := by
  have hbit : v.getLsbD 31 = false := by
    have hlow := congrArg (fun w : U32 => w.getLsbD 31) hid
    simpa using hlow
  rw [show (0x80000000 : U64) = BitVec.twoPow 64 31 from rfl, BitVec.and_twoPow, hbit]
  rfl

section Tables

variable [P : PtPool]

/-! ## What stays for ever -/

/-- **Nothing moves**: the VMs keep their roots, regions and types, their
tables are a forest with every table still in it, and the vCPUs stay with
their VMs. -/
structure Stays (h h' : Hyp) : Prop where
  layout : h'.vms.map Vm.layout = h.vms.map Vm.layout
  tables : Stage2.Extends h.roots h.s2 h'.s2
  pool : h.vcpus.map boundTo <+: h'.vcpus.map boundTo

/-- No part of a trap rebinds a virtual CPU. -/
theorem TrapPart.pool {t : TrapLabel} (hp : TrapPart t c h h') :
    h.vcpus.map boundTo <+: h'.vcpus.map boundTo := by
  cases hp with
  | part hpart =>
    obtain ⟨news, hpool, -⟩ := (held_of_part hpart).pool
    exact ⟨news, hpool.symm⟩
  | here hl =>
    cases hl with
    | own hf => rw [map_modify hf.bound]
    | switch _ => rw [Sched.map_vcpuDoSwitch fun _ _ _ _ => rfl]
    | beside hb => rw [hb.vcpus]

/-- **What no trap changes.** On every machine the platform boots and
launches the RTOS. From then on, whatever traps the guests take, as long as
none stores into the hypervisor's own memory, every VM keeps its root
table, its regions and its type, no VM loses a table and no two share one,
and every vCPU stays with its VM and the register it is switched in
with. -/
theorem vms_stay (mem : U64 → U64) (phys : U64 → U8) (timer : ℕ → U64) (gm : U32 → Vse.Gmeas) :
    ∃ h g, Boot.platformInit (Hyp.start mem phys timer) = some (.ok, h) ∧
      Boot.launch h gm = some g ∧
      ∀ ts, Guarded trapStep StoresOutside g ts → Throughout trapStep (Stays g) g ts := by
  obtain ⟨h, hboot, hb⟩ := Boot.exists_platformInit mem phys timer
  obtain ⟨g, -, hlaunch, -⟩ := Boot.exists_launch hb gm
  have hshape := (hb.furnished.of_retains (Boot.retains_launch hlaunch)).shape
  have hstep : ∀ k t k', Retains g k ∧ g.vcpus.map boundTo <+: k.vcpus.map boundTo →
      trapStep k t = some k' → Retains g k' ∧ g.vcpus.map boundTo <+: k'.vcpus.map boundTo := by
    intro k t k' hk htrap
    refine ⟨hk.1.trans (retains_trapStep htrap), ?_⟩
    exact trapStep_keeps (I := fun k => g.vcpus.map boundTo <+: k.vcpus.map boundTo) htrap
      (fun _ _ _ _ hp hpool => hpool.trans hp.pool) hk.2
  refine ⟨h, g, hboot, hlaunch, fun ts _ => throughout_iff.mpr fun pre suf k _ hrun => ?_⟩
  obtain ⟨hret, hpool⟩ := exec_invariant hstep ⟨.refl g, List.prefix_rfl⟩ hrun
  exact ⟨hret.layout, hret.tables hshape, hpool⟩

/-! ## The registers of a vCPU are its own -/

omit P in
/-- The saved registers of a vCPU and its CPU interface. -/
def contextOf (vc : Vcpu) : GuestRegs × VgicCpu := (vc.regs, vc.vgicCpu)

/-- No part of a trap touches the context of another. -/
theorem TrapPart.context {t : TrapLabel} {v : ℕ} {x : GuestRegs × VgicCpu}
    (hp : TrapPart t c h h') (hne : c ≠ v) (hx : (h.vcpus[v]?).map contextOf = some x) :
    (h'.vcpus[v]?).map contextOf = some x := by
  have hlasting : Lasting contextOf := fun _ _ _ _ => rfl
  cases hp with
  | part hpart => exact (grows_of_part hlasting hpart).kept hx
  | here hl =>
    cases hl with
    | own _ =>
      dsimp only
      rw [List.getElem?_modify_ne _ _ hne]
      exact hx
    | switch _ =>
      rw [← List.getElem?_map, Sched.map_vcpuDoSwitch hlasting, List.getElem?_map]
      exact hx
    | beside hb =>
      rw [hb.vcpus]
      exact hx

/-- **The context of a vCPU is its own.** From any state, whatever traps
the guests take, with any hypercalls, aborts and interrupts, the saved
registers and the CPU interface of a vCPU stay as they are as long as the
traps are those of other vCPUs, and none stores into the hypervisor's own
memory. -/
theorem context_private {v : ℕ} {vc : Vcpu} {ts : List TrapLabel} (hvc : h.vcpus[v]? = some vc)
    (hother : Guarded trapStep (fun g t => g.current ≠ some v ∧ StoresOutside g t) h ts)
    (hrun : exec trapStep h ts = some h') :
    (h'.vcpus[v]?).map contextOf = some (contextOf vc) := by
  have hstep : ∀ g t g', (g.vcpus[v]?).map contextOf = some (contextOf vc) →
      g.current ≠ some v ∧ StoresOutside g t → trapStep g t = some g' →
      (g'.vcpus[v]?).map contextOf = some (contextOf vc) := by
    intro g t g' hx ⟨hne, _⟩ htrap
    refine trapStep_keeps htrap (fun c k k' hc hp hk => hp.context ?_ hk) hx
    rintro rfl
    exact hne hc
  have hall := throughout_of_guarded hstep (fun _ hx => hx) (by rw [hvc, Option.map_some]) hother
  exact throughout_iff.mp hall ts [] h' (List.append_nil ts).symm hrun

omit P in
/-- Linux's vCPU, while the RTOS's is interrupted. -/
theorem context_private_interrupt :
    letI := Stage2.poolAt2M
    let vc : ℕ → Vcpu := fun i => vcpuInit i (vmInit 1 .linux) 0
    ∃ h', exec trapStep
        { Hyp.blank with
          vcpus := [vc 0, vc 1], current := some 1 }
        [⟨⟨fun _ => 7, 0x8000, spsrEl1h⟩, .irq true 33⟩] = some h' ∧
      (h'.vcpus[0]?).map contextOf = some (contextOf (vc 0)) := by
  let _ := Stage2.poolAt2M
  refine Exists.imp (fun h' hrun => ⟨hrun, context_private ?_ ?_ hrun⟩) ⟨_, rfl⟩
  · rfl
  · refine ⟨⟨by decide, ?_⟩, fun _ _ => trivial⟩
    rintro esr far hpfar ⟨⟩

/-! ## A trap with its flush -/

/-- **One trap keeps the regime.** -/
theorem Regime.step {t : TrapLabel} (hr : Regime h) (hrun : trapStep h t = some h') :
    Regime h' := by
  refine trapStep_keeps hrun (fun c k k' _ hp hk => ?_) hr
  cases hp with
  | part hpart => exact hk.of_held (held_of_part hpart)
  | here hl =>
    cases hl with
    | own hf => exact hk.of_held (held_modify _ c hf.bound)
    | switch _ => exact hk.vcpuDoSwitch _ _
    | beside hb => exact hk.of_held hb.held

/-- **A trap with its flush.** -/
def flushStep (h : Hyp) (l : TrapLabel × Bool) : Option Hyp := trapStep (s2FlushTlb h l.1 l.2) l.1

/-- `HVC_VM_STOP` returns to its caller. -/
theorem exists_held_of_stop {t : TrapLabel} {esr far hpfar : U64} (hc : h.current = some c)
    (hcause : t.cause = .sync esr far hpfar) (hclass : Class.ofEsr esr = .hvc64)
    (hid : (t.regs.x 0).setWidth 32 = (3 : U32)) : ∃ g, trapStep h t = some g ∧ Held h g := by
  have hsave : Held h (saveGuestRegs h c t.regs) :=
    held_modify h c (f := fun vc => { vc with regs := t.regs }) fun _ => rfl
  obtain ⟨⟨x, g⟩, hg⟩ : ∃ r,
      Hypercall.hvcDispatch (saveGuestRegs h c t.regs) t.regs.x = some r := by
    rw [Hypercall.hvcDispatch, Hypercall.hvcCall,
      if_neg fun hpsci => hpsci.1 (not_psci_of_stop hid)]
    dsimp only
    rw [hid]
    exact ⟨_, rfl⟩
  have hcall := hsave.trans (held_of_parts (Hypercall.parts_of_hvcDispatch hg))
  refine ⟨_, ?_, hcall.trans (held_modify g c (f := fun vc => vc.setX x) fun _ => rfl)⟩
  rw [trapStep, hc, hcause]
  dsimp only [hypSyncHandler]
  rw [hclass, hg]
  rfl

/-- **And the caller goes on in the tables of the VM it has stopped.** -/
theorem Regime.not_own_of_stopsOther {l : TrapLabel × Bool} (hr : Regime h)
    (hstop : StopsOther h l) : ∃ h', flushStep h l = some h' ∧ ¬ OwnTables h' := by
  obtain ⟨t, fatal⟩ := l
  obtain ⟨vm, hvm, hne⟩ := hstop
  obtain ⟨c, hc, -⟩ := hr.loaded
  obtain ⟨hflush, g, hg, hheld⟩ : flushedVm h t fatal = some vm ∧
      ∃ g, trapStep { h with vttbrEl2 := vm.vttbr } t = some g ∧
        Held { h with vttbrEl2 := vm.vttbr } g := by
    unfold flushedVm at hvm ⊢
    dsimp only at hvm ⊢
    split at hvm
    · cases hvm
    split at hvm
    · rename_i hcause hcall
      exact ⟨by rw [if_pos hcall, hvm], exists_held_of_stop hc hcause hcall.1 hcall.2⟩
    · simp at hvm
  refine ⟨g, ?_, fun hown => hne ?_⟩
  · rw [flushStep, s2FlushTlb, hflush]
    exact hg
  · -- with the register as it was, the caller would have its own tables
    have hback : Held h { g with vttbrEl2 := h.vttbrEl2 } :=
      ⟨hheld.current, rfl, hheld.vms, hheld.pool⟩
    have heq : some g.vttbrEl2 = some h.vttbrEl2 := hown.symm.trans (hr.of_held hback).own
    rw [← Option.some.inj heq, hheld.vttbrEl2]

/-! ## From reset on -/

omit P in
theorem andThen_eq_ok {r : Option (Err × Hyp)} {rest : Hyp → Option (Err × Hyp)}
    (hrun : Boot.andThen r rest = some (.ok, h')) :
    ∃ g, r = some (.ok, g) ∧ rest g = some (.ok, h') := by
  obtain ⟨⟨e, g⟩, hg, hrun⟩ := Option.bind_eq_some_iff.mp hrun
  dsimp only at hrun
  split at hrun
  · rename_i he
    cases hrun
    exact absurd rfl he
  · rename_i he
    rw [not_not.mp he] at hg
    exact ⟨g, hg, hrun⟩

theorem vcpus_createVm {type : VmType} {entryIpa dtbIpa : U64}
    (hrun : Boot.createVm h type entryIpa dtbIpa = some (.ok, h')) : h'.vcpus = h.vcpus := by
  obtain ⟨g, hcreate, hrun⟩ := andThen_eq_ok hrun
  cases hrun
  unfold vmCreate at hcreate
  split at hcreate
  · cases hcreate
  · obtain ⟨r, -, hcreate⟩ := Option.bind_eq_some_iff.mp hcreate
    cases hcreate
    rfl

omit P in
theorem vcpus_deviceProfileInit {es : List Boot.ProfileEntry}
    (hrun : Boot.deviceProfileInit es h = some (.ok, h')) : h'.vcpus = h.vcpus := by
  induction es generalizing h with
  | nil =>
    cases hrun
    rfl
  | cons entry es ih =>
    unfold Boot.deviceProfileInit at hrun
    split at hrun
    · exact ih hrun
    · obtain ⟨g, hadd, hrun⟩ := andThen_eq_ok hrun
      rw [ih hrun]
      rcases vmAddMem_cases hadd with rfl | ⟨vm, -, rfl⟩ <;> rfl

/-- Starting the VMs keeps virtual CPUs tied to their tables. -/
theorem Tied.startVms {n i : ℕ} (ht : Tied h) (hrun : Boot.startVms n i h = some (.ok, h')) :
    Tied h' := by
  induction n generalizing h i with
  | zero =>
    cases hrun
    exact ht
  | succ n ih =>
    obtain ⟨g, hone, hrun⟩ := andThen_eq_ok hrun
    obtain ⟨k, hfin, hstart⟩ := andThen_eq_ok hone
    have hstarted := (ht.of_held (held_vmFinalize hfin)).of_held (held_of_part (.start k i))
    rw [Option.some.inj hstart] at hstarted
    exact ih hstarted hrun

/-- There is no vCPU before the VMs are started. -/
theorem tied_platformInit {mem : U64 → U64} {phys : U64 → U8} {timer : ℕ → U64}
    (hrun : Boot.platformInit (Hyp.start mem phys timer) = some (.ok, h)) : Tied h := by
  unfold Boot.platformInit at hrun
  obtain ⟨g₁, h₁, hrun⟩ := andThen_eq_ok hrun
  obtain ⟨g₂, h₂, hrun⟩ := andThen_eq_ok hrun
  obtain ⟨g₃, h₃, hrun⟩ := andThen_eq_ok hrun
  obtain ⟨g₄, h₄, hrun⟩ := andThen_eq_ok hrun
  have hempty : g₄.vcpus = [] := by
    rw [vcpus_deviceProfileInit h₄, vcpus_createVm h₃, vcpus_createVm h₂, vcpus_createVm h₁]
    rfl
  have hstart : Tied g₄ := by
    rw [Tied, hempty]
    exact List.forall_mem_nil _
  exact hstart.startVms hrun

/-- The launch loads the tables of the first guest. -/
theorem Tied.schedRun (ht : Tied h) (hrun : Sched.schedRun h = some h') : Regime h' := by
  have hready : Tied (Sched.startReady h) :=
    List.foldlRecOn (motive := Tied) _ _ ht fun g hg i _ => hg.of_held (held_of_part (.start g i))
  obtain ⟨ch, vc, -, hvc, rfl⟩ := Sched.schedRun_cases hrun
  generalize Sched.startReady h = g at hready hvc
  have hmap : (g.vcpus.set ch.vcpu { vc with state := .running }).map boundTo =
      g.vcpus.map boundTo := map_set hvc rfl
  refine ⟨fun b hb => hready b (hmap ▸ hb), ch.vcpu, rfl, ?_⟩
  change (((g.vcpus.set ch.vcpu { vc with state := .running }).map boundTo)[ch.vcpu]?).map
    Prod.snd = some vc.vttbrEl2
  rw [hmap, List.getElem?_map, hvc]
  rfl

/-- **When a guest translates with the tables of its own VM.** On every
machine the platform boots and launches the RTOS. From then on, whatever
traps the guests take, none of which stores into the hypervisor's own
memory, the vCPU that runs has the tables of its VM all the time precisely
when no guest ever stops another VM: such a hypercall returns to the caller
with the tables of the VM it has stopped. -/
theorem own_tables_iff (mem : U64 → U64) (phys : U64 → U8) (timer : ℕ → U64)
    (gm : U32 → Vse.Gmeas) : ∃ h g, Boot.platformInit (Hyp.start mem phys timer) = some (.ok, h) ∧
      Boot.launch h gm = some g ∧
      ∀ ls, Guarded flushStep (fun h l => StoresOutside h l.1) g ls →
        (Throughout flushStep OwnTables g ls ↔
          Guarded flushStep (fun h l => ¬ StopsOther h l) g ls) := by
  obtain ⟨h, hboot, hb⟩ := Boot.exists_platformInit mem phys timer
  obtain ⟨g, -, hlaunch, -⟩ := Boot.exists_launch hb gm
  have hserved : Tied (Boot.services h gm) := by
    obtain ⟨m, p, r, q, t, d, i, f, c, -, heq⟩ := Boot.exists_services h gm
    rw [heq]
    exact (tied_platformInit hboot).of_held (.of_map rfl rfl rfl rfl)
  refine ⟨h, g, hboot, hlaunch, fun ls _ => ?_⟩
  refine throughout_iff_guarded (fun _ hr => hr.own) ?_
    (fun _ _ hr hstop => hr.not_own_of_stopsOther (not_not.mp hstop)) (hserved.schedRun hlaunch)
  intro k l k' hr hown hrun
  rw [flushStep, hr.s2FlushTlb_eq hown] at hrun
  exact hr.step hrun

end Tables

end Trap

end HypervisorBase
