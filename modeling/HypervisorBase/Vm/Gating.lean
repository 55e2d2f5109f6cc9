import HypervisorBase.Common.Run
import HypervisorBase.Vse.Powered
/-!
# Gated devices

`vm_suspend` appends the base address of each of the VM's devices to a
table of 64 entries, and `vm_resume` marks every entry of those addresses
as no longer gated. Nothing is ever removed and nothing says which VM an
entry was made for. So a device is not gated if the table was full when
its VM was suspended, or if another VM that has it too has been resumed
since. `device_gating_iff` says that nothing else goes wrong.
-/

namespace HypervisorBase

/-! ## The table -/

namespace Power

/-- The devices of a list that still find room in the table. -/
def recorded (p : Power) (devs : List DevAssign) : List DevAssign :=
  devs.take (maxGatedDevs - p.gatedDevs.length)

theorem powerIsDeviceGated_iff {p : Power} {base : U64} :
    p.powerIsDeviceGated base = true ↔ (base, true) ∈ p.gatedDevs := by
  rw [powerIsDeviceGated, List.any_eq_true]
  constructor
  · rintro ⟨⟨b, on⟩, hmem, hentry⟩
    obtain ⟨hb, hon⟩ := Bool.and_eq_true_iff.mp hentry
    rwa [← of_decide_eq_true hb, ← (show on = true from hon)]
  · intro hmem
    exact ⟨_, hmem, by simp⟩

/-- **Gating** adds the devices that find room. -/
theorem gated_foldl_gateDev (devs : List DevAssign) (p : Power) (base : U64) :
    (devs.foldl gateDev p).powerIsDeviceGated base = true ↔
      p.powerIsDeviceGated base = true ∨ ∃ d ∈ p.recorded devs, d.mmioBase = base := by
  rw [powerIsDeviceGated_iff, powerIsDeviceGated_iff]
  induction devs generalizing p with
  | nil => simp [recorded]
  | cons d devs ih =>
    rw [List.foldl_cons, ih (gateDev p d)]
    by_cases hroom : p.gatedDevs.length < maxGatedDevs
    · have htable : (gateDev p d).gatedDevs = p.gatedDevs ++ [(d.mmioBase, true)] := if_pos hroom
      obtain ⟨k, hk⟩ := Nat.exists_eq_succ_of_ne_zero (Nat.sub_ne_zero_of_lt hroom)
      have hrest : (gateDev p d).recorded devs = devs.take k := by
        rw [recorded, htable, List.length_append, List.length_singleton]
        congr 1
        omega
      rw [hrest, recorded, hk, List.take_succ_cons, htable]
      simp only [List.mem_append, Prod.mk.injEq, List.mem_cons, List.not_mem_nil, false_or,
        exists_eq_or_imp, or_assoc, and_true]
      rw [@eq_comm _ base]
    · have htable : (gateDev p d).gatedDevs = p.gatedDevs := if_neg hroom
      have hfull : maxGatedDevs - p.gatedDevs.length = 0 := by omega
      rw [recorded, recorded, htable, hfull, List.take_zero, List.take_zero]

/-- **Ungating** takes out the entries of the devices, whoever made them. -/
theorem gated_foldl_ungateDev (devs : List DevAssign) (p : Power) (base : U64) :
    (devs.foldl ungateDev p).powerIsDeviceGated base = true ↔
      p.powerIsDeviceGated base = true ∧ ∀ d ∈ devs, d.mmioBase ≠ base := by
  rw [powerIsDeviceGated_iff, powerIsDeviceGated_iff]
  induction devs generalizing p with
  | nil => simp
  | cons d devs ih =>
    have hone : (base, true) ∈ (ungateDev p d).gatedDevs ↔
        (base, true) ∈ p.gatedDevs ∧ d.mmioBase ≠ base := by
      constructor
      · intro hmem
        obtain ⟨⟨b, on⟩, hentry, heq⟩ := List.mem_map.mp hmem
        split at heq
        · cases heq
        · rename_i hne
          cases heq
          exact ⟨hentry, fun hb => hne hb.symm⟩
      · rintro ⟨hmem, hne⟩
        exact List.mem_map.mpr ⟨_, hmem, if_neg (Ne.symm hne)⟩
    rw [List.foldl_cons, ih (ungateDev p d), hone, List.forall_mem_cons, and_assoc]

end Power

/-! ## Suspended VMs and their devices -/

/-- **Some suspended VM has a device at this address.** -/
def SuspendedWith (h : Hyp) (base : U64) : Prop :=
  ∃ vm ∈ h.vms, vm.state = .suspended ∧ ∃ d ∈ vm.dev, d.mmioBase = base

/-- **Gating mirrors suspended VMs.** -/
def GatingMirrors (h : Hyp) : Prop :=
  ∀ base, h.power.powerIsDeviceGated base = true ↔ SuspendedWith h base

/-- The two calls. -/
inductive SleepOp
  | suspend (i : ℕ)
  | resume (i : ℕ)

def sleepStep (h : Hyp) : SleepOp → Option Hyp
  | .suspend i => some (vmSuspend h i).2
  | .resume i => some (vmResume h i).2

/-- **The calls that do no harm**: a VM is suspended only if each of its
devices finds room in the table or is gated for another VM already, and
resumed only if no VM that stays suspended has one of its devices. -/
def GateSafe (h : Hyp) : SleepOp → Prop
  | .suspend i => ∀ vm, h.vms[i]? = some vm → vm.state = .running → ∀ d ∈ vm.dev,
      SuspendedWith h d.mmioBase ∨ ∃ d' ∈ h.power.recorded vm.dev, d'.mmioBase = d.mmioBase
  | .resume i => ∀ vm, h.vms[i]? = some vm → vm.state = .suspended →
      ∀ j vm', j ≠ i → h.vms[j]? = some vm' → vm'.state = .suspended →
        ∀ d ∈ vm.dev, ∀ d' ∈ vm'.dev, d'.mmioBase ≠ d.mmioBase

section Calls

variable {h : Hyp} {i : ℕ} {vm : Vm}

/-- The other VMs that are suspended with a device. -/
def OthersWith (h : Hyp) (i : ℕ) (base : U64) : Prop :=
  ∃ j vm', j ≠ i ∧ h.vms[j]? = some vm' ∧ vm'.state = .suspended ∧ ∃ d ∈ vm'.dev, d.mmioBase = base

/-- A VM counts for itself if it is suspended. -/
theorem suspendedWith_iff (hvm : h.vms[i]? = some vm) (base : U64) :
    SuspendedWith h base ↔
      OthersWith h i base ∨ vm.state = .suspended ∧ ∃ d ∈ vm.dev, d.mmioBase = base := by
  constructor
  · rintro ⟨vm', hmem, hst, hdev⟩
    obtain ⟨j, hj⟩ := List.mem_iff_getElem?.mp hmem
    by_cases hji : j = i
    · rw [hji, hvm] at hj
      obtain rfl := Option.some.inj hj
      exact .inr ⟨hst, hdev⟩
    · exact .inl ⟨j, vm', hji, hj, hst, hdev⟩
  · rintro (⟨j, vm', -, hj, hst, hdev⟩ | ⟨hst, hdev⟩)
    · exact ⟨vm', List.mem_of_getElem? hj, hst, hdev⟩
    · exact ⟨vm, List.mem_of_getElem? hvm, hst, hdev⟩

/-- After a VM has changed its state, the others are what they were. -/
theorem suspendedWith_set {h' : Hyp} (hvm : h.vms[i]? = some vm) {st : VmState}
    (hset : h'.vms = h.vms.set i { vm with state := st }) (base : U64) :
    SuspendedWith h' base ↔
      OthersWith h i base ∨ st = .suspended ∧ ∃ d ∈ vm.dev, d.mmioBase = base := by
  have hlt : i < h.vms.length := (List.getElem?_eq_some_iff.mp hvm).1
  have hself : h'.vms[i]? = some { vm with state := st } := by
    rw [hset, List.getElem?_set_self hlt]
  have hothers : OthersWith h' i base ↔ OthersWith h i base := by
    unfold OthersWith
    refine exists_congr fun j => exists_congr fun vm' => and_congr_right fun hji => ?_
    rw [hset, List.getElem?_set_ne (Ne.symm hji)]
  rw [suspendedWith_iff hself, hothers]

/-- **A suspension**, on the table and on the VMs. -/
theorem vmSuspend_gating (hr : Roster h) (hvm : h.vms[i]? = some vm) (hrunning : vm.state = .running)
    (base : U64) :
    ((vmSuspend h i).2.power.powerIsDeviceGated base = true ↔
      h.power.powerIsDeviceGated base = true ∨ ∃ d ∈ h.power.recorded vm.dev, d.mmioBase = base) ∧
    (SuspendedWith (vmSuspend h i).2 base ↔
      SuspendedWith h base ∨ ∃ d ∈ vm.dev, d.mmioBase = base) := by
  have hlt : i < h.vms.length := (List.getElem?_eq_some_iff.mp hvm).1
  have hi : i < maxVms := Nat.lt_of_lt_of_le hlt hr.length_le
  have hcall : (vmSuspend h i).2 = { h with
      power := { vm.dev.foldl Power.gateDev h.power with
        state := Function.update (vm.dev.foldl Power.gateDev h.power).state ⟨i, hi⟩ .gated }
      vms := h.vms.set i { vm with state := .suspended } } := by
    unfold vmSuspend
    rw [hvm]
    dsimp only
    rw [if_neg (not_not.mpr hrunning), Power.powerGateVm, hr.ids i vm hvm, idx_ofNat hi]
    rfl
  rw [hcall]
  refine ⟨Power.gated_foldl_gateDev vm.dev h.power base, ?_⟩
  rw [suspendedWith_set hvm rfl, suspendedWith_iff hvm, hrunning]
  simp

/-- **A resumption.** -/
theorem vmResume_gating (hr : Roster h) (hvm : h.vms[i]? = some vm)
    (hsuspended : vm.state = .suspended) (base : U64) :
    ((vmResume h i).2.power.powerIsDeviceGated base = true ↔
      h.power.powerIsDeviceGated base = true ∧ ∀ d ∈ vm.dev, d.mmioBase ≠ base) ∧
    (SuspendedWith (vmResume h i).2 base ↔ OthersWith h i base) := by
  have hlt : i < h.vms.length := (List.getElem?_eq_some_iff.mp hvm).1
  have hi : i < maxVms := Nat.lt_of_lt_of_le hlt hr.length_le
  have hcall : (vmResume h i).2 = { h with
      power := { vm.dev.foldl Power.ungateDev h.power with
        state := Function.update (vm.dev.foldl Power.ungateDev h.power).state ⟨i, hi⟩ .on }
      vms := h.vms.set i { vm with state := .running } } := by
    unfold vmResume
    rw [hvm]
    dsimp only
    rw [if_neg (not_not.mpr hsuspended), Power.powerUngateVm, hr.ids i vm hvm, idx_ofNat hi]
    rfl
  rw [hcall]
  refine ⟨Power.gated_foldl_ungateDev vm.dev h.power base, ?_⟩
  rw [suspendedWith_set hvm rfl]
  simp

/-! ## One call -/

/-- **Suspending** keeps the mirror exactly if each device is gated already
or recorded. -/
theorem mirrors_vmSuspend_iff (hr : Roster h) (hm : GatingMirrors h) (hvm : h.vms[i]? = some vm)
    (hrunning : vm.state = .running) :
    GatingMirrors (vmSuspend h i).2 ↔ ∀ d ∈ vm.dev, SuspendedWith h d.mmioBase ∨
      ∃ d' ∈ h.power.recorded vm.dev, d'.mmioBase = d.mmioBase := by
  have hcall := vmSuspend_gating hr hvm hrunning
  constructor
  · intro hafter d hd
    have hgated := (hafter d.mmioBase).mpr ((hcall d.mmioBase).2.mpr (.inr ⟨d, hd, rfl⟩))
    rw [(hcall d.mmioBase).1, hm d.mmioBase] at hgated
    exact hgated
  · intro hroom base
    rw [(hcall base).1, (hcall base).2, hm base]
    constructor
    · rintro (hsusp | ⟨d, hd, hbase⟩)
      · exact .inl hsusp
      · exact .inr ⟨d, List.mem_of_mem_take hd, hbase⟩
    · rintro (hsusp | ⟨d, hd, rfl⟩)
      · exact .inl hsusp
      · exact hroom d hd

/-- **Resuming** keeps it exactly if no other suspended VM has one of the
devices. -/
theorem mirrors_vmResume_iff (hr : Roster h) (hm : GatingMirrors h) (hvm : h.vms[i]? = some vm)
    (hsuspended : vm.state = .suspended) :
    GatingMirrors (vmResume h i).2 ↔
      ∀ base, OthersWith h i base → ∀ d ∈ vm.dev, d.mmioBase ≠ base := by
  have hcall := vmResume_gating hr hvm hsuspended
  constructor
  · intro hafter base hothers
    have hgated := (hafter base).mpr ((hcall base).2.mpr hothers)
    exact ((hcall base).1.mp hgated).2
  · intro hfree base
    rw [(hcall base).1, (hcall base).2, hm base, suspendedWith_iff hvm]
    constructor
    · rintro ⟨hothers | ⟨-, d, hd, hbase⟩, hnot⟩
      · exact hothers
      · exact absurd hbase (hnot d hd)
    · intro hothers
      exact ⟨.inl hothers, hfree base hothers⟩

/-- A call that finds no such VM changes nothing. -/
theorem vmSuspend_refused (hno : ∀ vm, h.vms[i]? = some vm → vm.state ≠ .running) :
    (vmSuspend h i).2 = h := by
  unfold vmSuspend
  cases hvm : h.vms[i]? with
  | none => rfl
  | some vm => exact congrArg Prod.snd (if_pos (hno vm hvm))

/-- Only a suspended VM is resumed. -/
theorem vmResume_refused (hno : ∀ vm, h.vms[i]? = some vm → vm.state ≠ .suspended) :
    (vmResume h i).2 = h := by
  unfold vmResume
  cases hvm : h.vms[i]? with
  | none => rfl
  | some vm => exact congrArg Prod.snd (if_pos (hno vm hvm))

theorem gateSafe_suspend_iff (hvm : h.vms[i]? = some vm) (hrunning : vm.state = .running) :
    GateSafe h (.suspend i) ↔ ∀ d ∈ vm.dev, SuspendedWith h d.mmioBase ∨
      ∃ d' ∈ h.power.recorded vm.dev, d'.mmioBase = d.mmioBase := by
  constructor
  · intro hfree
    exact hfree vm hvm hrunning
  · intro hroom vm' hvm' _
    obtain rfl := Option.some.inj (hvm.symm.trans hvm')
    exact hroom

theorem gateSafe_resume_iff (hvm : h.vms[i]? = some vm) (hsuspended : vm.state = .suspended) :
    GateSafe h (.resume i) ↔ ∀ base, OthersWith h i base → ∀ d ∈ vm.dev, d.mmioBase ≠ base := by
  constructor
  · rintro hfree base ⟨j, vm₁, hji, hj, hst, d₁, hd₁, rfl⟩ d hd
    exact (hfree vm hvm hsuspended j vm₁ hji hj hst d hd d₁ hd₁).symm
  · intro hfree vm' hvm' _ j vm₁ hji hj hst d hd d₁ hd₁ hbase
    obtain rfl := Option.some.inj (hvm.symm.trans hvm')
    exact hfree _ ⟨j, vm₁, hji, hj, hst, d₁, hd₁, rfl⟩ d hd hbase.symm

end Calls

/-- **One call** keeps the mirror exactly if it does no harm. -/
theorem sleepStep_mirrors {h : Hyp} (hr : Roster h) (hm : GatingMirrors h) (op : SleepOp) :
    ∃ h', sleepStep h op = some h' ∧ Roster h' ∧ (GatingMirrors h' ↔ GateSafe h op) := by
  -- a call that is refused changes nothing and asks for nothing
  have hrefused : ∀ {h'}, h' = h → GateSafe h op →
      Roster h' ∧ (GatingMirrors h' ↔ GateSafe h op) := by
    rintro h' rfl hfree
    exact ⟨hr, fun _ => hfree, fun _ => hm⟩
  cases op with
  | suspend i =>
    refine ⟨_, rfl, ?_⟩
    by_cases hcalled : ∃ vm, h.vms[i]? = some vm ∧ vm.state = .running
    · obtain ⟨vm, hvm, hrunning⟩ := hcalled
      refine ⟨hr.of_touches (vmSuspend_becomes hvm).touches, ?_⟩
      rw [mirrors_vmSuspend_iff hr hm hvm hrunning, gateSafe_suspend_iff hvm hrunning]
    · have hno : ∀ vm, h.vms[i]? = some vm → vm.state ≠ .running :=
        fun vm hvm hrunning => hcalled ⟨vm, hvm, hrunning⟩
      exact hrefused (vmSuspend_refused hno) fun vm hvm hrunning => absurd hrunning (hno vm hvm)
  | resume i =>
    refine ⟨_, rfl, ?_⟩
    by_cases hcalled : ∃ vm, h.vms[i]? = some vm ∧ vm.state = .suspended
    · obtain ⟨vm, hvm, hsuspended⟩ := hcalled
      refine ⟨hr.of_touches (vmResume_becomes hvm).touches, ?_⟩
      rw [mirrors_vmResume_iff hr hm hvm hsuspended, gateSafe_resume_iff hvm hsuspended]
    · have hno : ∀ vm, h.vms[i]? = some vm → vm.state ≠ .suspended :=
        fun vm hvm hsuspended => hcalled ⟨vm, hvm, hsuspended⟩
      exact hrefused (vmResume_refused hno) fun vm hvm hsuspended => absurd hsuspended (hno vm hvm)

/-! ## Runs -/

/-- **Device gating mirrors suspended VMs.** Whatever devices the VMs have,
from a state with an empty table and no VM suspended, and for any sequence
of the two calls: in every state the gated devices are those of the
suspended VMs if and only if every call finds room for the devices it
gates and ungates none that another suspended VM has. -/
theorem device_gating_iff {h : Hyp} (hr : Roster h) (hfresh : h.power.gatedDevs = [])
    (hawake : ∀ vm ∈ h.vms, vm.state ≠ .suspended) (ops : List SleepOp) :
    Throughout sleepStep GatingMirrors h ops ↔ Guarded sleepStep GateSafe h ops := by
  have hstart : GatingMirrors h := by
    intro base
    rw [Power.powerIsDeviceGated_iff, hfresh]
    constructor
    · intro hmem
      cases hmem
    · rintro ⟨vm, hmem, hst, -⟩
      exact absurd hst (hawake vm hmem)
  refine throughout_iff_guarded (fun (h : Hyp) (hinv : Roster h ∧ GatingMirrors h) => hinv.2)
    (fun h op h' hinv hfree hrun => ?_) (fun h op hinv hharm => ?_) ⟨hr, hstart⟩
  · obtain ⟨h₁, hrun₁, hr₁, hiff⟩ := sleepStep_mirrors hinv.1 hinv.2 op
    obtain rfl := Option.some.inj (hrun.symm.trans hrun₁)
    exact ⟨hr₁, hiff.mpr hfree⟩
  · obtain ⟨h', hrun, -, hiff⟩ := sleepStep_mirrors hinv.1 hinv.2 op
    exact ⟨h', hrun, fun hm => hharm (hiff.mp hm)⟩

/-- The RTOS with its device is suspended and resumed. -/
theorem device_gating_rtosWithDevice :
    Throughout sleepStep GatingMirrors Vse.rtosWithDevice [.suspend 0, .resume 0] := by
  have hs : Vse.Standing Vse.rtosWithDevice := Vse.standing_of_one rfl rfl (by decide) rfl
  have hone : ∀ {vm}, vm ∈ Vse.rtosWithDevice.vms → vm.state = .running := by
    intro vm hmem
    obtain rfl := List.mem_singleton.mp hmem
    rfl
  have hawake : ∀ vm ∈ Vse.rtosWithDevice.vms, vm.state ≠ .suspended := by
    intro vm hmem hst
    rw [hone hmem] at hst
    cases hst
  refine (device_gating_iff hs.roster rfl hawake _).mpr ⟨fun vm hvm _ d hd => ?_, fun h' hrun => ?_⟩
  · obtain rfl := Option.some.inj hvm
    exact .inr ⟨d, hd, rfl⟩
  · obtain rfl := Option.some.inj hrun
    refine ⟨fun _ _ _ j vm' hj hvm' => ?_, fun _ _ => trivial⟩
    rcases j with _ | j
    · exact absurd rfl hj
    · cases hvm'

/-- Two VMs that have the same device. -/
def sharedDevice : Hyp :=
  { Vse.rtosWithDevice with
    vms := Vse.rtosWithDevice.vms ++ Vse.rtosWithDevice.vms.map fun vm => { vm with id := 2 } }

/-- A VM with sixteen devices. -/
def manyDevices : Hyp :=
  { Vse.rtosWithDevice with
    vms := Vse.rtosWithDevice.vms.map fun vm => { vm with
      dev := (List.range 16).map fun k => ⟨0x0A000000 + BitVec.ofNat 64 (k * 0x1000), 0x1000, 0, true⟩ } }

/-- Two VMs with the same device are suspended and one is resumed: the
device is not gated, though the other VM is suspended. And a VM with
sixteen devices has filled the table when it has been suspended four
times: at the fifth none of its devices is gated. -/
theorem suspended_device_not_gated :
    (∃ g, exec sleepStep sharedDevice [.suspend 0, .suspend 1, .resume 0] = some g ∧
      SuspendedWith g 0x0A000000 ∧ g.power.powerIsDeviceGated 0x0A000000 = false) ∧
    ∃ g, exec sleepStep manyDevices [.suspend 0, .resume 0, .suspend 0, .resume 0, .suspend 0,
        .resume 0, .suspend 0, .resume 0, .suspend 0] = some g ∧
      SuspendedWith g 0x0A000000 ∧ g.power.powerIsDeviceGated 0x0A000000 = false := by
  constructor
  · exact ⟨_, rfl, ⟨_, List.mem_cons_of_mem _ List.mem_cons_self, rfl, _, List.mem_cons_self, rfl⟩, rfl⟩
  · exact ⟨_, rfl, ⟨_, List.mem_cons_self, rfl, _, List.mem_cons_self, rfl⟩, by decide +kernel⟩

end HypervisorBase
