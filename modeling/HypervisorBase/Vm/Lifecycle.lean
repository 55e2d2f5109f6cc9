import HypervisorBase.State
/-!
# The life of a VM

The model of `core/vm/vm.c`, of the parts of `core/vcpu/vcpu.c` it calls
and of `vre/power/power.c`. A VM is made by `vmCreate`, given regions by
`vmAddMem`, mapped and given virtual CPUs by `vmFinalize`, and then moved
between its states. Only building tables can fail to return; everything
else is a total function of the state.
-/

namespace HypervisorBase

section Tables

variable [P : PtPool]

/-! ## Power gating -/

namespace Power

def maxGatedDevs : ℕ := 64

/-- One device of `power_gate_vm`'s loop. -/
def gateDev (p : Power) (d : DevAssign) : Power where
  state := p.state
  gatedDevs := if p.gatedDevs.length < maxGatedDevs then p.gatedDevs ++ [(d.mmioBase, true)]
    else p.gatedDevs
  irqEnabled := if d.irq ≠ 0 then Function.update p.irqEnabled d.irq false else p.irqEnabled

/-- One device of `power_ungate_vm`'s loop. -/
def ungateDev (p : Power) (d : DevAssign) : Power where
  state := p.state
  gatedDevs := p.gatedDevs.map fun g => if g.1 = d.mmioBase then (g.1, false) else g
  irqEnabled := if d.irq ≠ 0 then Function.update p.irqEnabled d.irq true else p.irqEnabled

/-- `power_init`. The distributor is set up elsewhere. -/
def powerInit (p : Power) : Power := { p with state := fun _ => .on, gatedDevs := [] }

def powerGateVm (p : Power) (vm : Vm) : Err × Power :=
  match idx vm.id with
  | none => (.inval, p)
  | some ix =>
    let p := vm.dev.foldl gateDev p
    (.ok, { p with state := Function.update p.state ix .gated })

def powerUngateVm (p : Power) (vm : Vm) : Err × Power :=
  match idx vm.id with
  | none => (.inval, p)
  | some ix =>
    let p := vm.dev.foldl ungateDev p
    (.ok, { p with state := Function.update p.state ix .on })

def powerGetState (p : Power) (vmId : U32) : PowerMode :=
  match idx vmId with
  | none => .on
  | some ix => p.state ix

def powerIsDeviceGated (p : Power) (mmioBase : U64) : Bool :=
  p.gatedDevs.any fun g => g.1 = mmioBase && g.2

end Power

/-! ## Virtual CPUs -/

/-- `SPSR_EL1H`. -/
def spsrEl1h : U64 := 0x3C5

/-- `vcpu_init` on a pool entry, which it clears first. -/
def vcpuInit (i : ℕ) (vm : Vm) (id : U32) : Vcpu where
  regs := { x := fun n => if n = 0 then vm.dtbIpa else 0
            elrEl2 := vm.entryIpa
            spsrEl2 := spsrEl1h }
  ichLr0 := 0
  vttbrEl2 := vm.vttbr
  vcpuId := id
  state := .ready
  vm := i
  resetPc := 0
  resetX0 := 0
  pmu := ⟨0, 0, 0, 0, fun _ => 0, fun _ => 0, 0, 0, false⟩
  vgicCpu := { iccPmr := 0, iccBpr0 := 0, iccGrpen1 := 0 }

def vcpuSetEntry (vc : Vcpu) (entry arg0 : U64) : Vcpu :=
  { vc with
    resetPc := entry
    resetX0 := arg0
    regs := { vc.regs with
              x := Function.update vc.regs.x 0 arg0
              elrEl2 := entry
              spsrEl2 := spsrEl1h } }

def vcpuStop (vc : Vcpu) : Vcpu := { vc with state := .stopped }

/-! ## Creating and filling a VM -/

/-- The zeroed `vm_t` that `vm_create` starts from, with the values it
stores before it asks for tables. -/
def vmInit (id : U32) (type : VmType) : Vm where
  id := id
  state := .created
  type := type
  vcpus := []
  mem := []
  dev := []
  s2Pgd := 0
  vttbr := 0
  entryIpa := 0
  dtbIpa := 0
  sched := { timeSliceUs := if type = .rtos then 500000 else 2000000
             priority := if type = .rtos then 0 else 2
             realtime := type = .rtos }
  vgic := { priority := fun _ => 0, enable := fun _ => 0, initialised := false }

def vmCreate (h : Hyp) (type : VmType) : Option (Err × Hyp) :=
  if maxVms ≤ h.vms.length then some (.nomem, h)
  else do
    let ((pgd, vttbr), s2) ← Stage2.s2Create h.s2
    let vm := { vmInit (BitVec.ofNat 32 (h.vms.length + 1)) type with s2Pgd := pgd, vttbr := vttbr }
    pure (.ok, { h with s2 := s2, vms := h.vms ++ [vm] })

def maxMemRegions : ℕ := 8

/-- `vm_add_mem` on the VM at index `i`. -/
def vmAddMem (h : Hyp) (i : ℕ) (pa ipa sz : U64) (flags : U32) : Option (Err × Hyp) :=
  match h.vms[i]? with
  | none => some (.inval, h)
  | some vm =>
    if sz = 0 then some (.inval, h)
    else if maxMemRegions ≤ vm.mem.length then some (.nomem, h)
    else do
      let mapped ← if vm.s2Pgd ≠ 0 then Stage2.s2IpaIsMapped h.s2 vm.s2Pgd ipa sz
        else pure false
      if mapped then pure (.busy, h)
      else
        let r : MemRegion := { paBase := pa, ipaBase := ipa, size := sz, flags := flags }
        pure (.ok, h.setVm i { vm with mem := vm.mem ++ [r] })

/-- The descriptor attributes `vm_finalize` gives a region. Bit 1 of the
region's flags (`MEM_W`) is not looked at. -/
def regionFlags (r : MemRegion) : U64 :=
  let f := Stage2.s2Af ||| Stage2.s2ShInner ||| Stage2.s2S2apRw
  let f := if r.flags &&& memIo ≠ 0 then f ||| Stage2.s2MemattrDev else f ||| Stage2.s2MemattrWb
  if r.flags &&& memX = 0 then f ||| Stage2.s2Xn else f

/-- `vm_finalize`'s loop over the regions, which ends at the first one
`s2_map` refuses. -/
def mapRegions (pgd : U64) : List MemRegion → S2State → Option (Err × S2State)
  | [], s => some (.ok, s)
  | r :: rs, s => do
      let (e, s) ← Stage2.s2Map s pgd r.ipaBase r.paBase r.size (regionFlags r)
      if e = .ok then mapRegions pgd rs s else pure (e, s)

def linuxFaultIpa : U64 := 0x2BF000

/-- The extra page of a Linux VM. Its error is not looked at. -/
def mapLinuxFaultPage (vm : Vm) (s : S2State) : Option S2State :=
  if vm.type = .linux then do
    let pa := ((vm.mem[0]?).map MemRegion.paBase).getD 0 + linuxFaultIpa
    let flags := Stage2.s2Af ||| Stage2.s2ShInner ||| Stage2.s2S2apRw ||| Stage2.s2MemattrWb
    let (_, s) ← Stage2.s2Map s vm.s2Pgd linuxFaultIpa pa 0x1000 flags
    pure s
  else pure s

def maxVcpus : ℕ := 16

/-- `vm_finalize`'s loop over the virtual CPUs: the next `n` from `v` on. -/
def initVcpus (i : ℕ) : ℕ → ℕ → Vm → List Vcpu → Err × Vm × List Vcpu
  | 0, _, vm, pool => (.ok, vm, pool)
  | n + 1, v, vm, pool =>
    if maxVcpus ≤ pool.length then (.nomem, vm, pool)
    else initVcpus i n (v + 1) { vm with vcpus := vm.vcpus ++ [pool.length] }
      (pool ++ [vcpuInit i vm (BitVec.ofNat 32 v)])

def numVcpus (type : VmType) : ℕ := if type = .android then 2 else 1

def vmFinalize (h : Hyp) (i : ℕ) : Option (Err × Hyp) :=
  match h.vms[i]? with
  | none => some (.inval, h)
  | some vm => do
      let (e, s2) ← mapRegions vm.s2Pgd vm.mem h.s2
      if e ≠ .ok then pure (e, { h with s2 := s2 })
      else
        let s2 ← mapLinuxFaultPage vm s2
        let (e, vm, pool) := initVcpus i (numVcpus vm.type) 0 { vm with vcpus := [] } h.vcpus
        let h := { h with s2 := s2, vcpus := pool }
        if e ≠ .ok then pure (e, h.setVm i vm)
        else pure (.ok, h.setVm i { vm with state := .ready })

/-- **What `vm_finalize` can do**: it finds no VM, it stops at a region, or
it comes to the virtual CPUs and makes the VM ready if there are enough. -/
theorem vmFinalize_cases {h h' : Hyp} {i : ℕ} {e : Err} (hrun : vmFinalize h i = some (e, h')) :
    h.vms[i]? = none ∧ e = .inval ∧ h' = h ∨
    ∃ vm, h.vms[i]? = some vm ∧
      ((∃ s, mapRegions vm.s2Pgd vm.mem h.s2 = some (e, s) ∧ e ≠ .ok ∧ h' = { h with s2 := s }) ∨
      ∃ s₁ s₂ vm' pool, mapRegions vm.s2Pgd vm.mem h.s2 = some (.ok, s₁) ∧
        mapLinuxFaultPage vm s₁ = some s₂ ∧
        initVcpus i (numVcpus vm.type) 0 { vm with vcpus := [] } h.vcpus = (e, vm', pool) ∧
        h' = Hyp.setVm { h with s2 := s₂, vcpus := pool } i
          { vm' with state := if e = .ok then .ready else vm'.state }) := by
  unfold vmFinalize at hrun
  cases hvm : h.vms[i]? with
  | none =>
    rw [hvm] at hrun
    cases hrun
    exact .inl ⟨rfl, rfl, rfl⟩
  | some vm =>
    rw [hvm] at hrun
    refine .inr ⟨vm, rfl, ?_⟩
    obtain ⟨⟨e₁, s₁⟩, hregions, hrun⟩ := Option.bind_eq_some_iff.mp hrun
    dsimp only at hrun
    split at hrun
    · rename_i herr
      cases hrun
      exact .inl ⟨s₁, hregions, herr, rfl⟩
    rename_i hok
    obtain rfl := not_not.mp hok
    obtain ⟨s₂, hpage, hrun⟩ := Option.bind_eq_some_iff.mp hrun
    generalize initVcpus i (numVcpus vm.type) 0 { vm with vcpus := [] } h.vcpus = init at hrun ⊢
    obtain ⟨e₂, vm', pool⟩ := init
    refine .inr ⟨s₁, s₂, vm', pool, hregions, hpage, ?_⟩
    dsimp only at hrun
    split at hrun
    · rename_i herr
      cases hrun
      exact ⟨rfl, by rw [if_neg herr]⟩
    · rename_i hok
      obtain rfl := not_not.mp hok
      cases hrun
      exact ⟨rfl, rfl⟩

end Tables

/-! ## Moving between states -/

def vmStart (h : Hyp) (i : ℕ) : Err × Hyp :=
  match h.vms[i]? with
  | none => (.inval, h)
  | some vm => if vm.state ≠ .ready then (.inval, h) else (.ok, h.setVm i { vm with state := .running })

/-- `vm_stop`'s loop over the regions. A refused `s2_unmap` is only
logged. -/
def unmapRegions (pgd : U64) (mem : List MemRegion) (s : S2State) : S2State :=
  mem.foldl (fun s r => (Stage2.s2Unmap s pgd r.ipaBase r.size).2) s

def stopVcpus (vs : List ℕ) (pool : List Vcpu) : List Vcpu :=
  vs.foldl (fun pool v => pool.modify v vcpuStop) pool

def vmStop (h : Hyp) (i : ℕ) : Err × Hyp :=
  match h.vms[i]? with
  | none => (.inval, h)
  | some vm =>
    if vm.state = .stopped then (.ok, h)
    else
      let h := { h with
        vcpus := stopVcpus vm.vcpus h.vcpus
        s2 := unmapRegions vm.s2Pgd vm.mem h.s2 }
      (.ok, h.setVm i { vm with state := .stopped })

def vmSuspend (h : Hyp) (i : ℕ) : Err × Hyp :=
  match h.vms[i]? with
  | none => (.inval, h)
  | some vm =>
    if vm.state ≠ .running then (.inval, h)
    else
      -- an error of the power manager is only logged
      let h := { h with power := (h.power.powerGateVm vm).2 }
      (.ok, h.setVm i { vm with state := .suspended })

def vmResume (h : Hyp) (i : ℕ) : Err × Hyp :=
  match h.vms[i]? with
  | none => (.inval, h)
  | some vm =>
    if vm.state ≠ .suspended then (.inval, h)
    else
      let h := { h with power := (h.power.powerUngateVm vm).2 }
      (.ok, h.setVm i { vm with state := .running })

/-! ## What a change of state can do

Each of the four refuses, or finds the VM in the state it starts from. -/

section Moves

variable (h : Hyp) (i : ℕ)

/-- Only a VM that is ready is started. -/
theorem vmStart_cases : (vmStart h i).2 = h ∨ ∃ vm, h.vms[i]? = some vm ∧ vm.state = .ready ∧
    (vmStart h i).2 = h.setVm i { vm with state := .running } := by
  unfold vmStart
  split
  · exact .inl rfl
  · rename_i vm hvm
    split
    · exact .inl rfl
    · rename_i hst
      exact .inr ⟨vm, hvm, not_not.mp hst, rfl⟩

/-- Stopping unmaps the regions, and stops the virtual CPUs. -/
theorem vmStop_cases : (vmStop h i).2 = h ∨ ∃ vm, h.vms[i]? = some vm ∧ vm.state ≠ .stopped ∧
    (vmStop h i).2 = { h with
      vcpus := stopVcpus vm.vcpus h.vcpus
      s2 := unmapRegions vm.s2Pgd vm.mem h.s2
      vms := h.vms.set i { vm with state := .stopped } } := by
  unfold vmStop
  split
  · exact .inl rfl
  · rename_i vm hvm
    dsimp only
    split
    · exact .inl rfl
    · rename_i hst
      exact .inr ⟨vm, hvm, hst, rfl⟩

/-- Only a running VM is suspended, and its devices gated. -/
theorem vmSuspend_cases : (vmSuspend h i).2 = h ∨ ∃ vm, h.vms[i]? = some vm ∧ vm.state = .running ∧
    (vmSuspend h i).2 = { h with
      power := (h.power.powerGateVm vm).2
      vms := h.vms.set i { vm with state := .suspended } } := by
  unfold vmSuspend
  split
  · exact .inl rfl
  · rename_i vm hvm
    dsimp only
    split
    · exact .inl rfl
    · rename_i hst
      exact .inr ⟨vm, hvm, not_not.mp hst, rfl⟩

/-- Only a suspended VM is resumed. -/
theorem vmResume_cases : (vmResume h i).2 = h ∨ ∃ vm, h.vms[i]? = some vm ∧ vm.state = .suspended ∧
    (vmResume h i).2 = { h with
      power := (h.power.powerUngateVm vm).2
      vms := h.vms.set i { vm with state := .running } } := by
  unfold vmResume
  split
  · exact .inl rfl
  · rename_i vm hvm
    dsimp only
    split
    · exact .inl rfl
    · rename_i hst
      exact .inr ⟨vm, hvm, not_not.mp hst, rfl⟩

variable {h i}

/-- **What holds before and after the change holds either way.** -/
theorem keeps_of_cases {R : Hyp → Prop} {h' : Hyp} {q : Vm → Prop} {f : Vm → Hyp}
    (hcases : h' = h ∨ ∃ vm, h.vms[i]? = some vm ∧ q vm ∧ h' = f vm) (hsame : R h)
    (hf : ∀ vm, h.vms[i]? = some vm → R (f vm)) : R h' := by
  rcases hcases with heq | ⟨vm, hvm, -, heq⟩
  · rw [heq]
    exact hsame
  · rw [heq]
    exact hf vm hvm

end Moves

end HypervisorBase
