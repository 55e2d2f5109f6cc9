import HypervisorBase.Device.Mmio
import HypervisorBase.Sched.Model
import HypervisorBase.Vcpu.Pmu
import HypervisorBase.Vse.Ids
/-!
# Scheduling decisions

The rest of `core/sched/sched.c`, with `vcpu_do_switch` of
`core/vcpu/vcpu.c`: the round-robin scan, the switch with its accounting
and its periodic poll of intrusion detection, the two events that make
the scheduler choose, and the launch of the first guest. Of the system
registers a switch saves and loads, this level keeps the list register.
-/

namespace HypervisorBase

namespace Sched

/-! ## The scan -/

/-- The slots the scans visit, in order: the last one is `cur` itself. -/
def scanOrder (n cur : ℕ) : List ℕ := (List.range n).map fun k => (cur + k + 1) % n

/-- A slot the scheduler has settled on. -/
structure Choice where
  slot : ℕ
  vcpu : ℕ
  durationUs : U32

/-- The runnable slot at an index. -/
def choiceAt (h : Hyp) (k : ℕ) : Option Choice :=
  (slotVcpu h k).bind fun v => (h.sched.slots[k]?).map fun sl => ⟨k, v, sl.durationUs⟩

/-- `find_next_rr`: the next runnable slot after the current one. -/
def findNextRr (h : Hyp) : Option Choice :=
  (scanOrder h.sched.slots.length h.sched.cur).findSome? (choiceAt h)

/-- The first scan of `sched_on_wfi`, which passes over the slots of one
VM. -/
def findOther (h : Hyp) (vmId : U32) : Option Choice :=
  (scanOrder h.sched.slots.length h.sched.cur).findSome? fun k =>
    if (h.sched.slots[k]?).map SchedSlot.vmId = some vmId then none else choiceAt h k

/-! ## The switch -/

/-- The id of the VM of a vCPU, and 0 without one. -/
def vcpuVmId (h : Hyp) (c : Option ℕ) : U32 :=
  ((c.bind fun c => (h.vcpus[c]?).bind fun vc => h.vms[vc.vm]?).map Vm.id).getD 0

/-- Changes the counters of a VM, if the table has it. -/
def modifyStats (s : Sched) (vmId : U32) (f : VmStats → VmStats) : Sched :=
  match idx vmId with
  | none => s
  | some ix => { s with stats := Function.update s.stats ix (f (s.stats ix)) }

/-- `sched_stats_on_switch`: the slice of the next VM is added to the
account of the previous one. -/
def statsOnSwitch (s : Sched) (prevVmId nextVmId durUs : U32) (wasPreempt : Bool) : Sched :=
  let s := modifyStats s prevVmId fun st => { st with
    totalUs := st.totalUs + durUs.setWidth 64
    preemptCount := if wasPreempt then st.preemptCount + 1 else st.preemptCount }
  modifyStats s nextVmId fun st => { st with sliceCount := st.sliceCount + 1 }

/-- `sched_stats_on_wfi`. -/
def statsOnWfi (s : Sched) (vmId : U32) : Sched :=
  modifyStats s vmId fun st => { st with wfiCount := st.wfiCount + 1 }

/-- What `vcpu_do_switch` does to the vCPU that leaves. -/
def switchOut (h : Hyp) (prev : ℕ) : Hyp :=
  match h.vcpus[prev]? with
  | none => h
  | some vc =>
    let (pmu, regs) := Pmu.pmuSave vc.pmu h.pmu
    { h with
      vcpus := h.vcpus.set prev { vc with ichLr0 := h.lr 0, pmu := pmu, state := .ready }
      pmu := regs }

/-- What it does to the vCPU that comes. -/
def switchIn (h : Hyp) (next : ℕ) : Hyp :=
  match h.vcpus[next]? with
  | none => h
  | some vc =>
    { h with
      lr := Function.update h.lr 0 vc.ichLr0
      pmu := Pmu.pmuRestore vc.pmu h.pmu
      vttbrEl2 := vc.vttbrEl2
      vcpus := h.vcpus.set next { vc with state := .running }
      current := some next }

/-- `vcpu_do_switch`. -/
def vcpuDoSwitch (h : Hyp) (prev : Option ℕ) (next : ℕ) : Hyp :=
  switchIn (match prev with | none => h | some p => switchOut h p) next

/-- The periodic poll in `do_switch`: at every eighth change of VM. -/
def pollOnSwitch (h : Hyp) : Hyp :=
  let h := { h with idsPollCtr := h.idsPollCtr + 1 }
  if h.idsPollCtr % 8 = 0 then (Vse.idsPoll h).2 else h

/-- `do_switch`. -/
def doSwitch (h : Hyp) (prev : Option ℕ) (next : ℕ) (durUs : U32) (isPreempt : Bool) : Hyp :=
  let prevVmId := vcpuVmId h prev
  let nextVmId := vcpuVmId h (some next)
  let h := if prevVmId ≠ nextVmId then pollOnSwitch h else h
  let h := { h with sched := statsOnSwitch h.sched prevVmId nextVmId durUs isPreempt }
  if prev ≠ some next then vcpuDoSwitch h prev next else h

/-- `gate_uart`: only Linux gets the console's interrupt. -/
def gateUart (h : Hyp) (next : ℕ) : Hyp :=
  { h with power := { h.power with
    irqEnabled := Function.update h.power.irqEnabled 33 (vcpuVmId h (some next) = 1) } }

/-- The end of both scheduling events. -/
def switchTo (h : Hyp) (ch : Choice) (isPreempt : Bool) : Hyp :=
  let prev := h.current
  let h := { h with sched := { h.sched with cur := ch.slot } }
  let h := doSwitch h prev ch.vcpu ch.durationUs isPreempt
  timerSetUs (gateUart h ch.vcpu) ch.durationUs

/-! ## The events -/

/-- `sched_on_timer`. -/
def schedOnTimer (h : Hyp) : Hyp :=
  if h.sched.slots.isEmpty then timerSetUs h majorFrameUs
  else
    match findNextRr h with
    | none => timerSetUs h majorFrameUs
    | some ch => switchTo h ch true

/-- `sched_on_wfi`: past the instruction, then to another VM if one can
run, and else round-robin. -/
def schedOnWfi (h : Hyp) : Hyp :=
  let prevVmId := vcpuVmId h h.current
  let h := h.modifyCurrent fun vc => vc.setElr (vc.regs.elrEl2 + 4)
  let h := { h with sched := statsOnWfi h.sched prevVmId }
  match (findOther h prevVmId).or (findNextRr h) with
  | none => timerSetUs h majorFrameUs
  | some ch => switchTo h ch false

/-! ## The launch -/

/-- `slot_is_rt`. -/
def slotIsRt (h : Hyp) (k : ℕ) : Bool :=
  (((h.sched.slots[k]?).bind fun sl => vmAt h sl.vmId).map fun vm => vm.sched.realtime).getD false

/-- A slot `sched_run` may launch. Unlike `slot_vcpu` it does not look at
the state of the vCPU. -/
def launchAt (h : Hyp) (k : ℕ) : Option Choice :=
  (h.sched.slots[k]?).bind fun sl =>
    (vmAt h sl.vmId).bind fun vm =>
      if vm.state ≠ .running then none
      else (vm.vcpus[sl.vcpuId.toNat]?).map fun v => ⟨k, v, sl.durationUs⟩

/-- The slot `sched_run` launches: the first real-time one, else the
first. -/
def firstSlot (h : Hyp) : Option Choice :=
  let slots := List.range h.sched.slots.length
  (slots.findSome? fun k => if slotIsRt h k then launchAt h k else none).or
    (slots.findSome? (launchAt h))

/-- The VMs that are ready are started. -/
def startReady (h : Hyp) : Hyp := (List.range h.vms.length).foldl (fun h i => (vmStart h i).2) h

/-- `sched_run`, up to the return to the first guest. Without a slot to
launch it never gets there. -/
def schedRun (h : Hyp) : Option Hyp :=
  if h.sched.slots.isEmpty ∨ h.vms.isEmpty then none
  else
    let h := startReady h
    match firstSlot h with
    | none => none
    | some ch =>
      (h.vcpus[ch.vcpu]?).map fun vc =>
        let h := { h with
          sched := { h.sched with cur := ch.slot }
          current := some ch.vcpu
          vcpus := h.vcpus.set ch.vcpu { vc with state := .running }
          lr := Function.update h.lr 0 vc.ichLr0
          vttbrEl2 := vc.vttbrEl2 }
        timerSetUs h ch.durationUs

end Sched

end HypervisorBase
