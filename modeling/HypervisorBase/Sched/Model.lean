import HypervisorBase.State
/-!
# Scheduler slots and accounting

The parts of `core/sched/sched.c` and `core/sched/sched_stats.c` that the
hypercalls and the trust engine meet: which virtual CPU a slot stands
for, the length of a VM's slice, and the counters a guest may read; with
the EL2 timer of `drivers/timer/timer.c`.
-/

namespace HypervisorBase

namespace Sched

def maxSlots : ℕ := 16

/-- `SCHED_MAJOR_FRAME_US`. -/
def majorFrameUs : U32 := 10000

/-- `slot_vcpu`: the pool index of the virtual CPU a slot may run now. -/
def slotVcpu (h : Hyp) (k : ℕ) : Option ℕ :=
  (h.sched.slots[k]?).bind fun sl =>
    (vmAt h sl.vmId).bind fun vm =>
      if vm.state ≠ .running then none
      else (vm.vcpus[sl.vcpuId.toNat]?).bind fun v =>
        (h.vcpus[v]?).bind fun vc => if vc.state = .stopped then none else some v

/-! ## Accounting -/

/-- `sched_stats_init`. -/
def statsInit : Fin maxVms → VmStats :=
  fun ix => ⟨0, 0, 0, 0, 10000, BitVec.ofNat 32 (ix.val + 1)⟩

/-- `sched_stats_set_slice`. -/
def statsSetSlice (s : Sched) (vmId durUs : U32) : Sched :=
  match idx vmId with
  | none => s
  | some ix =>
    { s with stats := Function.update s.stats ix { s.stats ix with sliceDurUs := durUs } }

/-- `sched_get_stats`. -/
def schedGetStats (h : Hyp) (vmId : U32) : Except Err VmStats :=
  match idx vmId with
  | none => .error .inval
  | some ix => .ok (h.sched.stats ix)

/-! ## Slots -/

def schedAddSlot (s : Sched) (vmId vcpuId durUs : U32) : Sched :=
  if maxSlots ≤ s.slots.length then s
  else
    let dur := if durUs ≠ 0 then durUs else 1000
    statsSetSlice { s with slots := s.slots ++ [⟨vmId, vcpuId, dur⟩] } vmId dur

/-- The slots of one VM in `sched_init`'s loop. -/
def addVmSlots (s : Sched) (vm : Vm) : Sched :=
  (List.range vm.vcpus.length).foldl
    (fun s v => schedAddSlot s vm.id (BitVec.ofNat 32 v) vm.sched.timeSliceUs) s

def schedInit (h : Hyp) : Hyp :=
  { h with sched := h.vms.foldl addVmSlots ⟨[], 0, statsInit, h.sched.timerUs⟩ }

/-- The slice `sched_set_slice` settles on: between 100 us and 1 s. -/
def clampSlice (durUs : U32) : U32 :=
  if durUs.toNat < 100 then 100 else if 1000000 < durUs.toNat then 1000000 else durUs

def schedSetSlice (h : Hyp) (vmId durUs : U32) : Err × Hyp :=
  let dur := clampSlice durUs
  if h.sched.slots.all fun sl => sl.vmId ≠ vmId then (.notfound, h)
  else
    let slots := h.sched.slots.map fun sl =>
      if sl.vmId = vmId then { sl with durationUs := dur } else sl
    (.ok, { h with sched := statsSetSlice { h.sched with slots := slots } vmId dur })

/-! ## The timer -/

/-- `CNTHP_ENABLE`. -/
def cnthpEnable : U64 := 1

/-- `CNTHP_IMASK`. -/
def cnthpImask : U64 := 2

/-- `CNTHP_ISTATUS`. -/
def cnthpIstatus : U64 := 4

/-- The countdown `timer_set_us` programs, with its floor. -/
def timerTicks (freq : U64) (us : U32) : U64 :=
  let ticks := freq / 1000000 * us.setWidth 64
  if ticks = 0 then 1000 else ticks

/-- `timer_set_us`: masked, given its countdown, and enabled again. -/
def timerSetUs (h : Hyp) (us : U32) : Hyp :=
  let h := { h with cnthp := { h.cnthp with ctl := cnthpImask } }
  let h := { h with cnthp := { h.cnthp with tval := timerTicks h.cntfrq us } }
  let h := { h with cnthp := { h.cnthp with ctl := cnthpEnable } }
  { h with sched := { h.sched with timerUs := us } }

/-- `timer_now_us`, given what the counter and its frequency read. -/
def timerNowUs (cnt freq : U64) : U64 := if freq ≠ 0 then cnt * 1000000 / freq else 0

end Sched

end HypervisorBase
