import HypervisorBase.Dma.Guard
import HypervisorBase.Hypercall.Drivers
import HypervisorBase.Sched.Model
import HypervisorBase.Shmem.Model
/-!
# Hypercall dispatch

The model of `hvc_dispatch` of `guest/hypercall/hvc_handler.c` and of the
PSCI handler it routes to (`arch/arm64/psci.c`), on the registers of the
calling guest. A call that never returns is `none`: the two PSCI calls
that halt the machine, and a mapping that finds the page-table pool
empty. That a `wfi` ends and that a copy takes no abort is up to the board
(`Hypercall.hvcOnBoard`).
-/

namespace HypervisorBase

/-- An error code in a result register: `(u64)(s64)r`. -/
def Err.word (e : Err) : U64 := BitVec.ofInt 64 e.code

/-- A VM state in a result register. -/
def VmState.word : VmState → U64
  | .none => 0
  | .created => 1
  | .ready => 2
  | .running => 3
  | .suspended => 4
  | .stopped => 5

namespace Hypercall

/-! ## PSCI -/

/-- The functions `psci_handler` names, as `PSCI_FEATURES` and its own
`switch` know them. -/
inductive Psci
  | version
  | features
  | migrateInfoType
  | cpuOff
  | cpuOn
  | affinityInfo
  | cpuSuspend
  | systemOff
  | systemReset
  | smcccVersion
  | smcccArchFeatures
  deriving DecidableEq, Repr

def Psci.ofFunc (func : U64) : Option Psci :=
  if func = 0x84000000 then some .version
  else if func = 0x8400000A then some .features
  else if func = 0x84000006 then some .migrateInfoType
  else if func = 0x84000002 then some .cpuOff
  else if func = 0x84000003 ∨ func = 0xC4000003 then some .cpuOn
  else if func = 0x84000004 ∨ func = 0xC4000004 then some .affinityInfo
  else if func = 0x84000001 ∨ func = 0xC4000001 then some .cpuSuspend
  else if func = 0x84000008 then some .systemOff
  else if func = 0x84000009 then some .systemReset
  else if func = 0x80000000 then some .smcccVersion
  else if func = 0x80000001 then some .smcccArchFeatures
  else none

def psciNotSupported : U64 := 0 - 1

/-- `psci_handler`: the result register, or a halt. `CPU_OFF` and
`CPU_SUSPEND` wait for an interrupt at EL2 before they return; this is
their result once it has come (`psciWaits`). -/
def psciHandler (x : Regs) : Option U64 :=
  match Psci.ofFunc (x 0) with
  | none => some psciNotSupported
  | some .version => some 0x10001
  | some .features => some (if (Psci.ofFunc (x 1)).isSome then 0 else psciNotSupported)
  | some .migrateInfoType => some 2
  | some .cpuOff => some 0
  | some .cpuOn => some psciNotSupported
  | some .affinityInfo => some (if x 1 = 0 then 0 else 1)
  | some .cpuSuspend => some 0
  | some .systemOff => none
  | some .systemReset => none
  | some .smcccVersion => some 0x10001
  | some .smcccArchFeatures => some psciNotSupported

/-! ## The calls that need the current VM or one named by id -/

/-- A lifecycle call on the VM with an id. -/
def onVm (f : Hyp → ℕ → Err × Hyp) (h : Hyp) (vmId : U32) : Err × Hyp :=
  match vmById h vmId with
  | none => (.notfound, h)
  | some i => f h i

def hvcVmStop (h : Hyp) (vmId : U32) : Err × Hyp := onVm vmStop h vmId

def hvcVmSuspend (h : Hyp) (vmId : U32) : Err × Hyp := onVm vmSuspend h vmId

def hvcVmResume (h : Hyp) (vmId : U32) : Err × Hyp := onVm vmResume h vmId

/-- The statistics registers of `HVC_SCHED_GET_STATS`. -/
def statsRegs (x : Regs) (st : VmStats) : Regs :=
  let x := Function.update x 0 (st.totalUs &&& 0xFFFFFFFF)
  let x := Function.update x 1 (st.totalUs >>> 32)
  let x := Function.update x 2 (st.sliceCount.setWidth 64)
  let x := Function.update x 3 (st.preemptCount.setWidth 64)
  let x := Function.update x 4 (st.wfiCount.setWidth 64)
  Function.update x 5 (st.sliceDurUs.setWidth 64)

/-- `HVC_PERF_QUERY`: the calling VM's share in thousandths. -/
def perfQuery (h : Hyp) : U64 :=
  match Sched.schedGetStats h (currentVmId h) with
  | .error _ => 0
  | .ok st =>
    let all := (List.finRange maxVms).foldl (fun t ix => t + (h.sched.stats ix).totalUs) (0 : U64)
    if st.totalUs = 0 ∨ all = 0 then 0
    else ((st.totalUs * 1000 / all).setWidth 32 : U32).setWidth 64

section Tables

variable [P : PtPool]

/-- `hvc_dispatch` past the PSCI test. -/
def hvcCall (h : Hyp) (x : Regs) : Option (Regs × Hyp) :=
  let ret (v : U64) (h : Hyp) : Option (Regs × Hyp) := some (Function.update x 0 v, h)
  let err (r : Err × Hyp) : Option (Regs × Hyp) := ret r.1.word r.2
  let id : U32 := (x 0).setWidth 32
  let a1 : U32 := (x 1).setWidth 32
  let a2 : U32 := (x 2).setWidth 32
  if id = 0x0001 then ret ((currentVmId h).setWidth 64) h
  else if id = 0x0002 then
    ret (((vmAt h a1).map fun vm => vm.state.word).getD Err.notfound.word) h
  else if id = 0x0003 then err (hvcVmStop h a1)
  else if id = 0x0004 then err (hvcVmSuspend h a1)
  else if id = 0x0005 then err (hvcVmResume h a1)
  else if id = 0x0010 then (Shmem.shmemMap h a1 a2 (x 3) (x 4)).bind err
  else if id = 0x0011 then err (Shmem.shmemUnmap h (x 1) (x 2))
  else if id = 0x0020 then
    let (e, h, _) := Ipc.ipcSend h a1 (x 2) (x 3)
    ret e.word h
  else if id = 0x0021 then
    let (e, len, h, _) := Ipc.ipcRecv h (x 1) (x 2)
    ret (if e = .ok then len else e.word) h
  else if id = 0x0022 then err (Ipc.ipcNotify h a1)
  else if id = 0x0030 then err (Sched.schedSetSlice h a1 a2)
  else if id = 0x0031 then
    match Sched.schedGetStats h (if a1 = 0 then currentVmId h else a1) with
    | .ok st => some (statsRegs x st, h)
    | .error e => ret e.word h
  else if id = 0x0032 then ret 0 (Sched.timerSetUs h 1)
  else if id = 0x00F1 then ret (perfQuery h) h
  else if id = 0x0050 then ret ((obdPid h.fuel a1).setWidth 64) h
  else if id = 0x0051 then some (hvcObdReadAll h x, h)
  else if id = 0x0068 then (Dma.hvcDmaXfer h (x 1) (x 2)).bind err
  else if id = 0x0060 then some (hvcFuelUpdate h x)
  else if id = 0x0061 then some (hvcObdReadAll h x, h)
  else if id = 0x0070 then ret 0 (hvcAudioStatus h x)
  else if id = 0x0071 then ret 0 (hvcAudioPlay h)
  else if id = 0x0072 then ret 0 (hvcAudioStop h)
  else if id = 0x00F0 then ret 0 h
  else ret Err.unsupported.word h

/-- **`hvc_dispatch`**: the registers and the state after a hypercall. -/
def hvcDispatch (h : Hyp) (x : Regs) : Option (Regs × Hyp) :=
  if x 0 &&& 0x80000000 ≠ 0 ∧ ((x 0 >>> 24) &&& 0x3F).toNat ≤ 6 then
    (psciHandler x).map fun v => (Function.update x 0 v, h)
  else hvcCall h x

/-- The hypercall stores nothing into the hypervisor's own memory: what is
said of any hypercall is said of those. -/
def StoresOutside (h : Hyp) (x : Regs) : Prop :=
  (x 0).setWidth 32 = (0x21 : U32) → Ipc.StoresOutside h (x 1) (x 2)

/-- A hypercall as a step of the hypervisor: the guest's registers are its
label. -/
def hvcStep (h : Hyp) (x : Regs) : Option Hyp := (hvcDispatch h x).map Prod.snd

end Tables

end Hypercall

end HypervisorBase
