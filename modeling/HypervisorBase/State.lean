import Mathlib.Data.List.GetD
import HypervisorBase.Stage2.Model
/-!
# The hypervisor's data

Every C module keeps its state in file-scope variables. Each of these is
a record here, with the fields in the source's order, and `Hyp` holds them
together with the physical memory and the readings the platform timer
will return. A `vm_t *` is an index into `_vms` and a `vcpu_t *` an index
into the pool of `vm_finalize`; names are only logged and are left out.
-/

namespace HypervisorBase

/-- `MAX_VMS`. -/
def maxVms : ℕ := 4

/-! ## VMs and virtual CPUs -/

inductive VmState
  | none
  | created
  | ready
  | running
  | suspended
  | stopped
  deriving DecidableEq, Repr

inductive VmType
  | linux
  | rtos
  | android
  deriving DecidableEq, Repr

inductive VcpuState
  | idle
  | ready
  | running
  | blocked
  | stopped
  deriving DecidableEq, Repr

structure MemRegion where
  paBase : U64
  ipaBase : U64
  size : U64
  flags : U32
  deriving DecidableEq, Repr

def memR : U32 := 1

def memW : U32 := 2

def memX : U32 := 4

def memIo : U32 := 8

structure DevAssign where
  mmioBase : U64
  mmioSize : U64
  irq : U32
  passthru : Bool
  deriving DecidableEq, Repr

structure SchedCfg where
  timeSliceUs : U32
  priority : U32
  realtime : Bool
  deriving DecidableEq, Repr

/-- `vgic_dist_t`: what the injection path reads of a virtual
distributor. -/
structure VgicDist where
  priority : ℕ → U8
  enable : ℕ → U32
  initialised : Bool

structure VgicCpu where
  iccPmr : U8
  iccBpr0 : U8
  iccGrpen1 : U32
  deriving DecidableEq, Repr

/-- `pmu_ctx_t`: a guest's view of the performance monitor. -/
structure PmuCtx where
  pmcrEl0 : U64
  pmcntensetEl0 : U64
  pmccntrEl0 : U64
  pmccfiltrEl0 : U64
  pmevcntr : Fin 4 → U64
  pmevtyper : Fin 4 → U64
  pmintensetEl1 : U64
  pmovsrEl0 : U64
  enabled : Bool

/-- `vm_t`. The lists are the used parts of its arrays, so `num_vcpus`,
`num_mem` and `num_dev` are their lengths. -/
structure Vm where
  id : U32
  state : VmState
  type : VmType
  vcpus : List ℕ
  mem : List MemRegion
  dev : List DevAssign
  s2Pgd : U64
  vttbr : U64
  entryIpa : U64
  dtbIpa : U64
  sched : SchedCfg
  vgic : VgicDist

structure GuestRegs where
  x : ℕ → U64
  elrEl2 : U64
  spsrEl2 : U64

/-- `vcpu_t`. Of its saved system registers this is the one the interrupt
paths meet. -/
structure Vcpu where
  regs : GuestRegs
  ichLr0 : U64
  vttbrEl2 : U64
  vcpuId : U32
  state : VcpuState
  /-- The index of the VM it belongs to. -/
  vm : ℕ
  resetPc : U64
  resetX0 : U64
  pmu : PmuCtx
  vgicCpu : VgicCpu

/-! ## Power, shared memory and IPC -/

inductive PowerMode
  | on
  | gated
  deriving DecidableEq, Repr

/-- The statics of `power.c`, with the interrupt enables it drives in the
distributor. -/
structure Power where
  state : Fin maxVms → PowerMode
  gatedDevs : List (U64 × Bool)
  irqEnabled : U32 → Bool

structure ShmRegion where
  pa : U64
  sz : U64
  src : U32
  dst : U32
  ipa : U64
  active : Bool
  deriving DecidableEq, Repr

/-- The statics of `shmem.c`; `_nr` is the length of the list. -/
structure Shmem where
  regions : List ShmRegion
  cursor : U64

structure IpcMsg where
  data : ℕ → U8
  len : U32
  srcVmId : U32

structure IpcQueue where
  slots : ℕ → IpcMsg
  head : U32
  tail : U32
  count : U32

/-! ## Trust, fault detection, intrusion detection and failover -/

inductive TrustLevel
  | unknown
  | trusted
  | degraded
  | quarantine
  | revoked
  deriving DecidableEq, Repr

/-- The order of the enumeration: higher is less trusted. -/
def TrustLevel.rank : TrustLevel → ℕ
  | .unknown => 0
  | .trusted => 1
  | .degraded => 2
  | .quarantine => 3
  | .revoked => 4

structure TrustRecord where
  level : TrustLevel
  faultCount : U32
  lastFaultType : U32
  lastFaultDetail : U64
  downgradeTime : U64
  lastFaultUs : U64
  deriving DecidableEq, Repr

structure Trust where
  initialized : Bool
  vm : Fin maxVms → TrustRecord
  totalFaults : U32
  quarantineCount : U32

structure Fdetect where
  initialized : Bool
  memFaults : U32
  dmaViolations : U32
  irqUnrouted : U32
  total : U32
  deriving DecidableEq, Repr

inductive IdsEvent
  | none
  | fault
  | storm
  | rapid
  | repeat
  | trustDrop
  | poll
  | enforce
  deriving DecidableEq, Repr

inductive IdsSeverity
  | info
  | warn
  | alert
  deriving DecidableEq, Repr

structure IdsRecord where
  timeUs : U64
  vmId : U32
  type : IdsEvent
  severity : IdsSeverity
  faultType : U32
  detail : U64
  trustAt : TrustLevel
  deriving DecidableEq, Repr

structure IdsVmMon where
  windowStartUs : U64
  windowFaults : U32
  firstFaultUs : U64
  lastFaultType : U32
  repeatRun : U32
  lastSeenLevel : TrustLevel
  deriving DecidableEq, Repr

structure Ids where
  initialized : Bool
  log : ℕ → IdsRecord
  logHead : U32
  logCount : U32
  mon : Fin maxVms → IdsVmMon
  anomalies : U32
  alerts : U32
  enforcements : U32
  lastPollUs : U64

structure BackupDesc where
  registered : Bool
  backupPa : U64
  livePa : U64
  backupSize : U64
  entryIpa : U64
  critical : Bool
  failoverCount : U32
  deriving DecidableEq, Repr

structure Failover where
  initialized : Bool
  backup : Fin maxVms → BackupDesc

/-! ## Scheduler and virtual drivers -/

structure SchedSlot where
  vmId : U32
  vcpuId : U32
  durationUs : U32
  deriving DecidableEq, Repr

structure VmStats where
  totalUs : U64
  sliceCount : U32
  preemptCount : U32
  wfiCount : U32
  sliceDurUs : U32
  vmId : U32
  deriving DecidableEq, Repr

/-- The statics of `sched.c` and `sched_stats.c`, and the interval last
given to `timer_set_us`. -/
structure Sched where
  slots : List SchedSlot
  cur : ℕ
  stats : Fin maxVms → VmStats
  timerUs : U32

structure FuelState where
  rpm : U32
  injectionUs : U32
  coolantC : U32
  throttlePct : U32
  mapKpa : U32
  lambdaX100 : U32
  cylStatus : U32
  injCount : U32
  faultCode : U32
  seq : U32
  valid : Bool
  deriving DecidableEq, Repr

structure AudioState where
  framesPlayed : U32
  framesDropped : U32
  latencyMs : U32
  playing : Bool
  valid : Bool
  deriving DecidableEq, Repr

/-! ## Devices and their registers -/

/-- The EL2 physical timer: control and countdown, as last written. -/
structure Cnthp where
  ctl : U64
  tval : U64
  deriving DecidableEq, Repr

/-- The registers of the performance monitor. -/
structure PmuRegs where
  mdcrEl2 : U64
  pmcrEl0 : U64
  pmcntensetEl0 : U64
  pmccntrEl0 : U64
  pmovsrEl0 : U64
  pmevcntr : Fin 4 → U64
  pmevtyper : Fin 4 → U64

/-- `route_t`. -/
structure Route where
  phys : U32
  vmId : U32
  virq : U32
  active : Bool
  deriving DecidableEq, Repr

/-- `mmio_fn`: the emulation function the repository registers, or that of
any other device, by what it leaves in `*val` and in memory. -/
inductive MmioFn
  | pcieEcam
  | device (f : U64 → Bool → U64 → (U64 → U8) → U64 × (U64 → U8))

/-- `mmio_reg_t`. -/
structure MmioReg where
  base : U64
  sz : U64
  fn : Option MmioFn
  active : Bool
  ownerVmId : U32
  violationCnt : U32

/-- The statics of `mmio_trap.c`; `_nr` is the length of the list. -/
structure Mmio where
  regs : List MmioReg
  currentVmId : U32

/-- `pcie_bdf_t`. -/
structure PcieBdf where
  bus : U8
  dev : U8
  fn : U8
  vmId : U32
  deriving DecidableEq, Repr

/-! ## The whole state -/

/-- **The state of the hypervisor.** -/
structure Hyp where
  s2 : S2State
  /-- `_vms[0 .. _nvm)`. -/
  vms : List Vm
  /-- The used part of `_vcpu_pool`; `_vcpu_idx` is its length. -/
  vcpus : List Vcpu
  /-- `g_current_vcpu[0]`. -/
  current : Option ℕ
  power : Power
  shmem : Shmem
  /-- `_queues`, by VM id minus one. -/
  queues : U32 → IpcQueue
  trust : Trust
  fdetect : Fdetect
  ids : Ids
  failover : Failover
  sched : Sched
  fuel : FuelState
  audio : AudioState
  /-- The list registers and their number. -/
  lr : ℕ → U64
  numLrs : ℕ
  /-- `VTTBR_EL2`. -/
  vttbrEl2 : U64
  cnthp : Cnthp
  /-- `CNTFRQ_EL0`. -/
  cntfrq : U64
  /-- `CNTV_CTL_EL0`. -/
  cntvCtl : U64
  pmu : PmuRegs
  /-- `g_sched_stopped`. -/
  schedStopped : Bool
  /-- `ids_poll_ctr` of `do_switch`. -/
  idsPollCtr : U32
  /-- `_routes[0 .. _nr)`. -/
  routes : List Route
  mmio : Mmio
  /-- `_assignments[0 .. _num_assignments)`. -/
  pcie : List PcieBdf
  /-- Physical memory outside the hypervisor's own variables. That no store
  of a guest reaches them is an assumption (`Ipc.StoresOutside`). -/
  phys : U64 → U8
  /-- The values the next calls of `timer_now_us` return, in order. -/
  timer : ℕ → U64

/-- `SHMEM_POOL_PA`. -/
def shmemPoolPa : U64 := 0xA0000000

/-- `SHMEM_POOL_SZ`. -/
def shmemPoolSz : U64 := 0x20000000

/-- The variables as the image initialises them, over arbitrary memory and
timer readings. -/
def Hyp.start (mem : U64 → U64) (phys : U64 → U8) (timer : ℕ → U64) : Hyp where
  s2 := { mem := mem, ptIdx := 0, vmid := 1 }
  vms := []
  vcpus := []
  current := none
  power := { state := fun _ => .on, gatedDevs := [], irqEnabled := fun _ => false }
  shmem := { regions := [], cursor := shmemPoolPa }
  queues := fun _ => { slots := fun _ => ⟨fun _ => 0, 0, 0⟩, head := 0, tail := 0, count := 0 }
  trust := { initialized := false, vm := fun _ => ⟨.unknown, 0, 0, 0, 0, 0⟩,
             totalFaults := 0, quarantineCount := 0 }
  fdetect := ⟨false, 0, 0, 0, 0⟩
  ids := { initialized := false, log := fun _ => ⟨0, 0, .none, .info, 0, 0, .unknown⟩,
           logHead := 0, logCount := 0, mon := fun _ => ⟨0, 0, 0, 0, 0, .unknown⟩,
           anomalies := 0, alerts := 0, enforcements := 0, lastPollUs := 0 }
  failover := { initialized := false, backup := fun _ => ⟨false, 0, 0, 0, 0, false, 0⟩ }
  sched := { slots := [], cur := 0, stats := fun _ => ⟨0, 0, 0, 0, 0, 0⟩, timerUs := 0 }
  fuel := ⟨0, 0, 0, 0, 0, 0, 0, 0, 0, 0, false⟩
  audio := ⟨0, 0, 0, false, false⟩
  lr := fun _ => 0
  numLrs := 2
  vttbrEl2 := 0
  cnthp := ⟨0, 0⟩
  cntfrq := 62500000
  cntvCtl := 0
  pmu := ⟨0, 0, 0, 0, 0, fun _ => 0, fun _ => 0⟩
  schedStopped := false
  idsPollCtr := 0
  routes := []
  mmio := ⟨[], 0⟩
  pcie := []
  phys := phys
  timer := timer

/-- The variables at the start over zeroed memory, with a timer that stands
still. -/
def Hyp.blank : Hyp := Hyp.start (fun _ => 0) (fun _ => 0) fun _ => 0

/-- `timer_now_us`, as a read of the next value. -/
def timerNowUs (h : Hyp) : U64 × Hyp := (h.timer 0, { h with timer := fun n => h.timer (n + 1) })

/-- `_idx`: the index of a VM's record in a per-VM table. -/
def idx (vmId : U32) : Option (Fin maxVms) :=
  if h : vmId.toNat = 0 ∨ maxVms < vmId.toNat then none else some ⟨vmId.toNat - 1, by omega⟩

/-- `vm_by_id`: the first VM with that id that has not been emptied. -/
def vmById (h : Hyp) (id : U32) : Option ℕ :=
  h.vms.findIdx? fun vm => vm.id = id && vm.state != .none

/-- What `vm_by_id` points to. -/
def vmAt (h : Hyp) (id : U32) : Option Vm := (vmById h id).bind fun i => h.vms[i]?

/-- Replaces the VM at an index. -/
def Hyp.setVm (h : Hyp) (i : ℕ) (vm : Vm) : Hyp := { h with vms := h.vms.set i vm }

/-- The result of an emulated read in the guest's registers: register 31 is
the zero register and is not written. -/
def putReg (x : ℕ → U64) (rt : ℕ) (v : U64) : ℕ → U64 :=
  if rt < 31 then Function.update x rt v else x

/-! ## Bytes of memory -/

/-- The `n` bytes of memory from an address on. -/
def bytesAt (mem : U64 → U8) (p : U64) (n : ℕ) : List U8 :=
  (List.range n).map fun i => mem (p + BitVec.ofNat 64 i)

/-- `memcpy` of bytes to an address. -/
def putBytes (mem : U64 → U8) (dst : U64) (xs : List U8) : U64 → U8 :=
  fun a => if (a - dst).toNat < xs.length then xs.getD (a - dst).toNat 0 else mem a

theorem bytesAt_add (mem : U64 → U8) (p : U64) (n k : ℕ) :
    bytesAt mem p (n + k) = bytesAt mem p n ++ bytesAt mem (p + BitVec.ofNat 64 n) k := by
  rw [bytesAt, bytesAt, bytesAt, List.range_add, List.map_append, List.map_map]
  congr 1
  refine List.map_congr_left fun i _ => ?_
  rw [Function.comp_apply, BitVec.ofNat_add, BitVec.add_assoc]

/-- Bytes are read back as they were stored. -/
theorem bytesAt_putBytes (mem : U64 → U8) (dst : U64) {xs : List U8} (h : xs.length < 2 ^ 64) :
    bytesAt (putBytes mem dst xs) dst xs.length = xs := by
  refine List.ext_getElem (by simp [bytesAt]) fun i hi hi' => ?_
  have hoff : (dst + BitVec.ofNat 64 i - dst).toNat = i := by
    rw [BitVec.add_comm, BitVec.add_sub_cancel, BitVec.toNat_ofNat]
    omega
  simp only [bytesAt, putBytes, List.getElem_map, List.getElem_range, hoff, if_pos hi']
  rw [List.getD_eq_getElem _ _ hi']

theorem putBytes_of_le {mem : U64 → U8} {dst a : U64} {xs : List U8}
    (h : xs.length ≤ (a - dst).toNat) : putBytes mem dst xs a = mem a := if_neg (by omega)

end HypervisorBase
