import HypervisorBase.State
/-!
# Messages between VMs

The model of `guest/ipc/ipc.c`, with the doorbell's path through the list
registers of `drivers/gic/gicv3.c`. A message is bounced through a queue
of the hypervisor, and the copies in and out of guest memory go to the
address that the first region's offset gives; the functions return the
physical addresses they touch beside their result. An address that the
hypervisor has not mapped, or may not write, ends the call in an abort at
EL2, which is left to the model of a whole hypercall.
-/

namespace HypervisorBase

/-- The VM of `g_current_vcpu[0]`. -/
def currentVm (h : Hyp) : Option Vm :=
  h.current.bind fun c => (h.vcpus[c]?).bind fun vc => h.vms[vc.vm]?

/-- `current_vm_id`. -/
def currentVmId (h : Hyp) : U32 := ((currentVm h).map Vm.id).getD 0

namespace Ipc

def ipcMsgMax : ℕ := 256

def ipcDepth : ℕ := 8

def ipcDoorbellVirq : U32 := 31

/-- `ipc_init`. -/
def ipcInit (h : Hyp) : Hyp :=
  { h with queues := fun _ =>
      { slots := fun _ => ⟨fun _ => 0, 0, 0⟩, head := 0, tail := 0, count := 0 } }

/-- The offset both copies add to a guest address: that of the first
region, and zero without one. -/
def paOffset (vm : Option Vm) : U64 :=
  match vm.bind fun vm => vm.mem[0]? with
  | none => 0
  | some r => r.paBase - r.ipaBase

/-- The addresses of `n` bytes from `a` on. -/
def span (a : U64) (n : ℕ) : List U64 := (List.range n).map fun i => a + BitVec.ofNat 64 i

/-- A message slot after `memcpy` has filled its first `len` bytes. -/
def fillMsg (m : IpcMsg) (phys : U64 → U8) (src : U64) (len : U64) (srcVmId : U32) : IpcMsg where
  data := fun i => if i < len.toNat then phys (src + BitVec.ofNat 64 i) else m.data i
  len := len.setWidth 32
  srcVmId := srcVmId

/-- `ipc_send`, with the addresses it reads. -/
def ipcSend (h : Hyp) (dstVmId : U32) (bufIpa len : U64) : Err × Hyp × List U64 :=
  if dstVmId.toNat = 0 ∨ maxVms < dstVmId.toNat then (.inval, h, [])
  else if len.toNat = 0 ∨ ipcMsgMax < len.toNat then (.inval, h, [])
  else
    let q := h.queues (dstVmId - 1)
    if ipcDepth ≤ q.count.toNat then (.busy, h, [])
    else
      let srcVmId := currentVmId h
      let src := bufIpa + paOffset (vmAt h srcVmId)
      let msg := fillMsg (q.slots q.tail.toNat) h.phys src len srcVmId
      let q := { q with
        slots := Function.update q.slots q.tail.toNat msg
        tail := (q.tail + 1) % 8
        count := q.count + 1 }
      (.ok, { h with queues := Function.update h.queues (dstVmId - 1) q }, span src len.toNat)

/-- The bytes `ipc_recv` copies: the message, cut at `max_len`. -/
def copyLen (msg : IpcMsg) (maxLen : U64) : U64 :=
  if msg.len.setWidth 64 < maxLen then msg.len.setWidth 64 else maxLen

/-- `memcpy` of `n` bytes to `dst`. -/
def copyOut (phys : U64 → U8) (dst : U64) (data : ℕ → U8) (n : ℕ) : U64 → U8 :=
  fun a => if (a - dst).toNat < n then data (a - dst).toNat else phys a

/-- `ipc_recv`, with `*out_len` and the addresses it writes. -/
def ipcRecv (h : Hyp) (bufIpa maxLen : U64) : Err × U64 × Hyp × List U64 :=
  match currentVm h with
  | none => (.inval, 0, h, [])
  | some vm =>
    let q := h.queues (vm.id - 1)
    if q.count = 0 then (.ok, 0, h, [])
    else
      let msg := q.slots q.head.toNat
      let n := copyLen msg maxLen
      let dst := bufIpa + paOffset (some vm)
      let h := { h with phys := copyOut h.phys dst msg.data n.toNat }
      let q := { q with head := (q.head + 1) % 8, count := q.count - 1 }
      (.ok, n, { h with queues := Function.update h.queues (vm.id - 1) q }, span dst n.toNat)

/-! ## What the copies touch -/

/-- The bytes a send would have to read: those of the message, if the
arguments and the queue allow one. -/
def sendDemand (h : Hyp) (dstVmId : U32) (len : U64) : ℕ :=
  if dstVmId.toNat = 0 ∨ maxVms < dstVmId.toNat ∨ ipcMsgMax < len.toNat ∨
    ipcDepth ≤ (h.queues (dstVmId - 1)).count.toNat then 0 else len.toNat

/-- The bytes a receive would have to write: those of the message that
waits, up to the caller's limit. -/
def recvDemand (h : Hyp) (maxLen : U64) : ℕ :=
  match currentVm h with
  | none => 0
  | some vm =>
    let q := h.queues (vm.id - 1)
    if q.count = 0 then 0 else (copyLen (q.slots q.head.toNat) maxLen).toNat

/-- Where a send reads. -/
def sendSource (h : Hyp) (bufIpa : U64) : U64 := bufIpa + paOffset (vmAt h (currentVmId h))

/-- Where a receive writes. -/
def recvTarget (h : Hyp) (bufIpa : U64) : U64 := bufIpa + paOffset (currentVm h)

/-- `HYP_LOAD_ADDR`, where the hypervisor's own memory begins: its image,
its variables, its stacks and its pools. -/
def hypLoadAddr : ℕ := 0x40000000

/-- `LINUX_VM_PA`, the first address behind it. -/
def linuxVmPa : ℕ := 0x41000000

/-- **A receive that writes nothing into the hypervisor's own memory.** The
state has the hypervisor's variables as fields of their own, apart from
`phys`. So a receive that is aimed at them, which nothing in `ipc_recv`
prevents, leaves them as they are here and not in the program. What is said
of any hypercall is said under this assumption. -/
def StoresOutside (h : Hyp) (bufIpa maxLen : U64) : Prop :=
  ∀ i < recvDemand h maxLen, (recvTarget h bufIpa + BitVec.ofNat 64 i).toNat < hypLoadAddr ∨
    linuxVmPa ≤ (recvTarget h bufIpa + BitVec.ofNat 64 i).toNat

/-! ## The doorbell -/

def vgicMaxIrqs : ℕ := 256

def vgicIsEnabled (d : VgicDist) (irq : U32) : Bool :=
  if !d.initialised || vgicMaxIrqs ≤ irq.toNat then true
  else (d.enable (irq.toNat / 32)).getLsbD (irq.toNat % 32)

def vgicGetPriority (d : VgicDist) (irq : U32) : U8 :=
  if !d.initialised || vgicMaxIrqs ≤ irq.toNat then 0xA0 else d.priority irq.toNat

def vgicIsMasked (c : VgicCpu) (prio : U8) : Bool := c.iccPmr ≤ prio

/-- A list register with a pending group 1 interrupt. -/
def lrValue (virq : U32) (prio : U8) : U64 :=
  virq.setWidth 64 ||| (prio.setWidth 64 <<< 48) ||| (1 <<< 60) ||| (1 <<< 62)

/-- The first free list register among `n`, or register 0. -/
def freeLr (lr : ℕ → U64) (n : ℕ) : ℕ :=
  ((List.range n).find? fun i => lr i >>> 62 = 0).getD 0

/-- `gic_inject_virq_lr`: into the list registers of whatever vCPU is
current, subject to that vCPU's distributor and mask. -/
def gicInjectVirqLr (h : Hyp) (virq : U32) (prio : U8) : Hyp :=
  let write (prio : U8) : Hyp :=
    { h with lr := Function.update h.lr (freeLr h.lr h.numLrs) (lrValue virq prio) }
  match h.current.bind fun c => h.vcpus[c]? with
  | none => write prio
  | some vc =>
    match h.vms[vc.vm]? with
    | none => write prio
    | some vm =>
      if !vgicIsEnabled vm.vgic virq then h
      else if vgicIsMasked vc.vgicCpu (vgicGetPriority vm.vgic virq) then h
      else write (vgicGetPriority vm.vgic virq)

def ipcNotify (h : Hyp) (dstVmId : U32) : Err × Hyp :=
  if dstVmId.toNat = 0 ∨ maxVms < dstVmId.toNat then (.inval, h)
  else
    match vmAt h dstVmId with
    | none => (.notfound, h)
    | some dst =>
      if dst.state ≠ .running then (.notfound, h)
      else (.ok, gicInjectVirqLr h ipcDoorbellVirq 0xA0)

end Ipc

end HypervisorBase
