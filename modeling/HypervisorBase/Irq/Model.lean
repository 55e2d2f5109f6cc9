import HypervisorBase.Ipc.Model
import HypervisorBase.Sched.Switch
/-!
# Interrupts

The model of `vre/irq/irq_router.c`, of the interrupt handler of
`drivers/gic/gicv3.c` and of `vre/irq/vgic.c`: the trapped accesses to
the virtual CPU interface and the registers of the virtual distributor.
What the hardware presents is an input: whether the EL2 timer's countdown
has run out, and the value read from `ICC_IAR1_EL1`.
-/

namespace HypervisorBase

namespace Irq

/-! ## Routes -/

def maxIrqRoutes : ℕ := 256

/-- `irq_router_init`. -/
def irqRouterInit (h : Hyp) : Hyp := { h with routes := [] }

/-- `irq_route_add`. -/
def irqRouteAdd (h : Hyp) (phys vmId virq : U32) : Err × Hyp :=
  if maxIrqRoutes ≤ h.routes.length then (.nomem, h)
  else (.ok, { h with routes := h.routes ++ [⟨phys, vmId, virq, true⟩] })

/-- `irq_route_remove`: the first entry of the interrupt, active or not. -/
def irqRouteRemove (h : Hyp) (phys : U32) : Err × Hyp :=
  match h.routes.findIdx? fun r => r.phys = phys with
  | none => (.notfound, h)
  | some i => (.ok, { h with routes := h.routes.modify i fun r => { r with active := false } })

/-- The route an interrupt takes: the first active one. -/
def routeOf (h : Hyp) (phys : U32) : Option Route :=
  h.routes.find? fun r => r.active && r.phys = phys

/-- `irq_route_to_vm`. The VM of the route is only logged. -/
def irqRouteToVm (h : Hyp) (phys : U32) : Hyp :=
  match routeOf h phys with
  | some r => Ipc.gicInjectVirqLr h r.virq 0x80
  | none => Vse.fdetectIrqUnrouted h

/-! ## The interrupt handler -/

/-- `gic_inject_virq`: always list register 0. -/
def gicInjectVirq (h : Hyp) (virq : U32) (prio : U8) : Hyp :=
  { h with lr := Function.update h.lr 0 (Ipc.lrValue virq prio) }

/-- `gic_enable_irq` and `gic_disable_irq`. -/
def gicSetIrq (h : Hyp) (irq : U32) (on : Bool) : Hyp :=
  { h with power := { h.power with irqEnabled := Function.update h.power.irqEnabled irq on } }

/-- What a read of `CNTHP_CTL_EL2` returns. -/
def readCnthpCtl (h : Hyp) (expired : Bool) : U64 :=
  h.cnthp.ctl ||| if expired then Sched.cnthpIstatus else 0

/-- The first part of `gic_handle_irq`: the EL2 timer. -/
def handleTimer (h : Hyp) (expired : Bool) : Hyp :=
  let ctl := readCnthpCtl h expired
  if ctl &&& Sched.cnthpEnable ≠ 0 ∧ ctl &&& Sched.cnthpIstatus ≠ 0 then
    let h := if !h.schedStopped then Sched.schedOnTimer h else h
    -- the scheduler has just armed the timer; this write disables it again
    { h with cnthp := { h.cnthp with ctl := Sched.cnthpImask } }
  else h

/-- The second part: whatever `ICC_IAR1_EL1` acknowledges. -/
def handleAcked (h : Hyp) (iar : U64) : Hyp :=
  let id : U32 := (iar &&& 0xFFFFFF).setWidth 32
  if 1020 ≤ id.toNat then h
  else if id = 26 then h
  else if id = 27 then
    gicInjectVirq { h with cntvCtl := Sched.cnthpEnable ||| Sched.cnthpImask } id 0x80
  else if id = 30 then gicInjectVirq h id 0x80
  else if id = 33 then gicSetIrq (Ipc.gicInjectVirqLr h 33 0x80) 33 false
  else irqRouteToVm h id

/-- **`gic_handle_irq`.** -/
def gicHandleIrq (h : Hyp) (expired : Bool) (iar : U64) : Hyp := handleAcked (handleTimer h expired) iar

/-! ## The virtual CPU interface -/

/-- The registers `vgic_icc_trap` knows: what a read returns and what a
write leaves. -/
def iccEmulated (cpu : VgicCpu) (enc : U32) (val : U64) : Option (U64 × VgicCpu) :=
  if enc = sysRegEnc 3 0 4 6 0 then
    some (cpu.iccPmr.setWidth 64, { cpu with iccPmr := val.setWidth 8 })
  else if enc = sysRegEnc 3 0 12 8 3 then
    some (cpu.iccBpr0.setWidth 64, { cpu with iccBpr0 := (val &&& 0x7).setWidth 8 })
  else if enc = sysRegEnc 3 0 12 12 7 then
    some (cpu.iccGrpen1.setWidth 64, { cpu with iccGrpen1 := (val &&& 1).setWidth 32 })
  else none

/-- `vgic_icc_trap`; without a result it is left to the performance
monitor. -/
def vgicIccTrap (cpu : VgicCpu) (x : ℕ → U64) (esr : U64) : Option (VgicCpu × (ℕ → U64)) :=
  let a := sysAccess esr
  (iccEmulated cpu a.enc (sysOperand x a.rt)).map fun (v, cpu') =>
    if a.isRead then (cpu, putReg x a.rt v) else (cpu', x)

/-- `vgic_cpu_init`. The creation of a vCPU does not call it. -/
def vgicCpuInit : VgicCpu := { iccPmr := 0xFF, iccBpr0 := 0x03, iccGrpen1 := 0x01 }

/-! ## The virtual distributor -/

/-- `VGIC_NUM_WORDS`. -/
def vgicNumWords : ℕ := 8

/-- `vgic_dist_init`. The bits of pending interrupts are never read. -/
def vgicDistInit : VgicDist where
  priority := fun irq => if irq < Ipc.vgicMaxIrqs then 0xA0 else 0
  enable := fun word => if word = 0 then 0x0000FFFF else 0
  initialised := true

def gicdOffIsenablerBase : ℕ := 0x100

def gicdOffIsenablerEnd : ℕ := 0x17C

def gicdOffIcenablerBase : ℕ := 0x180

def gicdOffIcenablerEnd : ℕ := 0x1FC

def gicdOffIpriorityBase : ℕ := 0x400

def gicdOffIpriorityEnd : ℕ := 0x4FC

/-- One byte of a write to `GICD_IPRIORITYR`. -/
def putPriority (val : U32) (baseIrq : ℕ) (d : VgicDist) (b : ℕ) : VgicDist :=
  if baseIrq + b < Ipc.vgicMaxIrqs then
    { d with priority := Function.update d.priority (baseIrq + b) ((val >>> (b * 8)).setWidth 8) }
  else d

/-- `vgic_dist_write`. -/
def vgicDistWrite (d : VgicDist) (offset val : U32) : Err × VgicDist :=
  let off := offset.toNat
  if !d.initialised then (.inval, d)
  else if gicdOffIsenablerBase ≤ off ∧ off ≤ gicdOffIsenablerEnd then
    let word := (off - gicdOffIsenablerBase) / 4
    (.ok, if word < vgicNumWords then
        { d with enable := Function.update d.enable word (d.enable word ||| val) }
      else d)
  else if gicdOffIcenablerBase ≤ off ∧ off ≤ gicdOffIcenablerEnd then
    let word := (off - gicdOffIcenablerBase) / 4
    (.ok, if word < vgicNumWords then
        let d := { d with enable := Function.update d.enable word (d.enable word &&& ~~~val) }
        { d with enable := Function.update d.enable 0 (d.enable 0 ||| 0x0000FFFF) }
      else d)
  else if gicdOffIpriorityBase ≤ off ∧ off ≤ gicdOffIpriorityEnd then
    (.ok, (List.range 4).foldl (putPriority val (off - gicdOffIpriorityBase)) d)
  else (.ok, d)

/-- One byte of a read of `GICD_IPRIORITYR`. -/
def getPriority (d : VgicDist) (baseIrq : ℕ) (val : U32) (b : ℕ) : U32 :=
  if baseIrq + b < Ipc.vgicMaxIrqs then
    val ||| ((d.priority (baseIrq + b)).setWidth 32 <<< (b * 8))
  else val

/-- What `vgic_dist_read` leaves in `*val`; it always returns `E_OK`. -/
def vgicDistRead (d : VgicDist) (offset : U32) : U32 :=
  let off := offset.toNat
  if !d.initialised then 0
  else if gicdOffIsenablerBase ≤ off ∧ off ≤ gicdOffIsenablerEnd then
    let word := (off - gicdOffIsenablerBase) / 4
    if word < vgicNumWords then d.enable word else 0
  else if gicdOffIcenablerBase ≤ off ∧ off ≤ gicdOffIcenablerEnd then
    let word := (off - gicdOffIcenablerBase) / 4
    if word < vgicNumWords then d.enable word else 0
  else if gicdOffIpriorityBase ≤ off ∧ off ≤ gicdOffIpriorityEnd then
    (List.range 4).foldl (getPriority d (off - gicdOffIpriorityBase)) 0
  else 0

end Irq

end HypervisorBase
