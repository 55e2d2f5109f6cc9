import HypervisorBase.Irq.Model
import HypervisorBase.Vse.Bookkeeping
/-!
# Preemption

When the EL2 timer of a slice runs out, `gic_handle_irq` lets the
scheduler choose the next slot, and `sched_on_timer` programs the timer
for it. What the handler leaves is computed here: the countdown is the one
programmed, and the control register holds what the handler wrote
afterwards to clear the interrupt, which disables the timer. So an
interrupt of the timer is also its last one.
-/

namespace HypervisorBase

namespace Irq

variable {h : Hyp} {expired : Bool} {iar : U64}

/-! ## What the scheduler programs -/

theorem cntfrq_pollOnSwitch (h : Hyp) : (Sched.pollOnSwitch h).cntfrq = h.cntfrq := by
  unfold Sched.pollOnSwitch
  dsimp only
  split
  · exact (Vse.onlyVse_idsPoll _).eq Hyp.cntfrq fun _ _ _ _ _ => rfl
  · rfl

theorem cntfrq_switchOut (h : Hyp) (prev : ℕ) : (Sched.switchOut h prev).cntfrq = h.cntfrq := by
  unfold Sched.switchOut
  split <;> rfl

theorem cntfrq_switchIn (h : Hyp) (next : ℕ) : (Sched.switchIn h next).cntfrq = h.cntfrq := by
  unfold Sched.switchIn
  split <;> rfl

theorem cntfrq_doSwitch (h : Hyp) (prev : Option ℕ) (next : ℕ) (durUs : U32) (isPreempt : Bool) :
    (Sched.doSwitch h prev next durUs isPreempt).cntfrq = h.cntfrq := by
  have hpoll : (if Sched.vcpuVmId h prev ≠ Sched.vcpuVmId h (some next) then Sched.pollOnSwitch h
      else h).cntfrq = h.cntfrq := by
    split
    · exact cntfrq_pollOnSwitch h
    · rfl
  unfold Sched.doSwitch
  dsimp only
  split
  · unfold Sched.vcpuDoSwitch
    rw [cntfrq_switchIn]
    cases prev with
    | none => exact hpoll
    | some p => exact (cntfrq_switchOut _ p).trans hpoll
  · exact hpoll

/-- The slice of the slot the scheduler selects, or the major frame if no
slot can run. -/
def selectedUs (h : Hyp) : U32 :=
  ((Sched.findNextRr h).map Sched.Choice.durationUs).getD Sched.majorFrameUs

theorem cnthp_timerSetUs (h : Hyp) (us : U32) :
    (Sched.timerSetUs h us).cnthp = ⟨Sched.cnthpEnable, Sched.timerTicks h.cntfrq us⟩ := rfl

/-- **The scheduler arms the timer for the slot it selects.** -/
theorem cnthp_schedOnTimer (h : Hyp) : (Sched.schedOnTimer h).cnthp =
    ⟨Sched.cnthpEnable, Sched.timerTicks h.cntfrq (selectedUs h)⟩ := by
  unfold Sched.schedOnTimer selectedUs
  split
  · rename_i hempty
    -- without slots the scan finds nothing
    have hnone : Sched.findNextRr h = none := by
      rw [Sched.findNextRr, List.isEmpty_iff.mp hempty]
      rfl
    rw [cnthp_timerSetUs, hnone]
    rfl
  · cases hnext : Sched.findNextRr h with
    | none => exact cnthp_timerSetUs ..
    | some ch =>
      have hfrq : (Sched.gateUart (Sched.doSwitch { h with sched := { h.sched with
          cur := ch.slot } } h.current ch.vcpu ch.durationUs true) ch.vcpu).cntfrq = h.cntfrq :=
        cntfrq_doSwitch ..
      dsimp only
      rw [Sched.switchTo, cnthp_timerSetUs, hfrq]
      rfl

/-! ## What the handler leaves -/

theorem cnthp_gicInjectVirqLr (h : Hyp) (virq : U32) (prio : U8) :
    (Ipc.gicInjectVirqLr h virq prio).cnthp = h.cnthp := by
  unfold Ipc.gicInjectVirqLr
  repeat' split
  all_goals rfl

theorem cnthp_irqRouteToVm (h : Hyp) (phys : U32) : (irqRouteToVm h phys).cnthp = h.cnthp := by
  unfold irqRouteToVm
  split
  · exact cnthp_gicInjectVirqLr ..
  · unfold Vse.fdetectIrqUnrouted
    split <;> rfl

/-- Whatever is acknowledged, the timer is not touched again. -/
theorem cnthp_handleAcked (h : Hyp) (iar : U64) : (handleAcked h iar).cnthp = h.cnthp := by
  unfold handleAcked
  dsimp only
  split
  · rfl
  split
  · rfl
  split
  · rfl
  split
  · rfl
  split
  · exact cnthp_gicInjectVirqLr ..
  · exact cnthp_irqRouteToVm ..

/-- **The handler finds the timer enabled and expired**, and the scheduler
is not stopped. -/
def TimerDue (h : Hyp) (expired : Bool) : Prop :=
  readCnthpCtl h expired &&& Sched.cnthpEnable ≠ 0 ∧
    readCnthpCtl h expired &&& Sched.cnthpIstatus ≠ 0 ∧ h.schedStopped = false

/-- **The timer as the handler leaves it**: the countdown of the selected
slot, and disabled. -/
theorem cnthp_gicHandleIrq (hdue : TimerDue h expired) : (gicHandleIrq h expired iar).cnthp =
    ⟨Sched.cnthpImask, Sched.timerTicks h.cntfrq (selectedUs h)⟩ := by
  obtain ⟨henable, hstatus, hrunning⟩ := hdue
  rw [gicHandleIrq, cnthp_handleAcked, handleTimer]
  dsimp only
  rw [if_pos ⟨henable, hstatus⟩, if_pos (by rw [hrunning]; rfl), cnthp_schedOnTimer]

/-- **Preemption goes on**: the timer is enabled, its interrupt is not
masked, and it counts down the slice of the selected slot. -/
structure Rearmed (h h' : Hyp) : Prop where
  enabled : h'.cnthp.ctl &&& Sched.cnthpEnable ≠ 0
  unmasked : h'.cnthp.ctl &&& Sched.cnthpImask = 0
  countdown : h'.cnthp.tval = Sched.timerTicks h.cntfrq (selectedUs h)

theorem not_rearmed (hdue : TimerDue h expired) : ¬ Rearmed h (gicHandleIrq h expired iar) := by
  intro hkept
  have hctl := hkept.enabled
  rw [cnthp_gicHandleIrq hdue] at hctl
  exact hctl (show Sched.cnthpImask &&& Sched.cnthpEnable = 0 by decide)

/-- **Preemption is lost at every interrupt of the timer.** Whatever the
slots, the selected one and the interrupt acknowledged, the timer is left
armed only where it was not due in the first place. -/
theorem preemption_kept_iff (h : Hyp) (expired : Bool) (iar : U64) :
    (TimerDue h expired → Rearmed h (gicHandleIrq h expired iar)) ↔ ¬ TimerDue h expired := by
  constructor
  · intro hkept hdue
    exact not_rearmed hdue (hkept hdue)
  · intro hnot hdue
    exact absurd hdue hnot

/-- One running guest with a slice of two seconds, whose timer was armed. -/
def oneGuest : Hyp :=
  let vm : Vm := { vmInit 1 .linux with state := .running, vcpus := [0] }
  { Hyp.blank with
    vms := [vm]
    vcpus := [vcpuInit 0 vm 0]
    current := some 0
    sched := { slots := [⟨1, 0, 2000000⟩], cur := 0, stats := Sched.statsInit, timerUs := 2000000 }
    cnthp := ⟨Sched.cnthpEnable, 125000000⟩ }

/-- The countdown has run out and the scheduler selects the same guest for
another slice: the timer is left disabled. -/
theorem timer_left_disabled : TimerDue oneGuest true ∧ selectedUs oneGuest = 2000000 ∧
    ¬ Rearmed oneGuest (gicHandleIrq oneGuest true 1023) := by
  have hdue : TimerDue oneGuest true := ⟨by decide, by decide, rfl⟩
  exact ⟨hdue, by decide, not_rearmed hdue⟩

end Irq

end HypervisorBase
