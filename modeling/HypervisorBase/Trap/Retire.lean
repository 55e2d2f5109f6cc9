import HypervisorBase.Hypercall.Pool
import HypervisorBase.Trap.Decode
/-!
# Instructions that are emulated

A trap the hypervisor handles for the guest stands for one instruction,
and the guest should go on behind it. Each exception class sees to that in
its own place: the hardware for `HVC`, the scheduler for `WFI`, the
dispatcher for a system register, and nobody for `SMC` and for an access
to an emulated device. `retired_iff` says that the classes are all that
matters: whatever else the handler does, switches and restarts included,
it leaves the program counter of the vCPU that trapped alone. A hypercall
that receives a message into the saved registers themselves is left out
(`Ipc.StoresOutside`).
-/

namespace HypervisorBase

/-! ## The saved registers of a vCPU -/

/-- The saved registers of the vCPU at an index. -/
def regsAt (h : Hyp) (c : ℕ) : Option GuestRegs := (h.vcpus[c]?).map Vcpu.regs

/-- And its program counter. -/
def elrAt (h : Hyp) (c : ℕ) : Option U64 := (regsAt h c).map GuestRegs.elrEl2

variable {h h' : Hyp} {c : ℕ}

theorem lasting_regs : Lasting Vcpu.regs := fun _ _ _ _ => rfl

/-! ## The parts of a hypercall -/

section Tables

variable [P : PtPool] {r : GuestRegs}

/-- **A hypercall touches no saved registers**: a restart gives the VM
other vCPUs. -/
theorem regsAt_of_parts (hparts : Hypercall.Parts h h') (hr : regsAt h c = some r) :
    regsAt h' c = some r := (grows_of_parts lasting_regs hparts).kept hr

end Tables

/-! ## A switch -/

namespace Sched

/-- **A switch moves no saved register.** -/
theorem regsAt_switchTo (h : Hyp) (ch : Choice) (isPreempt : Bool) (c : ℕ) :
    regsAt (switchTo h ch isPreempt) c = regsAt h c := by
  rw [regsAt, regsAt, ← List.getElem?_map, map_switchTo lasting_regs, List.getElem?_map]

theorem regsAt_schedOnWfi (h : Hyp) (c : ℕ) :
    regsAt (schedOnWfi h) c =
      regsAt (h.modifyCurrent fun vc => vc.setElr (vc.regs.elrEl2 + 4)) c := by
  unfold schedOnWfi
  dsimp only
  split
  · rfl
  · exact regsAt_switchTo _ _ _ c

end Sched

/-! ## An emulated device -/

theorem elrAt_modifyCurrent (h : Hyp) (c : ℕ) {f : Vcpu → Vcpu}
    (hf : ∀ vc, (f vc).regs.elrEl2 = vc.regs.elrEl2) : elrAt (h.modifyCurrent f) c = elrAt h c := by
  unfold Hyp.modifyCurrent elrAt regsAt
  split
  · rfl
  · rename_i v _
    dsimp only
    rw [List.getElem?_modify]
    cases h.vcpus[c]? with
    | none => rfl
    | some vc =>
      by_cases hv : v = c
      · simp [hv, hf]
      · simp [hv]

theorem elrAt_putResult (h : Hyp) (esr : U64) (isWrite : Bool) (val : U64) (c : ℕ) :
    elrAt (Device.putResult h esr isWrite val) c = elrAt h c := by
  unfold Device.putResult
  split
  · rfl
  · exact elrAt_modifyCurrent h c fun _ => rfl

/-- **`mmio_handle` does not advance the program counter.** -/
theorem elrAt_mmioHandle (h : Hyp) (fa esr : U64) (c : ℕ) :
    elrAt (Device.mmioHandle h fa esr) c = elrAt h c := by
  rcases Device.mmioHandle_eq h fa esr with heq | ⟨m, p, val, heq⟩
  · rw [heq]
  · rw [heq]
    exact elrAt_putResult { h with mmio := m, phys := p } esr _ val c

/-! ## The trap -/

namespace Trap

/-- The traps that stand for an instruction of the guest. -/
def Emulated (esr far : U64) : Prop :=
  match Class.ofEsr esr with
  | .hvc64 | .smc64 | .wfi | .sysReg => True
  | .dabtLower => isMmioFar far = true
  | .iabtLower | .other => False

/-- The address of the next instruction: behind an `HVC` the program
counter is there already. -/
def nextElr (esr elr : U64) : U64 := if Class.ofEsr esr = .hvc64 then elr else elr + 4

/-- The handler starts from the saved registers. -/
theorem regsAt_saveGuestRegs (cpu : CurrentVcpu h) (r : GuestRegs) :
    regsAt (saveGuestRegs h cpu.c r) cpu.c = some r := by
  unfold regsAt saveGuestRegs
  dsimp only
  rw [List.getElem?_modify_eq, cpu.vcpu]
  rfl

theorem elrAt_results (h : Hyp) (c : ℕ) (x : ℕ → U64) :
    elrAt { h with vcpus := h.vcpus.modify c fun vc => vc.setX x } c = elrAt h c := by
  unfold elrAt regsAt
  dsimp only
  rw [List.getElem?_modify_eq]
  cases h.vcpus[c]? <;> rfl

theorem elr_sysRegTrap (vc : Vcpu) (esr : U64) :
    (sysRegTrap vc esr).regs.elrEl2 = vc.regs.elrEl2 + 4 := by
  unfold sysRegTrap
  dsimp only
  split <;> rfl

section Tables

variable [P : PtPool]

/-- The program counter of the vCPU that trapped, when an emulated trap
returns. -/
theorem elrAt_trapStep (cpu : CurrentVcpu h) {r : GuestRegs} {esr far hpfar : U64}
    (hem : Emulated esr far) (hrun : trapStep h ⟨r, .sync esr far hpfar⟩ = some h') :
    elrAt h' cpu.c =
      some (if Class.ofEsr esr = .wfi ∨ Class.ofEsr esr = .sysReg then r.elrEl2 + 4
        else r.elrEl2) := by
  unfold trapStep at hrun
  rw [cpu.current] at hrun
  dsimp only at hrun
  have hregs := regsAt_saveGuestRegs cpu r
  have helr : elrAt (saveGuestRegs h cpu.c r) cpu.c = some r.elrEl2 := by
    rw [elrAt, hregs]
    rfl
  have hcur : (saveGuestRegs h cpu.c r).current = some cpu.c := cpu.current
  generalize saveGuestRegs h cpu.c r = h₁ at hregs helr hcur hrun
  obtain ⟨vc, hvc, rfl⟩ := Option.map_eq_some_iff.mp hregs
  unfold Emulated at hem
  unfold hypSyncHandler at hrun
  cases hclass : Class.ofEsr esr with
  | hvc64 =>
    rw [hclass] at hrun
    obtain ⟨⟨x, g⟩, hcall, rfl⟩ := Option.map_eq_some_iff.mp hrun
    have hkept := regsAt_of_parts (Hypercall.parts_of_hvcDispatch hcall) hregs
    rw [elrAt_results, elrAt, hkept]
    rfl
  | smc64 =>
    rw [hclass] at hrun
    obtain ⟨v, -, rfl⟩ := Option.map_eq_some_iff.mp hrun
    rw [elrAt_results, helr]
    rfl
  | dabtLower =>
    rw [hclass] at hrun hem
    dsimp only at hrun hem
    unfold faultDabt at hrun
    rw [if_pos hem] at hrun
    obtain rfl := Option.some.inj hrun
    rw [elrAt_mmioHandle, helr]
    rfl
  | iabtLower =>
    rw [hclass] at hem
    exact hem.elim
  | wfi =>
    rw [hclass] at hrun
    obtain rfl := Option.some.inj hrun
    rw [elrAt, Sched.regsAt_schedOnWfi, regsAt, Hyp.modifyCurrent, hcur]
    dsimp only
    rw [List.getElem?_modify_eq, hvc]
    rfl
  | sysReg =>
    rw [hclass] at hrun
    obtain rfl := Option.some.inj hrun
    rw [elrAt, regsAt, Hyp.modifyCurrent, hcur]
    dsimp only
    rw [List.getElem?_modify_eq, hvc]
    exact congrArg some (elr_sysRegTrap vc esr)
  | other =>
    rw [hclass] at hem
    exact hem.elim

/-- **Emulated instructions are retired exactly once**, for every state,
every vCPU and every trap that is handled for the guest, if and only if
the trap is neither an `SMC` nor an access to an emulated device. -/
theorem retired_iff (cpu : CurrentVcpu h) (r : GuestRegs) (esr far hpfar : U64)
    (hem : Emulated esr far) (hrun : trapStep h ⟨r, .sync esr far hpfar⟩ = some h') :
    elrAt h' cpu.c = some (nextElr esr r.elrEl2) ↔
      Class.ofEsr esr ≠ .smc64 ∧ Class.ofEsr esr ≠ .dabtLower := by
  rw [elrAt_trapStep cpu hem hrun, Option.some_inj, nextElr]
  unfold Emulated at hem
  cases hclass : Class.ofEsr esr with
  | hvc64 => simp
  | smc64 => simp
  | dabtLower => simp
  | wfi => simp
  | sysReg => simp
  | iabtLower =>
    rw [hclass] at hem
    exact hem.elim
  | other =>
    rw [hclass] at hem
    exact hem.elim

end Tables

/-- The registers of a guest that is at 0x8000 and asks for the version of
PSCI. -/
def askVersion : GuestRegs := ⟨fun n => if n = 0 then 0x84000000 else 0, 0x8000, spsrEl1h⟩

/-- A `WFI` of that guest. -/
theorem retired_wfi :
    letI := Stage2.poolAt2M
    ∃ h', trapStep monitoredGuest ⟨askVersion, .sync 0x04000000 0 0⟩ = some h' ∧
      (elrAt h' 0 = some (nextElr 0x04000000 0x8000) ↔
        Class.ofEsr 0x04000000 ≠ .smc64 ∧ Class.ofEsr 0x04000000 ≠ .dabtLower) :=
  letI := Stage2.poolAt2M
  ⟨_, rfl, retired_iff monitoredCpu askVersion 0x04000000 0 0 trivial rfl⟩

/-- After an `SMC`, and after a read of the interrupt controller's
registers, the guest is returned to the same instruction. -/
theorem smc_repeats :
    letI := Stage2.poolAt2M
    (∃ h', trapStep monitoredGuest ⟨askVersion, .sync 0x5C000000 0 0⟩ = some h' ∧
      elrAt h' 0 = some 0x8000 ∧ nextElr 0x5C000000 0x8000 = 0x8004) ∧
    ∃ h', trapStep monitoredGuest ⟨askVersion, .sync 0x90000000 0x08000000 0⟩ = some h' ∧
      elrAt h' 0 = some 0x8000 ∧ nextElr 0x90000000 0x8000 = 0x8004 :=
  letI := Stage2.poolAt2M
  ⟨⟨_, rfl, rfl, rfl⟩, _, rfl, rfl, rfl⟩

end Trap

end HypervisorBase
