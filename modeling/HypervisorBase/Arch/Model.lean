import HypervisorBase.Common.Machine
/-!
# The context switch

A guest that traps into EL2 leaves its registers in the CPU. The entry
code stores the general registers, the stack pointer and the return state
in the `vcpu_t` that `g_current_vcpu` points to (`SAVE_GUEST_REGS`). When
the handler switches, `vcpu_do_switch` stores the EL1 system registers of
the old vCPU, loads those of the new one and moves the pointer, and the
exit code loads the general registers from where the pointer now is
(`RESTORE_GUEST_REGS`).

The code is given instruction by instruction. Between its pieces runs C
code, of which only what matters here is kept: it may leave anything in
the general registers, and touches neither the guest's system registers
nor a saved context. The PMU counters that `vcpu_do_switch` also swaps and
the vCPU states it sets are no part of this machine.
-/

namespace HypervisorBase

namespace Arch

/-- The system registers the switch code and the guests see. -/
inductive SysReg
  | sctlrEl1 | ttbr0El1 | ttbr1El1 | tcrEl1 | mairEl1 | amairEl1 | vbarEl1 | spEl1
  | elrEl1 | spsrEl1 | esrEl1 | farEl1 | tpidrEl0 | tpidrEl1 | tpidrroEl0 | cpacrEl1
  | cntkctlEl1 | contextidrEl1 | parEl1 | cntvCtlEl0 | cntvCvalEl0 | ichLr0
  | spEl0 | elrEl2 | spsrEl2 | vttbrEl2
  deriving DecidableEq, Repr

/-- The CPU with the memory of the hypervisor. -/
abbrev Cpu := Machine SysReg

/-! ### The saved context -/

/-- The fields of `el1_sysregs_t`: the register each is for, and its
offset. -/
def el1Sysregs : List (SysReg × U64) :=
  [(.sctlrEl1, 0x00), (.ttbr0El1, 0x08), (.ttbr1El1, 0x10), (.tcrEl1, 0x18), (.mairEl1, 0x20),
   (.amairEl1, 0x28), (.vbarEl1, 0x30), (.spEl1, 0x38), (.elrEl1, 0x40), (.spsrEl1, 0x48),
   (.esrEl1, 0x50), (.farEl1, 0x58), (.tpidrEl0, 0x60), (.tpidrEl1, 0x68), (.tpidrroEl0, 0x70),
   (.cpacrEl1, 0x78), (.cntkctlEl1, 0x80), (.contextidrEl1, 0x88), (.parEl1, 0x90),
   (.cntvCtlEl0, 0x98), (.cntvCvalEl0, 0xA0), (.ichLr0, 0xA8)]

/-- The offset of `sysregs` in a `vcpu_t`. -/
def sysregsOffset : U64 := 0x120

/-- The offset of `vttbr_el2` in a `vcpu_t`. -/
def vttbrOffset : U64 := 0x1E0

/-- The end of the part of a `vcpu_t` the switch uses. -/
def contextSize : U64 := 0x1E8

/-- Where the vCPUs, the current pointer and the EL2 stack are. The
contexts of two vCPUs do not overlap, and neither the pointer nor the slot
the entry code pushes to lies in one. -/
structure Layout (V : Type*) where
  /-- The `vcpu_t` of a vCPU. -/
  vcpu : V → U64
  /-- `&g_current_vcpu[0]`. -/
  current : U64
  /-- The EL2 stack pointer when a guest traps. -/
  stack : U64
  vcpu_ne_zero : ∀ v, vcpu v ≠ 0
  vcpu_apart : ∀ {v w o o'}, v ≠ w → o < contextSize → o' < contextSize →
    vcpu v + o ≠ vcpu w + o'
  current_apart : ∀ v {o}, o < contextSize → vcpu v + o ≠ current
  stack_apart : ∀ v {o}, o < contextSize → vcpu v + o ≠ stack - 16 ∧ vcpu v + o ≠ stack - 8
  stack_current : stack - 16 ≠ current ∧ stack - 8 ≠ current

/-! ### The assembly -/

open Instr (stp ldp)

/-- The pair the entry code keeps on the stack while `x16` and `x17` are its
own. -/
def pushGuestPair : List (Instr SysReg) := .subSp 16 :: stp 16 17 .sp 0

/-- Load the current vcpu pointer; with none there is nothing to do but
spin. -/
def loadCurrentVcpu (current : U64) : List (Instr SysReg) :=
  [.adr 16 current, .ldr 16 (.x 16) 0, .cbz 16]

/-- The stores of `SAVE_GUEST_REGS`, with the `vcpu_t` in `x16`. -/
def storeGuestRegs : List (Instr SysReg) := List.flatten [
  stp 0 1 (.x 16) (0 * 16), stp 2 3 (.x 16) (1 * 16), stp 4 5 (.x 16) (2 * 16),
  stp 6 7 (.x 16) (3 * 16), stp 8 9 (.x 16) (4 * 16), stp 10 11 (.x 16) (5 * 16),
  stp 12 13 (.x 16) (6 * 16), stp 14 15 (.x 16) (7 * 16),
  -- original guest x16/x17
  ldp 14 15 .sp 0, stp 14 15 (.x 16) (8 * 16), [.addSp 16],
  stp 18 19 (.x 16) (9 * 16), stp 20 21 (.x 16) (10 * 16), stp 22 23 (.x 16) (11 * 16),
  stp 24 25 (.x 16) (12 * 16), stp 26 27 (.x 16) (13 * 16), stp 28 29 (.x 16) (14 * 16),
  [.str 30 (.x 16) (15 * 16),
   .mrs 17 .spEl1, .str 17 (.x 16) (15 * 16 + 8),
   .mrs 17 .elrEl2, .str 17 (.x 16) (16 * 16),
   .mrs 17 .spsrEl2, .str 17 (.x 16) (16 * 16 + 8)]]

/-- `SAVE_GUEST_REGS`. -/
def saveGuestRegs (current : U64) : List (Instr SysReg) :=
  pushGuestPair ++ (loadCurrentVcpu current ++ storeGuestRegs)

/-- The loads of `RESTORE_GUEST_REGS`, with the `vcpu_t` in `x16`. -/
def loadGuestRegs : List (Instr SysReg) := List.flatten [
  ldp 0 1 (.x 16) (0 * 16), ldp 2 3 (.x 16) (1 * 16), ldp 4 5 (.x 16) (2 * 16),
  ldp 6 7 (.x 16) (3 * 16), ldp 8 9 (.x 16) (4 * 16), ldp 10 11 (.x 16) (5 * 16),
  ldp 12 13 (.x 16) (6 * 16), ldp 14 15 (.x 16) (7 * 16),
  ldp 18 19 (.x 16) (9 * 16), ldp 20 21 (.x 16) (10 * 16), ldp 22 23 (.x 16) (11 * 16),
  ldp 24 25 (.x 16) (12 * 16), ldp 26 27 (.x 16) (13 * 16), ldp 28 29 (.x 16) (14 * 16),
  [.ldr 30 (.x 16) (15 * 16),
   .ldr 17 (.x 16) (16 * 16), .msr .elrEl2 17,
   .ldr 17 (.x 16) (16 * 16 + 8), .msr .spsrEl2 17,
   .ldr 17 (.x 16) (15 * 16 + 8), .msr .spEl1 17,
   -- x16/x17 last: the vcpu pointer is gone after this
   .ldr 17 (.x 16) (8 * 16 + 8),
   .ldr 16 (.x 16) (8 * 16)]]

/-- `RESTORE_GUEST_REGS`. -/
def restoreGuestRegs (current : U64) : List (Instr SysReg) :=
  loadCurrentVcpu current ++ loadGuestRegs

/-- `vcpu_save_sysregs`, with the save area in `x0`. -/
def vcpuSaveSysregs : List (Instr SysReg) :=
  [.mrs 1 .sctlrEl1, .str 1 (.x 0) 0x00,
   .mrs 1 .ttbr0El1, .str 1 (.x 0) 0x08,
   .mrs 1 .ttbr1El1, .str 1 (.x 0) 0x10,
   .mrs 1 .tcrEl1, .str 1 (.x 0) 0x18,
   .mrs 1 .mairEl1, .str 1 (.x 0) 0x20,
   .mrs 1 .amairEl1, .str 1 (.x 0) 0x28,
   .mrs 1 .vbarEl1, .str 1 (.x 0) 0x30,
   .mrs 1 .spEl1, .str 1 (.x 0) 0x38,
   .mrs 1 .elrEl1, .str 1 (.x 0) 0x40,
   .mrs 1 .spsrEl1, .str 1 (.x 0) 0x48,
   .mrs 1 .esrEl1, .str 1 (.x 0) 0x50,
   .mrs 1 .farEl1, .str 1 (.x 0) 0x58,
   .mrs 1 .tpidrEl0, .str 1 (.x 0) 0x60,
   .mrs 1 .tpidrEl1, .str 1 (.x 0) 0x68,
   .mrs 1 .tpidrroEl0, .str 1 (.x 0) 0x70,
   .mrs 1 .cpacrEl1, .str 1 (.x 0) 0x78,
   .mrs 1 .cntkctlEl1, .str 1 (.x 0) 0x80,
   .mrs 1 .contextidrEl1, .str 1 (.x 0) 0x88,
   .mrs 1 .cntvCtlEl0, .str 1 (.x 0) 0x98,
   .mrs 1 .cntvCvalEl0, .str 1 (.x 0) 0xA0,
   .mrs 1 .ichLr0, .str 1 (.x 0) 0xA8,
   .barrier]

/-- `vcpu_restore_sysregs`, with the save area in `x0`. -/
def vcpuRestoreSysregs : List (Instr SysReg) :=
  -- translation attributes first
  [.ldr 1 (.x 0) 0x20, .msr .mairEl1 1,
   .ldr 1 (.x 0) 0x28, .msr .amairEl1 1,
   .ldr 1 (.x 0) 0x18, .msr .tcrEl1 1,
   .ldr 1 (.x 0) 0x08, .msr .ttbr0El1 1,
   .ldr 1 (.x 0) 0x10, .msr .ttbr1El1 1,
   .barrier, .barrier,
   .ldr 1 (.x 0) 0x30, .msr .vbarEl1 1,
   .ldr 1 (.x 0) 0x38, .msr .spEl1 1,
   .ldr 1 (.x 0) 0x40, .msr .elrEl1 1,
   .ldr 1 (.x 0) 0x48, .msr .spsrEl1 1,
   .ldr 1 (.x 0) 0x60, .msr .tpidrEl0 1,
   .ldr 1 (.x 0) 0x68, .msr .tpidrEl1 1,
   .ldr 1 (.x 0) 0x70, .msr .tpidrroEl0 1,
   .ldr 1 (.x 0) 0x78, .msr .cpacrEl1 1,
   .ldr 1 (.x 0) 0x80, .msr .cntkctlEl1 1,
   .ldr 1 (.x 0) 0x88, .msr .contextidrEl1 1,
   .ldr 1 (.x 0) 0x98, .msr .cntvCtlEl0 1,
   .ldr 1 (.x 0) 0xA0, .msr .cntvCvalEl0 1,
   .barrier,
   .ldr 1 (.x 0) 0xA8, .msr .ichLr0 1,
   -- SCTLR_EL1 last
   .ldr 1 (.x 0) 0x00, .msr .sctlrEl1 1,
   .barrier]

/-! ### The switch -/

/-- What the C code leaves in the general registers: before the switch,
inside it, and after it. -/
structure Scratch where
  handler : ℕ → U64
  between : ℕ → U64
  back : ℕ → U64

section Switch

variable {V : Type*} (L : Layout V)

/-- `vcpu_do_switch(prev, next)`; a null pointer is `none`. -/
def vcpuDoSwitch (j : Scratch) (prev next : Option V) (m : Cpu) : Option Cpu :=
  match next with
  | none => some m
  | some n => do
    let m ← match prev with
      | none => some m
      | some p => (m.setX 0 (L.vcpu p + sysregsOffset)).run vcpuSaveSysregs
    let m ← ({ m with x := j.between }.setX 0 (L.vcpu n + sysregsOffset)).run vcpuRestoreSysregs
    some { m with
      sys := Function.update m.sys .vttbrEl2 (m.mem (L.vcpu n + vttbrOffset))
      mem := Function.update m.mem L.current (L.vcpu n) }

/-- From the trap of `v`, whose registers the CPU holds, to the return
into `w`. -/
def switchTo (j : Scratch) (v w : V) (m : Cpu) : Option Cpu := do
  let m ← m.run (saveGuestRegs L.current)
  let m ← vcpuDoSwitch L j (some v) (some w) { m with x := j.handler }
  Machine.run { m with x := j.back } (restoreGuestRegs L.current)

/-- One turn of a chain: the vCPU switched to, and the registers it leaves
in the CPU when it traps again. -/
structure Turn (V : Type*) where
  next : V
  scratch : Scratch
  x : ℕ → U64
  sys : SysReg → U64

/-- Switch to the vCPU of a turn and let it run until it traps. -/
def turn (s : V × Cpu) (t : Turn V) : Option (V × Cpu) :=
  (switchTo L t.scratch s.1 t.next s.2).map fun m => (t.next, { m with x := t.x, sys := t.sys })

/-- A guest has just trapped: the pointer names its vCPU, and the EL2 stack
is at its top. -/
structure Trapped (v : V) (m : Cpu) : Prop where
  current : m.mem L.current = L.vcpu v
  stack : m.sp = L.stack

end Switch

/-- Every register that has a place in the saved context holds in `m'` what
it held in `m`. -/
structure SameContext (m m' : Cpu) : Prop where
  x : ∀ n < 31, m'.x n = m.x n
  sp : m'.sys .spEl1 = m.sys .spEl1
  elr : m'.sys .elrEl2 = m.sys .elrEl2
  spsr : m'.sys .spsrEl2 = m.sys .spsrEl2
  sysregs : ∀ p ∈ el1Sysregs, m'.sys p.1 = m.sys p.1

end Arch

end HypervisorBase
