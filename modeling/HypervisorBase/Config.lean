import HypervisorBase.Common.Word
/-!
# Error codes and alignment

The error type of `include/error.h` and the alignment macros of
`include/types.h`, which every module of the hypervisor uses.
-/

namespace HypervisorBase

/-- The error codes of `error.h`. -/
inductive Err
  | ok
  | generic
  | nomem
  | inval
  | busy
  | notfound
  | denied
  | fault
  | unsupported
  | timeout
  deriving DecidableEq, Repr

def Err.code : Err → Int
  | .ok => 0
  | .generic => -1
  | .nomem => -2
  | .inval => -3
  | .busy => -4
  | .notfound => -5
  | .denied => -6
  | .fault => -7
  | .unsupported => -8
  | .timeout => -9

/-- `IS_ALIGNED`: the bits below a power of two are clear. -/
def isAligned (x a : U64) : Bool := x &&& (a - 1) = 0

/-- Alignment to a page is divisibility by its size. -/
theorem isAligned_page_iff {x : U64} : isAligned x 4096 = true ↔ x.toNat % 4096 = 0 := by
  have hmask := Word.toNat_and_lowMask x (show 12 ≤ 64 by decide)
  simp only [isAligned, decide_eq_true_eq]
  rw [show (4096 : U64) - 1 = BitVec.ofNat 64 (2 ^ 12 - 1) by decide, ← BitVec.toNat_inj, hmask]
  rfl

end HypervisorBase
