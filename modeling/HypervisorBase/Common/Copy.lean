import Mathlib.Algebra.Group.Nat.Defs
import Mathlib.Data.BitVec
import Mathlib.Logic.Function.Basic
/-!
# Copies from low to high addresses

A copy of one cell after the other, over addresses that wrap around. Where
the target starts inside the source, the copy reads cells that it has
written: with a distance of `d` from source to target, it repeats the first
`d` cells (`copyUp_eq`). So it is exact whatever the memory holds if there
are no more than `d` of them.
-/

namespace HypervisorBase

variable {w : ℕ} {α : Type*}

/-- The memory after `n` cells are copied, one after the other. -/
def copyUp (dst src : BitVec w) : ℕ → (BitVec w → α) → BitVec w → α
  | 0, mem => mem
  | n + 1, mem => copyUp (dst + 1) (src + 1) n (Function.update mem dst (mem src))

variable {dst src x : BitVec w} {n k : ℕ} {mem : BitVec w → α}

theorem add_ofNat_succ (a : BitVec w) (k : ℕ) :
    a + BitVec.ofNat w (k + 1) = a + 1 + BitVec.ofNat w k := by
  rw [Nat.add_comm k 1, BitVec.ofNat_add, ← BitVec.add_assoc]
  rfl

/-- What is not in the target is not written. -/
theorem copyUp_of_ne (hne : ∀ k < n, x ≠ dst + BitVec.ofNat w k) : copyUp dst src n mem x = mem x := by
  induction n generalizing dst src mem with
  | zero => rfl
  | succ n ih =>
    have hhead : x ≠ dst := by simpa using hne 0 (Nat.succ_pos n)
    rw [copyUp, ih, Function.update_of_ne hhead]
    intro k hk
    rw [← add_ofNat_succ]
    exact hne (k + 1) (Nat.succ_lt_succ hk)

/-- Two offsets below `2 ^ w` from one address lead to two addresses. -/
theorem add_ofNat_ne {j : ℕ} (a : BitVec w) (hj : j < 2 ^ w) (hk : k < 2 ^ w) (hne : j ≠ k) :
    a + BitVec.ofNat w j ≠ a + BitVec.ofNat w k := by
  intro heq
  have hnat := congrArg BitVec.toNat (add_left_cancel heq)
  simp only [BitVec.toNat_ofNat, Nat.mod_eq_of_lt hj, Nat.mod_eq_of_lt hk] at hnat
  exact hne hnat

/-- **The copy repeats the cells from the source up to the target.** -/
theorem copyUp_eq (hne : dst ≠ src) (hn : n ≤ 2 ^ w) (hk : k < n) :
    copyUp dst src n mem (dst + BitVec.ofNat w k) =
      mem (src + BitVec.ofNat w (k % (dst - src).toNat)) := by
  induction n generalizing dst src mem k with
  | zero => exact absurd hk (Nat.not_lt_zero k)
  | succ n ih =>
    cases k with
    | zero =>
      -- the first cell is written once, and not again by the rest
      have hrest : ∀ j < n, dst + BitVec.ofNat w 0 ≠ dst + 1 + BitVec.ofNat w j := by
        intro j hj
        rw [← add_ofNat_succ]
        exact add_ofNat_ne dst (by omega) (by omega) (by omega)
      rw [copyUp, copyUp_of_ne hrest, Nat.zero_mod, BitVec.add_zero, BitVec.add_zero,
        Function.update_self]
    | succ k =>
      have hdist : dst + 1 - (src + 1) = dst - src := add_sub_add_right_eq_sub dst src 1
      have hfar : dst = src + BitVec.ofNat w (dst - src).toNat := by
        rw [BitVec.ofNat_toNat, BitVec.setWidth_eq, add_sub_cancel]
      have hpos : 0 < (dst - src).toNat := Nat.pos_of_ne_zero fun hzero =>
        hne (sub_eq_zero.mp (BitVec.eq_of_toNat_eq hzero))
      have hlt := (dst - src).isLt
      have hmod := Nat.mod_lt k hpos
      rw [copyUp, add_ofNat_succ, ih (fun heq => hne (add_right_cancel heq)) (by omega) (by omega),
        hdist, ← add_ofNat_succ]
      -- the cell that is read is the one just written, or as it was
      by_cases hlast : k % (dst - src).toNat + 1 = (dst - src).toNat
      · have hwrap : (k + 1) % (dst - src).toNat = 0 := by
          rw [← Nat.mod_add_mod, hlast, Nat.mod_self]
        rw [hlast, ← hfar, hwrap, Function.update_self, BitVec.add_zero]
      · have hnext : (k + 1) % (dst - src).toNat = k % (dst - src).toNat + 1 := by
          rw [← Nat.mod_add_mod]
          exact Nat.mod_eq_of_lt (by omega)
        have hread : src + BitVec.ofNat w (k % (dst - src).toNat + 1) ≠ dst :=
          fun heq => add_ofNat_ne src (by omega) hlt hlast (heq.trans hfar)
        rw [hnext, Function.update_of_ne hread]

/-- **When a copy is exact**: what it repeats is what it should have
copied. -/
theorem copyUp_exact_iff (hne : dst ≠ src) (hn : n ≤ 2 ^ w) :
    (∀ k < n, copyUp dst src n mem (dst + BitVec.ofNat w k) = mem (src + BitVec.ofNat w k)) ↔
      ∀ k < n, mem (src + BitVec.ofNat w (k % (dst - src).toNat)) = mem (src + BitVec.ofNat w k) :=
  forall₂_congr fun k hk => by rw [copyUp_eq hne hn hk]

end HypervisorBase
