import Mathlib.Algebra.Group.Nat.Defs
import Mathlib.Tactic.Common
/-!
# Fixed-width words

Machine words are bit vectors. A mask and a shift that pick a field out
of a word are read as division and remainder on its value, which is the
form every bound is proved in; the bitwise lemmas are only those the
packing of a page number with attribute bits needs.
-/

namespace HypervisorBase

/-- An 8-bit word. -/
abbrev U8 := BitVec 8

/-- A 32-bit word. -/
abbrev U32 := BitVec 32

/-- A 64-bit word. -/
abbrev U64 := BitVec 64

namespace Word

variable {w : ℕ}

/-- A low mask takes the remainder. -/
theorem toNat_and_lowMask (x : BitVec w) {k : ℕ} (hk : k ≤ w) :
    (x &&& BitVec.ofNat w (2 ^ k - 1)).toNat = x.toNat % 2 ^ k := by
  have hle : 2 ^ k ≤ 2 ^ w := Nat.pow_le_pow_right (by decide) hk
  have hpos : 0 < 2 ^ k := Nat.two_pow_pos k
  rw [BitVec.toNat_and, BitVec.toNat_ofNat, Nat.mod_eq_of_lt (by omega),
    Nat.and_two_pow_sub_one_eq_mod]

/-- **A word splits into what a mask keeps and what it clears.** -/
theorem toNat_and_not (x m : BitVec w) : (x &&& ~~~m).toNat = x.toNat - (x &&& m).toNat := by
  have hor : (x &&& ~~~m) ||| (x &&& m) = x := by
    ext i hi
    simp only [BitVec.getElem_or, BitVec.getElem_and, BitVec.getElem_not]
    cases x[i] <;> simp
  have hdisj : (x &&& ~~~m) &&& (x &&& m) = 0#w := by
    ext i hi
    simp only [BitVec.getElem_and, BitVec.getElem_not, BitVec.getElem_zero]
    cases m[i] <;> simp
  have hadd := congrArg BitVec.toNat (BitVec.add_eq_or_of_and_eq_zero _ _ hdisj)
  rw [hor, BitVec.toNat_add_of_and_eq_zero hdisj] at hadd
  omega

/-- Clearing the low `k` bits rounds down to a multiple of `2 ^ k`. -/
theorem toNat_clearLow (x : BitVec w) {k : ℕ} (hk : k ≤ w) :
    (x &&& ~~~BitVec.ofNat w (2 ^ k - 1)).toNat = x.toNat / 2 ^ k * 2 ^ k := by
  rw [toNat_and_not, toNat_and_lowMask x hk]
  have := Nat.div_add_mod x.toNat (2 ^ k)
  have hcomm := Nat.mul_comm (x.toNat / 2 ^ k) (2 ^ k)
  omega

/-- A shifted and masked word is a field of its value. -/
theorem toNat_field (x : BitVec w) (a : ℕ) {k : ℕ} (hk : k ≤ w) :
    ((x >>> a) &&& BitVec.ofNat w (2 ^ k - 1)).toNat = x.toNat / 2 ^ a % 2 ^ k := by
  rw [toNat_and_lowMask _ hk, BitVec.toNat_ushiftRight, Nat.shiftRight_eq_div_pow]

/-- A word below `2 ^ k` is kept whole by the low mask. -/
theorem and_lowMask_eq_self (x : BitVec w) {k : ℕ} (hk : k ≤ w) (hx : x.toNat < 2 ^ k) :
    x &&& BitVec.ofNat w (2 ^ k - 1) = x := by
  apply BitVec.eq_of_toNat_eq
  rw [toNat_and_lowMask x hk, Nat.mod_eq_of_lt hx]

/-- A multiple of `2 ^ k` has no low bits to clear. -/
theorem clearLow_eq_self (x : BitVec w) {k : ℕ} (hk : k ≤ w) (hx : x.toNat % 2 ^ k = 0) :
    x &&& ~~~BitVec.ofNat w (2 ^ k - 1) = x := by
  apply BitVec.eq_of_toNat_eq
  rw [toNat_and_not, toNat_and_lowMask x hk, hx, Nat.sub_zero]

/-- Bits that a mask keeps whole survive being joined with bits it
clears. -/
theorem or_and_left {a b m : BitVec w} (ha : a &&& m = a) (hb : b &&& m = 0#w) :
    (a ||| b) &&& m = a := by
  rw [BitVec.and_or_distrib_right, ha, hb, BitVec.or_zero]

/-- **Words with bits apart add up.** -/
theorem toNat_or_of_lt {x y : BitVec w} {i : ℕ} (hx : x.toNat % 2 ^ i = 0) (hy : y.toNat < 2 ^ i) :
    (x ||| y).toNat = x.toNat + y.toNat := by
  have hshift : x.toNat = (x.toNat / 2 ^ i) <<< i := by
    rw [Nat.shiftLeft_eq]
    have := Nat.div_add_mod' x.toNat (2 ^ i)
    omega
  rw [BitVec.toNat_or]
  conv_lhs => rw [hshift]
  rw [← Nat.shiftLeft_add_eq_or_of_lt hy, ← hshift]

/-- A byte of a word, most significant first. -/
theorem setWidth_shiftRight (x : BitVec w) (n : ℕ) :
    (x >>> n).setWidth 8 = BitVec.ofNat 8 (x.toNat / 2 ^ n) := by
  apply BitVec.eq_of_toNat_eq
  rw [BitVec.toNat_setWidth, BitVec.toNat_ushiftRight, BitVec.toNat_ofNat, Nat.shiftRight_eq_div_pow]

/-- **A word is put together from its bytes**, least significant first. -/
theorem of_bytes (w : BitVec 32) :
    (w.setWidth 8).setWidth 32 ||| ((w >>> 8).setWidth 8).setWidth 32 <<< 8 |||
      ((w >>> 16).setWidth 8).setWidth 32 <<< 16 |||
      ((w >>> 24).setWidth 8).setWidth 32 <<< 24 = w := by
  apply BitVec.eq_of_getLsbD_eq
  intro i hi
  have hcases : i < 8 ∨ (8 ≤ i ∧ i < 16) ∨ (16 ≤ i ∧ i < 24) ∨ 24 ≤ i := by omega
  simp only [BitVec.getLsbD_or, BitVec.getLsbD_shiftLeft, BitVec.getLsbD_setWidth,
    BitVec.getLsbD_ushiftRight]
  -- each bit is in one byte
  rcases hcases with hi | ⟨hlo, hhi⟩ | ⟨hlo, hhi⟩ | hlo
  · grind
  · grind
  · grind
  · grind

end Word

end HypervisorBase
