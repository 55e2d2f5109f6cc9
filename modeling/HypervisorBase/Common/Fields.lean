import HypervisorBase.Common.Word
/-!
# Words packed from fields

A sender ors values into one word, each shifted to its place, and a
receiver shifts and masks them out again. A `Part` is a value with its
place and a width it fits in. What a window of the packed word shows
depends only on the parts that reach into it (`slice_pack_filter`), so a
part that has its window for itself is read back (`slice_pack_own`).
Parts may overlap: the window then shows the bits of both.
-/

namespace HypervisorBase

variable {w : ℕ}

/-- The `k` bits from `lo` on. -/
def slice (x : BitVec w) (lo k : ℕ) : BitVec w := (x >>> lo) &&& BitVec.ofNat w (2 ^ k - 1)

theorem getLsbD_slice (x : BitVec w) (lo k i : ℕ) :
    (slice x lo k).getLsbD i = (x.getLsbD (lo + i) && decide (i < k)) := by
  unfold slice
  rw [BitVec.getLsbD_and, BitVec.getLsbD_ushiftRight, BitVec.getLsbD_ofNat,
    Nat.testBit_two_pow_sub_one]
  by_cases hi : i < w
  · rw [decide_eq_true hi, Bool.true_and]
  · rw [BitVec.getLsbD_of_ge x (lo + i) (by omega), Bool.false_and, Bool.false_and]

theorem slice_or (x y : BitVec w) (lo k : ℕ) : slice (x ||| y) lo k = slice x lo k ||| slice y lo k := by
  apply BitVec.eq_of_getLsbD_eq
  intro i _
  simp only [getLsbD_slice, BitVec.getLsbD_or, Bool.and_or_distrib_right]

theorem toNat_slice (x : BitVec w) (lo : ℕ) {k : ℕ} (hk : k ≤ w) :
    (slice x lo k).toNat = x.toNat / 2 ^ lo % 2 ^ k :=
  Word.toNat_field x lo hk

/-- The bits above a value's width are clear. -/
theorem getLsbD_of_lt_two_pow {x : BitVec w} {n i : ℕ} (hx : x.toNat < 2 ^ n) (hi : n ≤ i) :
    x.getLsbD i = false :=
  Nat.testBit_lt_two_pow (Nat.lt_of_lt_of_le hx (Nat.pow_le_pow_right (by decide) hi))

/-- A value with its place in a word. -/
structure Part (w : ℕ) where
  lo : ℕ
  width : ℕ
  val : BitVec w
  fits : val.toNat < 2 ^ width

namespace Part

variable {p : Part w} {lo k : ℕ}

/-- The part ends below the window or begins above it. -/
def Apart (lo k : ℕ) (p : Part w) : Prop := p.lo + p.width ≤ lo ∨ lo + k ≤ p.lo

instance (lo k : ℕ) (p : Part w) : Decidable (p.Apart lo k) := inferInstanceAs (Decidable (_ ∨ _))

def word (p : Part w) : BitVec w := p.val <<< p.lo

/-- Fields that lie apart do not show in each other. -/
theorem slice_word_of_apart (hp : p.Apart lo k) : slice p.word lo k = 0#w := by
  apply BitVec.eq_of_getLsbD_eq
  intro i hi
  rw [getLsbD_slice, word, BitVec.getLsbD_shiftLeft, BitVec.getLsbD_zero]
  rcases hp with hbelow | habove
  · rw [getLsbD_of_lt_two_pow p.fits (by omega), Bool.and_false, Bool.false_and]
  · by_cases hk : i < k
    · have hlo : lo + i < p.lo := by omega
      rw [decide_eq_true hlo, Bool.not_true, Bool.and_false, Bool.false_and, Bool.false_and]
    · rw [decide_eq_false hk, Bool.and_false]

/-- **What a part shows** from its own place on: its value from there on,
as far as the window reaches. -/
theorem slice_word {m : ℕ} (hw : p.lo + m + k ≤ w) : slice p.word (p.lo + m) k = slice p.val m k := by
  apply BitVec.eq_of_getLsbD_eq
  intro i hi
  rw [getLsbD_slice, getLsbD_slice, word, BitVec.getLsbD_shiftLeft]
  by_cases hk : i < k
  · have hin : p.lo + m + i < w := by omega
    have hlo : ¬ p.lo + m + i < p.lo := by omega
    have hsub : p.lo + m + i - p.lo = m + i := by omega
    rw [decide_eq_true hin, decide_eq_false hlo, hsub, Bool.not_false, Bool.true_and, Bool.true_and]
  · rw [decide_eq_false hk, Bool.and_false, Bool.and_false]

end Part

/-- A value that fits is all in the low bits. -/
theorem slice_eq_self {x : BitVec w} {k : ℕ} (hx : x.toNat < 2 ^ k) : slice x 0 k = x := by
  apply BitVec.eq_of_getLsbD_eq
  intro i hi
  rw [getLsbD_slice, Nat.zero_add]
  by_cases hk : i < k
  · rw [decide_eq_true hk, Bool.and_true]
  · rw [getLsbD_of_lt_two_pow hx (by omega), Bool.false_and]

/-- The word with every part in its place. -/
def pack (ps : List (Part w)) : BitVec w := ps.foldr (fun p x => p.word ||| x) 0#w

variable {ps : List (Part w)} {lo k : ℕ}

@[simp] theorem pack_nil : pack ([] : List (Part w)) = 0#w := rfl

@[simp] theorem pack_cons (p : Part w) : pack (p :: ps) = p.word ||| pack ps := rfl

/-- **A window shows only the parts that reach into it.** -/
theorem slice_pack_filter : slice (pack ps) lo k =
    slice (pack (ps.filter fun p => ¬ p.Apart lo k)) lo k := by
  induction ps with
  | nil => rfl
  | cons p ps ih =>
    rw [pack_cons, slice_or, ih]
    by_cases hp : p.Apart lo k
    · rw [Part.slice_word_of_apart hp, List.filter_cons_of_neg (by simpa using hp), BitVec.zero_or]
    · rw [List.filter_cons_of_pos (by simpa using hp), pack_cons, slice_or]

/-- **A part with the window to itself** is read back, as far as the
window reaches. -/
theorem slice_pack_one {p : Part w} (hone : (ps.filter fun q => ¬ q.Apart p.lo k) = [p])
    (hw : p.lo + k ≤ w) : slice (pack ps) p.lo k = slice p.val 0 k := by
  rw [slice_pack_filter, hone, pack_cons, pack_nil, BitVec.or_zero]
  exact Part.slice_word (m := 0) hw

/-- **A part with its own bits to itself** is read back whole. -/
theorem slice_pack_own {p : Part w} (hone : (ps.filter fun q => ¬ q.Apart p.lo p.width) = [p])
    (hw : p.lo + p.width ≤ w) : slice (pack ps) p.lo p.width = p.val := by
  rw [slice_pack_one hone hw, slice_eq_self p.fits]

end HypervisorBase
