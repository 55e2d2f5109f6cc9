import Mathlib.Data.List.GetD
/-!
# Streams cut into blocks

An iterated function reads a stream in blocks of `n`: `absorb` folds it
over the whole blocks and `rest` is what is left over. The fold of a
longer stream goes on from where a shorter one stopped (`absorb_append`,
`rest_append`), which is all that buffering a stream that arrives in
pieces relies on. `overwrite` is the other half of such a buffer: a write
of some elements into a list of fixed length.
-/

namespace HypervisorBase

namespace Blocks

variable {α β : Type*}

/-- The first `k` blocks of `l`, folded. -/
def absorbN (f : β → List α → β) (n : ℕ) : ℕ → β → List α → β
  | 0, s, _ => s
  | k + 1, s, l => absorbN f n k (f s (l.take n)) (l.drop n)

/-- **All whole blocks of `l`, folded.** -/
def absorb (f : β → List α → β) (n : ℕ) (s : β) (l : List α) : β := absorbN f n (l.length / n) s l

/-- What the whole blocks leave of `l`. -/
def rest (n : ℕ) (l : List α) : List α := l.drop (l.length / n * n)

variable {f : β → List α → β} {n : ℕ} {s : β} {l m : List α}

theorem length_rest (n : ℕ) (l : List α) : (rest n l).length = l.length % n := by
  have hdiv := Nat.div_add_mod' l.length n
  rw [rest, List.length_drop]
  omega

theorem absorb_of_lt (h : l.length < n) : absorb f n s l = s := by
  rw [absorb, Nat.div_eq_of_lt h]
  rfl

theorem rest_of_lt (h : l.length < n) : rest n l = l := by
  rw [rest, Nat.div_eq_of_lt h, Nat.zero_mul, List.drop_zero]

/-- **A stream that starts with a whole block.** -/
theorem absorb_of_le (hn : 0 < n) (h : n ≤ l.length) :
    absorb f n s l = absorb f n (f s (l.take n)) (l.drop n) := by
  have hdiv : l.length / n = (l.drop n).length / n + 1 := by
    rw [List.length_drop, Nat.div_eq_sub_div hn h]
  rw [absorb, hdiv]
  rfl

theorem rest_of_le (hn : 0 < n) (h : n ≤ l.length) : rest n l = rest n (l.drop n) := by
  have hdiv : l.length / n = (l.drop n).length / n + 1 := by
    rw [List.length_drop, Nat.div_eq_sub_div hn h]
  rw [rest, rest, hdiv, List.drop_drop, Nat.add_mul, Nat.one_mul, Nat.add_comm]

theorem absorb_block (hn : 0 < n) (h : l.length = n) :
    absorb f n s (l ++ m) = absorb f n (f s l) m := by
  rw [absorb_of_le hn (by rw [List.length_append]; omega), ← h, List.take_left, List.drop_left]

theorem rest_block (hn : 0 < n) (h : l.length = n) : rest n (l ++ m) = rest n m := by
  rw [rest_of_le hn (by rw [List.length_append]; omega), ← h, List.drop_left]

/-- **The fold goes on with what was left over.** The induction is on the
blocks of the first part. -/
theorem absorb_append (hn : 0 < n) (s : β) (l m : List α) :
    absorb f n s (l ++ m) = absorb f n (absorb f n s l) (rest n l ++ m) := by
  induction hlen : l.length using Nat.strongRecOn generalizing s l with
  | _ len ih =>
    by_cases hlt : l.length < n
    · rw [absorb_of_lt hlt, rest_of_lt hlt]
    · have hle : n ≤ l.length := Nat.le_of_not_lt hlt
      have hdrop : (l.drop n).length < len := by
        rw [List.length_drop]
        omega
      rw [absorb_of_le hn (by rw [List.length_append]; omega), List.take_append_of_le_length hle,
        List.drop_append_of_le_length hle, ih _ hdrop _ _ rfl, ← absorb_of_le hn hle,
        ← rest_of_le hn hle]

/-- What is left over depends only on what was left over before. -/
theorem rest_append (hn : 0 < n) (l m : List α) : rest n (l ++ m) = rest n (rest n l ++ m) := by
  induction hlen : l.length using Nat.strongRecOn generalizing l with
  | _ len ih =>
    by_cases hlt : l.length < n
    · rw [rest_of_lt hlt]
    · have hle : n ≤ l.length := Nat.le_of_not_lt hlt
      have hdrop : (l.drop n).length < len := by
        rw [List.length_drop]
        omega
      rw [rest_of_le hn (by rw [List.length_append]; omega), List.drop_append_of_le_length hle,
        ih _ hdrop _ rfl, ← rest_of_le hn hle]

/-! ## Writing into a list of fixed length -/

/-- `xs` written over `buf` from position `off` on, as far as `buf`
reaches. -/
def overwrite (buf : List α) (off : ℕ) (xs : List α) : List α :=
  buf.mapIdx fun i x => if off ≤ i then xs.getD (i - off) x else x

@[simp] theorem length_overwrite (buf : List α) (off : ℕ) (xs : List α) :
    (overwrite buf off xs).length = buf.length := List.length_mapIdx

/-- A write that fits, in three parts. -/
theorem overwrite_eq {buf xs : List α} {off : ℕ} (h : off + xs.length ≤ buf.length) :
    overwrite buf off xs = buf.take off ++ xs ++ buf.drop (off + xs.length) := by
  have hoff : (buf.take off).length = off := by rw [List.length_take]; omega
  apply List.ext_getElem
  · simp only [length_overwrite, List.length_append, List.length_drop, hoff]
    omega
  · intro i hi hi'
    rw [length_overwrite] at hi
    simp only [overwrite, List.getElem_mapIdx]
    by_cases hlo : off ≤ i
    · rw [if_pos hlo]
      by_cases hin : i < off + xs.length
      · rw [List.getElem_append_left (by rw [List.length_append]; omega),
          List.getElem_append_right (by omega), List.getD_eq_getElem _ _ (by omega)]
        simp only [hoff]
      · rw [List.getElem_append_right (by rw [List.length_append]; omega),
          List.getD_eq_default _ _ (by omega), List.getElem_drop]
        congr 1
        rw [List.length_append]
        omega
    · rw [if_neg hlo, List.getElem_append_left (by rw [List.length_append]; omega),
        List.getElem_append_left (by omega), List.getElem_take]

end Blocks

end HypervisorBase
