import Mathlib.Data.List.Basic
/-!
# Streaks

The streak of `x` at the end of a list: how many times it stands there in
a row. A counter that is reset by every other entry keeps its length.
-/

namespace HypervisorBase

variable {α : Type*} {k j : ℕ} {x y : α} {l : List α}

/-- **The list ends in exactly `k` copies of `x`.** -/
def EndsRun (k : ℕ) (x : α) (l : List α) : Prop :=
  ∃ before, l = before ++ List.replicate k x ∧ before.getLast? ≠ some x

theorem endsRun_nil (x : α) : EndsRun 0 x [] := ⟨[], rfl, by simp⟩

theorem EndsRun.le_length (h : EndsRun k x l) : k ≤ l.length := by
  obtain ⟨before, rfl, -⟩ := h
  rw [List.length_append, List.length_replicate]
  exact Nat.le_add_left _ _

/-- One more of the same. -/
theorem EndsRun.concat (h : EndsRun k x l) : EndsRun (k + 1) x (l ++ [x]) := by
  obtain ⟨before, rfl, hlast⟩ := h
  refine ⟨before, ?_, hlast⟩
  rw [List.replicate_succ', List.append_assoc]

/-- A list that ends in a streak ends in its entry. -/
theorem EndsRun.getLast? (h : EndsRun k x l) (hk : k ≠ 0) : l.getLast? = some x := by
  obtain ⟨before, rfl, -⟩ := h
  obtain ⟨j, rfl⟩ := Nat.exists_eq_succ_of_ne_zero hk
  rw [List.replicate_succ', ← List.append_assoc]
  exact List.getLast?_concat

/-- **Another entry starts a streak of its own.** -/
theorem EndsRun.concat_of_ne (h : EndsRun k x l) (hempty : k = 0 → l = []) (hne : y ≠ x) :
    EndsRun 1 y (l ++ [y]) := by
  refine ⟨l, rfl, ?_⟩
  by_cases hk : k = 0
  · rw [hempty hk]
    simp
  · rw [h.getLast? hk]
    exact fun heq => hne (Option.some.inj heq).symm

/-- **A list has one streak of an entry.** -/
theorem EndsRun.unique (h : EndsRun k x l) (h' : EndsRun j x l) : k = j := by
  induction k generalizing l j with
  | zero =>
    obtain ⟨before, rfl, hlast⟩ := h
    by_contra hj
    rw [List.replicate_zero, List.append_nil] at h'
    exact hlast (h'.getLast? (Ne.symm hj))
  | succ k ih =>
    obtain ⟨before, hl, hlast⟩ := h
    obtain ⟨before', hl', hlast'⟩ := h'
    cases j with
    | zero =>
      rw [List.replicate_zero, List.append_nil] at hl'
      rw [← hl', hl, List.replicate_succ', ← List.append_assoc] at hlast'
      exact absurd List.getLast?_concat hlast'
    | succ j =>
      rw [hl, List.replicate_succ', List.replicate_succ', ← List.append_assoc,
        ← List.append_assoc] at hl'
      exact congrArg Nat.succ (ih ⟨before, rfl, hlast⟩
        ⟨before', List.append_cancel_right hl', hlast'⟩)

end HypervisorBase
