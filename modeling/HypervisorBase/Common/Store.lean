import Mathlib.Algebra.Group.Nat.Defs
/-!
# Lists in memory

A memory is a function from addresses to cells. `store` puts the cells of a
list there one after the other, and `Holds` says that they are there.
Stores next to each other are one store, and what a store does not reach it
leaves alone: a sequence of writes is read back from these two facts.
-/

namespace HypervisorBase

namespace Cells

variable {α : Type*} {mem mem' : ℕ → α} {a b i k : ℕ} {x : α} {xs ys : List α}

/-- The memory after the cells of a list are stored from an address on. -/
def store (mem : ℕ → α) (a : ℕ) (xs : List α) : ℕ → α :=
  fun i => if a ≤ i then (xs[i - a]?).getD (mem i) else mem i

/-- The cells of a list stand in memory from an address on. -/
def Holds (mem : ℕ → α) (a : ℕ) (xs : List α) : Prop :=
  ∀ k x, xs[k]? = some x → mem (a + k) = x

/-- The cells from an address on. -/
def load (mem : ℕ → α) (a n : ℕ) : List α := (List.range n).map fun i => mem (a + i)

@[simp] theorem length_load (mem : ℕ → α) (a n : ℕ) : (load mem a n).length = n := by
  rw [load, List.length_map, List.length_range]

/-! ## Stores -/

/-- **A store leaves alone what it does not reach.** -/
theorem store_of_outside (h : i < a ∨ a + xs.length ≤ i) : store mem a xs i = mem i := by
  unfold store
  rcases h with hlt | hge
  · rw [if_neg (by omega)]
  · rw [if_pos (by omega), List.getElem?_eq_none (by omega), Option.getD_none]

theorem store_of_getElem? (h : xs[k]? = some x) : store mem a xs (a + k) = x := by
  unfold store
  rw [if_pos (by omega), Nat.add_sub_cancel_left, h, Option.getD_some]

@[simp] theorem store_nil (mem : ℕ → α) (a : ℕ) : store mem a [] = mem := by
  funext i
  exact store_of_outside (by rw [List.length_nil]; omega)

/-- **Stores next to each other are one store.** -/
theorem store_store (mem : ℕ → α) (a : ℕ) (xs ys : List α) :
    store (store mem a xs) (a + xs.length) ys = store mem a (xs ++ ys) := by
  funext i
  unfold store
  by_cases hlo : a ≤ i
  · rw [if_pos hlo, if_pos hlo]
    by_cases hmid : a + xs.length ≤ i
    · have hpast : xs[i - a]? = none := List.getElem?_eq_none (by omega)
      rw [if_pos hmid, hpast, Option.getD_none, List.getElem?_append_right (by omega), Nat.sub_sub]
    · rw [if_neg hmid, List.getElem?_append_left (by omega)]
  · rw [if_neg (by omega), if_neg hlo, if_neg hlo]

/-- A store in the memory from an address on. -/
theorem store_shift (mem : ℕ → α) (a : ℕ) (xs : List α) :
    (fun i => if i < a then mem i else store (fun j => mem (a + j)) 0 xs (i - a)) =
      store mem a xs := by
  funext i
  by_cases hlt : i < a
  · rw [if_pos hlt, store_of_outside (.inl hlt)]
  · rw [if_neg hlt, store, store, if_pos (Nat.zero_le _), if_pos (by omega), Nat.sub_zero,
      Nat.add_sub_cancel' (by omega)]

/-- What a cell is after a store depends on what it was before. -/
theorem store_congr (h : mem i = mem' i) : store mem a xs i = store mem' a xs i := by
  unfold store
  rw [h]

/-! ## What is there -/

theorem holds_store (mem : ℕ → α) (a : ℕ) (xs : List α) : Holds (store mem a xs) a xs :=
  fun _ _ h => store_of_getElem? h

/-- It stays there under a store beside it. -/
theorem Holds.store (h : Holds mem a xs) (hapart : b + ys.length ≤ a ∨ a + xs.length ≤ b) :
    Holds (Cells.store mem b ys) a xs := by
  intro k x hk
  have hlt : k < xs.length := (List.getElem?_eq_some_iff.mp hk).1
  rw [store_of_outside (by omega)]
  exact h k x hk

theorem holds_append : Holds mem a (xs ++ ys) ↔ Holds mem a xs ∧ Holds mem (a + xs.length) ys := by
  constructor
  · intro h
    refine ⟨fun k x hk => ?_, fun k x hk => ?_⟩
    · have hlt : k < xs.length := (List.getElem?_eq_some_iff.mp hk).1
      exact h k x (by rwa [List.getElem?_append_left hlt])
    · rw [Nat.add_assoc]
      refine h (xs.length + k) x ?_
      rwa [List.getElem?_append_right (by omega), Nat.add_sub_cancel_left]
  · rintro ⟨hxs, hys⟩ k x hk
    by_cases hlt : k < xs.length
    · exact hxs k x (by rwa [List.getElem?_append_left hlt] at hk)
    · rw [List.getElem?_append_right (by omega)] at hk
      have hy := hys _ x hk
      rwa [Nat.add_assoc, Nat.add_sub_cancel' (by omega)] at hy

theorem holds_cons : Holds mem a (x :: xs) ↔ mem a = x ∧ Holds mem (a + 1) xs := by
  constructor
  · intro h
    refine ⟨h 0 x rfl, fun k y hk => ?_⟩
    rw [Nat.add_assoc, Nat.add_comm 1 k]
    exact h (k + 1) y hk
  · rintro ⟨hx, hxs⟩ k y hk
    cases k with
    | zero =>
      rw [List.getElem?_cons_zero, Option.some.injEq] at hk
      rw [Nat.add_zero, hx, hk]
    | succ k =>
      rw [List.getElem?_cons_succ] at hk
      have hy := hxs k y hk
      rwa [Nat.add_assoc, Nat.add_comm 1 k] at hy

/-- What is there is read. -/
theorem load_of_holds (h : Holds mem a xs) : load mem a xs.length = xs := by
  refine List.ext_getElem? fun k => ?_
  rw [load, List.getElem?_map]
  by_cases hk : k < xs.length
  · rw [List.getElem?_range hk, Option.map_some, List.getElem?_eq_getElem hk,
      h k _ (List.getElem?_eq_getElem hk)]
  · rw [List.getElem?_eq_none (by rw [List.length_range]; omega), Option.map_none,
      List.getElem?_eq_none (by omega)]

/-- It stays there where memory stays as it is. -/
theorem Holds.congr (h : Holds mem a xs) (heq : ∀ k < xs.length, mem' (b + k) = mem (a + k)) :
    Holds mem' b xs := by
  intro k x hk
  rw [heq k (List.getElem?_eq_some_iff.mp hk).1]
  exact h k x hk

end Cells

end HypervisorBase
