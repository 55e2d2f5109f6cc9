import Mathlib.Data.List.Range
import Mathlib.Data.Nat.ModEq
import Mathlib.Logic.Function.Basic
/-!
# Ring buffers

A ring of `n` slots with a head, a tail and a count. Read from its head
on, a ring in order holds a list of at most `n` entries; writing at the
tail appends to that list and advancing the head drops its first entry.

A ring that is never emptied overwrites its oldest entry. `Holds` says
that such a ring has the newest entries of a history at their places.
-/

namespace HypervisorBase

namespace Ring

variable {α : Type*} {n head tail count : ℕ} {slots : ℕ → α}

/-- **A ring in order.** -/
structure InOrder (n head tail count : ℕ) : Prop where
  head_lt : head < n
  count_le : count ≤ n
  tail_eq : tail = (head + count) % n

/-- The entries from the head on. -/
def contents (n : ℕ) (slots : ℕ → α) (head count : ℕ) : List α :=
  (List.range count).map fun i => slots ((head + i) % n)

@[simp] theorem length_contents : (contents n slots head count).length = count := by
  simp [contents]

theorem inOrder_empty (hn : 0 < n) : InOrder n 0 0 0 := ⟨hn, Nat.zero_le _, by simp⟩

@[simp] theorem contents_zero : contents n slots head 0 = [] := rfl

theorem InOrder.tail_lt (h : InOrder n head tail count) : tail < n := by
  rw [h.tail_eq]
  exact Nat.mod_lt _ (Nat.lt_of_le_of_lt (Nat.zero_le _) h.head_lt)

/-- An entry that is held does not stand where the next one goes. -/
theorem InOrder.index_ne (h : InOrder n head tail count) {i : ℕ} (hi : i < count)
    (hroom : count < n) : (head + i) % n ≠ tail := by
  have hhead := h.head_lt
  rw [h.tail_eq]
  -- both indices are less than twice the size, so each wraps at most once
  rcases Nat.lt_or_ge (head + i) n with h₁ | h₁
  · rw [Nat.mod_eq_of_lt h₁]
    rcases Nat.lt_or_ge (head + count) n with h₂ | h₂
    · rw [Nat.mod_eq_of_lt h₂]
      omega
    · rw [Nat.mod_eq_sub_mod h₂, Nat.mod_eq_of_lt (by omega)]
      omega
  · rw [Nat.mod_eq_sub_mod h₁, Nat.mod_eq_of_lt (by omega), Nat.mod_eq_sub_mod (by omega),
      Nat.mod_eq_of_lt (by omega)]
    omega

/-- **Writing at the tail appends.** -/
theorem InOrder.push (h : InOrder n head tail count) (hroom : count < n) (slots : ℕ → α) (x : α) :
    InOrder n head ((tail + 1) % n) (count + 1) ∧
      contents n (Function.update slots tail x) head (count + 1) =
        contents n slots head count ++ [x] := by
  refine ⟨⟨h.head_lt, hroom, ?_⟩, ?_⟩
  · rw [h.tail_eq, Nat.mod_add_mod, Nat.add_assoc]
  · rw [contents, List.range_succ, List.map_append, List.map_singleton, ← h.tail_eq,
      Function.update_self]
    congr 1
    refine List.map_congr_left fun i hi => ?_
    exact Function.update_of_ne (h.index_ne (List.mem_range.mp hi) hroom) x slots

/-- **Advancing the head drops the first entry.** -/
theorem InOrder.pop (h : InOrder n head tail count) (hpos : 0 < count) (slots : ℕ → α) :
    InOrder n ((head + 1) % n) tail (count - 1) ∧
      contents n slots head count =
        slots head :: contents n slots ((head + 1) % n) (count - 1) := by
  obtain ⟨k, rfl⟩ : ∃ k, count = k + 1 := ⟨count - 1, by omega⟩
  have hhead := h.head_lt
  have hcount := h.count_le
  have hpos : 0 < n := by omega
  refine ⟨⟨Nat.mod_lt _ hpos, by omega, ?_⟩, ?_⟩
  · rw [h.tail_eq, Nat.mod_add_mod, Nat.add_sub_cancel, Nat.add_assoc, Nat.add_comm 1 k]
  · rw [contents, List.range_succ_eq_map, List.map_cons, List.map_map, Nat.add_zero,
      Nat.mod_eq_of_lt hhead, Nat.add_sub_cancel, contents]
    congr 1
    refine List.map_congr_left fun i _ => ?_
    rw [Function.comp_apply, Nat.mod_add_mod, Nat.succ_eq_add_one, Nat.add_assoc, Nat.add_comm 1 i]

/-! ## Rings that overwrite -/

variable {l : List α}

/-- **The newest `n` entries of a history are in the ring**: the entry
written as number `k` stands in slot `k % n`. -/
def Holds (n : ℕ) (l : List α) (slots : ℕ → α) : Prop :=
  ∀ k (hk : k < l.length), l.length ≤ k + n → slots (k % n) = l[k]

theorem holds_nil (n : ℕ) (slots : ℕ → α) : Holds n [] slots :=
  fun _ hk => absurd hk (Nat.not_lt_zero _)

/-- Two numbers less than `n` apart have different slots. -/
theorem mod_ne_of_lt {j k : ℕ} (hjk : j < k) (hnear : k < j + n) : j % n ≠ k % n := by
  intro heq
  have hdvd : n ∣ k - j := (Nat.modEq_iff_dvd' (Nat.le_of_lt hjk)).mp heq
  have hle := Nat.le_of_dvd (by omega) hdvd
  omega

/-- **Writing the next entry** loses the oldest one and no other. -/
theorem Holds.push (h : Holds n l slots) (x : α) :
    Holds n (l ++ [x]) (Function.update slots (l.length % n) x) := by
  intro k hk hnew
  rw [List.length_append, List.length_singleton] at hk hnew
  rcases Nat.lt_or_ge k l.length with hold | hlast
  · rw [Function.update_of_ne (mod_ne_of_lt hold (by omega)), List.getElem_append_left hold]
    exact h k hold (by omega)
  · obtain rfl : k = l.length := by omega
    rw [Function.update_self, List.getElem_concat_length rfl]

/-- **Reading the ring from some entry of the history on** gives the
history from there on. -/
theorem Holds.contents_eq (h : Holds n l slots) {start count : ℕ} (hcount : count ≤ n)
    (hend : start + count = l.length) : contents n slots start count = l.drop start := by
  refine List.ext_getElem (by rw [length_contents, List.length_drop]; omega) fun i hi hi' => ?_
  rw [length_contents] at hi
  simp only [contents, List.getElem_map, List.getElem_range, List.getElem_drop]
  exact h (start + i) (by omega) (by omega)

/-- Where the reading starts counts only up to `n`. -/
theorem contents_mod (n : ℕ) (slots : ℕ → α) (start count : ℕ) :
    contents n slots (start % n) count = contents n slots start count := by
  refine List.map_congr_left fun i _ => ?_
  rw [Nat.mod_add_mod]

end Ring

end HypervisorBase
