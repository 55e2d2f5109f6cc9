import Mathlib.Data.Nat.Find
/-!
# A bounded number of attempts

A loop that reads an entry, judges it, and stops at the first one that
passes or when its attempts are used up. Reading may find too little to go
on; then the loop has no result yet.
-/

namespace HypervisorBase

namespace Retry

variable {σ α : Type*} (read : σ → Option (α × σ))

/-- What is left after `k` entries. -/
def after : ℕ → σ → Option σ
  | 0, s => some s
  | k + 1, s => (read s).bind fun e => after k e.2

/-- Entry number `k`. -/
def entry (k : ℕ) (s : σ) : Option α := ((after read k s).bind read).map Prod.fst

@[simp] theorem after_zero (s : σ) : after read 0 s = some s := rfl

@[simp] theorem entry_zero (s : σ) : entry read 0 s = (read s).map Prod.fst := rfl

theorem after_succ {s t : σ} {a : α} (h : read s = some (a, t)) (k : ℕ) :
    after read (k + 1) s = after read k t := by
  rw [after, h]
  rfl

theorem entry_succ {s t : σ} {a : α} (h : read s = some (a, t)) (k : ℕ) :
    entry read (k + 1) s = entry read k t := by
  rw [entry, after_succ read h]
  rfl

theorem after_succ_of_none {s : σ} (h : read s = none) (k : ℕ) : after read (k + 1) s = none := by
  rw [after, h]
  rfl

theorem entry_of_none {s : σ} (h : read s = none) (k : ℕ) : entry read k s = none := by
  cases k with
  | zero => rw [entry_zero, h]; rfl
  | succ k => rw [entry, after_succ_of_none read h]; rfl

/-- An entry that was read leaves something behind it. -/
theorem exists_after_of_entry {k : ℕ} {s : σ} {a : α} (h : entry read k s = some a) :
    ∃ t, after read (k + 1) s = some t := by
  induction k generalizing s with
  | zero =>
    cases hread : read s with
    | none => rw [entry_zero, hread] at h; cases h
    | some e => exact ⟨e.2, by rw [after_succ read (show read s = some (e.1, e.2) from hread)]; rfl⟩
  | succ k ih =>
    cases hread : read s with
    | none => rw [entry_of_none read hread] at h; cases h
    | some e =>
      rw [entry_succ read (show read s = some (e.1, e.2) from hread)] at h
      rw [after_succ read (show read s = some (e.1, e.2) from hread)]
      exact ih h

theorem after_add (k n : ℕ) (s : σ) : after read (k + n) s = (after read k s).bind (after read n) := by
  induction k generalizing s with
  | zero => rw [Nat.zero_add, after_zero, Option.bind_some]
  | succ k ih =>
    rw [Nat.succ_add, after, after, Option.bind_assoc]
    congr 1
    funext e
    exact ih e.2

/-- Where reading uses something up, what is left tells how many entries
were read. -/
theorem after_inj {m : σ → ℕ} (hm : ∀ s a t, read s = some (a, t) → m t < m s) {k n : ℕ} {s t : σ}
    (hk : after read k s = some t) (hn : after read n s = some t) : k = n := by
  have hbound : ∀ j u v, after read j u = some v → m v + j ≤ m u := by
    intro j
    induction j with
    | zero =>
      intro u v h
      cases h
      exact Nat.le_refl _
    | succ j ih =>
      intro u v h
      cases hread : read u with
      | none => rw [after_succ_of_none read hread] at h; cases h
      | some e =>
        have hread : read u = some (e.1, e.2) := hread
        rw [after_succ read hread] at h
        have hlt := hm _ _ _ hread
        have hle := ih _ _ h
        omega
  -- two different counts would read entries and be left with the same
  have hloop : ∀ j, after read j t = some t → j = 0 := by
    intro j hj
    have := hbound j t t hj
    omega
  rcases Nat.le_total k n with hle | hle
  · obtain ⟨d, rfl⟩ := Nat.exists_eq_add_of_le hle
    rw [after_add, hk, Option.bind_some] at hn
    rw [hloop d hn, Nat.add_zero]
  · obtain ⟨d, rfl⟩ := Nat.exists_eq_add_of_le hle
    rw [after_add, hn, Option.bind_some] at hk
    rw [hloop d hk, Nat.add_zero]

/-- The loop, with `n` attempts left of which the first is number `k`. -/
def retry (passes : ℕ → α → Prop) [∀ k a, Decidable (passes k a)] :
    ℕ → ℕ → σ → Option (Bool × σ)
  | 0, _, s => some (false, s)
  | n + 1, k, s =>
    (read s).bind fun e => if passes k e.1 then some (true, e.2) else retry passes n (k + 1) e.2

/-- **An entry that passes, none before it doing so.** -/
def FirstPass (passes : ℕ → α → Prop) (base k : ℕ) (s : σ) : Prop :=
  (∃ a, entry read k s = some a ∧ passes (base + k) a) ∧
    ∀ j < k, ∀ a, entry read j s = some a → ¬passes (base + j) a

variable {read}

variable {passes : ℕ → α → Prop}

theorem firstPass_zero {s t : σ} {a : α} (h : read s = some (a, t)) (base : ℕ) :
    FirstPass read passes base 0 s ↔ passes base a := by
  constructor
  · rintro ⟨⟨b, hb, hpass⟩, _⟩
    rw [entry_zero, h] at hb
    cases hb
    exact hpass
  · intro hpass
    refine ⟨⟨a, by rw [entry_zero, h]; rfl, hpass⟩, ?_⟩
    intro j hj
    omega

/-- A later attempt passes first if this one fails. -/
theorem firstPass_succ {s t : σ} {a : α} (h : read s = some (a, t)) (base k : ℕ) :
    FirstPass read passes base (k + 1) s ↔
      ¬passes base a ∧ FirstPass read passes (base + 1) k t := by
  have hshift : ∀ j, base + (j + 1) = base + 1 + j := by
    intro j
    omega
  constructor
  · rintro ⟨⟨b, hb, hpass⟩, hnone⟩
    rw [entry_succ read h] at hb
    rw [hshift] at hpass
    refine ⟨hnone 0 (by omega) a (by rw [entry_zero, h]; rfl), ⟨b, hb, hpass⟩, ?_⟩
    intro j hj c hc
    rw [← hshift]
    exact hnone (j + 1) (by omega) c (by rw [entry_succ read h]; exact hc)
  · rintro ⟨hfail, ⟨b, hb, hpass⟩, hnone⟩
    refine ⟨⟨b, by rw [entry_succ read h]; exact hb, by rw [hshift]; exact hpass⟩, ?_⟩
    intro j hj c hc
    cases j with
    | zero =>
      rw [entry_zero, h] at hc
      cases hc
      exact hfail
    | succ j =>
      rw [entry_succ read h] at hc
      rw [hshift]
      exact hnone j (by omega) c hc

/-- Where an entry passes there is a first one. -/
theorem exists_firstPass {n base k : ℕ} {s : σ} {a : α} (hk : k < n)
    (hentry : entry read k s = some a) (hpass : passes (base + k) a) :
    ∃ j < n, FirstPass read passes base j s := by
  classical
  have hex : ∃ j, ∃ b, entry read j s = some b ∧ passes (base + j) b := ⟨k, a, hentry, hpass⟩
  refine ⟨Nat.find hex, Nat.lt_of_le_of_lt (Nat.find_min' hex ⟨a, hentry, hpass⟩) hk,
    Nat.find_spec hex, ?_⟩
  intro j hj b hb hpassj
  exact Nat.find_min hex hj ⟨b, hb, hpassj⟩

variable [∀ k a, Decidable (passes k a)]

/-- **The loop succeeds at the first entry that passes**, and leaves what
is behind it. The induction is on the attempts. -/
theorem retry_eq_true_iff {n base : ℕ} {s t : σ} :
    retry read passes n base s = some (true, t) ↔
      ∃ k < n, after read (k + 1) s = some t ∧ FirstPass read passes base k s := by
  induction n generalizing base s with
  | zero =>
    constructor
    · intro h
      cases h
    · rintro ⟨k, hk, _⟩
      omega
  | succ n ih =>
    cases hread : read s with
    | none =>
      rw [retry, hread]
      constructor
      · intro h
        cases h
      · rintro ⟨k, _, hk, _⟩
        rw [after_succ_of_none read hread] at hk
        cases hk
    | some e =>
      have hread : read s = some (e.1, e.2) := hread
      rw [retry, hread, Option.bind_some]
      by_cases hpass : passes base e.1
      · rw [if_pos hpass]
        constructor
        · intro h
          cases h
          exact ⟨0, by omega, by rw [after_succ read hread]; rfl,
            (firstPass_zero hread base).mpr hpass⟩
        · rintro ⟨k, hk, hafter, hfirst⟩
          cases k with
          | zero =>
            rw [after_succ read hread] at hafter
            cases hafter
            rfl
          | succ k => exact absurd hpass ((firstPass_succ hread base k).mp hfirst).1
      · rw [if_neg hpass, ih]
        constructor
        · rintro ⟨k, hk, hafter, hfirst⟩
          exact ⟨k + 1, by omega, by rw [after_succ read hread]; exact hafter,
            (firstPass_succ hread base k).mpr ⟨hpass, hfirst⟩⟩
        · rintro ⟨k, hk, hafter, hfirst⟩
          cases k with
          | zero => exact absurd ((firstPass_zero hread base).mp hfirst) hpass
          | succ k =>
            rw [after_succ read hread] at hafter
            exact ⟨k, by omega, hafter, ((firstPass_succ hread base k).mp hfirst).2⟩

/-- **The loop reads no more entries than it has attempts.** -/
theorem exists_after_of_retry {n base : ℕ} {s t : σ} {b : Bool}
    (h : retry read passes n base s = some (b, t)) : ∃ k ≤ n, after read k s = some t := by
  induction n generalizing base s with
  | zero =>
    cases h
    exact ⟨0, Nat.le_refl _, rfl⟩
  | succ n ih =>
    cases hread : read s with
    | none =>
      rw [retry, hread] at h
      cases h
    | some e =>
      have hread : read s = some (e.1, e.2) := hread
      rw [retry, hread, Option.bind_some] at h
      by_cases hpass : passes base e.1
      · rw [if_pos hpass] at h
        cases h
        exact ⟨1, by omega, by rw [after_succ read hread]; rfl⟩
      · rw [if_neg hpass] at h
        obtain ⟨k, hk, hafter⟩ := ih h
        exact ⟨k + 1, by omega, by rw [after_succ read hread]; exact hafter⟩

end Retry

end HypervisorBase
