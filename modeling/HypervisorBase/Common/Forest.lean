import Mathlib.Tactic.Common
import Mathlib.Data.List.Induction
/-!
# Forests of tables in a heap

Nodes of a heap hold indexed child pointers, and some nodes are the roots
of named owners. `Forest` says that the live nodes are exactly those an
owner reaches by a path of bounded length, each by one owner and one
path. Linking a fresh node under an empty slot (`Forest.link`), adding a
root (`Forest.addRoot`) and rewriting only nodes at full depth
(`Forest.congr`) keep it, and for each of them the change of every path
is given exactly.
-/

namespace HypervisorBase

variable {V N I : Type*}

/-- The node a path of indices leads to from a node. -/
def follow (child : N → I → Option N) : N → List I → Option N
  | n, [] => some n
  | n, i :: p => (child n i).bind fun m => follow child m p

/-- The node an owner's path leads to. -/
def reach (root : V → Option N) (child : N → I → Option N) (v : V) (p : List I) : Option N :=
  (root v).bind fun r => follow child r p

section Paths

variable {root : V → Option N} {child : N → I → Option N} {v : V} {n r : N} {p : List I} {i : I}

@[simp] theorem follow_nil : follow child n [] = some n := rfl

@[simp] theorem follow_cons :
    follow child n (i :: p) = (child n i).bind fun m => follow child m p := rfl

/-- A path is followed to its last index and then once more. -/
theorem follow_concat (n : N) (p : List I) (i : I) :
    follow child n (p ++ [i]) = (follow child n p).bind fun m => child m i := by
  induction p generalizing n with
  | nil => cases h : child n i <;> simp [h]
  | cons j p ih =>
    simp only [List.cons_append, follow_cons]
    cases child n j with
    | none => rfl
    | some m => simpa using ih m

@[simp] theorem reach_nil : reach root child v [] = root v := by
  cases h : root v <;> simp [reach, h]

theorem reach_concat : reach root child v (p ++ [i]) =
    (reach root child v p).bind fun m => child m i := by
  cases h : root v with
  | none => simp [reach, h]
  | some r => simp [reach, h, follow_concat]

theorem reach_of_root (h : root v = some r) : reach root child v p = follow child r p := by
  simp [reach, h]

/-- A shorter path is reached wherever a longer one is. -/
theorem reach_take_isSome {m : N} (h : reach root child v (p ++ [i]) = some m) :
    ∃ t, reach root child v p = some t ∧ child t i = some m := by
  rw [reach_concat] at h
  exact Option.bind_eq_some_iff.mp h

end Paths

/-- **A forest of depth `d`.** The live nodes are the ones some owner
reaches within depth, and no node is reached twice. -/
structure Forest (d : ℕ) (alive : N → Prop) (root : V → Option N)
    (child : N → I → Option N) : Prop where
  /-- Nothing outside the live nodes is reached. -/
  closed : ∀ {v p n}, p.length ≤ d → reach root child v p = some n → alive n
  /-- Every live node is reached. -/
  owned : ∀ {n}, alive n → ∃ v p, p.length ≤ d ∧ reach root child v p = some n
  /-- And by one owner, along one path. -/
  unique : ∀ {v v' p p' n}, p.length ≤ d → p'.length ≤ d →
    reach root child v p = some n → reach root child v' p' = some n → v = v' ∧ p = p'

namespace Forest

variable {d : ℕ} {alive alive' : N → Prop} {root root' : V → Option N}
variable {child child' : N → I → Option N}

/-! ## Rewriting below the deepest tables -/

/-- Nodes at full depth hold no children, so a heap that agrees above
them reaches the same nodes. -/
theorem reach_congr (hsame : ∀ {v p m}, p.length < d → reach root child v p = some m →
      ∀ i, child' m i = child m i) {v : V} {p : List I} (hp : p.length ≤ d) :
    reach root child' v p = reach root child v p := by
  induction p using List.reverseRecOn with
  | nil => simp
  | append_singleton p i ih =>
    simp only [List.length_append, List.length_cons, List.length_nil] at hp
    rw [reach_concat, reach_concat, ih (by omega)]
    cases h : reach root child v p with
    | none => rfl
    | some m => simp only [Option.bind_some]; exact hsame (by omega) h i

/-- Only the children of reachable nodes matter. -/
theorem congr (hF : Forest d alive root child)
    (hsame : ∀ {v p m}, p.length < d → reach root child v p = some m →
      ∀ i, child' m i = child m i) : Forest d alive root child' where
  closed hp h := hF.closed hp (by rwa [reach_congr hsame hp] at h)
  owned hn := by
    obtain ⟨v, p, hp, h⟩ := hF.owned hn
    exact ⟨v, p, hp, by rwa [reach_congr hsame hp]⟩
  unique hp hp' h h' := hF.unique hp hp' (by rwa [reach_congr hsame hp] at h)
    (by rwa [reach_congr hsame hp'] at h')

/-! ## Linking a fresh node -/

section Link

variable {v : V} {p : List I} {t n₀ : N} {i : I}

/-- **A linked node is reached along one new path, and nothing else
moves.** -/
theorem reach_link [DecidableEq V] [DecidableEq I] (hF : Forest d alive root child)
    (hp : p.length < d) (ht : reach root child v p = some t) (hnone : child t i = none)
    (hti : child' t i = some n₀) (hn₀ : ∀ j, child' n₀ j = none)
    (hsame : ∀ {m j}, alive m → ¬ (m = t ∧ j = i) → child' m j = child m j)
    {w : V} {q : List I} (hq : q.length ≤ d) :
    reach root child' w q = if w = v ∧ q = p ++ [i] then some n₀ else reach root child w q := by
  induction q using List.reverseRecOn with
  | nil => simp
  | append_singleton q j ih =>
    simp only [List.length_append, List.length_cons, List.length_nil] at hq
    rw [reach_concat, ih (by omega)]
    by_cases hw : w = v ∧ q = p ++ [i]
    · -- past the new node there is nothing, before the link or after it
      obtain ⟨rfl, rfl⟩ := hw
      have hlen : p ++ [i] ++ [j] ≠ p ++ [i] := fun h => by
        simpa using congrArg List.length h
      rw [if_pos ⟨rfl, rfl⟩, if_neg fun h => hlen h.2, Option.bind_some, hn₀, reach_concat,
        reach_concat, ht, Option.bind_some, hnone, Option.bind_none]
    · rw [if_neg hw, reach_concat]
      cases hm : reach root child w q with
      | none =>
        rw [if_neg]
        · rfl
        · rintro ⟨rfl, hqp⟩
          rw [(List.append_inj' hqp rfl).1, ht] at hm
          exact absurd hm (by simp)
      | some m =>
        simp only [Option.bind_some]
        by_cases hmj : m = t ∧ j = i
        · obtain ⟨rfl, rfl⟩ := hmj
          obtain ⟨rfl, rfl⟩ := hF.unique (by omega) (by omega) hm ht
          rw [hti, if_pos ⟨rfl, rfl⟩]
        · rw [hsame (hF.closed (by omega) hm) hmj, if_neg]
          rintro ⟨rfl, hqp⟩
          obtain ⟨rfl, hji⟩ := List.append_inj' hqp rfl
          rw [ht] at hm
          exact hmj ⟨(Option.some.inj hm).symm, by simpa using hji⟩

/-- **Linking a fresh node under an empty slot keeps the forest.** -/
theorem link (hF : Forest d alive root child) (hp : p.length < d)
    (ht : reach root child v p = some t) (hnone : child t i = none) (hfresh : ¬ alive n₀)
    (hti : child' t i = some n₀) (hn₀ : ∀ j, child' n₀ j = none)
    (hsame : ∀ {m j}, alive m → ¬ (m = t ∧ j = i) → child' m j = child m j)
    (halive : ∀ m, alive' m ↔ alive m ∨ m = n₀) : Forest d alive' root child' := by
  classical
  have hreach : ∀ {w : V} {q : List I}, q.length ≤ d → reach root child' w q =
      if w = v ∧ q = p ++ [i] then some n₀ else reach root child w q :=
    fun hq => hF.reach_link hp ht hnone hti hn₀ hsame hq
  have hlen : (p ++ [i]).length ≤ d := by simp; omega
  refine ⟨fun {w q n} hq h => ?_, fun {n} hn => ?_, fun {w w' q q' n} hq hq' h h' => ?_⟩
  · rw [hreach hq] at h
    split at h
    · exact (halive n).2 (Or.inr (Option.some.inj h).symm)
    · exact (halive n).2 (Or.inl (hF.closed hq h))
  · rcases (halive n).1 hn with hn | rfl
    · obtain ⟨w, q, hq, h⟩ := hF.owned hn
      refine ⟨w, q, hq, ?_⟩
      rw [hreach hq, if_neg]
      · exact h
      · rintro ⟨rfl, rfl⟩
        rw [reach_concat, ht, Option.bind_some, hnone] at h
        exact absurd h (by simp)
    · exact ⟨v, p ++ [i], hlen, by rw [hreach hlen, if_pos ⟨rfl, rfl⟩]⟩
  · rw [hreach hq] at h
    rw [hreach hq'] at h'
    split at h <;> split at h'
    · rename_i h₁ h₂
      exact ⟨h₁.1.trans h₂.1.symm, h₁.2.trans h₂.2.symm⟩
    · exact absurd (hF.closed hq' h') (by rw [← Option.some.inj h]; exact hfresh)
    · exact absurd (hF.closed hq h) (by rw [← Option.some.inj h']; exact hfresh)
    · exact hF.unique hq hq' h h'

end Link

/-! ## Adding a root -/

section AddRoot

variable {v : V} {n₀ : N}

/-- A new owner reaches its own root and nothing else, and moves no
other owner. -/
theorem reach_addRoot [DecidableEq V] (hF : Forest d alive root child)
    (hroot : root' v = some n₀) (hother : ∀ w, w ≠ v → root' w = root w)
    (hn₀ : ∀ j, child' n₀ j = none) (hsame : ∀ {m j}, alive m → child' m j = child m j)
    {w : V} {q : List I} (hq : q.length ≤ d) :
    reach root' child' w q =
      if w = v then (if q = [] then some n₀ else none) else reach root child w q := by
  induction q using List.reverseRecOn with
  | nil =>
    by_cases hw : w = v
    · subst hw; simp [hroot]
    · simp [hw, hother w hw]
  | append_singleton q j ih =>
    simp only [List.length_append, List.length_cons, List.length_nil] at hq
    rw [reach_concat, ih (by omega)]
    by_cases hw : w = v
    · simp only [if_pos hw]
      by_cases hqe : q = []
      · simp [hqe, hn₀]
      · simp [hqe]
    · simp only [if_neg hw, reach_concat]
      cases hm : reach root child w q with
      | none => rfl
      | some m => simp only [Option.bind_some]; exact hsame (hF.closed (by omega) hm)

/-- **A fresh root of a new owner keeps the forest.** -/
theorem addRoot (hF : Forest d alive root child) (hnew : root v = none)
    (hfresh : ¬ alive n₀) (hroot : root' v = some n₀) (hother : ∀ w, w ≠ v → root' w = root w)
    (hn₀ : ∀ j, child' n₀ j = none) (hsame : ∀ {m j}, alive m → child' m j = child m j)
    (halive : ∀ m, alive' m ↔ alive m ∨ m = n₀) : Forest d alive' root' child' := by
  classical
  have hreach : ∀ {w : V} {q : List I}, q.length ≤ d → reach root' child' w q =
      if w = v then (if q = [] then some n₀ else none) else reach root child w q :=
    fun hq => hF.reach_addRoot hroot hother hn₀ hsame hq
  refine ⟨fun {w q n} hq h => ?_, fun {n} hn => ?_, fun {w w' q q' n} hq hq' h h' => ?_⟩
  · rw [hreach hq] at h
    split at h
    · split at h
      · exact (halive n).2 (Or.inr (Option.some.inj h).symm)
      · exact absurd h (by simp)
    · exact (halive n).2 (Or.inl (hF.closed hq h))
  · rcases (halive n).1 hn with hn | rfl
    · obtain ⟨w, q, hq, h⟩ := hF.owned hn
      refine ⟨w, q, hq, ?_⟩
      rw [hreach hq, if_neg]
      · exact h
      · rintro rfl
        simp [reach, hnew] at h
    · exact ⟨v, [], by simp, by rw [hreach (by simp)]; simp⟩
  · rw [hreach hq] at h
    rw [hreach hq'] at h'
    split at h <;> split at h'
    · rename_i hw hw'
      split at h <;> split at h'
      · rename_i he he'
        exact ⟨hw.trans hw'.symm, he.trans he'.symm⟩
      all_goals simp at h h'
    · split at h
      · exact absurd (hF.closed hq' h') (by rw [← Option.some.inj h]; exact hfresh)
      · exact absurd h (by simp)
    · split at h'
      · exact absurd (hF.closed hq h) (by rw [← Option.some.inj h']; exact hfresh)
      · exact absurd h' (by simp)
    · exact hF.unique hq hq' h h'

end AddRoot

end Forest

end HypervisorBase
