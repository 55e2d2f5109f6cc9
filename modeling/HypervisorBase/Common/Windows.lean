import Mathlib.Algebra.Group.Nat.Defs
import Mathlib.Data.List.Induction
import Mathlib.Tactic.Common
/-!
# Counting events in windows

A rate limit is about every interval of length `W` (`Sliding`). A counter
that starts a new window at the first event after the old one has expired
looks at some of them only: the windows `IsStart` describes, of which no
two overlap. `track_tracks` says what the counter holds after any
nondecreasing list of times, `fired_iff` that it passes a limit exactly
when one of its own windows does, and `sliding_of_window` that the limit
is passed then. The converse fails: a burst may lie across two windows.
-/

namespace HypervisorBase

namespace Windows

/-- The start of the current window and the events in it. -/
structure Counter where
  start : ℕ
  count : ℕ

/-- An event counts in the current window, or starts the next one. -/
def Counter.add (W : ℕ) (c : Counter) (t : ℕ) : Counter :=
  if c.start + W < t then ⟨t, 1⟩ else ⟨c.start, c.count + 1⟩

/-- The counter after some events, from an empty window at `t₀`. -/
def track (W t₀ : ℕ) (ts : List ℕ) : Counter := ts.foldl (Counter.add W) ⟨t₀, 0⟩

/-- The events in the interval of length `W` from `s`. -/
def within (W s : ℕ) (ts : List ℕ) : ℕ := ts.countP fun t => s ≤ t ∧ t ≤ s + W

/-- **Where the windows start**: at `t₀`, and at the first event after
each window. -/
inductive IsStart (W t₀ : ℕ) (ts : List ℕ) : ℕ → Prop
  | init : IsStart W t₀ ts t₀
  | next {s t : ℕ} : IsStart W t₀ ts s → t ∈ ts → s + W < t → (∀ t' ∈ ts, s + W < t' → t ≤ t') →
      IsStart W t₀ ts t

/-- More than `K` events in one of the windows. -/
def InOneWindow (W K t₀ : ℕ) (ts : List ℕ) : Prop := ∃ s, IsStart W t₀ ts s ∧ K < within W s ts

/-- **More than `K` events in some interval of length `W`** that ends at
`now` or before. -/
def Sliding (W K : ℕ) (ts : List ℕ) (now : ℕ) : Prop :=
  ∃ e ≤ now, K < ts.countP fun t => t ≤ e ∧ e ≤ t + W

/-- The counter has been above `K` after some of the events. -/
def Fired (W K t₀ : ℕ) (ts : List ℕ) : Prop :=
  ∃ before after, ts = before ++ after ∧ K < (track W t₀ before).count

variable {W K t₀ t : ℕ} {ts : List ℕ} {c : Counter}

theorem track_concat (W t₀ : ℕ) (ts : List ℕ) (t : ℕ) :
    track W t₀ (ts ++ [t]) = (track W t₀ ts).add W t := by
  unfold track
  rw [List.foldl_append]
  rfl

theorem within_concat (W s : ℕ) (ts : List ℕ) (t : ℕ) :
    within W s (ts ++ [t]) = within W s ts + if s ≤ t ∧ t ≤ s + W then 1 else 0 := by
  unfold within
  rw [List.countP_append, List.countP_singleton]
  simp only [decide_eq_true_eq]

/-- **A property of the beginnings of a longer list** is one of the
beginnings it had, or of all of it. -/
theorem exists_split_concat {α : Type*} {P : List α → Prop} {l : List α} {x : α} :
    (∃ before after, l ++ [x] = before ++ after ∧ P before) ↔
      (∃ before after, l = before ++ after ∧ P before) ∨ P (l ++ [x]) := by
  constructor
  · rintro ⟨before, after, heq, hP⟩
    rcases List.eq_nil_or_concat after with rfl | ⟨after, y, rfl⟩
    · rw [List.append_nil] at heq
      exact .inr (heq ▸ hP)
    · rw [List.concat_eq_append, ← List.append_assoc] at heq
      exact .inl ⟨before, after, List.append_inj_left' heq rfl, hP⟩
  · rintro (⟨before, after, rfl, hP⟩ | hP)
    · exact ⟨before, after ++ [x], List.append_assoc .., hP⟩
    · exact ⟨_, [], (List.append_nil _).symm, hP⟩

theorem pairwise_concat {l : List ℕ} {x : ℕ} :
    (l ++ [x]).Pairwise (· ≤ ·) ↔ l.Pairwise (· ≤ ·) ∧ ∀ y ∈ l, y ≤ x := by
  rw [List.pairwise_append]
  simp

/-- Whether a counter passes the limit can be computed. -/
instance : Decidable (Fired W K t₀ ts) :=
  decidable_of_iff (∃ k < ts.length + 1, K < (track W t₀ (ts.take k)).count) <| by
    constructor
    · rintro ⟨k, -, hlt⟩
      exact ⟨ts.take k, ts.drop k, (List.take_append_drop k ts).symm, hlt⟩
    · rintro ⟨before, after, rfl, hlt⟩
      refine ⟨before.length, ?_, ?_⟩
      · rw [List.length_append]
        omega
      · rw [List.take_left]
        exact hlt

/-! ## Windows and a later event -/

section Later

variable (hmax : ∀ t' ∈ ts, t' ≤ t)

include hmax

/-- A later event moves no start. -/
theorem IsStart.concat {s : ℕ} (hs : IsStart W t₀ ts s) : IsStart W t₀ (ts ++ [t]) s := by
  induction hs with
  | init => exact .init
  | next _ hmem hlt hfirst ih =>
    refine .next ih (List.mem_append_left _ hmem) hlt fun t' ht' hafter => ?_
    rcases List.mem_append.mp ht' with hold | hnew
    · exact hfirst t' hold hafter
    · rw [List.mem_singleton.mp hnew]
      exact hmax _ hmem

/-- A start is an old one, or the later event after an old window. -/
theorem IsStart.of_concat {s : ℕ} (hs : IsStart W t₀ (ts ++ [t]) s) :
    IsStart W t₀ ts s ∨ s = t ∧ ∃ s₀, IsStart W t₀ ts s₀ ∧ s₀ + W < t ∧
      ∀ t' ∈ ts, s₀ + W < t' → t ≤ t' := by
  induction hs with
  | init => exact .inl .init
  | @next s₀ t₁ _ hmem hlt hfirst ih =>
    have hfirst' : ∀ t' ∈ ts, s₀ + W < t' → t₁ ≤ t' :=
      fun t' ht' => hfirst t' (List.mem_append_left _ ht')
    have hle : t₁ ≤ t := by
      rcases List.mem_append.mp hmem with hold | hnew
      · exact hmax t₁ hold
      · exact Nat.le_of_eq (List.mem_singleton.mp hnew)
    rcases ih with hold | ⟨rfl, -⟩
    · rcases List.mem_append.mp hmem with hin | hnew
      · exact .inl (.next hold hin hlt hfirst')
      · obtain rfl := List.mem_singleton.mp hnew
        exact .inr ⟨rfl, s₀, hold, hlt, hfirst'⟩
    · -- nothing comes after the last event
      omega

end Later

theorem IsStart.mem {s : ℕ} (hs : IsStart W t₀ ts s) : s = t₀ ∨ s ∈ ts := by
  cases hs with
  | init => exact .inl rfl
  | next _ hmem _ _ => exact .inr hmem

/-- The first window starts first. -/
theorem IsStart.le {s : ℕ} (hs : IsStart W t₀ ts s) : t₀ ≤ s := by
  induction hs with
  | init => exact Nat.le_refl t₀
  | next _ _ hlt _ ih => omega

/-! ## What the counter holds -/

/-- **The counter is at the last window**, which no event is beyond, and
holds the events in it. -/
structure Tracks (W t₀ : ℕ) (ts : List ℕ) (c : Counter) : Prop where
  start : IsStart W t₀ ts c.start
  last : ∀ s, IsStart W t₀ ts s → s = c.start ∨ s + W < c.start
  covers : ∀ t ∈ ts, t ≤ c.start + W
  count : c.count = within W c.start ts

/-- The next event, not before any other. -/
theorem Tracks.add (h : Tracks W t₀ ts c) (hmax : ∀ t' ∈ ts, t' ≤ t) (hinit : t₀ ≤ t) :
    Tracks W t₀ (ts ++ [t]) (c.add W t) := by
  have hstart : c.start ≤ t := by
    rcases h.start.mem with heq | hmem
    · rw [heq]
      exact hinit
    · exact hmax _ hmem
  unfold Counter.add
  by_cases hexp : c.start + W < t
  · rw [if_pos hexp]
    -- the window has expired, and the event is the first one after it
    have hfirst : ∀ t' ∈ ts ++ [t], c.start + W < t' → t ≤ t' := by
      intro t' ht' hafter
      rcases List.mem_append.mp ht' with hold | hnew
      · exact absurd (h.covers t' hold) (Nat.not_le.mpr hafter)
      · exact Nat.le_of_eq (List.mem_singleton.mp hnew).symm
    refine ⟨.next (h.start.concat hmax) (List.mem_append_right _ (List.mem_singleton_self t)) hexp
      hfirst, fun s hs => ?_, fun t' ht' => ?_, ?_⟩
    · rcases hs.of_concat hmax with hold | ⟨heq, -⟩
      · rcases h.last s hold with rfl | hlt
        · exact .inr hexp
        · exact .inr (by dsimp only; omega)
      · exact .inl heq
    · rcases List.mem_append.mp ht' with hold | hnew
      · exact Nat.le_trans (hmax t' hold) (Nat.le_add_right t W)
      · rw [List.mem_singleton.mp hnew]
        exact Nat.le_add_right t W
    · have hnone : within W t ts = 0 := by
        refine List.countP_eq_zero.mpr fun t' ht' hin => ?_
        have := h.covers t' ht'
        have := (of_decide_eq_true hin).1
        omega
      rw [within_concat, hnone, if_pos ⟨Nat.le_refl t, Nat.le_add_right t W⟩]
  · rw [if_neg hexp]
    refine ⟨h.start.concat hmax, fun s hs => ?_, fun t' ht' => ?_, ?_⟩
    · rcases hs.of_concat hmax with hold | ⟨rfl, s₀, hold, hlt, hfirst⟩
      · exact h.last s hold
      · -- an event after an earlier window than the last is where the last one starts
        rcases h.last s₀ hold with rfl | hbefore
        · exact absurd hlt hexp
        · rcases h.start.mem with heq | hmem
          · have := hold.le
            omega
          · exact .inl (Nat.le_antisymm (hfirst _ hmem hbefore) hstart)
    · rcases List.mem_append.mp ht' with hold | hnew
      · exact h.covers t' hold
      · rw [List.mem_singleton.mp hnew]
        exact Nat.not_lt.mp hexp
    · rw [within_concat, if_pos ⟨hstart, Nat.not_lt.mp hexp⟩, ← h.count]

/-- **The counter after any events**, in the order of their times. -/
theorem track_tracks (hsorted : (t₀ :: ts).Pairwise (· ≤ ·)) : Tracks W t₀ ts (track W t₀ ts) := by
  induction ts using List.reverseRecOn with
  | nil =>
    refine ⟨.init, fun s hs => ?_, fun t ht => absurd ht List.not_mem_nil, rfl⟩
    rcases hs.mem with heq | hmem
    · exact .inl heq
    · exact absurd hmem List.not_mem_nil
  | append_singleton ts t ih =>
    obtain ⟨hbefore, hmax⟩ := pairwise_concat (l := t₀ :: ts) (x := t) |>.mp hsorted
    rw [track_concat]
    exact (ih hbefore).add (fun t' ht' => hmax t' (List.mem_cons_of_mem _ ht'))
      (hmax t₀ List.mem_cons_self)

/-! ## Passing the limit -/

theorem fired_concat : Fired W K t₀ (ts ++ [t]) ↔
    Fired W K t₀ ts ∨ K < (track W t₀ (ts ++ [t])).count :=
  exists_split_concat

/-- One more event puts more than `K` in one of the windows only if it does
so in the last. -/
theorem inOneWindow_concat (htracks : Tracks W t₀ (ts ++ [t]) c) (hmax : ∀ t' ∈ ts, t' ≤ t)
    (hinit : t₀ ≤ t) : InOneWindow W K t₀ (ts ++ [t]) ↔ InOneWindow W K t₀ ts ∨ K < c.count := by
  have hstart : c.start ≤ t := by
    rcases htracks.start.mem with heq | hmem
    · rw [heq]
      exact hinit
    · rcases List.mem_append.mp hmem with hold | hnew
      · exact hmax _ hold
      · exact Nat.le_of_eq (List.mem_singleton.mp hnew)
  constructor
  · rintro ⟨s, hs, hmany⟩
    rcases htracks.last s hs with rfl | hbefore
    · exact .inr (htracks.count ▸ hmany)
    · -- the event is beyond this window
      rw [within_concat, if_neg (by omega)] at hmany
      rcases hs.of_concat hmax with hold | ⟨rfl, -⟩
      · exact .inl ⟨s, hold, hmany⟩
      · omega
  · rintro (⟨s, hs, hmany⟩ | hmany)
    · refine ⟨s, hs.concat hmax, ?_⟩
      rw [within_concat]
      exact Nat.lt_add_right _ hmany
    · exact ⟨c.start, htracks.start, htracks.count ▸ hmany⟩

/-- **The counter passes the limit exactly when one of its windows does.** -/
theorem fired_iff (hsorted : (t₀ :: ts).Pairwise (· ≤ ·)) :
    Fired W K t₀ ts ↔ InOneWindow W K t₀ ts := by
  induction ts using List.reverseRecOn with
  | nil =>
    constructor
    · rintro ⟨before, after, heq, hlt⟩
      obtain ⟨rfl, -⟩ := List.append_eq_nil_iff.mp heq.symm
      exact absurd hlt (Nat.not_lt_zero K)
    · rintro ⟨s, -, hlt⟩
      exact absurd hlt (Nat.not_lt_zero K)
  | append_singleton ts t ih =>
    obtain ⟨hbefore, hmax⟩ := pairwise_concat (l := t₀ :: ts) (x := t) |>.mp hsorted
    rw [fired_concat, ih hbefore, inOneWindow_concat (track_tracks hsorted)
      (fun t' ht' => hmax t' (List.mem_cons_of_mem _ ht')) (hmax t₀ List.mem_cons_self)]

/-- **The limit is passed when a window passes it.** -/
theorem sliding_of_window {now : ℕ} (hnow : ∀ t ∈ ts, t ≤ now) (hwin : InOneWindow W K t₀ ts) :
    Sliding W K ts now := by
  obtain ⟨s, -, hmany⟩ := hwin
  refine ⟨min (s + W) now, Nat.min_le_right .., Nat.lt_of_lt_of_le hmany ?_⟩
  refine List.countP_mono_left fun t ht hin => ?_
  have hle := hnow t ht
  have hbounds := of_decide_eq_true hin
  exact decide_eq_true (by omega)

end Windows

end HypervisorBase
