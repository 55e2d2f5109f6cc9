import Mathlib.Tactic.Common
/-!
# Turns around a table

Places on a circle are given turns. A turn goes to the next ready place
after the last one, and a place that yields instead of being preempted
passes on its turn to the next ready place of another owner, if there is
one. `picks_owner` bounds how long an owner waits, whatever the mix of
the two, by the number of places. A single place has no such bound: one
that follows another of its own owner is passed over each time that one
yields, and `Table.Spread` is when this cannot happen.
-/

namespace HypervisorBase

namespace RoundRobin

/-! ## The circle -/

/-- The steps forward from `a` to `b` on a circle of `n` places, between 1
and `n`. -/
def gap (n a b : ℕ) : ℕ := if a < b then b - a else n + b - a

section Circle

variable {n a b k x : ℕ}

theorem gap_cases (n a b : ℕ) :
    a < b ∧ gap n a b = b - a ∨ b ≤ a ∧ gap n a b = n + b - a := by
  unfold gap
  split
  · exact .inl ⟨by assumption, rfl⟩
  · exact .inr ⟨by omega, rfl⟩

theorem gap_pos (ha : a < n) : 0 < gap n a b := by
  rcases gap_cases n a b with h | h <;> omega

theorem gap_le (hb : b < n) : gap n a b ≤ n := by
  rcases gap_cases n a b with h | h <;> omega

theorem gap_lt_of_ne (hb : b < n) (hne : a ≠ b) : gap n a b < n := by
  rcases gap_cases n a b with h | h <;> omega

/-- What is left of the way after a part of it. -/
theorem gap_add (ha : a < n) (hk : k < n) (hx : x < n) (hlt : gap n a k < gap n a x) :
    gap n a k + gap n k x = gap n a x := by
  rcases gap_cases n a k with hak | hak <;> rcases gap_cases n a x with hax | hax <;>
    rcases gap_cases n k x with hkx | hkx <;> omega

theorem gap_inj (ha : a < n) (hk : k < n) (hx : x < n) (heq : gap n a k = gap n a x) : k = x := by
  rcases gap_cases n a k with hak | hak <;> rcases gap_cases n a x with hax | hax <;> omega

/-- The places after `a`, in order; the last one is `a` itself. -/
def scan (n a : ℕ) : List ℕ := (List.range n).map fun k => (a + k + 1) % n

theorem gap_scan (ha : a < n) (hk : k < n) : gap n a ((a + k + 1) % n) = k + 1 := by
  rcases Nat.lt_or_ge (a + k + 1) n with hlt | hge
  · rw [Nat.mod_eq_of_lt hlt, gap, if_pos (by omega)]
    omega
  · have hmod : (a + k + 1) % n = a + k + 1 - n := by
      rw [Nat.mod_eq_sub_mod hge]
      exact Nat.mod_eq_of_lt (by omega)
    rw [hmod, gap, if_neg (by omega)]
    omega

theorem mem_scan (ha : a < n) (hx : x < n) : x ∈ scan n a := by
  refine List.mem_map.mpr ⟨gap n a x - 1, List.mem_range.mpr ?_, ?_⟩
  · have := gap_pos (b := x) ha
    have := gap_le (a := a) hx
    omega
  · refine gap_inj ha (Nat.mod_lt _ (by omega)) hx ?_
    have := gap_pos (b := x) ha
    have := gap_le (a := a) hx
    rw [gap_scan ha (by omega)]
    omega

theorem lt_of_mem_scan (ha : a < n) (hx : x ∈ scan n a) : x < n := by
  obtain ⟨k, -, rfl⟩ := List.mem_map.mp hx
  exact Nat.mod_lt _ (by omega)

/-- **The next place with a property**: none that has it comes before. -/
structure IsNext (n a : ℕ) (p : ℕ → Prop) (k : ℕ) : Prop where
  lt : k < n
  holds : p k
  first : ∀ j < n, p j → gap n a k ≤ gap n a j

theorem IsNext.congr {p q : ℕ → Prop} (hn : IsNext n a p k) (hpq : ∀ j, p j ↔ q j) :
    IsNext n a q k :=
  ⟨hn.lt, (hpq k).mp hn.holds, fun j hj hq => hn.first j hj ((hpq j).mpr hq)⟩

/-- A scan finds the next place with what it looks for. -/
theorem isNext_of_findSome? {β : Type*} {f : ℕ → Option β} {c : β} (ha : a < n)
    (hfind : (scan n a).findSome? f = some c) :
    ∃ k, f k = some c ∧ IsNext n a (fun k => (f k).isSome) k := by
  obtain ⟨pre, k, suf, hsplit, hk, hpre⟩ := List.findSome?_eq_some_iff.mp hfind
  have hget : ∀ i (hi : i < n), (scan n a)[i]? = some ((a + i + 1) % n) := by
    intro i hi
    rw [scan, List.getElem?_map, List.getElem?_range hi]
    rfl
  have hlen : pre.length < n := by
    have := congrArg List.length hsplit
    simp only [scan, List.length_map, List.length_range, List.length_append, List.length_cons] at this
    omega
  have hat : (a + pre.length + 1) % n = k := by
    have hi := hget pre.length hlen
    rw [hsplit, List.getElem?_append_right (Nat.le_refl _), Nat.sub_self] at hi
    exact (Option.some.inj hi).symm
  refine ⟨k, hk, ?_, ?_, fun j hj hfound => ?_⟩
  · rw [← hat]
    exact Nat.mod_lt _ (by omega)
  · rw [hk]
    rfl
  · rw [← hat, gap_scan ha hlen]
    -- a place with a smaller gap is in the part that was passed over
    by_contra hlt
    have hpos := gap_pos (b := j) ha
    have hearly : gap n a j - 1 < pre.length := by omega
    have hj' : (a + (gap n a j - 1) + 1) % n = j := by
      refine gap_inj ha (Nat.mod_lt _ (by omega)) hj ?_
      rw [gap_scan ha (by omega)]
      omega
    have hi := hget (gap n a j - 1) (by omega)
    rw [hsplit, List.getElem?_append_left hearly, hj'] at hi
    have hnone := hpre j (List.mem_of_getElem? hi)
    rw [hnone] at hfound
    cases hfound

/-- A place that is next and not passed over is nearer afterwards. -/
theorem IsNext.gap_lt {p : ℕ → Prop} (hn : IsNext n a p k) (ha : a < n) (hx : x < n) (hp : p x)
    (hne : k ≠ x) : gap n k x < gap n a x := by
  have hle := hn.first x hx hp
  have hlt : gap n a k < gap n a x :=
    Nat.lt_of_le_of_ne hle fun heq => hne (gap_inj ha hn.lt hx heq)
  have hsum := gap_add ha hn.lt hx hlt
  have hpos := gap_pos (b := k) ha
  omega

/-- The search as a loop that goes on until it is back at its start, with
the place it ends at. -/
def scanLoop {β : Type*} (n start : ℕ) (f : ℕ → Option β) : ℕ → ℕ → Option (Option β × ℕ)
  | 0, _ => none
  | fuel + 1, cur =>
    let cur := (cur + 1) % n
    match f cur with
    | some c => some (some c, cur)
    | none => if cur = start then some (none, cur) else scanLoop n start f fuel cur

theorem drop_scan {i : ℕ} (hi : i < n) :
    (scan n a).drop i = (a + i + 1) % n :: (scan n a).drop (i + 1) := by
  have hlen : i < (scan n a).length := by
    rw [scan, List.length_map, List.length_range]
    exact hi
  rw [List.drop_eq_getElem_cons hlen]
  congr 1
  simp only [scan, List.getElem_map, List.getElem_range]

/-- **The loop ends after one round**, with what the scan finds and where
it finds it, or else where it began. -/
theorem scanLoop_eq {β : Type*} (f : ℕ → Option β) (ha : a < n) :
    ∃ last < n, scanLoop n a f n a = some ((scan n a).findSome? f, last) ∧
      ((scan n a).findSome? f = none → last = a) ∧
      ∀ c, (scan n a).findSome? f = some c → f last = some c := by
  -- after `i` rounds the rest of the scan decides
  have hrest : ∀ m i, m + i = n → 0 < m →
      ∃ last < n, scanLoop n a f m ((a + i) % n) = some (((scan n a).drop i).findSome? f, last) ∧
        (((scan n a).drop i).findSome? f = none → last = a) ∧
        ∀ c, ((scan n a).drop i).findSome? f = some c → f last = some c := by
    intro m
    induction m with
    | zero => exact fun _ _ hm => absurd hm (Nat.lt_irrefl 0)
    | succ m ih =>
      intro i hmi _
      have hcur : ((a + i) % n + 1) % n = (a + i + 1) % n := by rw [Nat.mod_add_mod]
      have hlt : (a + i + 1) % n < n := Nat.mod_lt _ (by omega)
      have hgap := gap_scan (k := i) ha (by omega)
      rw [drop_scan (by omega), scanLoop, hcur, List.findSome?_cons]
      cases hf : f ((a + i + 1) % n) with
      | some c => exact ⟨_, hlt, rfl, fun hnone => absurd hnone (Option.some_ne_none c), fun c' hc' => hf.trans hc'⟩
      | none =>
        dsimp only
        by_cases hback : (a + i + 1) % n = a
        · have hself : gap n a a = n := by
            rw [gap, if_neg (Nat.lt_irrefl a)]
            omega
          rw [hback, hself] at hgap
          have hend : (scan n a).drop (i + 1) = [] := by
            rw [List.drop_eq_nil_iff, scan, List.length_map, List.length_range]
            omega
          rw [if_pos hback, hend]
          exact ⟨_, hlt, rfl, fun _ => hback, fun c hc => by cases hc⟩
        · have hm : 0 < m := by
            by_contra hzero
            have hi : i + 1 = n := by omega
            have hmod : (a + i + 1) % n = a := by
              rw [Nat.add_assoc, hi, Nat.add_mod_right, Nat.mod_eq_of_lt ha]
            exact hback hmod
          rw [if_neg hback]
          exact ih (i + 1) (by omega) hm
  have hall := hrest n 0 (by omega) (by omega)
  rw [Nat.add_zero, Nat.mod_eq_of_lt ha, List.drop_zero] at hall
  exact hall

end Circle

/-! ## The table -/

/-- Places with owners, some of them ready. -/
structure Table (α : Type*) where
  size : ℕ
  owner : ℕ → α
  ready : ℕ → Bool

/-- How a place gives up its turn. -/
inductive Turn
  | preempt
  | yield
  deriving DecidableEq, Repr

namespace Table

variable {α : Type*} [DecidableEq α] (T : Table α)

/-- The next ready place. -/
def next (a : ℕ) : Option ℕ := (scan T.size a).find? T.ready

/-- The next ready place of another owner. -/
def nextOther (a : ℕ) (y : α) : Option ℕ :=
  (scan T.size a).find? fun k => T.ready k && decide (T.owner k ≠ y)

/-- The place that is given the turn of `a`, when owner `y` gives it up. -/
def pick (a : ℕ) (y : α) : Turn → Option ℕ
  | .preempt => T.next a
  | .yield => (T.nextOther a y).or (T.next a)

/-- The places that are given a turn, one after the other. -/
def picks : ℕ → α → List Turn → List (Option ℕ)
  | _, _, [] => []
  | a, y, t :: ts =>
    T.pick a y t :: match T.pick a y t with
      | none => picks a y ts
      | some k => picks k (T.owner k) ts

/-- A ready place of the table. -/
def Ready (k : ℕ) : Prop := k < T.size ∧ T.ready k = true

variable {T} {a k x : ℕ} {y : α} {t : Turn} {ts : List Turn}

/-- What a search along the scan finds comes next. -/
theorem isNext_of_find? {n : ℕ} {q : ℕ → Bool} (ha : a < n) (hfind : (scan n a).find? q = some k) :
    IsNext n a (fun j => q j = true) k := by
  have hsome : (scan n a).findSome? (Option.guard q) = some k := by
    rw [List.findSome?_guard]
    exact hfind
  obtain ⟨j, hj, hnext⟩ := isNext_of_findSome? ha hsome
  obtain ⟨rfl, hq⟩ := Option.guard_eq_some_iff.mp hj
  refine ⟨hnext.lt, hq, fun i hi hqi => hnext.first i hi ?_⟩
  rw [Option.isSome_guard]
  exact hqi

omit [DecidableEq α] in
/-- Nothing is chosen exactly if nothing is ready. -/
theorem next_eq_none_iff (ha : a < T.size) : T.next a = none ↔ ∀ k, ¬ T.Ready k := by
  unfold next
  rw [List.find?_eq_none]
  constructor
  · rintro hnone k ⟨hk, hready⟩
    exact hnone k (mem_scan ha hk) hready
  · intro hnone k hk hready
    exact hnone k ⟨lt_of_mem_scan ha hk, hready⟩

theorem nextOther_eq_none_iff (ha : a < T.size) :
    T.nextOther a y = none ↔ ∀ k, T.Ready k → T.owner k = y := by
  unfold nextOther
  rw [List.find?_eq_none]
  constructor
  · rintro hnone k ⟨hk, hready⟩
    by_contra hne
    exact hnone k (mem_scan ha hk) (by simp [hready, hne])
  · intro hnone k hk hready
    obtain ⟨hready, hne⟩ := Bool.and_eq_true_iff.mp hready
    exact of_decide_eq_true hne (hnone k ⟨lt_of_mem_scan ha hk, hready⟩)

/-- **What a turn goes to**: the next ready place, or, of a place that
yields, the next ready place of another owner if there is one. -/
theorem pick_cases (ha : a < T.size) (hpick : T.pick a y t = some k) :
    IsNext T.size a T.Ready k ∧ (t = .preempt ∨ ∀ j, T.Ready j → T.owner j = y) ∨
    t = .yield ∧ IsNext T.size a (fun j => T.Ready j ∧ T.owner j ≠ y) k := by
  have hready : ∀ {k}, T.next a = some k → IsNext T.size a T.Ready k := by
    intro k hk
    have hnext := isNext_of_find? ha hk
    exact ⟨hnext.lt, ⟨hnext.lt, hnext.holds⟩, fun j hj hp => hnext.first j hj hp.2⟩
  cases t with
  | preempt => exact .inl ⟨hready hpick, .inl rfl⟩
  | yield =>
    cases hother : T.nextOther a y with
    | none =>
      rw [pick, hother, Option.none_or] at hpick
      exact .inl ⟨hready hpick, .inr ((nextOther_eq_none_iff ha).mp hother)⟩
    | some j =>
      rw [pick, hother, Option.some_or] at hpick
      obtain rfl := Option.some.inj hpick
      have hnext := isNext_of_find? ha hother
      have hsplit : ∀ i, (T.ready i && decide (T.owner i ≠ y)) = true ↔
          T.ready i = true ∧ T.owner i ≠ y := by
        intro i
        rw [Bool.and_eq_true_iff, decide_eq_true_iff]
      refine .inr ⟨rfl, hnext.lt, ?_, fun i hi hp => hnext.first i hi ?_⟩
      · exact ⟨⟨hnext.lt, ((hsplit j).mp hnext.holds).1⟩, ((hsplit j).mp hnext.holds).2⟩
      · exact (hsplit i).mpr ⟨hp.1.2, hp.2⟩

/-- Also with a preference for others, none is chosen only if none is ready. -/
theorem pick_eq_none_iff (ha : a < T.size) : T.pick a y t = none ↔ ∀ k, ¬ T.Ready k := by
  cases t with
  | preempt => exact next_eq_none_iff ha
  | yield =>
    rw [pick, Option.or_eq_none_iff, next_eq_none_iff ha, nextOther_eq_none_iff ha]
    exact ⟨And.right, fun hnone => ⟨fun k hk => absurd hk (hnone k), hnone⟩⟩

theorem ready_of_pick (ha : a < T.size) (hpick : T.pick a y t = some k) : T.Ready k := by
  rcases pick_cases ha hpick with ⟨hnext, -⟩ | ⟨-, hnext⟩
  · exact hnext.holds
  · exact hnext.holds.1

theorem exists_pick (ha : a < T.size) (hx : T.Ready x) : ∃ k, T.pick a y t = some k := by
  cases hpick : T.pick a y t with
  | none => exact absurd hx ((pick_eq_none_iff ha).mp hpick x)
  | some k => exact ⟨k, rfl⟩

/-! ## How long one waits -/

section Waiting

variable (Hit : ℕ → Prop) (Waits : ℕ → α → Prop)

/-- What one turn does while something waits at place `x`: it is a hit, or
the place comes nearer and the waiting goes on. -/
def Nears (T : Table α) (x : ℕ) : Prop :=
  ∀ a y t k, a < T.size → Waits a y → T.pick a y t = some k → ¬ Hit k →
    gap T.size k x < gap T.size a x ∧ Waits k (T.owner k)

variable {Hit Waits}

/-- Without a hit, the distance to the place bounds the turns. -/
theorem length_lt_gap (hnears : Nears Hit Waits T x) (hx : T.Ready x) (ha : a < T.size)
    (hwait : Waits a y) (hmiss : ∀ k, some k ∈ T.picks a y ts → ¬ Hit k) :
    ts.length < gap T.size a x := by
  induction ts generalizing a y with
  | nil => exact gap_pos ha
  | cons t ts ih =>
    obtain ⟨k, hpick⟩ := exists_pick (y := y) (t := t) ha hx
    unfold picks at hmiss
    rw [hpick] at hmiss
    obtain ⟨hgap, hwait'⟩ := hnears a y t k ha hwait hpick (hmiss k List.mem_cons_self)
    have hrest := ih (ready_of_pick ha hpick).1 hwait'
      fun j hj => hmiss j (List.mem_cons_of_mem _ hj)
    rw [List.length_cons]
    omega

/-- **As many turns as there are places make a hit.** The first one may
still be of any owner; the waiting begins after it. -/
theorem exists_hit (hnears : Nears Hit Waits T x) (hx : T.Ready x)
    (hbegin : ∀ k, T.Ready k → ¬ Hit k → k ≠ x ∧ Waits k (T.owner k)) (ha : a < T.size)
    (hlen : T.size ≤ ts.length) : ∃ k, some k ∈ T.picks a y ts ∧ Hit k := by
  by_contra hnone
  have hmiss : ∀ k, some k ∈ T.picks a y ts → ¬ Hit k := fun k hk hhit => hnone ⟨k, hk, hhit⟩
  cases ts with
  | nil =>
    rw [List.length_nil] at hlen
    omega
  | cons t ts =>
    obtain ⟨k, hpick⟩ := exists_pick (y := y) (t := t) ha hx
    have hk := ready_of_pick ha hpick
    unfold picks at hmiss
    rw [hpick] at hmiss
    obtain ⟨hne, hwait⟩ := hbegin k hk (hmiss k List.mem_cons_self)
    have hrest := length_lt_gap hnears hx hk.1 hwait fun j hj => hmiss j (List.mem_cons_of_mem _ hj)
    have hgap := gap_lt_of_ne hx.1 hne
    rw [List.length_cons] at hlen
    omega

end Waiting

/-- **Every owner with a ready place gets a turn in as many turns as there
are places.** -/
theorem picks_owner (ha : a < T.size) (hx : T.Ready x) (hlen : T.size ≤ ts.length) :
    ∃ k, some k ∈ T.picks a y ts ∧ T.owner k = T.owner x := by
  have hnears : Nears (fun k => T.owner k = T.owner x) (fun _ y => T.owner x ≠ y) T x := by
    intro a y t k ha hother hpick hmiss
    have hne : k ≠ x := fun heq => hmiss (by rw [heq])
    refine ⟨?_, Ne.symm hmiss⟩
    rcases pick_cases ha hpick with ⟨hnext, -⟩ | ⟨-, hnext⟩
    · exact hnext.gap_lt ha hx.1 hx hne
    · exact hnext.gap_lt ha hx.1 ⟨hx, hother⟩ hne
  refine exists_hit hnears hx (fun k _ hmiss => ?_) ha hlen
  exact ⟨fun heq => hmiss (by rw [heq]), Ne.symm hmiss⟩

/-! ## Places -/

variable (T) in
/-- **No ready place follows another of its owner**, unless they all have
one owner. -/
def Spread : Prop :=
  (∀ k k', T.Ready k → IsNext T.size k T.Ready k' → T.owner k' ≠ T.owner k) ∨
  ∀ k k', T.Ready k → T.Ready k' → T.owner k' = T.owner k

/-- In a spread table a turn goes to the next ready place, yielded or
not. -/
theorem Spread.isNext_of_pick (hspread : T.Spread) (ha : T.Ready a)
    (hpick : T.pick a (T.owner a) t = some k) : IsNext T.size a T.Ready k := by
  rcases pick_cases ha.1 hpick with ⟨hnext, -⟩ | ⟨-, hother⟩
  · exact hnext
  rcases hspread with hspread | hone
  · obtain ⟨k', hk'⟩ := exists_pick (y := T.owner a) (t := .preempt) ha.1 ha
    rcases pick_cases ha.1 hk' with ⟨hnext, -⟩ | ⟨hyield, -⟩
    · have hle := hother.first k' hnext.lt ⟨hnext.holds, hspread a k' ha hnext⟩
      have hge := hnext.first k hother.lt hother.holds.1
      rw [gap_inj ha.1 hother.lt hnext.lt (Nat.le_antisymm hle hge)]
      exact hnext
    · cases hyield
  · exact absurd (hone a k ha hother.holds.1) hother.holds.2

/-- **Every ready place of a spread table gets a turn in as many turns as
there are places.** -/
theorem Spread.mem_picks (hspread : T.Spread) (ha : a < T.size) (hx : T.Ready x)
    (hlen : T.size ≤ ts.length) : some x ∈ T.picks a y ts := by
  have hnears : Nears (fun k => k = x) (fun a y => T.Ready a ∧ y = T.owner a) T x := by
    rintro a y t k ha ⟨hready, rfl⟩ hpick hne
    exact ⟨(hspread.isNext_of_pick hready hpick).gap_lt ha hx.1 hx hne, ready_of_pick ha hpick, rfl⟩
  obtain ⟨k, hk, rfl⟩ := exists_hit (y := y) hnears hx (fun k hk hne => ⟨hne, hk, rfl⟩) ha hlen
  exact hk

omit [DecidableEq α] in
/-- With a ready place of another owner, a place does not follow itself. -/
theorem ne_of_isNext {k' z : ℕ} (hnext : IsNext T.size k T.Ready k') (hz : T.Ready z)
    (hother : T.owner z ≠ T.owner k) : k ≠ k' := by
  intro heq
  have hle := hnext.first z hz.1 hz
  have hlt := gap_lt_of_ne (n := T.size) (a := k) hz.1 fun h => hother (by rw [h])
  rcases gap_cases T.size k k' with h | h <;> omega

theorem gap_lt_of_between {n a k k' : ℕ} (ha : a < n) (hk : k < n) (hne : a ≠ k)
    (hne' : a ≠ k') (hkk' : k ≠ k') (hle : gap n k k' ≤ gap n k a) : gap n a k < gap n a k' := by
  rcases gap_cases n k k' with h₁ | h₁ <;> rcases gap_cases n k a with h₂ | h₂ <;>
    rcases gap_cases n a k with h₃ | h₃ <;> rcases gap_cases n a k' with h₄ | h₄ <;> omega

/-- A place that follows another of its owner is not picked by one that
yields: the other is found first, or passed over with it. -/
theorem pick_yield_ne {k' z : ℕ} (hk : T.Ready k) (hnext : IsNext T.size k T.Ready k')
    (hsame : T.owner k' = T.owner k) (hz : T.Ready z) (hother : T.owner z ≠ T.owner k)
    (ha : T.Ready a) (hne : a ≠ k') : T.pick a (T.owner a) .yield ≠ some k' := by
  intro hpick
  rcases pick_cases ha.1 hpick with ⟨-, hyield | hall⟩ | ⟨-, hfound⟩
  · cases hyield
  · exact hother ((hall z hz).trans (hall k hk).symm)
  · have howner : T.owner k ≠ T.owner a := by
      rw [← hsame]
      exact hfound.holds.2
    have hkk' := ne_of_isNext hnext hz hother
    have hak : a ≠ k := fun heq => howner (by rw [heq])
    have hlt := gap_lt_of_between ha.1 hk.1 hak hne hkk' (hnext.first a ha.1 ha)
    have hle := hfound.first k hk.1 ⟨hk, howner⟩
    omega

/-- **In any other table a ready place can be passed over for ever**, if
all yield. -/
theorem exists_passed_over (hspread : ¬ T.Spread) :
    ∃ k k', T.Ready k ∧ T.Ready k' ∧
      ∀ m, some k' ∉ T.picks k (T.owner k) (List.replicate m .yield) := by
  unfold Spread at hspread
  push Not at hspread
  obtain ⟨⟨k, k', hk, hnext, hsame⟩, z, z', hz, hz', hzz'⟩ := hspread
  -- one of any two owners is another than that of `k`
  obtain ⟨w, hw, hother⟩ : ∃ w, T.Ready w ∧ T.owner w ≠ T.owner k := by
    by_cases hzk : T.owner z = T.owner k
    · exact ⟨z', hz', by rw [← hzk]; exact hzz'⟩
    · exact ⟨z, hz, hzk⟩
  have hpassed : ∀ m a, T.Ready a → a ≠ k' →
      some k' ∉ T.picks a (T.owner a) (List.replicate m .yield) := by
    intro m
    induction m with
    | zero => exact fun a _ _ hmem => by cases hmem
    | succ m ih =>
      intro a ha hne hmem
      have hpick := pick_yield_ne hk hnext hsame hw hother ha hne
      rw [List.replicate_succ, picks] at hmem
      obtain ⟨j, hj⟩ := exists_pick (y := T.owner a) (t := .yield) ha.1 ha
      rw [hj] at hmem hpick
      have hjk' : j ≠ k' := fun heq => hpick (by rw [heq])
      rcases List.mem_cons.mp hmem with heq | hrest
      · exact hjk' (Option.some.inj heq).symm
      · exact ih j (ready_of_pick ha.1 hj) hjk' hrest
  exact ⟨k, k', hk, hnext.holds, fun m => hpassed m k hk (ne_of_isNext hnext hw hother)⟩

end Table

end RoundRobin

end HypervisorBase
