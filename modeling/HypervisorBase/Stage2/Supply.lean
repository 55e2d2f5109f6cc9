import HypervisorBase.Stage2.Refinement
import Mathlib.Data.Finset.Card
import Mathlib.Data.Finset.Prod
import Mathlib.Data.Finset.Union
/-!
# What a mapping takes from the pool

Tables are never given back, and `pt_alloc` on an empty pool never
returns. So whether a mapping returns is a question of counting: the
tables on the way to its pages that are not there yet must be in the pool.
`supplied_mapLoop` is this count, exactly, for every range a caller may
ask for, one that wraps around the address space included. `Supplied`
pairs it with what the mapping leaves behind, and is carried from one page
to the next by `Supplied.bind`.
-/

namespace HypervisorBase

namespace Stage2

/-! ## Paths -/

/-- The tables on the way to a page. -/
def tablePaths (c : U64) : Finset (List Idx) := {[i1 c], [i1 c, i2 c]}

/-- **The tables a range of pages needs.** -/
def rangePaths (x : U64) (n : ℕ) : Finset (List Idx) :=
  (Finset.range n).biUnion fun k => tablePaths (x + BitVec.ofNat 64 (k * 4096))

/-- Those of them that are not there. -/
def missing (s : S2State) (r : U64) (A : Finset (List Idx)) : Finset (List Idx) :=
  A.filter fun q => follow (child s) r q = none

variable {q : List Idx}

theorem length_of_mem_tablePaths {c : U64} (hq : q ∈ tablePaths c) :
    q.length ≤ 2 := by
  rcases Finset.mem_insert.mp hq with rfl | hq
  · simp
  · rw [Finset.mem_singleton.mp hq]
    simp

variable {n : ℕ} {x : U64}

theorem mem_rangePaths : q ∈ rangePaths x n ↔
    ∃ k < n, q ∈ tablePaths (x + BitVec.ofNat 64 (k * 4096)) := by
  unfold rangePaths
  rw [Finset.mem_biUnion]
  simp only [Finset.mem_range]

theorem length_of_mem_rangePaths (hq : q ∈ rangePaths x n) :
    q.length ≤ 2 := by
  obtain ⟨k, -, hk⟩ := mem_rangePaths.mp hq
  exact length_of_mem_tablePaths hk

/-- The first page of a range, and then the rest of it. -/
theorem rangePaths_succ (x : U64) (n : ℕ) :
    rangePaths x (n + 1) = tablePaths x ∪ rangePaths (x + 4096) n := by
  ext q
  rw [Finset.mem_union, mem_rangePaths, mem_rangePaths]
  constructor
  · rintro ⟨k, hk, hq⟩
    cases k with
    | zero =>
      left
      rw [Nat.zero_mul, BitVec.add_zero] at hq
      exact hq
    | succ k =>
      right
      rw [add_ofNat_succ_page] at hq
      exact ⟨k, by omega, hq⟩
  · rintro (hq | ⟨k, hk, hq⟩)
    · refine ⟨0, by omega, ?_⟩
      rw [Nat.zero_mul, BitVec.add_zero]
      exact hq
    · refine ⟨k + 1, by omega, ?_⟩
      rw [add_ofNat_succ_page]
      exact hq

theorem mem_missing {s : S2State} {r : U64} {A : Finset (List Idx)} :
    q ∈ missing s r A ↔ q ∈ A ∧ follow (child s) r q = none := Finset.mem_filter

/-! ## Growth -/

section Pool

variable [P : PtPool]

/-- **The tables of a heap and the same with those along the paths `A` of
one VM**: they came from the pool as far as they were missing, and no other
table came or went. -/
structure Grows (roots : List U64) (v : ℕ) (r : U64) (A : Finset (List Idx)) (s s' : S2State) :
    Prop where
  shape : Shape s' roots
  idx : s'.ptIdx = s.ptIdx + (missing s r A).card
  tables : ∀ w q, q.length ≤ 2 → (reach (fun v : ℕ => roots[v]?) (child s') w q = none ↔
    reach (fun v : ℕ => roots[v]?) (child s) w q = none ∧ ¬ (w = v ∧ q ∈ A))

variable {s s' s'' : S2State} {roots : List U64} {v : ℕ} {r t : U64} {A B : Finset (List Idx)}

omit P in
theorem follow_eq_reach (hr : roots[v]? = some r) (s : S2State) (q : List Idx) :
    follow (child s) r q = reach (fun v : ℕ => roots[v]?) (child s) v q := (reach_of_root hr).symm

theorem Grows.missing_eq (hr : roots[v]? = some r) (g : Grows roots v r A s s')
    (hB : ∀ q ∈ B, q.length ≤ 2) : missing s' r B = missing s r B \ A := by
  ext q
  rw [Finset.mem_sdiff, mem_missing, mem_missing, follow_eq_reach hr, follow_eq_reach hr]
  constructor
  · rintro ⟨hq, hnone⟩
    obtain ⟨hold, hnew⟩ := (g.tables v q (hB q hq)).mp hnone
    exact ⟨⟨hq, hold⟩, fun hA => hnew ⟨rfl, hA⟩⟩
  · rintro ⟨⟨hq, hold⟩, hA⟩
    exact ⟨hq, (g.tables v q (hB q hq)).mpr ⟨hold, fun hnew => hA hnew.2⟩⟩

variable {r' : U64} {w : ℕ}

omit P in
/-- What is missing of two sets: what is missing of the one, and of the
other without it. -/
theorem card_missing_union (s : S2State) (r : U64) (A B : Finset (List Idx)) :
    (missing s r (A ∪ B)).card = (missing s r A).card + (missing s r B \ A).card := by
  have hunion : missing s r (A ∪ B) = missing s r A ∪ (missing s r B \ A) := by
    ext q
    simp only [mem_missing, Finset.mem_union, Finset.mem_sdiff]
    tauto
  have hdisj : Disjoint (missing s r A) (missing s r B \ A) := by
    rw [Finset.disjoint_left]
    intro q hq hq'
    exact (Finset.mem_sdiff.mp hq').2 (mem_missing.mp hq).1
  rw [hunion, Finset.card_union_of_disjoint hdisj]

/-- What is missing is filled step by step. -/
theorem Grows.trans (hr : roots[v]? = some r) (hB : ∀ q ∈ B, q.length ≤ 2)
    (g : Grows roots v r A s s') (g' : Grows roots v r B s' s'') :
    Grows roots v r (A ∪ B) s s'' := by
  refine ⟨g'.shape, ?_, fun w q hq => ?_⟩
  · rw [g'.idx, g.idx, g.missing_eq hr hB, card_missing_union]
    omega
  · rw [g'.tables w q hq, g.tables w q hq, Finset.mem_union]
    tauto

/-- A heap with the same tables. -/
theorem Grows.of_same (hshape : Shape s' roots) (hidx : s'.ptIdx = s.ptIdx)
    (hreach : ∀ w q, q.length ≤ 2 → reach (fun v : ℕ => roots[v]?) (child s') w q =
      reach (fun v : ℕ => roots[v]?) (child s) w q) : Grows roots v r ∅ s s' := by
  refine ⟨hshape, hidx, fun w q hq => ?_⟩
  rw [hreach w q hq]
  exact ⟨fun hnone => ⟨hnone, fun h => Finset.notMem_empty q h.2⟩, And.left⟩

theorem Grows.refl (h : Shape s roots) : Grows roots v r ∅ s s := .of_same h rfl fun _ _ _ => rfl

theorem Grows.quiet_trans (hr : roots[v]? = some r) (g : Grows roots v r ∅ s s')
    (g' : Grows roots v r ∅ s' s'') : Grows roots v r ∅ s s'' := by
  have hboth := g.trans hr (fun q hq => absurd hq (Finset.notMem_empty q)) g'
  rwa [Finset.union_empty] at hboth

/-- Tables that are there are not taken from the pool again. -/
theorem Grows.idx_of_missing (g : Grows roots v r A s s') (hnone : missing s r A = ∅) :
    s'.ptIdx = s.ptIdx := by
  rw [g.idx, hnone, Finset.card_empty, Nat.add_zero]

/-! ## Supply -/

/-- **A computation that allocates the tables along `A`**: it returns if
and only if the pool has those that are missing, and leaves them behind. -/
structure Supplied (roots : List U64) (v : ℕ) (r : U64) (A : Finset (List Idx)) (s : S2State)
    (res : Option S2State) : Prop where
  returns : res.isSome ↔ s.ptIdx + (missing s r A).card ≤ ptPoolPages
  grows : ∀ s', res = some s' → Grows roots v r A s s'

theorem Supplied.of_grows (g : Grows roots v r ∅ s s') : Supplied roots v r ∅ s (some s') := by
  refine ⟨⟨fun _ => ?_, fun _ => rfl⟩, fun s'' hs => ?_⟩
  · have hle := g.shape.idx_le
    rw [g.idx] at hle
    exact hle
  · obtain rfl := Option.some.inj hs
    exact g

theorem Supplied.of_full (hfull : ptPoolPages < s.ptIdx + (missing s r A).card) :
    Supplied roots v r A s none := by
  refine ⟨⟨fun hret => ?_, fun hfit => ?_⟩, fun s' hs => ?_⟩
  · cases hret
  · omega
  · cases hs

/-- **One after the other.** If the first does not return, its tables do
not fit, and no more do those of both. -/
theorem Supplied.bind {β : Type*} (st : β → S2State) {x : Option β} {f : β → Option S2State}
    (hr : roots[v]? = some r) (hB : ∀ q ∈ B, q.length ≤ 2)
    (hx : Supplied roots v r A s (x.map st))
    (hf : ∀ b, x = some b → Supplied roots v r B (st b) (f b)) :
    Supplied roots v r (A ∪ B) s (x.bind f) := by
  cases x with
  | none =>
    refine .of_full ?_
    by_contra hfit
    rw [card_missing_union] at hfit
    cases hx.returns.mpr (by omega)
  | some b =>
    have hgrow := hx.grows (st b) rfl
    have hrest := hf b rfl
    refine ⟨hrest.returns.trans ?_, fun s' hs => hgrow.trans hr hB (hrest.grows s' hs)⟩
    rw [hgrow.idx, hgrow.missing_eq hr hB, card_missing_union, Nat.add_assoc]

/-- A walk makes the table it needs, or the pool is empty. -/
theorem supplied_tableAt {p : List Idx} {i : Idx} (h : Shape s roots) (hr : roots[v]? = some r)
    (hp : p.length < 2) (ht : reach (fun v : ℕ => roots[v]?) (child s) v p = some t) :
    Supplied roots v r {p ++ [i]} s ((tableAt s t i).map Prod.snd) := by
  have hpath : follow (child s) r (p ++ [i]) = child s t i := by
    rw [follow_eq_reach hr, reach_concat, ht, Option.bind_some]
  by_cases hv : entry s t i &&& 1 = 0
  · -- the slot is empty, and a table is linked under it
    have hi : child s t i = none := if_pos hv
    have hone : (missing s r {p ++ [i]}).card = 1 := by
      rw [missing, Finset.filter_singleton, if_pos (hpath.trans hi), Finset.card_singleton]
    have hrun : tableAt s t i = (ptAlloc s).bind fun ps =>
        some (entry (setEntry ps.2 t i (tableDesc ps.1)) t i &&& addrMask,
          setEntry ps.2 t i (tableDesc ps.1)) := by
      rw [tableAt, if_pos hv]
      cases ptAlloc s <;> rfl
    cases ha : ptAlloc s with
    | none =>
      have hfull : ptPoolPages ≤ s.ptIdx := by
        by_contra hlt
        rw [ptAlloc, if_neg hlt] at ha
        cases ha
      rw [hrun, ha]
      exact .of_full (by omega)
    | some ps =>
      obtain ⟨hlt, -, hs₁⟩ := ptAlloc_eq_some.1 (show ptAlloc s = some (ps.1, ps.2) from ha)
      obtain ⟨hshape, -, hreach, -⟩ := link_spec h hp ht hi ha rfl
      rw [hrun, ha]
      refine ⟨⟨fun _ => by omega, fun _ => rfl⟩, fun s' hs => ?_⟩
      obtain rfl := Option.some.inj hs
      refine ⟨hshape, ?_, fun w q hq => ?_⟩
      · rw [hone]
        change ps.2.ptIdx = _
        rw [hs₁]
      · rw [hreach w q hq, Finset.mem_singleton]
        split
        · rename_i hnew
          exact ⟨fun hnone => absurd hnone (Option.some_ne_none _), fun hboth => absurd hnew hboth.2⟩
        · rename_i hold
          exact ⟨fun hnone => ⟨hnone, hold⟩, And.left⟩
  · -- the slot has its table
    have hi : child s t i ≠ none := by
      rw [child, if_neg hv]
      exact Option.some_ne_none _
    have hzero : (missing s r {p ++ [i]}).card = 0 := by
      rw [missing, Finset.filter_singleton, if_neg (by rw [hpath]; exact hi), Finset.card_empty]
    have hrun : tableAt s t i = some (entry s t i &&& addrMask, s) := by
      rw [tableAt, if_neg hv]
      rfl
    rw [hrun]
    refine ⟨⟨fun _ => ?_, fun _ => rfl⟩, fun s' hs => ?_⟩
    · rw [hzero]
      exact h.idx_le
    · obtain rfl := Option.some.inj hs
      refine ⟨h, by rw [hzero]; rfl, fun w q hq => ⟨fun hnone => ⟨hnone, ?_⟩, And.left⟩⟩
      rintro ⟨rfl, hmem⟩
      rw [Finset.mem_singleton.mp hmem, reach_of_root hr, hpath] at hnone
      exact hi hnone

/-- Storing a leaf leaves the tables alone. -/
theorem grows_setLeaf {a b c : Idx} {e : U64} (h : Shape s roots)
    (ht : reach (fun v : ℕ => roots[v]?) (child s) v [a, b] = some t) (he : e = 0 ∨ e &&& 3 = 3) :
    Grows roots v r ∅ s (setEntry s t c e) :=
  .of_same (setLeaf_spec h ht he).1 rfl fun _ _ hq =>
    Forest.reach_congr (fun hp hm i => child_setLeaf h ht hp hm i) hq

/-- **A page** takes the tables missing on its path. -/
theorem supplied_mapPage (c pa f : U64) (h : Shape s roots) (hr : roots[v]? = some r) :
    Supplied roots v r (tablePaths c) s (mapPage s r c pa f) := by
  have hroot : reach (fun v : ℕ => roots[v]?) (child s) v [] = some r := by rw [reach_nil, hr]
  have hlen : ∀ q ∈ ({[i1 c, i2 c]} : Finset (List Idx)) ∪ ∅, q.length ≤ 2 := by
    intro q hq
    rw [Finset.union_empty, Finset.mem_singleton] at hq
    rw [hq]
    exact Nat.le_refl 2
  have hsplit : tablePaths c = {[] ++ [i1 c]} ∪ ({[i1 c] ++ [i2 c]} ∪ ∅) := by
    rw [Finset.union_empty]
    rfl
  rw [hsplit]
  refine Supplied.bind Prod.snd hr hlen (supplied_tableAt h hr (by simp) hroot) ?_
  rintro ⟨l2, s₁⟩ hrun₁
  obtain ⟨hshape₁, hl2, -⟩ := tableAt_spec h (by simp) hroot hrun₁
  refine Supplied.bind Prod.snd hr (fun q hq => absurd hq (Finset.notMem_empty q))
    (supplied_tableAt hshape₁ hr (by simp) hl2) ?_
  rintro ⟨l3, s₂⟩ hrun₂
  obtain ⟨hshape₂, hl3, -⟩ := tableAt_spec hshape₁ (by simp) hl2 hrun₂
  exact .of_grows (grows_setLeaf hshape₂ hl3 (Or.inr (pageDesc_and_three pa f)))

variable {f ipa pa : U64}

/-- **The loop of `s2_map` returns if and only if the pool has the tables
its pages lack.** -/
theorem supplied_mapLoop {off : U64} (h : Shape s roots)
    (hr : roots[v]? = some r) :
    Supplied roots v r (rangePaths (ipa + off) n) s (mapLoop r ipa pa f n off s) := by
  induction n generalizing s off with
  | zero => exact .of_grows (.of_same h rfl fun _ _ _ => rfl)
  | succ n ih =>
    rw [rangePaths_succ, BitVec.add_assoc]
    have hpage := supplied_mapPage (ipa + off) (pa + off) f h hr
    refine Supplied.bind id hr (fun q hq => length_of_mem_rangePaths hq) ?_ ?_
    · rw [Option.map_id]
      exact hpage
    · exact fun s₁ hrun => ih (hpage.grows s₁ hrun).shape

variable {sz : U64}

/-- **A range** takes exactly the tables missing for it. -/
theorem grows_s2Map (h : Shape s roots) (hr : roots[v]? = some r)
    (hrun : s2Map s r ipa pa sz f = some (.ok, s')) :
    Grows roots v r (rangePaths ipa (sz.toNat / 4096)) s s' := by
  rcases s2Map_eq_some.1 hrun with ⟨hinval, -⟩ | ⟨-, -, hloop⟩
  · cases hinval
  · have hgrow := (supplied_mapLoop h hr).grows s' hloop
    rw [show ipa + 0 = ipa from BitVec.add_zero ipa] at hgrow
    exact hgrow

/-- **A later heap of the same VMs**: the tables that were there still
are. -/
structure Extends (roots : List U64) (s s' : S2State) : Prop where
  shape : Shape s' roots
  tables : ∀ w q, q.length ≤ 2 → (reach (fun v : ℕ => roots[v]?) (child s) w q).isSome →
    (reach (fun v : ℕ => roots[v]?) (child s') w q).isSome

theorem Extends.refl (h : Shape s roots) : Extends roots s s := ⟨h, fun _ _ _ hsome => hsome⟩

theorem Extends.trans (a : Extends roots s s') (b : Extends roots s' s'') : Extends roots s s'' :=
  ⟨b.shape, fun w q hq hsome => b.tables w q hq (a.tables w q hq hsome)⟩

theorem Grows.extends (g : Grows roots v r A s s') : Extends roots s s' := by
  refine ⟨g.shape, fun w q hq hsome => ?_⟩
  rw [← Option.ne_none_iff_isSome] at hsome ⊢
  exact fun hnone => hsome ((g.tables w q hq).mp hnone).1

theorem extends_s2Map {e : Err} (h : Shape s roots) (hr : roots[v]? = some r)
    (hrun : s2Map s r ipa pa sz f = some (e, s')) : Extends roots s s' := by
  rcases s2Map_eq_some.1 hrun with ⟨-, rfl, -⟩ | ⟨-, -, hloop⟩
  · exact .refl h
  · exact ((supplied_mapLoop h hr).grows s' hloop).extends

/-- Unmapping takes no table. -/
theorem grows_unmapPage (h : Shape s roots) (hr : roots[v]? = some r) (c : U64) :
    Grows roots v r ∅ s (unmapPage s r c) := by
  rcases unmapPage_cases s r c with ⟨heq, -⟩ | ⟨l3, hl3, heq⟩
  · rw [heq]
    exact .refl h
  · rw [heq]
    rw [follow_eq_reach hr] at hl3
    exact grows_setLeaf h hl3 (Or.inl rfl)

/-- **`s2_unmap` neither takes nor gives back a table.** -/
theorem grows_s2Unmap (h : Shape s roots) (hr : roots[v]? = some r) (ipa sz : U64) :
    Grows roots v r ∅ s (s2Unmap s r ipa sz).2 := by
  have hloop : ∀ (n : ℕ) (off : U64) (s : S2State), Shape s roots →
      Grows roots v r ∅ s (unmapLoop r ipa n off s) := by
    intro n
    induction n with
    | zero => exact fun off s h => .refl h
    | succ n ih =>
      intro off s h
      have hpage := grows_unmapPage h hr (ipa + off)
      exact hpage.quiet_trans hr (ih _ _ hpage.shape)
  rw [s2Unmap_eq]
  split
  · exact hloop _ _ s h
  · exact .refl h

theorem extends_s2Unmap (h : Shape s roots) (hr : roots[v]? = some r) (ipa sz : U64) :
    Extends roots s (s2Unmap s r ipa sz).2 := (grows_s2Unmap h hr ipa sz).extends

end Pool

end Stage2

end HypervisorBase
