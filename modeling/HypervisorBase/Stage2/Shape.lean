import HypervisorBase.Common.Forest
import HypervisorBase.Stage2.Model
/-!
# The shape of the page-table heap

Descriptors are raw words and all VMs allocate from one pool. `Shape`
says what the words amount to: the pages handed out so far are a forest
of depth two over the VMs' roots, and every word in them is zero or has
both type bits set. A slot is empty or points to a table (`child`), a
walk follows two of them (`translate`), and the two writes the code makes,
linking a fresh table (`tableAt_spec`) and storing a leaf (`setLeaf_spec`),
keep the shape and change the translations of one page of one VM.
-/

namespace HypervisorBase

namespace Stage2

/-! ## Fields of an address -/

theorem toNat_index (x : U64) (a : ℕ) :
    (((x >>> a) &&& 0x1FF).setWidth 9).toNat = x.toNat / 2 ^ a % 512 := by
  have hfield := Word.toNat_field x a (show 9 ≤ 64 by decide)
  rw [BitVec.toNat_setWidth, show (0x1FF : U64) = BitVec.ofNat 64 (2 ^ 9 - 1) by decide, hfield]
  exact Nat.mod_mod _ _

theorem i1_toNat (x : U64) : (i1 x).toNat = x.toNat / 2 ^ 30 % 512 := toNat_index x 30

theorem i2_toNat (x : U64) : (i2 x).toNat = x.toNat / 2 ^ 21 % 512 := toNat_index x 21

theorem i3_toNat (x : U64) : (i3 x).toNat = x.toNat / 2 ^ 12 % 512 := toNat_index x 12

/-- The page an address is translated with: the tables see bits 12 to 38. -/
def vpn (ipa : U64) : ℕ := ipa.toNat / 4096 % 2 ^ 27

/-- **The three indices of an address name its page.** -/
theorem index_eq_iff {a b : U64} :
    ([i1 a, i2 a] = [i1 b, i2 b] ∧ i3 a = i3 b) ↔ vpn a = vpn b := by
  simp only [List.cons.injEq, and_true, ← BitVec.toNat_inj, i1_toNat, i2_toNat, i3_toNat, vpn]
  omega

/-! ## Descriptors -/

theorem and_addrMask_eq_self {p : U64} (hp : p.toNat % 4096 = 0) : p &&& addrMask = p := by
  have hmask : addrMask = ~~~BitVec.ofNat 64 (2 ^ 12 - 1) := by decide
  rw [hmask]
  exact Word.clearLow_eq_self p (by decide) hp

theorem tableDesc_and_addrMask {p : U64} (hp : p.toNat % 4096 = 0) :
    tableDesc p &&& addrMask = p := by
  rw [tableDesc, and_addrMask_eq_self hp, BitVec.or_assoc]
  exact Word.or_and_left (and_addrMask_eq_self hp) (by decide)

theorem tableDesc_and_three (p : U64) : tableDesc p &&& 3 = 3 := by
  rw [tableDesc, BitVec.or_assoc, BitVec.and_or_distrib_right, BitVec.and_assoc,
    show addrMask &&& (3 : U64) = 0#64 by decide, BitVec.and_zero]
  decide

theorem pageDesc_and_three (pa flags : U64) : pageDesc pa flags &&& 3 = 3 := by
  rw [pageDesc, BitVec.or_assoc, BitVec.and_or_distrib_right,
    show (s2DescValid ||| s2DescPage) &&& (3 : U64) = 3 by decide]
  ext i hi
  simp only [BitVec.getElem_or, BitVec.getElem_and, Bool.or_eq_right_iff_imp]
  simp

/-- A word with both type bits set has each of them set. -/
theorem and_one_ne_zero {e : U64} (he : e &&& 3 = 3) : e &&& 1 ≠ 0 := by
  intro h
  have : (e &&& 3) &&& 1 = 0 := by
    rw [BitVec.and_assoc, show (3 : U64) &&& 1 = 1 by decide, h]
  rw [he] at this
  exact absurd this (by decide)

theorem and_two_ne_zero {e : U64} (he : e &&& 3 = 3) : e &&& 2 ≠ 0 := by
  intro h
  have : (e &&& 3) &&& 2 = 0 := by
    rw [BitVec.and_assoc, show (3 : U64) &&& 2 = 2 by decide, h]
  rw [he] at this
  exact absurd this (by decide)

/-- The walk's narrower mask reads the same pointer wherever pointers are
below `2 ^ 48`. -/
theorem and_walkMask {e n : U64} (he : e &&& addrMask = n) (hn : n.toNat < 2 ^ 48) :
    e &&& walkMask = n := by
  rw [show walkMask = addrMask &&& BitVec.ofNat 64 (2 ^ 48 - 1) by decide, ← BitVec.and_assoc, he]
  exact Word.and_lowMask_eq_self n (by decide) hn

/-! ## Slots and pages -/

/-- A page-aligned address with a whole page above it. -/
def IsPage (n : U64) : Prop := n.toNat % 4096 = 0 ∧ n.toNat + 4096 ≤ 2 ^ 32

theorem slot_toNat {t : U64} (ht : IsPage t) (i : Idx) :
    (slot t i).toNat = t.toNat + 8 * i.toNat := by
  obtain ⟨-, hle⟩ := ht
  have hi : i.toNat < 512 := i.isLt
  have hmul : (8 * i.setWidth 64 : U64).toNat = 8 * i.toNat := by
    simp only [BitVec.toNat_mul, BitVec.toNat_setWidth, show (8 : U64).toNat = 8 from rfl]
    omega
  rw [slot, BitVec.toNat_add, hmul]
  omega

/-- Slots of pages do not overlap. -/
theorem slot_inj {t t' : U64} {i i' : Idx} (ht : IsPage t) (ht' : IsPage t') :
    slot t i = slot t' i' ↔ t = t' ∧ i = i' := by
  have hi : i.toNat < 512 := i.isLt
  have hi' : i'.toNat < 512 := i'.isLt
  have h1 := ht.1
  have h2 := ht'.1
  rw [← BitVec.toNat_inj, slot_toNat ht, slot_toNat ht', ← BitVec.toNat_inj, ← BitVec.toNat_inj]
  omega

theorem entry_setEntry {s : S2State} {t t' : U64} {i i' : Idx} {e : U64} (ht : IsPage t)
    (ht' : IsPage t') :
    entry (setEntry s t i e) t' i' = if t' = t ∧ i' = i then e else entry s t' i' := by
  simp only [entry, setEntry, slot_inj ht' ht]

/-- Clearing a page clears its slots and no other page's. -/
theorem zeroPage_slot {mem : U64 → U64} {p t : U64} {i : Idx} (hp : IsPage p) (ht : IsPage t) :
    zeroPage mem p (slot t i) = if t = p then 0 else mem (slot t i) := by
  have hi : i.toNat < 512 := i.isLt
  have h1 := ht.1
  have h2 := hp.1
  simp only [zeroPage, slot_toNat ht, ← BitVec.toNat_inj]
  split <;> split <;> first | rfl | omega

/-! ## The forest of tables -/

/-- The table a slot points to, if its valid bit is set. -/
def child (s : S2State) (t : U64) (i : Idx) : Option U64 :=
  if entry s t i &&& 1 = 0 then none else some (entry s t i &&& addrMask)

/-- A leaf descriptor, if its valid bit is set. -/
def leaf (e : U64) : Option U64 := if e &&& 1 = 0 then none else some e

/-- **The translation of an address**: the leaf two tables below the
root. -/
def translate (s : S2State) (root ipa : U64) : Option U64 :=
  (follow (child s) root [i1 ipa, i2 ipa]).bind fun l3 => leaf (entry s l3 (i3 ipa))

/-- The translation of an address, read along the owner's path. -/
theorem translate_eq {s : S2State} {roots : List U64} {w : ℕ} {r : U64}
    (hr : roots[w]? = some r) (j : U64) : translate s r j =
      (reach (fun v : ℕ => roots[v]?) (child s) w [i1 j, i2 j]).bind fun l3 =>
        leaf (entry s l3 (i3 j)) := by
  rw [reach_of_root hr]; rfl

section Pool

variable [P : PtPool]

theorem poolPage_toNat {k : ℕ} (hk : k < ptPoolPages) :
    (poolPage k).toNat = P.base.toNat + 4096 * k := by
  have hup := P.upper
  simp only [ptPoolPages] at hk hup
  simp only [poolPage, BitVec.toNat_add, BitVec.toNat_mul, BitVec.toNat_ofNat,
    show (4096 : U64).toNat = 4096 from rfl]
  omega

theorem isPage_poolPage {k : ℕ} (hk : k < ptPoolPages) : IsPage (poolPage k) := by
  have hup := P.upper
  have hal := P.aligned
  rw [IsPage, poolPage_toNat hk]
  simp only [ptPoolPages] at hk hup
  omega

/-- A page of the pool that has been handed out. -/
def Allocated (s : S2State) (n : U64) : Prop := ∃ k, k < s.ptIdx ∧ n = poolPage k

/-- **The heap invariant.** VMs are numbered in the order of their
`s2_create` calls and `roots` lists what these returned. -/
structure Shape (s : S2State) (roots : List U64) : Prop where
  idx_le : s.ptIdx ≤ ptPoolPages
  forest : Forest 2 (Allocated s) (fun v : ℕ => roots[v]?) (child s)
  words : ∀ {n}, Allocated s n → ∀ i, entry s n i = 0 ∨ entry s n i &&& 3 = 3

variable {s s' : S2State} {roots : List U64} {v w : ℕ} {r t : U64}

theorem Shape.isPage (h : Shape s roots) {n : U64} (hn : Allocated s n) : IsPage n := by
  obtain ⟨k, hk, rfl⟩ := hn
  exact isPage_poolPage (Nat.lt_of_lt_of_le hk h.idx_le)

/-- A table pointer is a word with both type bits set. -/
theorem Shape.and_three (h : Shape s roots) (ht : Allocated s t) {i : Idx}
    (hv : entry s t i &&& 1 ≠ 0) : entry s t i &&& 3 = 3 := by
  rcases h.words ht i with h0 | h3
  · rw [h0] at hv; exact absurd rfl hv
  · exact h3

/-- The next page of the pool is free. -/
theorem not_allocated_poolPage (hle : s.ptIdx < ptPoolPages) :
    ¬ Allocated s (poolPage s.ptIdx) := by
  rintro ⟨k, hk, heq⟩
  have := congrArg BitVec.toNat heq
  rw [poolPage_toNat hle, poolPage_toNat (by omega)] at this
  omega

/-- What `pt_alloc` does, when it returns. -/
theorem ptAlloc_eq_some {p : U64} : ptAlloc s = some (p, s') ↔ s.ptIdx < ptPoolPages ∧
    p = poolPage s.ptIdx ∧
    s' = { s with mem := zeroPage s.mem (poolPage s.ptIdx), ptIdx := s.ptIdx + 1 } := by
  unfold ptAlloc
  split
  · simp only [reduceCtorEq, false_iff, not_and]; omega
  · simp only [Option.some.injEq, Prod.mk.injEq]
    constructor
    · rintro ⟨rfl, rfl⟩; exact ⟨by omega, rfl, rfl⟩
    · rintro ⟨-, rfl, rfl⟩; exact ⟨rfl, rfl⟩

/-- The words of a freshly allocated page are zero, and no other page's
words move. -/
theorem entry_ptAlloc {p n : U64} (ha : ptAlloc s = some (p, s')) (hn : IsPage n) (i : Idx) :
    entry s' n i = if n = p then 0 else entry s n i := by
  obtain ⟨hlt, rfl, rfl⟩ := ptAlloc_eq_some.1 ha
  exact zeroPage_slot (isPage_poolPage hlt) hn

/-- An allocation takes this page only. -/
theorem allocated_ptAlloc {p n : U64} (ha : ptAlloc s = some (p, s')) :
    Allocated s' n ↔ Allocated s n ∨ n = p := by
  obtain ⟨-, rfl, rfl⟩ := ptAlloc_eq_some.1 ha
  simp only [Allocated, Nat.lt_succ_iff_lt_or_eq]
  constructor
  · rintro ⟨k, hk | rfl, rfl⟩
    · exact Or.inl ⟨k, hk, rfl⟩
    · exact Or.inr rfl
  · rintro (⟨k, hk, rfl⟩ | rfl)
    · exact ⟨k, Or.inl hk, rfl⟩
    · exact ⟨s.ptIdx, Or.inr rfl, rfl⟩

/-! ## Storing a leaf -/

section Leaf

variable {a b c : Idx} {e : U64}

/-- A leaf table is no table of an upper level, so storing into it moves
no pointer. -/
theorem child_setLeaf (h : Shape s roots)
    (ht : reach (fun v : ℕ => roots[v]?) (child s) v [a, b] = some t) {p : List Idx} {m : U64}
    (hp : p.length < 2) (hm : reach (fun v : ℕ => roots[v]?) (child s) w p = some m) (i : Idx) :
    child (setEntry s t c e) m i = child s m i := by
  have hmt : m ≠ t := by
    rintro rfl
    obtain ⟨-, rfl⟩ := h.forest.unique (by omega) (by simp) hm ht
    simp at hp
  have hm := h.isPage (h.forest.closed (by omega) hm)
  have ht := h.isPage (h.forest.closed (by simp) ht)
  simp only [child, entry_setEntry ht hm, hmt, false_and, if_false]

/-- **Storing a leaf keeps the shape and changes one page of one VM.** -/
theorem setLeaf_spec (h : Shape s roots)
    (ht : reach (fun v : ℕ => roots[v]?) (child s) v [a, b] = some t)
    (he : e = 0 ∨ e &&& 3 = 3) :
    Shape (setEntry s t c e) roots ∧ ∀ (w : ℕ) r j, roots[w]? = some r →
      translate (setEntry s t c e) r j =
        if w = v ∧ [i1 j, i2 j] = [a, b] ∧ i3 j = c then leaf e else translate s r j := by
  have htp := h.isPage (h.forest.closed (by simp) ht)
  refine ⟨⟨h.idx_le, ?_, ?_⟩, ?_⟩
  · exact h.forest.congr fun hp hm i => child_setLeaf h ht hp hm i
  · intro n hn i
    have hn : Allocated s n := hn
    rw [entry_setEntry htp (h.isPage hn)]
    split
    · exact he
    · exact h.words hn i
  · intro w r j hr
    rw [translate_eq hr, translate_eq hr,
      Forest.reach_congr (fun hp hm i => child_setLeaf h ht hp hm i) (by simp)]
    cases hm : reach (fun v : ℕ => roots[v]?) (child s) w [i1 j, i2 j] with
    | none =>
      rw [if_neg]
      · rfl
      · rintro ⟨rfl, hij, -⟩
        rw [hij, ht] at hm
        exact absurd hm (by simp)
    | some m =>
      simp only [Option.bind_some]
      rw [entry_setEntry htp (h.isPage (h.forest.closed (by simp) hm))]
      by_cases hc : m = t ∧ i3 j = c
      · obtain ⟨rfl, hc⟩ := hc
        obtain ⟨hw, hij⟩ := h.forest.unique (by simp) (by simp) hm ht
        rw [if_pos ⟨rfl, hc⟩, if_pos ⟨hw, hij, hc⟩]
      · rw [if_neg hc, if_neg]
        rintro ⟨rfl, hij, hj⟩
        rw [hij, ht] at hm
        exact hc ⟨(Option.some.inj hm).symm, hj⟩

end Leaf

/-! ## Linking a table -/

section Link

variable {p : List Idx} {i : Idx} {p₀ : U64} {s₁ : S2State}

/-- The words after `pt_alloc` and the store that links the new table. -/
theorem entry_link (h : Shape s roots) (ht : Allocated s t) (ha : ptAlloc s = some (p₀, s₁))
    {n : U64} (hn : Allocated s₁ n) (j : Idx) :
    entry (setEntry s₁ t i (tableDesc p₀)) n j =
      if n = t ∧ j = i then tableDesc p₀ else if n = p₀ then 0 else entry s n j := by
  have hlt := (ptAlloc_eq_some.1 ha).1
  have hp₀ : p₀ = poolPage s.ptIdx := (ptAlloc_eq_some.1 ha).2.1
  have hpage : IsPage n := by
    rcases (allocated_ptAlloc ha).1 hn with hn | rfl
    · exact h.isPage hn
    · rw [hp₀]; exact isPage_poolPage hlt
  rw [entry_setEntry (h.isPage ht) hpage, entry_ptAlloc ha hpage]

/-- **Linking a fresh table under an empty slot keeps the shape, is
reached along the new path and translates nothing yet.** -/
theorem link_spec (h : Shape s roots) (hp : p.length < 2)
    (ht : reach (fun v : ℕ => roots[v]?) (child s) v p = some t) (hi : child s t i = none)
    (ha : ptAlloc s = some (p₀, s₁)) (hs' : s' = setEntry s₁ t i (tableDesc p₀)) :
    Shape s' roots ∧ child s' t i = some p₀ ∧
      (∀ w q, q.length ≤ 2 → reach (fun v : ℕ => roots[v]?) (child s') w q =
        if w = v ∧ q = p ++ [i] then some p₀
        else reach (fun v : ℕ => roots[v]?) (child s) w q) ∧
      ∀ (w : ℕ) r j, roots[w]? = some r → translate s' r j = translate s r j := by
  obtain ⟨hlt, hp₀, hs₁⟩ := ptAlloc_eq_some.1 ha
  have htal : Allocated s t := h.forest.closed (by omega) ht
  have hfresh : ¬ Allocated s p₀ := hp₀ ▸ not_allocated_poolPage hlt
  have halloc : ∀ n, Allocated s' n ↔ Allocated s n ∨ n = p₀ := fun n => by
    rw [← allocated_ptAlloc ha, hs']; rfl
  have hword : ∀ n, Allocated s' n → ∀ j, entry s' n j =
      if n = t ∧ j = i then tableDesc p₀ else if n = p₀ then 0 else entry s n j := by
    intro n hn j
    subst hs'
    exact entry_link h htal ha hn j
  have hne : ∀ {n}, Allocated s n → n ≠ p₀ := fun hn heq => hfresh (heq ▸ hn)
  have hpage₀ : IsPage p₀ := hp₀ ▸ isPage_poolPage hlt
  have hti : child s' t i = some p₀ := by
    have hentry : entry s' t i = tableDesc p₀ := by
      rw [hword t ((halloc t).2 (Or.inl htal)), if_pos ⟨rfl, rfl⟩]
    rw [child, hentry, if_neg (and_one_ne_zero (tableDesc_and_three p₀)),
      tableDesc_and_addrMask hpage₀.1]
  have hzero : ∀ j, entry s' p₀ j = 0 := fun j => by
    rw [hword p₀ ((halloc p₀).2 (Or.inr rfl)), if_neg fun hc => hne htal hc.1.symm, if_pos rfl]
  have hnone : ∀ j, child s' p₀ j = none := fun j => by
    rw [child, hzero]; rfl
  have hkeep : ∀ {m j}, Allocated s m → ¬ (m = t ∧ j = i) → entry s' m j = entry s m j := by
    intro m j hm hmj
    rw [hword m ((halloc m).2 (Or.inl hm)), if_neg hmj, if_neg (hne hm)]
  have hsame : ∀ {m j}, Allocated s m → ¬ (m = t ∧ j = i) → child s' m j = child s m j :=
    fun hm hmj => by rw [child, child, hkeep hm hmj]
  have hreach : ∀ w q, q.length ≤ 2 → reach (fun v : ℕ => roots[v]?) (child s') w q =
      if w = v ∧ q = p ++ [i] then some p₀
      else reach (fun v : ℕ => roots[v]?) (child s) w q :=
    fun w q hq => h.forest.reach_link hp ht hi hti hnone hsame hq
  refine ⟨⟨?_, h.forest.link hp ht hi hfresh hti hnone hsame halloc, ?_⟩, hti, hreach, ?_⟩
  · rw [hs', hs₁]; exact hlt
  · intro n hn j
    rw [hword n hn]
    split
    · exact Or.inr (tableDesc_and_three p₀)
    · split
      · exact Or.inl rfl
      · rename_i hnp
        exact h.words (((halloc n).1 hn).resolve_right hnp) j
  · intro w r j hr
    rw [translate_eq hr, translate_eq hr, hreach w _ (by simp)]
    split
    · -- the new table is empty, and before it there was none
      rename_i hw
      rw [hw.1, hw.2, reach_concat, ht, Option.bind_some, Option.bind_some, hi, hzero]
      rfl
    · cases hm : reach (fun v : ℕ => roots[v]?) (child s) w [i1 j, i2 j] with
      | none => rfl
      | some m =>
        have hmal := h.forest.closed (by simp) hm
        have hmt : m ≠ t := by
          rintro rfl
          obtain ⟨-, rfl⟩ := h.forest.unique (by simp) (by omega) hm ht
          simp at hp
        rw [Option.bind_some, Option.bind_some, hkeep hmal fun hc => hmt hc.1]

/-- **One level of the descent**: the slot's table is reached, whether it
was there or is new, and no translation changes. -/
theorem tableAt_spec {t' : U64} (h : Shape s roots) (hp : p.length < 2)
    (ht : reach (fun v : ℕ => roots[v]?) (child s) v p = some t)
    (hrun : tableAt s t i = some (t', s')) :
    Shape s' roots ∧ reach (fun v : ℕ => roots[v]?) (child s') v (p ++ [i]) = some t' ∧
      ∀ (w : ℕ) r j, roots[w]? = some r → translate s' r j = translate s r j := by
  unfold tableAt at hrun
  by_cases hv : entry s t i &&& 1 = 0
  · have hi : child s t i = none := if_pos hv
    rw [if_pos hv] at hrun
    cases ha : ptAlloc s with
    | none => rw [ha] at hrun; exact absurd hrun (by simp)
    | some ps =>
      obtain ⟨p₀, s₁⟩ := ps
      rw [ha] at hrun
      obtain ⟨ht', hs'⟩ := Prod.mk.inj (Option.some.inj hrun)
      obtain ⟨hshape, hti, hreach, htrans⟩ := link_spec h hp ht hi ha hs'.symm
      refine ⟨hshape, ?_, htrans⟩
      rw [hreach v _ (by simp; omega), if_pos ⟨rfl, rfl⟩, ← hti, child, ← hs']
      rw [← hs', child] at hti
      split at hti
      · exact absurd hti (by simp)
      · rename_i hv'
        rw [if_neg hv', ← ht']
  · rw [if_neg hv] at hrun
    obtain ⟨rfl, rfl⟩ := Prod.mk.inj (Option.some.inj hrun)
    refine ⟨h, ?_, fun _ _ _ _ => rfl⟩
    rw [reach_concat, ht, Option.bind_some, child, if_neg hv]

end Link

end Pool

end Stage2

end HypervisorBase
