import HypervisorBase.Stage2.Refinement
/-!
# What the tables answer

`s2_walk` and `s2_ipa_is_mapped` read a heap of the right shape as the
address space it refines: the walk reports the descriptor of the page, and
the overlap query asks page after page of its range. `tableStep` runs the
operations of one VM from the empty pool, and `stage2_refines_pageMap` is
the refinement as a reader of the code would state it, over a finite map
from guest pages to physical pages and attribute bits.
-/

namespace HypervisorBase

namespace Stage2

variable {j : U64}

/-- The walk, with both pointers read. -/
theorem s2Walk_mapped_of_follow {s : S2State} {r l3 : U64}
    (h1 : entry s r (i1 j) &&& 3 = 3)
    (h2 : entry s (entry s r (i1 j) &&& walkMask) (i2 j) &&& 3 = 3)
    (hl3 : entry s (entry s r (i1 j) &&& walkMask) (i2 j) &&& walkMask = l3)
    (h3 : entry s l3 (i3 j) = 0 ∨ entry s l3 (i3 j) &&& 3 = 3) :
    (s2Walk s r j).mapped =
      (leaf (entry s l3 (i3 j))).map fun e => (e, (e &&& walkMask) ||| (j &&& 0xFFF)) := by
  unfold s2Walk
  rw [if_neg (not_not.2 h1), if_neg (not_not.2 h2), hl3]
  rcases h3 with h0 | h3
  · rw [h0]; rfl
  · rw [if_pos h3, leaf, if_neg (and_one_ne_zero h3)]; rfl

variable {sz : U64}

/-- The loop of `s2_ipa_is_mapped` with enough steps left: it ends, and
has found a mapped page if there is one. The induction is on the steps;
`off` stays a step below the end of the range. -/
theorem isMappedLoop_eq (s : S2State) (r ipa : U64) (n : ℕ) (off : U64)
    (hsz : sz.toNat ≤ 2 ^ 64 - 4096) (hoff : off.toNat < sz.toNat + 4096)
    (hn : sz.toNat + 4096 ≤ off.toNat + n * 4096) :
    ∃ b, isMappedLoop s r ipa sz n off = some b ∧ (b = true ↔
      ∃ k, off.toNat + k * 4096 < sz.toNat ∧
        pageMapped s r (ipa + (off + BitVec.ofNat 64 (k * 4096))) = true) := by
  induction n generalizing off with
  | zero => omega
  | succ n ih =>
    have h0 : off + BitVec.ofNat 64 (0 * 4096) = off := BitVec.add_zero off
    unfold isMappedLoop
    by_cases hlt : off < sz
    · have hlt' : off.toNat < sz.toNat := hlt
      rw [if_pos hlt]
      by_cases hm : pageMapped s r (ipa + off) = true
      · rw [if_pos hm]
        refine ⟨true, rfl, fun _ => ⟨0, by omega, by rwa [h0]⟩, fun _ => rfl⟩
      · rw [if_neg hm]
        have hnext : (off + 4096).toNat = off.toNat + 4096 := by
          simp only [BitVec.toNat_add, show (4096 : U64).toNat = 4096 from rfl]
          omega
        obtain ⟨b, hb, hiff⟩ := ih (off + 4096) (by omega) (by omega)
        refine ⟨b, hb, hiff.trans ⟨?_, ?_⟩⟩
        · rintro ⟨k, hk, hmk⟩
          exact ⟨k + 1, by omega, by rwa [add_ofNat_succ_page]⟩
        · rintro ⟨k, hk, hmk⟩
          cases k with
          | zero => rw [h0] at hmk; exact absurd hmk hm
          | succ k => exact ⟨k, by omega, by rwa [← add_ofNat_succ_page]⟩
    · have hge : sz.toNat ≤ off.toNat := Nat.le_of_not_lt hlt
      rw [if_neg hlt]
      refine ⟨false, rfl, by simp, ?_⟩
      rintro ⟨k, hk, -⟩
      omega

/-- **`s2_ipa_is_mapped` on a size that does not wrap its offset** asks
every page it steps to. -/
theorem s2IpaIsMapped_eq (s : S2State) (r ipa : U64)
    (hsz : sz.toNat ≤ 2 ^ 64 - 4096) :
    ∃ b, s2IpaIsMapped s r ipa sz = some b ∧ (b = true ↔
      ∃ k, k * 4096 < sz.toNat ∧ pageMapped s r (ipa + BitVec.ofNat 64 (k * 4096)) = true) := by
  have hz : (0 : U64).toNat = 0 := rfl
  obtain ⟨b, hb, hiff⟩ := isMappedLoop_eq s r ipa (2 ^ 52 + 1) 0 hsz (by omega) (by omega)
  refine ⟨b, hb, ?_⟩
  simpa only [hz, Nat.zero_add, show ∀ x : U64, 0 + x = x from BitVec.zero_add] using hiff

/-- The loop of `s2_ipa_is_mapped` finds a page: one of those it steps to
before it leaves the range. The induction is on the steps. -/
theorem isMappedLoop_eq_true_iff (s : S2State) (r ipa sz : U64) (n : ℕ) (off : U64) :
    isMappedLoop s r ipa sz n off = some true ↔
      ∃ k < n, (∀ i ≤ k, off + BitVec.ofNat 64 (i * 4096) < sz) ∧
        pageMapped s r (ipa + (off + BitVec.ofNat 64 (k * 4096))) = true := by
  induction n generalizing off with
  | zero =>
    refine ⟨fun hnone => ?_, fun ⟨k, hk, _⟩ => absurd hk (Nat.not_lt_zero k)⟩
    cases hnone
  | succ n ih =>
    have h0 : off + BitVec.ofNat 64 (0 * 4096) = off := BitVec.add_zero off
    rw [isMappedLoop]
    by_cases hlt : off < sz
    swap
    · rw [if_neg hlt]
      refine ⟨fun hfalse => ?_, fun ⟨k, _, hin, _⟩ => absurd ?_ hlt⟩
      · cases hfalse
      · have hfirst := hin 0 (Nat.zero_le k)
        rwa [h0] at hfirst
    rw [if_pos hlt]
    by_cases hm : pageMapped s r (ipa + off) = true
    · rw [if_pos hm]
      refine ⟨fun _ => ⟨0, Nat.succ_pos n, fun i hi => ?_, by rwa [h0]⟩, fun _ => rfl⟩
      rwa [Nat.le_zero.mp hi, h0]
    · rw [if_neg hm, ih]
      constructor
      · rintro ⟨k, hk, hin, hmk⟩
        refine ⟨k + 1, by omega, fun i hi => ?_, by rwa [add_ofNat_succ_page]⟩
        cases i with
        | zero => rwa [h0]
        | succ i =>
          rw [add_ofNat_succ_page]
          exact hin i (by omega)
      · rintro ⟨k, hk, hin, hmk⟩
        cases k with
        | zero =>
          rw [h0] at hmk
          exact absurd hmk hm
        | succ k =>
          refine ⟨k, by omega, fun i hi => ?_, by rwa [← add_ofNat_succ_page]⟩
          rw [← add_ofNat_succ_page]
          exact hin (i + 1) (by omega)

/-- **`s2_ipa_is_mapped` finds a page** of the range if there is one, also
where its offset wraps. -/
theorem s2IpaIsMapped_eq_true_iff (s : S2State) (r ipa sz : U64) :
    s2IpaIsMapped s r ipa sz = some true ↔
      ∃ k, k * 4096 < sz.toNat ∧ pageMapped s r (ipa + BitVec.ofNat 64 (k * 4096)) = true := by
  have hoff : ∀ k, 0 + BitVec.ofNat 64 (k * 4096) = BitVec.ofNat 64 (k * 4096) :=
    fun k => BitVec.zero_add _
  rw [s2IpaIsMapped, isMappedLoop_eq_true_iff]
  constructor
  · rintro ⟨k, -, hin, hmk⟩
    -- a page met again after the offset wrapped was met before
    have hmod : BitVec.ofNat 64 (k % 2 ^ 52 * 4096) = BitVec.ofNat 64 (k * 4096) := by
      apply BitVec.eq_of_toNat_eq
      rw [BitVec.toNat_ofNat, BitVec.toNat_ofNat]
      omega
    refine ⟨k % 2 ^ 52, ?_, by rw [hmod]; rwa [hoff] at hmk⟩
    have hlt : (0 + BitVec.ofNat 64 (k * 4096)).toNat < sz.toNat := hin k (Nat.le_refl k)
    rw [hoff, ← hmod, BitVec.toNat_ofNat] at hlt
    omega
  · rintro ⟨k, hk, hmk⟩
    have hsz := sz.isLt
    refine ⟨k, by omega, fun i hi => ?_, by rwa [hoff]⟩
    rw [hoff]
    change (BitVec.ofNat 64 (i * 4096)).toNat < sz.toNat
    rw [BitVec.toNat_ofNat]
    omega

/-! ## Through the refinement -/

section Refined

variable [P : PtPool]
variable {s s' : S2State} {roots : List U64} {M : ℕ → Space} {v : ℕ} {r : U64}

theorem pool_lt_of_allocated (h : Shape s roots) {n : U64} (hn : Allocated s n) :
    n.toNat < 2 ^ 48 := by
  have := (h.isPage hn).2
  omega

theorem Shape.root_ne_zero (h : Shape s roots) (hr : roots[v]? = some r) : r ≠ 0 := by
  have hroot : reach (fun v : ℕ => roots[v]?) (child s) v [] = some r := by rw [reach_nil, hr]
  obtain ⟨k, hk, rfl⟩ := h.forest.closed (by simp) hroot
  intro hzero
  have hnat := poolPage_toNat (Nat.lt_of_lt_of_le hk h.idx_le)
  rw [hzero] at hnat
  have hlow := P.lower
  have hz : (0 : U64).toNat = 0 := rfl
  omega

/-- An upper-level slot, by cases: empty, or a pointer to an allocated
table that every reader of the tables agrees on. -/
theorem upper_cases (h : Shape s roots) {p : List Idx} {t : U64} (hp : p.length < 2)
    (ht : reach (fun v : ℕ => roots[v]?) (child s) v p = some t) (i : Idx) :
    (entry s t i &&& 1 = 0 ∧ entry s t i &&& 3 ≠ 3 ∧ child s t i = none) ∨
      (entry s t i &&& 1 ≠ 0 ∧ entry s t i &&& 3 = 3 ∧
        child s t i = some (entry s t i &&& addrMask) ∧
        entry s t i &&& walkMask = entry s t i &&& addrMask ∧
        reach (fun v : ℕ => roots[v]?) (child s) v (p ++ [i]) =
          some (entry s t i &&& addrMask)) := by
  have hta := h.forest.closed (by omega) ht
  by_cases hv : entry s t i &&& 1 = 0
  · exact Or.inl ⟨hv, fun h3 => and_one_ne_zero h3 hv, if_pos hv⟩
  · have hc : child s t i = some (entry s t i &&& addrMask) := if_neg hv
    have hreach : reach (fun v : ℕ => roots[v]?) (child s) v (p ++ [i]) =
        some (entry s t i &&& addrMask) := by rw [reach_concat, ht, Option.bind_some, hc]
    have hal := h.forest.closed (by simp; omega) hreach
    exact Or.inr ⟨hv, h.and_three hta hv, hc, and_walkMask rfl (pool_lt_of_allocated h hal),
      hreach⟩

/-- **The walk reads the address space.** -/
theorem s2Walk_mapped (h : Refines s roots M) (hr : roots[v]? = some r) (j : U64) :
    (s2Walk s r j).mapped =
      (M v (vpn j)).map fun e => (e, (e &&& walkMask) ||| (j &&& 0xFFF)) := by
  rw [← h.trans v r j hr, translate]
  simp only [follow_cons, follow_nil]
  have hroot : reach (fun v : ℕ => roots[v]?) (child s) v [] = some r := by rw [reach_nil, hr]
  rcases upper_cases h.shape (by simp) hroot (i1 j) with ⟨-, h3, hc⟩ | ⟨-, h3, hc, hmask, hl2⟩
  · rw [hc, s2Walk, if_pos h3]; rfl
  rcases upper_cases h.shape (by simp) hl2 (i2 j) with ⟨-, h3', hc'⟩ | ⟨-, h3', hc', hmask', hl3⟩
  · rw [hc, Option.bind_some, hc', s2Walk, if_neg (not_not.2 h3), hmask, if_pos h3']; rfl
  · rw [hc, Option.bind_some, hc', Option.bind_some, Option.bind_some]
    refine s2Walk_mapped_of_follow h3 (by rw [hmask]; exact h3') (by rw [hmask, hmask']) ?_
    exact h.shape.words (h.shape.forest.closed (by simp) hl3) (i3 j)

/-- What a guest's access at `ipa` goes through: inside the 39 bits of
Stage 2, the descriptor of the walk and the address it yields. -/
def ipaView (s : S2State) (pgd ipa : U64) : Option (U64 × U64) :=
  if ipa.toNat < 2 ^ 39 then (s2Walk s pgd ipa).mapped else none

omit P in
theorem ipaView_of_ge {s : S2State} {pgd ipa : U64} (hge : 2 ^ 39 ≤ ipa.toNat) :
    ipaView s pgd ipa = none := if_neg (Nat.not_lt.mpr hge)

theorem ipaView_eq (h : Refines s roots M) (hr : roots[v]? = some r)
    (hj : j.toNat < 2 ^ 39) : ipaView s r j =
      (M v (j.toNat / 4096)).map fun e => (e, (e &&& walkMask) ||| (j &&& 0xFFF)) := by
  rw [ipaView, if_pos hj, s2Walk_mapped h hr, vpn_of_lt hj]

theorem ipaView_eq_none_iff (h : Refines s roots M) (hr : roots[v]? = some r)
    (hj : j.toNat < 2 ^ 39) : ipaView s r j = none ↔ M v (j.toNat / 4096) = none := by
  rw [ipaView_eq h hr hj, Option.map_eq_none_iff]

/-- The entry that an address is seen through. -/
theorem ipaView_fst (h : Refines s roots M) (hr : roots[v]? = some r)
    (hj : j.toNat < 2 ^ 39) : (ipaView s r j).map Prod.fst = M v (j.toNat / 4096) := by
  rw [ipaView_eq h hr hj, Option.map_map]
  exact Option.map_id'

/-- **An address is seen alike in two heaps** if its page has the same
entry. -/
theorem ipaView_congr_iff {M' : ℕ → Space} (h : Refines s roots M) (h' : Refines s' roots M')
    (hr : roots[v]? = some r) (hj : j.toNat < 2 ^ 39) :
    ipaView s' r j = ipaView s r j ↔ M' v (j.toNat / 4096) = M v (j.toNat / 4096) := by
  constructor
  · intro heq
    rw [← ipaView_fst h hr hj, ← ipaView_fst h' hr hj, heq]
  · intro heq
    rw [ipaView_eq h hr hj, ipaView_eq h' hr hj, heq]

/-- **The overlap query reads the address space.** -/
theorem pageMapped_iff (h : Refines s roots M) (hr : roots[v]? = some r) (j : U64) :
    pageMapped s r j = true ↔ (M v (vpn j)).isSome := by
  rw [← h.trans v r j hr, translate]
  simp only [follow_cons, follow_nil, pageMapped]
  have hroot : reach (fun v : ℕ => roots[v]?) (child s) v [] = some r := by rw [reach_nil, hr]
  rcases upper_cases h.shape (by simp) hroot (i1 j) with ⟨hv, -, hc⟩ | ⟨hv, -, hc, -, hl2⟩
  · rw [hc, if_pos hv]; simp
  rcases upper_cases h.shape (by simp) hl2 (i2 j) with ⟨hv', -, hc'⟩ | ⟨hv', h3', hc', -, -⟩
  · rw [hc, Option.bind_some, hc', if_neg hv, if_pos hv']; simp
  · rw [hc, Option.bind_some, hc', Option.bind_some, Option.bind_some, if_neg hv, if_neg hv',
      if_neg (and_two_ne_zero h3'), leaf]
    split
    · rename_i h0; simpa using h0
    · rename_i h0; simpa using h0

end Refined

/-! ## One VM's tables as a finite map -/

/-- The attribute bits of a descriptor: 2 to 11 and 50 to 63. -/
def attrMask : U64 := 0xFFFC000000000FFC

/-- The arguments of an `s2_map` call inside the tables' range. -/
structure MapArgs where
  ipa : U64
  pa : U64
  sz : U64
  flags : U64
  ipa_aligned : ipa.toNat % 4096 = 0
  pa_aligned : pa.toNat % 4096 = 0
  sz_aligned : sz.toNat % 4096 = 0
  ipa_le : ipa.toNat + sz.toNat ≤ 2 ^ 39
  pa_le : pa.toNat + sz.toNat ≤ 2 ^ 48
  attrs : flags &&& attrMask = flags

/-- The arguments of an `s2_unmap` call inside the tables' range. -/
structure UnmapArgs where
  ipa : U64
  sz : U64
  ipa_aligned : ipa.toNat % 4096 = 0
  sz_aligned : sz.toNat % 4096 = 0
  ipa_le : ipa.toNat + sz.toNat ≤ 2 ^ 39

/-- The calls that build one VM's tables. -/
inductive TableOp
  | create
  | map (a : MapArgs)
  | unmap (a : UnmapArgs)

/-- **The abstract map**: guest page to physical page and attributes. -/
abbrev PageMap := ℕ → Option (ℕ × U64)

/-- What a call does to the abstract map. -/
def PageMap.step (m : PageMap) : TableOp → PageMap
  | .create => fun _ => none
  | .map a => fun p =>
    if a.ipa.toNat ≤ p * 4096 ∧ p * 4096 < a.ipa.toNat + a.sz.toNat
      then some ((a.pa.toNat + (p * 4096 - a.ipa.toNat)) / 4096, a.flags) else m p
  | .unmap a => fun p =>
    if a.ipa.toNat ≤ p * 4096 ∧ p * 4096 < a.ipa.toNat + a.sz.toNat then none else m p

/-- What a walk yields: the address it prints and the attributes of the
descriptor it ended at. -/
def Walk.result (w : Walk) : Option (U64 × U64) :=
  w.mapped.map fun (l3e, mappedPa) => (mappedPa, l3e &&& attrMask)

/-- The descriptor an entry of the abstract map is stored as. -/
def descOf (x : ℕ × U64) : U64 := pageDesc (BitVec.ofNat 64 (x.1 * 4096)) x.2

theorem toNat_ofNat_page {n : ℕ} (hn : n < 2 ^ 36) :
    (BitVec.ofNat 64 (n * 4096)).toNat = n * 4096 := by
  rw [BitVec.toNat_ofNat]
  omega

/-- The walk's mask takes the physical page out of a descriptor. -/
theorem descOf_and_walkMask {x : ℕ × U64} (hx : x.1 < 2 ^ 36) (hf : x.2 &&& attrMask = x.2) :
    descOf x &&& walkMask = BitVec.ofNat 64 (x.1 * 4096) := by
  have hpage : BitVec.ofNat 64 (x.1 * 4096) &&& addrMask = BitVec.ofNat 64 (x.1 * 4096) :=
    and_addrMask_eq_self (by rw [toNat_ofNat_page hx]; omega)
  have hflags : x.2 &&& walkMask = 0#64 := by
    rw [← hf, BitVec.and_assoc, show attrMask &&& walkMask = 0#64 by decide, BitVec.and_zero]
  have hrest : (x.2 ||| s2DescValid ||| s2DescPage) &&& walkMask = 0#64 := by
    rw [BitVec.or_assoc, BitVec.and_or_distrib_right, hflags]
    decide
  rw [descOf, pageDesc, hpage, BitVec.or_assoc, BitVec.or_assoc, ← BitVec.or_assoc x.2]
  refine Word.or_and_left (and_walkMask hpage ?_) hrest
  rw [toNat_ofNat_page hx]
  omega

/-- And the attribute mask takes the attributes. -/
theorem descOf_and_attrMask {x : ℕ × U64} (hx : x.1 < 2 ^ 36) (hf : x.2 &&& attrMask = x.2) :
    descOf x &&& attrMask = x.2 := by
  have hpage : BitVec.ofNat 64 (x.1 * 4096) &&& walkMask = BitVec.ofNat 64 (x.1 * 4096) := by
    refine and_walkMask (and_addrMask_eq_self ?_) ?_ <;> rw [toNat_ofNat_page hx] <;> omega
  have hpage' : (BitVec.ofNat 64 (x.1 * 4096) &&& addrMask) &&& attrMask = 0#64 := by
    rw [← hpage, BitVec.and_assoc, BitVec.and_assoc,
      show walkMask &&& (addrMask &&& attrMask) = 0#64 by decide, BitVec.and_zero]
  rw [descOf, pageDesc, BitVec.or_assoc, BitVec.and_or_distrib_right,
    BitVec.and_or_distrib_right, hpage', hf,
    show (s2DescValid ||| s2DescPage) &&& attrMask = 0#64 by decide, BitVec.or_zero,
    BitVec.zero_or]

/-- A page and an offset inside it, joined or added. -/
theorem page_or_offset {n : ℕ} (hn : n < 2 ^ 36) (j : U64) :
    BitVec.ofNat 64 (n * 4096) ||| (j &&& 0xFFF) =
      BitVec.ofNat 64 (n * 4096 + j.toNat % 4096) := by
  have hpage : BitVec.ofNat 64 (n * 4096) &&& addrMask = BitVec.ofNat 64 (n * 4096) :=
    and_addrMask_eq_self (by rw [toNat_ofNat_page hn]; omega)
  have hdisj : BitVec.ofNat 64 (n * 4096) &&& (j &&& 0xFFF) = 0#64 := by
    rw [← hpage, BitVec.and_assoc, BitVec.and_comm j, ← BitVec.and_assoc addrMask,
      show addrMask &&& (0xFFF : U64) = 0#64 by decide, BitVec.zero_and, BitVec.and_zero]
  have hoff : (j &&& 0xFFF).toNat = j.toNat % 4096 :=
    Word.toNat_and_lowMask j (show 12 ≤ 64 by decide)
  rw [← BitVec.add_eq_or_of_and_eq_zero _ _ hdisj]
  apply BitVec.eq_of_toNat_eq
  rw [BitVec.toNat_add, toNat_ofNat_page hn, hoff, BitVec.toNat_ofNat]

variable {m : PageMap}

/-- The pages an `s2_map` call stores, as the abstract map has them. -/
theorem mapRange_descOf (a : MapArgs) (p : ℕ) :
    Space.mapRange (fun p => (m p).map descOf) (a.ipa.toNat / 4096) (a.sz.toNat / 4096)
      (fun k => pageDesc (a.pa + BitVec.ofNat 64 (k * 4096)) a.flags) p =
      (m.step (.map a) p).map descOf := by
  have hipa := a.ipa_aligned
  have hpa := a.pa_aligned
  have hsz := a.sz_aligned
  have hle := a.pa_le
  simp only [Space.mapRange, PageMap.step]
  by_cases hin : a.ipa.toNat ≤ p * 4096 ∧ p * 4096 < a.ipa.toNat + a.sz.toNat
  · rw [if_pos (by omega), if_pos hin, Option.map_some, descOf]
    congr 2
    apply BitVec.eq_of_toNat_eq
    simp only [BitVec.toNat_add, BitVec.toNat_ofNat]
    omega
  · rw [if_neg (by omega), if_neg hin]

theorem clearRange_descOf (a : UnmapArgs) (p : ℕ) :
    Space.clearRange (fun p => (m p).map descOf) (a.ipa.toNat / 4096) (a.sz.toNat / 4096) p =
      (m.step (.unmap a) p).map descOf := by
  have hipa := a.ipa_aligned
  have hsz := a.sz_aligned
  simp only [Space.clearRange, PageMap.step]
  by_cases hin : a.ipa.toNat ≤ p * 4096 ∧ p * 4096 < a.ipa.toNat + a.sz.toNat
  · rw [if_pos (by omega), if_pos hin]; rfl
  · rw [if_neg (by omega), if_neg hin]

/-- The entries of the abstract map stay in range. -/
theorem PageMap.step_fits (op : TableOp)
    (h : ∀ p x, m p = some x → x.1 < 2 ^ 36 ∧ x.2 &&& attrMask = x.2) :
    ∀ p x, m.step op p = some x → x.1 < 2 ^ 36 ∧ x.2 &&& attrMask = x.2 := by
  intro p x hx
  cases op with
  | create => simp [PageMap.step] at hx
  | map a =>
    have hle := a.pa_le
    simp only [PageMap.step] at hx
    split at hx
    · obtain rfl := Option.some.inj hx
      exact ⟨by simp only; omega, a.attrs⟩
    · exact h p x hx
  | unmap a =>
    simp only [PageMap.step] at hx
    split at hx
    · exact absurd hx (by simp)
    · exact h p x hx

section OneVm

variable [P : PtPool]

/-- One call on a VM: the heap, and the VM's `s2_pgd`. -/
def tableStep (st : S2State × U64) : TableOp → Option (S2State × U64)
  | .create => do
      let ((pgd, _), s) ← s2Create st.1
      pure (s, pgd)
  | .map a => do
      let (_, s) ← s2Map st.1 st.2 a.ipa a.pa a.sz a.flags
      pure (s, st.2)
  | .unmap a => some ((s2Unmap st.1 st.2 a.ipa a.sz).2, st.2)

/-- The tables before any call: nothing handed out, memory arbitrary. -/
def tableInit (mem : U64 → U64) : S2State where
  mem := mem
  ptIdx := 0
  vmid := 1

/-- **The simulation relation**: the VM's tree holds the abstract map's
entries, in a heap that may hold trees of earlier `s2_create` calls. -/
structure Realises (st : S2State × U64) (m : PageMap) : Prop where
  refined : ∃ roots M v, Refines st.1 roots M ∧ roots[v]? = some st.2 ∧
    ∀ p, M v p = (m p).map descOf
  fits : ∀ p x, m p = some x → x.1 < 2 ^ 36 ∧ x.2 &&& attrMask = x.2

/-- Nothing is mapped at the start. -/
theorem refines_tableInit (mem : U64 → U64) :
    Refines (tableInit mem) [] fun _ _ => none := by
  refine ⟨⟨by simp [tableInit], ⟨?_, ?_, ?_⟩, ?_⟩, ?_⟩
  · intro v p n _ h; simp [reach] at h
  · rintro n ⟨k, hk, -⟩; simp [tableInit] at hk
  · intro v v' p p' n _ _ h; simp [reach] at h
  · rintro n ⟨k, hk, -⟩; simp [tableInit] at hk
  · intro w r j hr; simp at hr

variable {st st' : S2State × U64}

/-- `s2_create` starts the VM over with an empty map. -/
theorem tableStep_create_realises {roots : List U64} {M : ℕ → Space}
    (h : Refines st.1 roots M) (hrun : tableStep st .create = some st') :
    Realises st' fun _ => none := by
  obtain ⟨⟨⟨pgd, vttbr⟩, s⟩, hc, hrun⟩ := Option.bind_eq_some_iff.mp hrun
  obtain rfl := Option.some.inj hrun
  refine ⟨⟨_, _, roots.length, s2Create_refines h hc, by simp, fun p => ?_⟩, by simp⟩
  rw [Function.update_self]; rfl

/-- **One call keeps the simulation.** -/
theorem tableStep_realises {op : TableOp}
    (h : Realises st m) (hrun : tableStep st op = some st') : Realises st' (m.step op) := by
  obtain ⟨⟨roots, M, v, href, hr, hM⟩, hfits⟩ := h
  have hMv : M v = fun p => (m p).map descOf := funext hM
  refine ⟨?_, PageMap.step_fits op hfits⟩
  cases op with
  | create => exact (tableStep_create_realises href hrun).refined
  | map a =>
    obtain ⟨⟨e, s⟩, hc, hrun⟩ := Option.bind_eq_some_iff.mp hrun
    obtain rfl := Option.some.inj hrun
    have he : e = .ok := by
      rcases s2Map_eq_some.1 hc with ⟨-, -, hn⟩ | ⟨he, -⟩
      · exact absurd ⟨a.ipa_aligned, a.pa_aligned, a.sz_aligned⟩ hn
      · exact he
    subst he
    refine ⟨roots, _, v, s2Map_refines_range href hr a.ipa_le hc, hr, fun p => ?_⟩
    rw [Function.update_self, hMv, mapRange_descOf]
  | unmap a =>
    obtain rfl := Option.some.inj hrun
    refine ⟨roots, _, v, s2Unmap_refines_range href hr a.ipa_aligned a.sz_aligned a.ipa_le, hr,
      fun p => ?_⟩
    rw [Function.update_self, hMv, clearRange_descOf]

/-- And so does a run of them. -/
theorem exec_tableStep_realises {ops : List TableOp}
    (h : Realises st m) (hrun : exec tableStep st ops = some st') :
    Realises st' (ops.foldl PageMap.step m) := by
  induction ops generalizing st m with
  | nil => obtain rfl := Option.some.inj hrun; exact h
  | cons op ops ih =>
    obtain ⟨t, ht, hrun⟩ := Option.bind_eq_some_iff.mp hrun
    exact ih (tableStep_realises h ht) hrun

/-- What the walk of a VM's tables yields. -/
theorem Realises.walk (h : Realises st m)
    (hj : j.toNat < 2 ^ 39) : (s2Walk st.1 st.2 j).result =
      (m (j.toNat / 4096)).map fun x =>
        (BitVec.ofNat 64 (x.1 * 4096 + j.toNat % 4096), x.2) := by
  obtain ⟨⟨roots, M, v, href, hr, hM⟩, hfits⟩ := h
  rw [Walk.result, s2Walk_mapped href hr, hM, vpn_of_lt hj]
  cases hm : m (j.toNat / 4096) with
  | none => rfl
  | some x =>
    obtain ⟨hx, hf⟩ := hfits _ x hm
    simp only [Option.map_some]
    rw [descOf_and_walkMask hx hf, descOf_and_attrMask hx hf, page_or_offset hx]

/-- What the overlap query answers. -/
theorem Realises.isMapped (h : Realises st m) {ipa : U64}
    (hipa : ipa.toNat % 4096 = 0) (hle : ipa.toNat + sz.toNat ≤ 2 ^ 39) :
    ∃ b, s2IpaIsMapped st.1 st.2 ipa sz = some b ∧ (b = true ↔
      ∃ p, ipa.toNat ≤ p * 4096 ∧ p * 4096 < ipa.toNat + sz.toNat ∧ (m p).isSome) := by
  obtain ⟨⟨roots, M, v, href, hr, hM⟩, -⟩ := h
  obtain ⟨b, hb, hiff⟩ := s2IpaIsMapped_eq st.1 st.2 ipa (show sz.toNat ≤ 2 ^ 64 - 4096 by omega)
  obtain ⟨q, hq⟩ : ∃ q, ipa.toNat = q * 4096 := ⟨ipa.toNat / 4096, by omega⟩
  have hvpn : ∀ k, k * 4096 < sz.toNat →
      vpn (ipa + BitVec.ofNat 64 (k * 4096)) = q + k := by
    intro k hk
    simp only [vpn, BitVec.toNat_add, BitVec.toNat_ofNat]
    omega
  refine ⟨b, hb, hiff.trans ⟨?_, ?_⟩⟩
  · rintro ⟨k, hk, hmk⟩
    rw [pageMapped_iff href hr, hvpn k hk, hM, Option.isSome_map] at hmk
    refine ⟨q + k, by omega, ?_, hmk⟩
    rw [Nat.add_mul, hq]
    exact Nat.add_lt_add_left hk _
  · rintro ⟨p, hp, hp', hmp⟩
    obtain ⟨k, rfl⟩ : ∃ k, p = q + k := ⟨p - q, by omega⟩
    rw [Nat.add_mul, hq] at hp'
    have hk : k * 4096 < sz.toNat := Nat.lt_of_add_lt_add_left hp'
    refine ⟨k, hk, ?_⟩
    rw [pageMapped_iff href hr, hvpn k hk, hM, Option.isSome_map]
    exact hmp

/-- **Stage-2 tables refine a finite map.** Whatever calls built a VM's
tables from the empty pool, the walk of any address and the overlap query
of any aligned range answer as the abstract map does. -/
theorem stage2_refines_pageMap (mem : U64 → U64) (pgd₀ : U64) (ops : List TableOp)
    (s : S2State) (pgd : U64)
    (hrun : exec tableStep (tableInit mem, pgd₀) (.create :: ops) = some (s, pgd)) :
    (∀ j : U64, j.toNat < 2 ^ 39 → (s2Walk s pgd j).result =
      (ops.foldl PageMap.step (fun _ => none) (j.toNat / 4096)).map fun x =>
        (BitVec.ofNat 64 (x.1 * 4096 + j.toNat % 4096), x.2)) ∧
    ∀ ipa sz : U64, ipa.toNat % 4096 = 0 → ipa.toNat + sz.toNat ≤ 2 ^ 39 →
      ∃ b, s2IpaIsMapped s pgd ipa sz = some b ∧ (b = true ↔
        ∃ p, ipa.toNat ≤ p * 4096 ∧ p * 4096 < ipa.toNat + sz.toNat ∧
          (ops.foldl PageMap.step (fun _ => none) p).isSome) := by
  obtain ⟨st, hcreate, hrun⟩ := Option.bind_eq_some_iff.mp hrun
  have hreal := exec_tableStep_realises
    (tableStep_create_realises (refines_tableInit mem) hcreate) hrun
  exact ⟨fun j hj => hreal.walk hj, fun ipa sz hipa hle => hreal.isMapped hipa hle⟩

end OneVm

/-- A pool two megabytes into the image. -/
@[reducible] def poolAt2M : PtPool where
  base := 0x40200000
  aligned := by decide
  lower := by decide
  upper := by decide

/-- Three pages mapped and the middle one removed, as the unit test of
`s2_unmap` does. -/
def threePages : List TableOp :=
  [.map ⟨0x4000, 0xB004000, 0x3000, 0x7C0, by decide, by decide, by decide, by decide, by decide,
      by decide⟩,
    .unmap ⟨0x5000, 0x1000, by decide, by decide, by decide⟩]

/-- One page at 0x4000, as `vm_finalize` maps a small region. -/
def onePage : List TableOp :=
  [.create, .map ⟨0x4000, 0xB004000, 0x1000, 0x7C0, by decide, by decide, by decide, by decide,
    by decide, by decide⟩]

theorem stage2_refines_threePages :
    letI := poolAt2M
    ∃ st, exec tableStep (tableInit (fun _ => 0), 0) (.create :: threePages) = some st ∧
      (s2Walk st.1 st.2 0x4123).result = some (0xB004123, 0x7C0) ∧
      (s2Walk st.1 st.2 0x5123).result = none ∧
      (s2Walk st.1 st.2 0x6123).result = some (0xB006123, 0x7C0) := by
  let _ := poolAt2M
  have hsome : (exec tableStep (tableInit (fun _ => 0), 0) (.create :: threePages)).isSome := by
    decide
  obtain ⟨⟨s, pgd⟩, hst⟩ := Option.isSome_iff_exists.mp hsome
  obtain ⟨hwalk, -⟩ := stage2_refines_pageMap _ _ _ s pgd hst
  refine ⟨(s, pgd), hst, ?_, ?_, ?_⟩
  · rw [hwalk 0x4123 (by decide)]; decide
  · rw [hwalk 0x5123 (by decide)]; decide
  · rw [hwalk 0x6123 (by decide)]; decide

end Stage2

end HypervisorBase
