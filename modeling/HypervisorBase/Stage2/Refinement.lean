import HypervisorBase.Common.Run
import HypervisorBase.Stage2.Shape
/-!
# Stage-2 tables refine address spaces

The abstract model of the tables: each VM has an address space, a partial
map from page numbers to leaf descriptors. `Refines` relates a heap to
the address spaces of its VMs, and every operation of `stage2.c` is
matched by what it does to them. A call moves the space of its own VM
only, whatever its arguments are; where the range does not leave the
`2 ^ 39` bytes the tables can name, the new space is given in closed form
(`Space.mapRange`, `Space.clearRange`).
-/

namespace HypervisorBase

namespace Stage2

/-- **An address space**: the leaf descriptor of each page number. -/
abbrev Space := ℕ → Option U64

/-- `n` pages from page `lo` on get the descriptors `d`. -/
def Space.mapRange (m : Space) (lo n : ℕ) (d : ℕ → U64) : Space :=
  fun p => if lo ≤ p ∧ p < lo + n then some (d (p - lo)) else m p

/-- `n` pages from page `lo` on are dropped. -/
def Space.clearRange (m : Space) (lo n : ℕ) : Space :=
  fun p => if lo ≤ p ∧ p < lo + n then none else m p

/-- What `s2_unmap` finds on its way down to a page. -/
theorem unmapPage_cases (s : S2State) (r c : U64) :
    (unmapPage s r c = s ∧ translate s r c = none) ∨
      ∃ l3, follow (child s) r [i1 c, i2 c] = some l3 ∧
        unmapPage s r c = setEntry s l3 (i3 c) 0 := by
  unfold unmapPage translate
  simp only [follow_cons, follow_nil, child]
  by_cases h1 : entry s r (i1 c) &&& 1 = 0
  · left; rw [if_pos h1, if_pos h1]; exact ⟨rfl, rfl⟩
  rw [if_neg h1, if_neg h1, Option.bind_some]
  by_cases h2 : entry s (entry s r (i1 c) &&& addrMask) (i2 c) &&& 1 = 0
  · left; rw [if_pos h2, if_pos h2]; exact ⟨rfl, rfl⟩
  rw [if_neg h2, if_neg h2, Option.bind_some, Option.bind_some]
  split
  · rename_i h3
    left; rw [leaf, if_pos h3]; exact ⟨rfl, rfl⟩
  · right; exact ⟨_, rfl, rfl⟩

/-- What `s2_unmap` does: refused with nothing changed, or the whole
loop. -/
theorem s2Unmap_eq (s : S2State) (r ipa sz : U64) : s2Unmap s r ipa sz =
    if ipa.toNat % 4096 = 0 ∧ sz.toNat % 4096 = 0
      then (.ok, unmapLoop r ipa (sz.toNat / 4096) 0 s) else (.inval, s) := by
  unfold s2Unmap
  simp only [← isAligned_page_iff]
  cases isAligned ipa 4096 <;> cases isAligned sz 4096 <;> rfl

theorem vpn_of_lt {j : U64} (hj : j.toNat < 2 ^ 39) : vpn j = j.toNat / 4096 := by
  unfold vpn
  omega

variable {x : U64}

theorem toNat_add_page (hx : x.toNat + 4096 ≤ 2 ^ 39) :
    (x + 4096).toNat = x.toNat + 4096 := by
  simp only [BitVec.toNat_add, show (4096 : U64).toNat = 4096 from rfl]
  omega

/-- One page further, from either end of the sum. -/
theorem add_ofNat_succ_page (x : U64) (k : ℕ) : x + BitVec.ofNat 64 ((k + 1) * 4096) =
    x + 4096 + BitVec.ofNat 64 (k * 4096) := by
  rw [Nat.add_mul, BitVec.ofNat_add, BitVec.add_comm (BitVec.ofNat 64 (k * 4096)),
    ← BitVec.add_assoc]
  rfl

/-! ## What a loop over a range writes

The loops of `stage2.c` step through a range page by page, and the tables
see 39 bits of an address, so a loop may come to a page twice. -/

/-- The page that step `k` of a loop from `x` on is at. -/
def pageAt (x : U64) (k : ℕ) : ℕ := vpn (x + BitVec.ofNat 64 (k * 4096))

/-- **The pages that a loop of `n` steps visits.** -/
def visited (x : U64) (n : ℕ) : Set ℕ := {p | ∃ k < n, pageAt x k = p}

/-- `n` pages from `x` on get the entries `d`, one after the other: a page
visited twice keeps the later entry. -/
def Space.put (m : Space) (x : U64) (d : ℕ → Option U64) : ℕ → Space
  | 0 => m
  | n + 1 => Function.update (m.put x d n) (pageAt x n) (d n)

theorem pageAt_zero (x : U64) : pageAt x 0 = vpn x := by
  rw [pageAt, Nat.zero_mul, BitVec.add_zero]

theorem pageAt_succ (x : U64) (k : ℕ) : pageAt x (k + 1) = pageAt (x + 4096) k := by
  rw [pageAt, pageAt, add_ofNat_succ_page]

/-- The first page of a range, and then the rest of it. -/
theorem Space.put_succ (m : Space) (x : U64) (d : ℕ → Option U64) (n : ℕ) :
    Space.put (Function.update m (vpn x) (d 0)) (x + 4096) (fun k => d (k + 1)) n =
      m.put x d (n + 1) := by
  induction n with
  | zero => rw [Space.put, Space.put, Space.put, pageAt_zero]
  | succ n ih =>
    rw [Space.put, ih, ← pageAt_succ]
    rfl

variable {d : ℕ → Option U64} {m : Space} {n p : ℕ}

theorem Space.put_of_notMem
    (hp : p ∉ visited x n) : m.put x d n p = m p := by
  induction n with
  | zero => rfl
  | succ n ih =>
    have hlast : p ≠ pageAt x n := fun heq => hp ⟨n, by omega, heq.symm⟩
    have hrest : p ∉ visited x n := fun ⟨k, hk, heq⟩ => hp ⟨k, by omega, heq⟩
    rw [Space.put, Function.update_of_ne hlast, ih hrest]

/-- **The last visit decides.** -/
theorem Space.put_of_mem
    (hp : p ∈ visited x n) : ∃ k < n, pageAt x k = p ∧ m.put x d n p = d k := by
  induction n with
  | zero =>
    obtain ⟨k, hk, -⟩ := hp
    exact absurd hk (Nat.not_lt_zero k)
  | succ n ih =>
    rw [Space.put]
    by_cases hlast : p = pageAt x n
    · exact ⟨n, by omega, hlast.symm, by rw [hlast, Function.update_self]⟩
    · obtain ⟨k, hk, heq⟩ := hp
      have hlt : k < n := by
        rcases Nat.lt_succ_iff_lt_or_eq.mp hk with hlt | rfl
        · exact hlt
        · exact absurd heq.symm hlast
      obtain ⟨k, hk, heq, hput⟩ := ih ⟨k, hlt, heq⟩
      exact ⟨k, by omega, heq, by rw [Function.update_of_ne hlast, hput]⟩

/-- Whatever was there before. -/
theorem Space.put_congr_of_mem (m' : Space)
    (hp : p ∈ visited x n) : m.put x d n p = m'.put x d n p := by
  induction n with
  | zero =>
    obtain ⟨k, hk, -⟩ := hp
    exact absurd hk (Nat.not_lt_zero k)
  | succ n ih =>
    rw [Space.put, Space.put]
    by_cases hlast : p = pageAt x n
    · rw [hlast, Function.update_self, Function.update_self]
    · obtain ⟨k, hk, heq⟩ := hp
      have hne : k ≠ n := fun hkn => hlast (hkn ▸ heq.symm)
      rw [Function.update_of_ne hlast, Function.update_of_ne hlast, ih ⟨k, by omega, heq⟩]

theorem Space.put_put (m : Space) (x : U64) (d : ℕ → Option U64) (n : ℕ) :
    (m.put x d n).put x d n = m.put x d n := by
  funext p
  by_cases hp : p ∈ visited x n
  · exact Space.put_congr_of_mem m hp
  · exact Space.put_of_notMem hp

open Classical in
/-- A space without some of its pages. -/
noncomputable def Space.drop (m : Space) (A : Set ℕ) : Space := fun p => if p ∈ A then none else m p

variable {A : Set ℕ}

theorem Space.drop_of_mem (hp : p ∈ A) : m.drop A p = none :=
  if_pos hp

theorem Space.drop_of_notMem (hp : p ∉ A) : m.drop A p = m p :=
  if_neg hp

theorem Space.drop_eq_none_iff :
    m.drop A p = none ↔ p ∈ A ∨ m p = none := by
  unfold Space.drop
  split
  · rename_i hp
    exact ⟨fun _ => .inl hp, fun _ => rfl⟩
  · rename_i hp
    exact ⟨.inr, fun h => h.resolve_left hp⟩

theorem Space.drop_drop (m : Space) (A B : Set ℕ) : (m.drop A).drop B = m.drop (A ∪ B) := by
  funext p
  by_cases hB : p ∈ B
  · rw [Space.drop_of_mem hB, Space.drop_of_mem (.inr hB)]
  · rw [Space.drop_of_notMem hB]
    by_cases hA : p ∈ A
    · rw [Space.drop_of_mem hA, Space.drop_of_mem (.inl hA)]
    · rw [Space.drop_of_notMem hA, Space.drop_of_notMem fun h => h.elim hA hB]

theorem Space.put_none (m : Space) (x : U64) (n : ℕ) :
    m.put x (fun _ => none) n = m.drop (visited x n) := by
  funext p
  by_cases hp : p ∈ visited x n
  · obtain ⟨k, -, -, hput⟩ := Space.put_of_mem (m := m) (d := fun _ => none) hp
    rw [hput, Space.drop_of_mem hp]
  · rw [Space.put_of_notMem hp, Space.drop_of_notMem hp]

/-- Below `2 ^ 39` the pages of a range are consecutive. -/
theorem pageAt_of_le {k : ℕ} (hle : x.toNat + n * 4096 ≤ 2 ^ 39) (hk : k < n) :
    pageAt x k = x.toNat / 4096 + k := by
  simp only [pageAt, vpn, BitVec.toNat_add, BitVec.toNat_ofNat]
  omega

/-- Without wrapping, the visited pages are an interval. -/
theorem mem_visited_of_le (hle : x.toNat + n * 4096 ≤ 2 ^ 39) :
    p ∈ visited x n ↔ x.toNat / 4096 ≤ p ∧ p < x.toNat / 4096 + n := by
  constructor
  · rintro ⟨k, hk, heq⟩
    rw [pageAt_of_le hle hk] at heq
    omega
  · intro hp
    refine ⟨p - x.toNat / 4096, by omega, ?_⟩
    rw [pageAt_of_le hle (by omega)]
    omega

/-- And there each of them is visited once. -/
theorem Space.put_eq_of_le
    (hle : x.toNat + n * 4096 ≤ 2 ^ 39) (p : ℕ) : m.put x d n p =
      if x.toNat / 4096 ≤ p ∧ p < x.toNat / 4096 + n then d (p - x.toNat / 4096) else m p := by
  split
  · rename_i hin
    obtain ⟨k, hk, heq, hput⟩ := Space.put_of_mem (m := m) (d := d) ((mem_visited_of_le hle).mpr hin)
    rw [pageAt_of_le hle hk] at heq
    rw [hput, ← heq, Nat.add_sub_cancel_left]
  · rename_i hout
    exact Space.put_of_notMem fun hp => hout ((mem_visited_of_le hle).mp hp)

variable [P : PtPool]

/-- **The refinement relation** between a heap and the address spaces of
the VMs that own its trees. -/
structure Refines (s : S2State) (roots : List U64) (M : ℕ → Space) : Prop where
  shape : Shape s roots
  trans : ∀ (w : ℕ) r j, roots[w]? = some r → translate s r j = M w (vpn j)

variable {s s' : S2State} {roots : List U64} {M : ℕ → Space} {v : ℕ} {r : U64}

/-- A heap of the right shape refines the spaces its own walks read. -/
theorem Shape.refines (h : Shape s roots) : Refines s roots fun w p =>
    (roots[w]?).bind fun r => translate s r (BitVec.ofNat 64 (4096 * p)) := by
  refine ⟨h, fun w r j hr => ?_⟩
  have hvpn : vpn (BitVec.ofNat 64 (4096 * vpn j)) = vpn j := by
    simp only [vpn, BitVec.toNat_ofNat]
    omega
  obtain ⟨hpath, hi3⟩ := index_eq_iff.2 hvpn
  simp only [hr, Option.bind_some, translate, hpath, hi3]

/-! ## One page -/

variable {f pa : U64}

/-- **Mapping one page.** -/
theorem mapPage_refines {c : U64} (h : Refines s roots M) (hr : roots[v]? = some r)
    (hrun : mapPage s r c pa f = some s') :
    Refines s' roots
      (Function.update M v (Function.update (M v) (vpn c) (some (pageDesc pa f)))) := by
  unfold mapPage at hrun
  obtain ⟨⟨l2, s₁⟩, h₁, hrun⟩ := Option.bind_eq_some_iff.mp hrun
  obtain ⟨⟨l3, s₂⟩, h₂, hrun⟩ := Option.bind_eq_some_iff.mp hrun
  have hroot : reach (fun v : ℕ => roots[v]?) (child s) v [] = some r := by rw [reach_nil, hr]
  obtain ⟨hshape₁, hl2, htrans₁⟩ := tableAt_spec h.shape (by simp) hroot h₁
  obtain ⟨hshape₂, hl3, htrans₂⟩ := tableAt_spec hshape₁ (by simp) hl2 h₂
  obtain ⟨hshape, hleaf⟩ := setLeaf_spec (c := i3 c) hshape₂ hl3
    (Or.inr (pageDesc_and_three pa f))
  obtain rfl := Option.some.inj hrun
  refine ⟨hshape, fun w q j hq => ?_⟩
  rw [hleaf w q j hq, htrans₂ w q j hq, htrans₁ w q j hq, h.trans w q j hq]
  have hvalid : leaf (pageDesc pa f) = some (pageDesc pa f) :=
    if_neg (and_one_ne_zero (pageDesc_and_three pa f))
  by_cases hw : w = v
  · subst hw
    rw [Function.update_self, Function.update_apply, hvalid]
    simp only [true_and, index_eq_iff]
  · rw [Function.update_of_ne hw, if_neg fun hc => hw hc.1]

/-- **Unmapping one page.** -/
theorem unmapPage_refines {c : U64} (h : Refines s roots M) (hr : roots[v]? = some r) :
    Refines (unmapPage s r c) roots
      (Function.update M v (Function.update (M v) (vpn c) none)) := by
  rcases unmapPage_cases s r c with ⟨heq, hnone⟩ | ⟨l3, hl3, heq⟩
  · have hMv : M v (vpn c) = none := by rw [← h.trans v r c hr, hnone]
    rw [heq, ← hMv, Function.update_eq_self, Function.update_eq_self]
    exact h
  · rw [← reach_of_root hr] at hl3
    obtain ⟨hshape, hleaf⟩ := setLeaf_spec (c := i3 c) (e := 0) h.shape hl3 (Or.inl rfl)
    rw [heq]
    refine ⟨hshape, fun w q j hq => ?_⟩
    rw [hleaf w q j hq, h.trans w q j hq]
    by_cases hw : w = v
    · subst hw
      rw [Function.update_self, Function.update_apply]
      simp only [true_and, index_eq_iff]
      rfl
    · rw [Function.update_of_ne hw, if_neg fun hc => hw hc.1]

/-! ## Ranges

The loops take an aligned offset to the next one. Whatever the range is,
the new space is `Space.put` of the old one; a page number is below
`2 ^ 27` only while the range stays below `2 ^ 39`, and there the range is
mapped or removed as a whole. -/

variable {ipa : U64}

/-- **The loop of `s2_map`** writes its descriptors into its own VM's
space and into no other. The induction is on the pages left; `off` walks
up with them. -/
theorem mapLoop_refines {off : U64} (h : Refines s roots M)
    (hr : roots[v]? = some r) (hrun : mapLoop r ipa pa f n off s = some s') :
    Refines s' roots (Function.update M v ((M v).put (ipa + off)
      (fun k => some (pageDesc (pa + off + BitVec.ofNat 64 (k * 4096)) f)) n)) := by
  induction n generalizing s M off with
  | zero =>
    obtain rfl := Option.some.inj hrun
    rw [Space.put, Function.update_eq_self]
    exact h
  | succ n ih =>
    obtain ⟨s₁, h₁, hrun⟩ := Option.bind_eq_some_iff.mp hrun
    have hrest := ih (mapPage_refines h hr h₁) hrun
    have h0 : pa + off + BitVec.ofNat 64 (0 * 4096) = pa + off := BitVec.add_zero _
    rw [Function.update_idem, Function.update_self, ← BitVec.add_assoc, ← BitVec.add_assoc] at hrest
    rw [← Space.put_succ]
    simp only [add_ofNat_succ_page, h0]
    exact hrest

/-- **And so does the loop of `s2_unmap`**, with nothing to write. -/
theorem unmapLoop_refines (ipa : U64) (n : ℕ) (off : U64) (h : Refines s roots M)
    (hr : roots[v]? = some r) :
    Refines (unmapLoop r ipa n off s) roots
      (Function.update M v ((M v).put (ipa + off) (fun _ => none) n)) := by
  induction n generalizing s M off with
  | zero =>
    rw [Space.put, Function.update_eq_self]
    exact h
  | succ n ih =>
    have hrest := ih (off + 4096) (unmapPage_refines (c := ipa + off) h hr)
    rw [Function.update_idem, Function.update_self, ← BitVec.add_assoc] at hrest
    rw [← Space.put_succ]
    exact hrest

/-! ## The operations -/

variable {sz : U64}

/-- A call of `s2_map` that returns: refused with nothing changed, or the
whole loop. -/
theorem s2Map_eq_some {e : Err} :
    s2Map s r ipa pa sz f = some (e, s') ↔
      (e = .inval ∧ s' = s ∧
        ¬ (ipa.toNat % 4096 = 0 ∧ pa.toNat % 4096 = 0 ∧ sz.toNat % 4096 = 0)) ∨
      (e = .ok ∧ (ipa.toNat % 4096 = 0 ∧ pa.toNat % 4096 = 0 ∧ sz.toNat % 4096 = 0) ∧
        mapLoop r ipa pa f (sz.toNat / 4096) 0 s = some s') := by
  have hcond : (!isAligned ipa 4096 || !isAligned pa 4096 || !isAligned sz 4096) = true ↔
      ¬ (ipa.toNat % 4096 = 0 ∧ pa.toNat % 4096 = 0 ∧ sz.toNat % 4096 = 0) := by
    rw [← isAligned_page_iff, ← isAligned_page_iff, ← isAligned_page_iff]
    cases isAligned ipa 4096 <;> cases isAligned pa 4096 <;> cases isAligned sz 4096 <;> simp
  unfold s2Map
  split
  · rename_i hc
    rw [hcond] at hc
    simp only [Option.some.injEq, Prod.mk.injEq]
    constructor
    · rintro ⟨rfl, rfl⟩; exact Or.inl ⟨rfl, rfl, hc⟩
    · rintro (⟨rfl, rfl, -⟩ | ⟨-, hal, -⟩)
      · exact ⟨rfl, rfl⟩
      · exact absurd hal hc
  · rename_i hc
    rw [hcond, Decidable.not_not] at hc
    constructor
    · intro h
      obtain ⟨t, ht, h⟩ := Option.bind_eq_some_iff.mp h
      obtain ⟨rfl, rfl⟩ := Prod.mk.inj (Option.some.inj h)
      exact Or.inr ⟨rfl, hc, ht⟩
    · rintro (⟨-, -, hn⟩ | ⟨rfl, -, ht⟩)
      · exact absurd hc hn
      · rw [ht]; rfl

/-- **A successful `s2_map`**, for any range. -/
theorem s2Map_refines_put (h : Refines s roots M) (hr : roots[v]? = some r)
    (hrun : s2Map s r ipa pa sz f = some (.ok, s')) :
    Refines s' roots (Function.update M v ((M v).put ipa
      (fun k => some (pageDesc (pa + BitVec.ofNat 64 (k * 4096)) f)) (sz.toNat / 4096))) := by
  rcases s2Map_eq_some.1 hrun with ⟨hc, -⟩ | ⟨-, -, hloop⟩
  · exact absurd hc (by decide)
  · have h0 : ∀ x : U64, x + 0 = x := fun x => BitVec.add_zero x
    have hput := mapLoop_refines h hr hloop
    simp only [h0] at hput
    exact hput

/-- **Mapping, also a failed one**, changes the space of one VM only. -/
theorem s2Map_refines {e : Err} (h : Refines s roots M)
    (hr : roots[v]? = some r) (hrun : s2Map s r ipa pa sz f = some (e, s')) :
    ∃ m, Refines s' roots (Function.update M v m) := by
  rcases s2Map_eq_some.1 hrun with ⟨-, rfl, -⟩ | ⟨rfl, -, -⟩
  · exact ⟨M v, by rw [Function.update_eq_self]; exact h⟩
  · exact ⟨_, s2Map_refines_put h hr hrun⟩

/-- **A successful `s2_map` below `2 ^ 39` overwrites its range.** -/
theorem s2Map_refines_range (h : Refines s roots M)
    (hr : roots[v]? = some r) (hle : ipa.toNat + sz.toNat ≤ 2 ^ 39)
    (hrun : s2Map s r ipa pa sz f = some (.ok, s')) :
    Refines s' roots (Function.update M v ((M v).mapRange (ipa.toNat / 4096) (sz.toNat / 4096)
      fun k => pageDesc (pa + BitVec.ofNat 64 (k * 4096)) f)) := by
  have hput := s2Map_refines_put h hr hrun
  rw [funext (Space.put_eq_of_le (x := ipa) (by omega))] at hput
  exact hput

/-- The pages that `s2_unmap` drops: those of its range, if it accepts it. -/
def unmapPages (ipa sz : U64) : Set ℕ :=
  {p | ipa.toNat % 4096 = 0 ∧ sz.toNat % 4096 = 0 ∧ p ∈ visited ipa (sz.toNat / 4096)}

/-- **`s2_unmap`**, for any range. -/
theorem s2Unmap_refines (h : Refines s roots M) (hr : roots[v]? = some r) (ipa sz : U64) :
    Refines (s2Unmap s r ipa sz).2 roots
      (Function.update M v ((M v).drop (unmapPages ipa sz))) := by
  rw [s2Unmap_eq]
  split
  · rename_i hal
    have hput := unmapLoop_refines ipa (sz.toNat / 4096) 0 h hr
    have hpages : unmapPages ipa sz = visited ipa (sz.toNat / 4096) := by
      ext p
      exact ⟨fun hp => hp.2.2, fun hp => ⟨hal.1, hal.2, hp⟩⟩
    rwa [show ipa + 0 = ipa from BitVec.add_zero ipa, Space.put_none, ← hpages] at hput
  · rename_i hal
    have hsame : (M v).drop (unmapPages ipa sz) = M v :=
      funext fun p => Space.drop_of_notMem fun hp => hal ⟨hp.1, hp.2.1⟩
    rw [hsame, Function.update_eq_self]
    exact h

/-- **`s2_unmap` below `2 ^ 39` removes its range.** -/
theorem s2Unmap_refines_range (h : Refines s roots M)
    (hr : roots[v]? = some r) (hipa : ipa.toNat % 4096 = 0) (hsz : sz.toNat % 4096 = 0)
    (hle : ipa.toNat + sz.toNat ≤ 2 ^ 39) :
    Refines (s2Unmap s r ipa sz).2 roots
      (Function.update M v ((M v).clearRange (ipa.toNat / 4096) (sz.toNat / 4096))) := by
  have hdrop : (M v).drop (unmapPages ipa sz) =
      (M v).clearRange (ipa.toNat / 4096) (sz.toNat / 4096) := by
    funext p
    have hmem : p ∈ unmapPages ipa sz ↔
        ipa.toNat / 4096 ≤ p ∧ p < ipa.toNat / 4096 + sz.toNat / 4096 := by
      rw [← mem_visited_of_le (by omega)]
      exact ⟨fun hp => hp.2.2, fun hp => ⟨hipa, hsz, hp⟩⟩
    rw [Space.clearRange]
    split
    · exact Space.drop_of_mem (hmem.mpr (by assumption))
    · exact Space.drop_of_notMem fun hp => absurd (hmem.mp hp) (by assumption)
  rw [← hdrop]
  exact s2Unmap_refines h hr ipa sz

/-- **`s2_create` adds a VM with an empty space.** -/
theorem s2Create_refines {pgd vttbr : U64} (h : Refines s roots M)
    (hrun : s2Create s = some ((pgd, vttbr), s')) :
    Refines s' (roots ++ [pgd]) (Function.update M roots.length fun _ => none) := by
  obtain ⟨⟨p, s₁⟩, ha, hrun⟩ := Option.bind_eq_some_iff.mp hrun
  obtain ⟨hpv, hs'⟩ := Prod.mk.inj (Option.some.inj hrun)
  obtain rfl := (Prod.mk.inj hpv).1
  obtain ⟨hlt, hp, -⟩ := ptAlloc_eq_some.1 ha
  have hentry : ∀ {n}, IsPage n → ∀ i, entry s' n i = if n = p then 0 else entry s n i := by
    intro n hn i
    rw [← hs']
    exact entry_ptAlloc ha hn i
  have halloc : ∀ n, Allocated s' n ↔ Allocated s n ∨ n = p := fun n => by
    rw [← allocated_ptAlloc ha, ← hs']; rfl
  have hfresh : ¬ Allocated s p := hp ▸ not_allocated_poolPage hlt
  have hpage : IsPage p := hp ▸ isPage_poolPage hlt
  have hkeep : ∀ {m}, Allocated s m → ∀ i, entry s' m i = entry s m i := by
    intro m hm i
    rw [hentry (h.shape.isPage hm), if_neg]
    rintro rfl
    exact hfresh hm
  have hzero : ∀ i, entry s' p i = 0 := fun i => by rw [hentry hpage, if_pos rfl]
  have hnone : ∀ j, child s' p j = none := fun j => by rw [child, hzero]; rfl
  have hsame : ∀ {m j}, Allocated s m → child s' m j = child s m j := fun hm => by
    rw [child, child, hkeep hm]
  have hnew : roots[roots.length]? = none := List.getElem?_eq_none (Nat.le_refl _)
  have hroot : (roots ++ [p])[roots.length]? = some p := by simp
  have hother : ∀ w, w ≠ roots.length → (roots ++ [p])[w]? = roots[w]? := by
    intro w hw
    rcases Nat.lt_or_gt_of_ne hw with hlt | hgt
    · exact List.getElem?_append_left hlt
    · rw [List.getElem?_eq_none (by simp; omega), List.getElem?_eq_none (by omega)]
  refine ⟨⟨?_, h.shape.forest.addRoot hnew hfresh hroot hother hnone hsame halloc, ?_⟩, ?_⟩
  · rw [← hs', (ptAlloc_eq_some.1 ha).2.2]; exact hlt
  · intro n hn i
    rcases (halloc n).1 hn with hn | rfl
    · rw [hkeep hn]; exact h.shape.words hn i
    · exact Or.inl (hzero i)
  · intro w r j hr
    rw [translate_eq hr,
      h.shape.forest.reach_addRoot hroot hother hnone hsame (show _ ≤ 2 by simp)]
    by_cases hw : w = roots.length
    · rw [if_pos hw, hw, Function.update_self, if_neg (by simp), Option.bind_none]
    · rw [if_neg hw, Function.update_of_ne hw]
      rw [hother w hw] at hr
      rw [← h.trans w r j hr, translate_eq hr]
      cases hm : reach (fun v : ℕ => roots[v]?) (child s) w [i1 j, i2 j] with
      | none => rfl
      | some m => rw [Option.bind_some, Option.bind_some,
          hkeep (h.shape.forest.closed (by simp) hm)]

end Stage2

end HypervisorBase
