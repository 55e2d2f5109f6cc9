import HypervisorBase.Stage2.Refinement
/-!
# How many tables a mapping needs

`pt_alloc` never returns once the pool is used up, so a call of `s2_map`
is only known to return while there is room for the tables it may need.
A range needs at most one table for every 2 MB slot it touches and one
for every 1 GB slot (`tableBudget`), since the page before the current
one has already left its tables behind. `exists_s2Map` turns that count
into a successful call.
-/

namespace HypervisorBase

namespace Stage2

/-- A bound on the tables that a nonempty range of `n` pages from page `a`
on allocates: two for its first page, one more at each boundary of a 2 MB
slot and of a 1 GB slot. -/
def pageBudget (a n : ℕ) : ℕ :=
  2 + ((a + n - 1) / 512 - a / 512) + ((a + n - 1) / 2 ^ 18 - a / 2 ^ 18)

def tableBudget (ipa sz : U64) : ℕ := pageBudget (ipa.toNat / 4096) (sz.toNat / 4096)

variable [P : PtPool]
variable {s s' : S2State} {roots : List U64} {M : ℕ → Space} {v : ℕ} {r t : U64}

/-- **One level of the descent returns while the pool has room**, and
takes a page only for a slot that is empty. -/
theorem exists_tableAt {p : List Idx} {i : Idx} {k : ℕ} (h : Shape s roots) (hp : p.length < 2)
    (ht : reach (fun v : ℕ => roots[v]?) (child s) v p = some t)
    (hk : k = 1 ∨ (child s t i).isSome) (hroom : s.ptIdx + k ≤ ptPoolPages) :
    ∃ t' s', tableAt s t i = some (t', s') ∧ s'.ptIdx ≤ s.ptIdx + k ∧
      ∀ w q, q.length ≤ 2 → (reach (fun v : ℕ => roots[v]?) (child s) w q).isSome →
        (reach (fun v : ℕ => roots[v]?) (child s') w q).isSome := by
  by_cases hv : entry s t i &&& 1 = 0
  · have hi : child s t i = none := if_pos hv
    have hk : k = 1 := by
      rcases hk with hk | hk
      · exact hk
      · rw [hi] at hk; exact absurd hk (by simp)
    have hlt : s.ptIdx < ptPoolPages := by omega
    obtain ⟨⟨p₀, s₁⟩, ha⟩ : ∃ ps, ptAlloc s = some ps := ⟨_, if_neg (Nat.not_le.2 hlt)⟩
    have hidx : s₁.ptIdx = s.ptIdx + 1 := by rw [(ptAlloc_eq_some.1 ha).2.2]
    have hrun : tableAt s t i = some (entry (setEntry s₁ t i (tableDesc p₀)) t i &&& addrMask,
        setEntry s₁ t i (tableDesc p₀)) := by
      rw [tableAt, if_pos hv, ha]; rfl
    refine ⟨_, _, hrun, ?_, fun w q hq hsome => ?_⟩
    · change s₁.ptIdx ≤ s.ptIdx + k
      omega
    · rw [(link_spec h hp ht hi ha rfl).2.2.1 w q hq]
      split
      · rfl
      · exact hsome
  · have hrun : tableAt s t i = some (entry s t i &&& addrMask, s) := by
      rw [tableAt, if_neg hv]; rfl
    exact ⟨_, s, hrun, Nat.le_add_right _ _, fun _ _ _ hsome => hsome⟩

/-- **One page returns while the pool has room** for the tables its path
lacks: `k₁` for the second level, `k₂` for the third. -/
theorem exists_mapPage {c pa f : U64} {k₁ k₂ : ℕ} (h : Shape s roots) (hr : roots[v]? = some r)
    (h₁ : k₁ = 1 ∨ (reach (fun v : ℕ => roots[v]?) (child s) v [i1 c]).isSome)
    (h₂ : k₂ = 1 ∨ (reach (fun v : ℕ => roots[v]?) (child s) v [i1 c, i2 c]).isSome)
    (hroom : s.ptIdx + k₁ + k₂ ≤ ptPoolPages) :
    ∃ s', mapPage s r c pa f = some s' ∧ s'.ptIdx ≤ s.ptIdx + k₁ + k₂ := by
  have hroot : reach (fun v : ℕ => roots[v]?) (child s) v [] = some r := by rw [reach_nil, hr]
  have hchild₁ : k₁ = 1 ∨ (child s r (i1 c)).isSome := by
    refine h₁.imp_right fun hsome => ?_
    obtain ⟨l2, hl2⟩ := Option.isSome_iff_exists.mp hsome
    obtain ⟨t, ht, hchild⟩ := reach_take_isSome (p := []) hl2
    obtain rfl := Option.some.inj (hroot.symm.trans ht)
    rw [hchild]; rfl
  obtain ⟨l2, s₁, hrun₁, hidx₁, hmono⟩ := exists_tableAt h (by simp) hroot hchild₁ (by omega)
  obtain ⟨hshape₁, hl2, -⟩ := tableAt_spec h (by simp) hroot hrun₁
  have hchild₂ : k₂ = 1 ∨ (child s₁ l2 (i2 c)).isSome := by
    refine h₂.imp_right fun hsome => ?_
    obtain ⟨l3, hl3⟩ := Option.isSome_iff_exists.mp (hmono v _ (by simp) hsome)
    obtain ⟨t, ht, hchild⟩ := reach_take_isSome (p := [i1 c]) hl3
    obtain rfl := Option.some.inj (hl2.symm.trans ht)
    rw [hchild]; rfl
  obtain ⟨l3, s₂, hrun₂, hidx₂, -⟩ := exists_tableAt hshape₁ (by simp) hl2 hchild₂ (by omega)
  refine ⟨setEntry s₂ l3 (i3 c) (pageDesc pa f), ?_, ?_⟩
  · rw [mapPage, hrun₁]
    change (tableAt s₁ l2 (i2 c)).bind _ = _
    rw [hrun₂]; rfl
  · change s₂.ptIdx ≤ s.ptIdx + k₁ + k₂
    omega

omit P in
/-- A mapped page has both of its tables. -/
theorem reach_of_translate (hr : roots[v]? = some r) {j : U64} (hj : (translate s r j).isSome) :
    (reach (fun v : ℕ => roots[v]?) (child s) v [i1 j]).isSome ∧
      (reach (fun v : ℕ => roots[v]?) (child s) v [i1 j, i2 j]).isSome := by
  rw [translate_eq hr] at hj
  obtain ⟨e, he⟩ := Option.isSome_iff_exists.mp hj
  obtain ⟨l3, hl3, -⟩ := Option.bind_eq_some_iff.mp he
  obtain ⟨l2, hl2, -⟩ := reach_take_isSome (p := [i1 j]) hl3
  exact ⟨by rw [hl2]; rfl, by rw [hl3]; rfl⟩

omit P in
/-- The boundaries crossed on the way to a later page are those crossed on
the way to the next page and from there on. -/
theorem crossed_succ (a n k : ℕ) :
    (a + (n + 1)) / k - a / k = ((a + 1) / k - a / k) + ((a + 1 + n) / k - (a + 1) / k) := by
  have hfirst : a / k ≤ (a + 1) / k := Nat.div_le_div_right (Nat.le_succ a)
  have hrest : (a + 1) / k ≤ (a + 1 + n) / k := Nat.div_le_div_right (Nat.le_add_right _ n)
  rw [show a + (n + 1) = a + 1 + n from by omega]
  omega

/-- **The loop after a mapped page.** The induction is on the pages left;
the page before the current one carries the tables it shares with it. -/
theorem exists_mapLoop {ipa pa f off j : U64} {n : ℕ} (h : Refines s roots M)
    (hr : roots[v]? = some r) (hj : (translate s r j).isSome)
    (hnext : (ipa + off).toNat = j.toNat / 4096 * 4096 + 4096)
    (hle : (ipa + off).toNat + n * 4096 ≤ 2 ^ 39)
    (hroom : s.ptIdx + ((j.toNat / 4096 + n) / 512 - j.toNat / 4096 / 512) +
      ((j.toNat / 4096 + n) / 2 ^ 18 - j.toNat / 4096 / 2 ^ 18) ≤ ptPoolPages) :
    ∃ s', mapLoop r ipa pa f n off s = some s' ∧
      s'.ptIdx ≤ s.ptIdx + ((j.toNat / 4096 + n) / 512 - j.toNat / 4096 / 512) +
        ((j.toNat / 4096 + n) / 2 ^ 18 - j.toNat / 4096 / 2 ^ 18) := by
  induction n generalizing s M off j with
  | zero => exact ⟨s, rfl, by omega⟩
  | succ n ih =>
    have hfit : (ipa + off).toNat + 4096 + n * 4096 ≤ 2 ^ 39 := by omega
    have hstep : (ipa + (off + 4096)).toNat = (ipa + off).toNat + 4096 := by
      rw [← BitVec.add_assoc]
      exact toNat_add_page (by omega)
    obtain ⟨hl2, hl3⟩ := reach_of_translate hr hj
    -- the boundaries crossed on the way to this page say which tables may be missing
    obtain ⟨a, ha⟩ : ∃ a, j.toNat / 4096 = a := ⟨_, rfl⟩
    rw [ha] at hnext hroom ⊢
    have hi1 : a / 2 ^ 18 = (a + 1) / 2 ^ 18 → i1 (ipa + off) = i1 j := by
      intro heq
      apply BitVec.eq_of_toNat_eq
      rw [i1_toNat, i1_toNat]
      omega
    have hi2 : a / 512 = (a + 1) / 512 →
        i1 (ipa + off) = i1 j ∧ i2 (ipa + off) = i2 j := by
      intro heq
      refine ⟨hi1 (by omega), ?_⟩
      apply BitVec.eq_of_toNat_eq
      rw [i2_toNat, i2_toNat]
      omega
    have hneed₁ : (a + 1) / 2 ^ 18 - a / 2 ^ 18 = 1 ∨
        (reach (fun v : ℕ => roots[v]?) (child s) v [i1 (ipa + off)]).isSome := by
      by_cases heq : a / 2 ^ 18 = (a + 1) / 2 ^ 18
      · rw [hi1 heq]; exact Or.inr hl2
      · exact Or.inl (by omega)
    have hneed₂ : (a + 1) / 512 - a / 512 = 1 ∨
        (reach (fun v : ℕ => roots[v]?) (child s) v [i1 (ipa + off), i2 (ipa + off)]).isSome := by
      by_cases heq : a / 512 = (a + 1) / 512
      · rw [(hi2 heq).1, (hi2 heq).2]; exact Or.inr hl3
      · exact Or.inl (by omega)
    rw [crossed_succ a n 512, crossed_succ a n (2 ^ 18)] at hroom ⊢
    -- the divisions are done with: what is left is a sum of four counts
    generalize (a + 1) / 512 - a / 512 = c₂ at hroom hneed₂ ⊢
    generalize (a + 1) / 2 ^ 18 - a / 2 ^ 18 = c₁ at hroom hneed₁ ⊢
    generalize hd₂ : (a + 1 + n) / 512 - (a + 1) / 512 = d₂ at hroom ⊢
    generalize hd₁ : (a + 1 + n) / 2 ^ 18 - (a + 1) / 2 ^ 18 = d₁ at hroom ⊢
    obtain ⟨s₁, hrun, hidx⟩ :=
      exists_mapPage h.shape hr hneed₁ hneed₂ (by omega)
    have href := mapPage_refines h hr hrun
    have hmapped : (translate s₁ r (ipa + off)).isSome := by
      rw [href.trans v r _ hr, Function.update_self, Function.update_self]; rfl
    have hpage : (ipa + off).toNat / 4096 = a + 1 := by omega
    have hnext' : (ipa + (off + 4096)).toNat = (a + 1) * 4096 + 4096 := by omega
    obtain ⟨s', hloop, hidx'⟩ := ih href hmapped (by rw [hpage]; exact hnext')
      (by rw [hstep]; exact hfit) (by rw [hpage, hd₂, hd₁]; omega)
    refine ⟨s', ?_, ?_⟩
    · rw [mapLoop, hrun]; exact hloop
    · rw [hpage, hd₂, hd₁] at hidx'
      omega

/-- **A call of `s2_map` returns while its budget is left in the pool**,
and stays within it. -/
theorem exists_s2Map {ipa pa sz f : U64} (h : Refines s roots M) (hr : roots[v]? = some r)
    (hipa : ipa.toNat % 4096 = 0) (hpa : pa.toNat % 4096 = 0) (hsz : sz.toNat % 4096 = 0)
    (hpos : 0 < sz.toNat) (hle : ipa.toNat + sz.toNat ≤ 2 ^ 39)
    (hroom : s.ptIdx + tableBudget ipa sz ≤ ptPoolPages) :
    ∃ s', s2Map s r ipa pa sz f = some (.ok, s') ∧ s'.ptIdx ≤ s.ptIdx + tableBudget ipa sz := by
  have h0 : ∀ x : U64, x + 0 = x := fun x => BitVec.add_zero x
  obtain ⟨n, hn⟩ : ∃ n, sz.toNat / 4096 = n + 1 := ⟨sz.toNat / 4096 - 1, by omega⟩
  obtain ⟨a, ha⟩ : ∃ a, ipa.toNat / 4096 = a := ⟨_, rfl⟩
  simp only [tableBudget, pageBudget, hn, ha] at hroom ⊢
  obtain ⟨s₁, hrun, hidx⟩ := exists_mapPage (c := ipa + 0) h.shape hr
    (Or.inl rfl) (Or.inl rfl) (by omega)
  have href := mapPage_refines h hr hrun
  have hmapped : (translate s₁ r (ipa + 0)).isSome := by
    rw [href.trans v r _ hr, Function.update_self, Function.update_self]; rfl
  rw [h0] at hmapped
  have hstep : (ipa + (0 + 4096)).toNat = ipa.toNat + 4096 := by
    rw [← BitVec.add_assoc, h0]
    exact toNat_add_page (by omega)
  have hnext : (ipa + (0 + 4096)).toNat = ipa.toNat / 4096 * 4096 + 4096 := by omega
  have hfit : (ipa + (0 + 4096)).toNat + n * 4096 ≤ 2 ^ 39 := by omega
  obtain ⟨s', hloop, hidx'⟩ := exists_mapLoop href hr hmapped hnext hfit (by omega)
  refine ⟨s', s2Map_eq_some.2 (Or.inr ⟨rfl, ⟨hipa, hpa, hsz⟩, ?_⟩), by omega⟩
  rw [hn, mapLoop, hrun]
  exact hloop

end Stage2

end HypervisorBase
