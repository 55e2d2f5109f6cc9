import HypervisorBase.Stage2.Capacity
import HypervisorBase.Stage2.Queries
/-!
# Addresses beyond 39 bits

The tables index 39 bits of an address, and no function of `stage2.c`
looks at the others. A range beyond `2 ^ 39` is therefore taken for the
pages its low bits name. `beyond_39_bits_iff` says for which ranges this
cannot be noticed: the empty one, those that end by `2 ^ 39`, and those
that start at zero and so hold every address that is named twice.
-/

namespace HypervisorBase

namespace Stage2

/-- The addresses of the range `[ipa, ipa + sz)`. -/
def InRange (ipa sz j : U64) : Prop := ipa.toNat ≤ j.toNat ∧ j.toNat < ipa.toNat + sz.toNat

/-- **A range that its low 39 bits do not lead out of.** -/
def Unaliased (ipa sz : U64) : Prop := sz = 0 ∨ ipa.toNat + sz.toNat ≤ 2 ^ 39 ∨ ipa = 0

theorem vpn_lt (j : U64) : vpn j < 2 ^ 27 := Nat.mod_lt _ (by decide)

theorem lt_of_mem_visited {x : U64} {n p : ℕ} (hp : p ∈ visited x n) : p < 2 ^ 27 := by
  obtain ⟨k, -, rfl⟩ := hp
  exact vpn_lt _

/-- The pages visited, as addresses, stay in the range. -/
theorem unaliased_iff {ipa sz : U64} (hipa : ipa.toNat % 4096 = 0) (hsz : sz.toNat % 4096 = 0) :
    Unaliased ipa sz ↔ ∀ p ∈ visited ipa (sz.toNat / 4096),
      ipa.toNat ≤ p * 4096 ∧ p * 4096 < ipa.toNat + sz.toNat := by
  constructor
  · rintro hun p hp
    by_cases hle : ipa.toNat + sz.toNat ≤ 2 ^ 39
    · have hin := (mem_visited_of_le (by omega)).mp hp
      omega
    · have hlt := lt_of_mem_visited hp
      rcases hun with rfl | hun | rfl
      · obtain ⟨k, hk, -⟩ := hp
        exact absurd hk (Nat.not_lt_zero k)
      · exact absurd hun hle
      · have hz : (0 : U64).toNat = 0 := rfl
        omega
  · intro hin
    by_contra hout
    have hz : (0 : U64).toNat = 0 := rfl
    simp only [Unaliased, not_or, ← BitVec.toNat_inj] at hout
    obtain ⟨hpos, hgt, hzero⟩ := hout
    -- the first page at or above `2 ^ 39` is named again below it
    obtain ⟨k, hk, hge⟩ : ∃ k < sz.toNat / 4096, pageAt ipa k * 4096 < ipa.toNat := by
      by_cases hbeyond : 2 ^ 39 ≤ ipa.toNat
      · refine ⟨0, by omega, ?_⟩
        have := vpn_lt ipa
        rw [pageAt_zero]
        omega
      · refine ⟨(2 ^ 39 - ipa.toNat) / 4096, by omega, ?_⟩
        simp only [pageAt, vpn, BitVec.toNat_add, BitVec.toNat_ofNat]
        omega
    have := (hin _ ⟨k, hk, rfl⟩).1
    omega

/-- A visited page lies in the range unless addresses wrap. -/
theorem inRange_of_visited {ipa sz j : U64} (hipa : ipa.toNat % 4096 = 0)
    (hsz : sz.toNat % 4096 = 0) (hun : Unaliased ipa sz)
    (hj : j.toNat / 4096 ∈ visited ipa (sz.toNat / 4096)) : InRange ipa sz j := by
  have hin := (unaliased_iff hipa hsz).mp hun _ hj
  unfold InRange
  omega

theorem visited_of_inRange {ipa sz j : U64} (hipa : ipa.toNat % 4096 = 0)
    (hsz : sz.toNat % 4096 = 0) (hj : j.toNat < 2 ^ 39) (hin : InRange ipa sz j) :
    j.toNat / 4096 ∈ visited ipa (sz.toNat / 4096) := by
  unfold InRange at hin
  refine ⟨j.toNat / 4096 - ipa.toNat / 4096, ?_, ?_⟩
  · omega
  · simp only [pageAt, vpn, BitVec.toNat_add, BitVec.toNat_ofNat]
    omega

variable [P : PtPool]
variable {s s' : S2State} {roots : List U64} {v : ℕ} {r : U64}

/-- **No address is seen differently**, in any VM, but those of the range
in the VM at `v`. -/
def KeepsOutside (roots : List U64) (v : ℕ) (ipa sz : U64) (s s' : S2State) : Prop :=
  ∀ (w : ℕ) q j, roots[w]? = some q → ¬ (w = v ∧ InRange ipa sz j) →
    ipaView s' q j = ipaView s q j

/-- A new space for one VM that differs in the visited pages only. -/
theorem keepsOutside_of_refines {M : ℕ → Space} {m : Space} {ipa sz : U64}
    (href : Refines s roots M) (href' : Refines s' roots (Function.update M v m))
    (hipa : ipa.toNat % 4096 = 0) (hsz : sz.toNat % 4096 = 0) (hun : Unaliased ipa sz)
    (hm : ∀ p ∉ visited ipa (sz.toNat / 4096), m p = M v p) :
    KeepsOutside roots v ipa sz s s' := by
  intro w q j hq hout
  by_cases hj : j.toNat < 2 ^ 39
  · rw [ipaView_congr_iff href href' hq hj]
    by_cases hw : w = v
    · rw [hw, Function.update_self]
      exact hm _ fun hp => hout ⟨hw, inRange_of_visited hipa hsz hun hp⟩
    · rw [Function.update_of_ne hw]
  · rw [ipaView_of_ge (Nat.not_lt.mp hj), ipaView_of_ge (Nat.not_lt.mp hj)]

/-- Mapping an unaliased range changes nothing outside it. -/
theorem keepsOutside_s2Map {ipa pa sz f : U64} {e : Err} (hshape : Shape s roots)
    (hr : roots[v]? = some r) (hun : Unaliased ipa sz)
    (hrun : s2Map s r ipa pa sz f = some (e, s')) : KeepsOutside roots v ipa sz s s' := by
  rcases s2Map_eq_some.1 hrun with ⟨-, rfl, -⟩ | ⟨rfl, ⟨hipa, -, hsz⟩, -⟩
  · exact fun _ _ _ _ _ => rfl
  · exact keepsOutside_of_refines hshape.refines (s2Map_refines_put hshape.refines hr hrun)
      hipa hsz hun fun p hp => Space.put_of_notMem hp

theorem keepsOutside_s2Unmap {ipa sz : U64} (hshape : Shape s roots) (hr : roots[v]? = some r)
    (hipa : ipa.toNat % 4096 = 0) (hsz : sz.toNat % 4096 = 0) (hun : Unaliased ipa sz) :
    KeepsOutside roots v ipa sz s (s2Unmap s r ipa sz).2 :=
  keepsOutside_of_refines hshape.refines (s2Unmap_refines hshape.refines hr ipa sz) hipa hsz hun
    fun _ hp => Space.drop_of_notMem fun hmem => hp hmem.2.2

/-- **Any page can be the one that is mapped.** -/
theorem exists_mapped {p : ℕ} (hp : p < 2 ^ 27) : ∃ s r, ∃ M : ℕ → Space,
    Refines s [r] M ∧ (M 0 p).isSome := by
  obtain ⟨⟨pgd, s₀⟩, ha⟩ : ∃ ps, ptAlloc (tableInit fun _ => 0) = some ps :=
    ⟨_, if_neg (show ¬ ptPoolPages ≤ 0 by decide)⟩
  have hidx : s₀.ptIdx = 1 := by rw [(ptAlloc_eq_some.1 ha).2.2]; rfl
  obtain ⟨vttbr, hcreate⟩ : ∃ vttbr, s2Create (tableInit fun _ => 0) =
      some ((pgd, vttbr), { s₀ with vmid := s₀.vmid + 1 }) := ⟨_, by rw [s2Create, ha]; rfl⟩
  have href := s2Create_refines (refines_tableInit _) hcreate
  have hipa : (BitVec.ofNat 64 (p * 4096)).toNat = p * 4096 := toNat_ofNat_page (by omega)
  have hle : (BitVec.ofNat 64 (p * 4096)).toNat + (0x1000 : U64).toNat ≤ 2 ^ 39 := by
    rw [hipa, show (0x1000 : U64).toNat = 4096 from rfl]
    omega
  have hbudget : tableBudget (BitVec.ofNat 64 (p * 4096)) 0x1000 = 2 := by
    rw [tableBudget, pageBudget, show (0x1000 : U64).toNat / 4096 = 1 from rfl]
    omega
  obtain ⟨s', hmap, -⟩ : ∃ s', s2Map _ pgd (BitVec.ofNat 64 (p * 4096)) 0 0x1000 0 =
      some (.ok, s') ∧ _ :=
    exists_s2Map href (v := 0) rfl (by omega) rfl rfl (by decide) hle
      (by rw [hbudget, hidx]; decide)
  refine ⟨s', pgd, _, s2Map_refines_range (v := 0) href rfl hle hmap, ?_⟩
  rw [Function.update_self, Space.mapRange, hipa, if_pos (by
    rw [show (0x1000 : U64).toNat = 4096 from rfl]
    omega)]
  rfl

/-! ## The overlap query -/

omit P in
/-- The first page of the range answers for it. -/
theorem s2IpaIsMapped_of_first {ipa sz : U64} (hsz : sz ≠ 0)
    (hm : pageMapped s r ipa = true) : s2IpaIsMapped s r ipa sz = some true := by
  have hstep : ∀ n, isMappedLoop s r ipa sz (n + 1) 0 = some true := by
    intro n
    have hpos : (0 : U64) < sz := Nat.pos_of_ne_zero fun h0 => hsz (BitVec.eq_of_toNat_eq h0)
    rw [isMappedLoop, if_pos hpos, show ipa + 0 = ipa from BitVec.add_zero ipa, if_pos hm]
  exact hstep _

omit P in
theorem s2IpaIsMapped_zero (s : S2State) (r ipa : U64) : s2IpaIsMapped s r ipa 0 = some false := by
  have hstep : ∀ n, isMappedLoop s r ipa 0 (n + 1) 0 = some false := fun n => by
    rw [isMappedLoop, if_neg (BitVec.lt_irrefl _)]
  exact hstep _

/-- **No address is taken for another**: for the tables of every VM,
`s2_map` and `s2_unmap` change nothing outside their range if and only if
the range is one that 39 bits do not lead out of; and the overlap query
denies a range at or above `2 ^ 39`, whatever is mapped, if and only if it
is empty. -/
theorem beyond_39_bits_iff :
    (∀ ipa sz : U64, ipa.toNat % 4096 = 0 → sz.toNat % 4096 = 0 →
      ((∀ (s : S2State) (roots : List U64) (v : ℕ) (r : U64), Shape s roots →
          roots[v]? = some r →
          (∀ pa f e s', s2Map s r ipa pa sz f = some (e, s') →
            KeepsOutside roots v ipa sz s s') ∧
          KeepsOutside roots v ipa sz s (s2Unmap s r ipa sz).2) ↔ Unaliased ipa sz)) ∧
    ∀ ipa sz : U64, 2 ^ 39 ≤ ipa.toNat →
      ((∀ (s : S2State) (roots : List U64) (v : ℕ) (r : U64), Shape s roots →
          roots[v]? = some r → s2IpaIsMapped s r ipa sz = some false) ↔ sz = 0) := by
  refine ⟨fun ipa sz hipa hsz => ⟨fun hkeeps => ?_, fun hun s roots v r hshape hr => ?_⟩,
    fun ipa sz hge => ⟨fun hfalse => ?_, fun hzero s roots v r _ _ => ?_⟩⟩
  · rw [unaliased_iff hipa hsz]
    intro p hp
    have hlt := lt_of_mem_visited hp
    by_contra hout
    -- the page is mapped before and not after
    obtain ⟨s, r, M, href, hsome⟩ := exists_mapped hlt
    have hj : (BitVec.ofNat 64 (p * 4096)).toNat = p * 4096 := toNat_ofNat_page (by omega)
    have hdropped : p ∈ unmapPages ipa sz := ⟨hipa, hsz, hp⟩
    have hkeep := (hkeeps s [r] 0 r href.shape rfl).2 0 r (BitVec.ofNat 64 (p * 4096)) rfl
      fun hin => hout (by rw [InRange, hj] at hin; exact hin.2)
    rw [ipaView_congr_iff (v := 0) href (s2Unmap_refines (v := 0) href rfl ipa sz) rfl (by omega), hj,
      Nat.mul_div_cancel p (by decide), Function.update_self,
      Space.drop_of_mem hdropped] at hkeep
    rw [← hkeep] at hsome
    cases hsome
  · exact ⟨fun pa f e s' hrun => keepsOutside_s2Map hshape hr hun hrun,
      keepsOutside_s2Unmap hshape hr hipa hsz hun⟩
  · by_contra hne
    obtain ⟨s, r, M, href, hsome⟩ := exists_mapped (vpn_lt ipa)
    have htrue := s2IpaIsMapped_of_first hne ((pageMapped_iff (v := 0) href rfl ipa).mpr hsome)
    rw [hfalse s [r] 0 r href.shape rfl] at htrue
    cases htrue
  · rw [hzero]
    exact s2IpaIsMapped_zero s r ipa

/-- A VM with the page at `0x1000` mapped. -/
def lowPage : Option (S2State × U64) := do
  let ((pgd, _), s) ← s2Create (tableInit fun _ => 0)
  let (_, s) ← s2Map s pgd 0x1000 0xB000000 0x1000 0x7C0
  pure (s, pgd)

omit P in
/-- **Unmapping at `2 ^ 39 + 0x1000` unmaps the page at `0x1000`**, which
the overlap query finds there too. -/
theorem unmap_beyond_39_bits :
    letI := poolAt2M
    (lowPage.map fun st => (ipaView st.1 st.2 0x1000,
        s2IpaIsMapped st.1 st.2 0x8000001000 0x1000,
        ipaView (s2Unmap st.1 st.2 0x8000001000 0x1000).2 st.2 0x1000)) =
      some (some (0xB0007C3, 0xB000000), some true, none) := by
  decide

end Stage2

end HypervisorBase
