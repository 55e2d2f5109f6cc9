import HypervisorBase.Stage2.Aliasing
/-!
# Which pages the overlap query steps to

`s2_ipa_is_mapped` steps from the start of a range by whole pages, so of a
range that starts inside a page it may not reach the last one, and with a
size above `2 ^ 64 - 4096` its offset wraps before it leaves the range.
`range_walk_iff` says for every table and every range when it terminates
and when its answer is about the whole range.
-/

namespace HypervisorBase

namespace Stage2

variable {s : S2State} {r ipa sz : U64}

/-- The loop ends after some number of steps. -/
def Terminates (s : S2State) (r ipa sz : U64) : Prop := ∃ n, isMappedLoop s r ipa sz n 0 ≠ none

/-- A page that the loop steps to is mapped. -/
def SteppedMapped (s : S2State) (r ipa sz : U64) : Prop :=
  ∃ k, k * 4096 < sz.toNat ∧ pageMapped s r (ipa + BitVec.ofNat 64 (k * 4096)) = true

/-- A byte of the range lies in a mapped page. -/
def ByteMapped (s : S2State) (r ipa sz : U64) : Prop :=
  ∃ a : U64, ipa.toNat ≤ a.toNat ∧ a.toNat < ipa.toNat + sz.toNat ∧ pageMapped s r a = true

/-- The tables are read by page. -/
theorem pageMapped_congr {a b : U64} (hpage : a.toNat / 4096 = b.toNat / 4096) :
    pageMapped s r a = pageMapped s r b := by
  have hvpn : vpn a = vpn b := by
    unfold vpn
    rw [hpage]
  obtain ⟨h12, h3⟩ := index_eq_iff.mpr hvpn
  obtain ⟨h1, h2⟩ := List.cons_eq_cons.mp h12
  have h2 := (List.cons_eq_cons.mp h2).1
  unfold pageMapped
  rw [h1, h2, h3]

/-! ## Termination -/

/-- **Every offset is below a size above `2 ^ 64 - 4096`**, so with no page
mapped the loop never leaves the range. The induction is on the steps; the
offset stays a multiple of the page size, also where it wraps. -/
theorem isMappedLoop_endless (hsz : 2 ^ 64 - 4096 < sz.toNat) (hnone : ¬ SteppedMapped s r ipa sz)
    (n : ℕ) (off : U64) (hoff : off.toNat % 4096 = 0) : isMappedLoop s r ipa sz n off = none := by
  induction n generalizing off with
  | zero => rfl
  | succ n ih =>
    have hin : off < sz := by
      rw [BitVec.lt_def]
      omega
    have hfree : ¬ pageMapped s r (ipa + off) = true := by
      intro hm
      refine hnone ⟨off.toNat / 4096, ?_, ?_⟩
      · rw [BitVec.lt_def] at hin
        omega
      · rwa [Nat.div_mul_cancel (Nat.dvd_of_mod_eq_zero hoff), BitVec.ofNat_toNat,
          BitVec.setWidth_eq]
    rw [isMappedLoop, if_pos hin, if_neg hfree]
    refine ih (off + 4096) ?_
    rw [BitVec.toNat_add, show (4096 : U64).toNat = 4096 from rfl]
    omega

theorem returns_of_small_or_stepped (hor : sz.toNat ≤ 2 ^ 64 - 4096 ∨ SteppedMapped s r ipa sz) :
    s2IpaIsMapped s r ipa sz ≠ none := by
  rcases hor with hsmall | hstepped
  · obtain ⟨b, hb, -⟩ := s2IpaIsMapped_eq s r ipa hsmall
    rw [hb]
    exact Option.some_ne_none b
  · rw [(s2IpaIsMapped_eq_true_iff s r ipa sz).mpr hstepped]
    exact Option.some_ne_none true

/-- **The query ends** if its counter cannot wrap, or a page it steps to is
mapped. -/
theorem terminates_iff :
    Terminates s r ipa sz ↔ sz.toNat ≤ 2 ^ 64 - 4096 ∨ SteppedMapped s r ipa sz := by
  constructor
  · rintro ⟨n, hn⟩
    by_contra hnot
    obtain ⟨hbig, hnone⟩ := not_or.mp hnot
    exact hn (isMappedLoop_endless (by omega) hnone n 0 rfl)
  · intro hor
    exact ⟨_, returns_of_small_or_stepped hor⟩

/-! ## The whole range -/

theorem stepped_page (hle : ipa.toNat + sz.toNat ≤ 2 ^ 39) {k : ℕ} (hk : k * 4096 < sz.toNat) :
    (ipa + BitVec.ofNat 64 (k * 4096)).toNat = ipa.toNat + k * 4096 := by
  rw [BitVec.toNat_add, BitVec.toNat_ofNat]
  omega

theorem byteMapped_of_stepped (hle : ipa.toNat + sz.toNat ≤ 2 ^ 39)
    (hstepped : SteppedMapped s r ipa sz) : ByteMapped s r ipa sz := by
  obtain ⟨k, hk, hm⟩ := hstepped
  have hpage := stepped_page hle hk
  exact ⟨_, by omega, by omega, hm⟩

theorem ByteMapped.size_ne_zero (hbyte : ByteMapped s r ipa sz) : sz ≠ 0 := by
  rintro rfl
  obtain ⟨a, hlo, hhi, -⟩ := hbyte
  rw [show (0 : U64).toNat = 0 from rfl] at hhi
  omega

theorem toNat_lastByte (hle : ipa.toNat + sz.toNat ≤ 2 ^ 39) (hsz : sz ≠ 0) :
    (ipa + (sz - 1)).toNat = ipa.toNat + (sz.toNat - 1) := by
  bv_omega

/-- **A byte's page is stepped to, or it is the last page.** -/
theorem stepped_or_last (hle : ipa.toNat + sz.toNat ≤ 2 ^ 39) (hbyte : ByteMapped s r ipa sz) :
    SteppedMapped s r ipa sz ∨ pageMapped s r (ipa + (sz - 1)) = true := by
  have hlast := toNat_lastByte hle hbyte.size_ne_zero
  obtain ⟨a, hlo, hhi, hm⟩ := hbyte
  by_cases hk : (a.toNat / 4096 - ipa.toNat / 4096) * 4096 < sz.toNat
  · have hpage := stepped_page hle hk
    refine .inl ⟨_, hk, ?_⟩
    rwa [pageMapped_congr (b := a) (by omega)]
  · refine .inr ?_
    rwa [pageMapped_congr (b := a) (by omega)]

/-- **And the last page is stepped to** where the two offsets into a page
do not carry. -/
theorem stepped_of_last (hle : ipa.toNat + sz.toNat ≤ 2 ^ 39) (hsz : sz ≠ 0)
    (hcarry : ipa.toNat % 4096 + (sz.toNat - 1) % 4096 < 4096)
    (hm : pageMapped s r (ipa + (sz - 1)) = true) : SteppedMapped s r ipa sz := by
  have hlast := toNat_lastByte hle hsz
  have hpos : 0 < sz.toNat := Nat.pos_of_ne_zero fun h0 => hsz (BitVec.eq_of_toNat_eq h0)
  have hk : (sz.toNat - 1) / 4096 * 4096 < sz.toNat := by omega
  have hpage := stepped_page hle hk
  refine ⟨_, hk, ?_⟩
  rwa [pageMapped_congr (b := ipa + (sz - 1)) (by omega)]

/-- **The overlap query** terminates exactly if the size is at most
`2 ^ 64 - 4096` or it meets a mapped page; and below `2 ^ 39` its answer is
about the whole range exactly if the last page is stepped to, or is not
mapped, or another one that is stepped to is mapped. -/
theorem range_walk_iff (s : S2State) (r ipa sz : U64) :
    (Terminates s r ipa sz ↔ sz.toNat ≤ 2 ^ 64 - 4096 ∨ SteppedMapped s r ipa sz) ∧
    (Terminates s r ipa sz ↔ s2IpaIsMapped s r ipa sz ≠ none) ∧
    (ipa.toNat + sz.toNat ≤ 2 ^ 39 →
      ((s2IpaIsMapped s r ipa sz = some true ↔ ByteMapped s r ipa sz) ↔
        sz = 0 ∨ ipa.toNat % 4096 + (sz.toNat - 1) % 4096 < 4096 ∨
          pageMapped s r (ipa + (sz - 1)) = false ∨ SteppedMapped s r ipa sz)) := by
  refine ⟨terminates_iff, ⟨fun hterm => ?_, fun hret => ⟨_, hret⟩⟩, fun hle => ?_⟩
  · exact returns_of_small_or_stepped (terminates_iff.mp hterm)
  · rw [s2IpaIsMapped_eq_true_iff]
    change (SteppedMapped s r ipa sz ↔ _) ↔ _
    constructor
    · intro hexact
      by_cases hsz : sz = 0
      · exact .inl hsz
      cases hm : pageMapped s r (ipa + (sz - 1)) with
      | false => exact .inr (.inr (.inl rfl))
      | true =>
        have hlast := toNat_lastByte hle hsz
        have hpos : 0 < sz.toNat := Nat.pos_of_ne_zero fun h0 => hsz (BitVec.eq_of_toNat_eq h0)
        exact .inr (.inr (.inr (hexact.mpr ⟨_, by omega, by omega, hm⟩)))
    · intro hcond
      refine ⟨byteMapped_of_stepped hle, fun hbyte => ?_⟩
      rcases stepped_or_last hle hbyte with hstepped | hm
      · exact hstepped
      rcases hcond with hzero | hcarry | hfree | hstepped
      · exact absurd hzero hbyte.size_ne_zero
      · exact stepped_of_last hle hbyte.size_ne_zero hcarry hm
      · rw [hfree] at hm
        cases hm
      · exact hstepped

/-- A table without entries. -/
def noEntries : S2State := tableInit fun _ => 0

theorem pageMapped_noEntries (r a : U64) : pageMapped noEntries r a = false := by
  have hzero : entry noEntries r (i1 a) &&& 1 = 0 := BitVec.zero_and
  rw [pageMapped, if_pos hzero]

/-- Of the range from `0x800` to `0x1800` only the first page is stepped
to, and the second is mapped; and the largest size is never left. -/
theorem walk_misses_last_page :
    (letI _ := poolAt2M
     lowPage.map fun st => (s2IpaIsMapped st.1 st.2 0x800 0x1000, pageMapped st.1 st.2 0x1000)) =
      some (some false, true) ∧
    ¬ Terminates noEntries 0 0 (0 - 1) := by
  refine ⟨by decide, fun hterm => ?_⟩
  rcases terminates_iff.mp hterm with hsmall | ⟨k, -, hm⟩
  · exact absurd hsmall (by decide)
  · rw [pageMapped_noEntries] at hm
    cases hm

end Stage2

end HypervisorBase
