import HypervisorBase.Dma.Soundness
import HypervisorBase.Vm.Teardown
/-!
# The DMA guard on physical addresses

`dma_guard_check` looks for the region of a physical address, compares
the end of the request with the end of the region and asks
`s2_ipa_is_mapped` for the guest addresses. The ends are 64-bit sums: a
region whose end wraps holds no address, and a size that rounds to zero is
refused, but a request whose end wraps passes the comparison. And the
query answers for any one page. These are the two defects, `WrapsOut` and
`PartlyMapped`: by `dma_guard_pa_sound_iff` an accepted request is what it
should be exactly when it has neither. `inside_of_accepted` says what
acceptance is worth when the end does not wrap.
-/

namespace HypervisorBase

namespace Dma

open Stage2

/-- A region holds the range. -/
def Holds (pa size : U64) (r : MemRegion) : Prop :=
  r.paBase.toNat ≤ pa.toNat ∧ pa.toNat + size.toNat ≤ r.paBase.toNat + r.size.toNat

/-- The guest address of each byte of the range, which is in the region, is
in a mapped page. -/
def AllMapped (s : S2State) (vm : Vm) (pa size : U64) (r : MemRegion) : Prop :=
  ∀ i < size.toNat, (ipaToPa s vm.s2Pgd (r.ipaBase + (pa - r.paBase) + BitVec.ofNat 64 i)).isSome

/-- One of the pages from the guest address of `pa` on is mapped, as many
as the rounded size has. -/
def SomeMapped (s : S2State) (vm : Vm) (pa size : U64) (r : MemRegion) : Prop :=
  ∃ k, k * 4096 < (roundSize size).toNat ∧
    pageMapped s vm.s2Pgd (r.ipaBase + (pa - r.paBase) + BitVec.ofNat 64 (k * 4096)) = true

/-- **What an accepted request should be**: the range does not wrap, lies
inside one region, and the guest address of each of its bytes is in a
mapped page. -/
def PaCovered (s : S2State) (vm : Vm) (pa size : U64) : Prop :=
  pa.toNat + size.toNat ≤ 2 ^ 64 ∧ ∃ r ∈ vm.mem, Holds pa size r ∧ AllMapped s vm pa size r

def PaSound (s : S2State) (vm : Vm) (pa size : U64) : Prop :=
  dmaGuardCheck s vm pa size = some .ok → PaCovered s vm pa size

/-- **The first defect**, of a request with a region for its address and a
page mapped: the end of the rounded range wraps, which no comparison
catches, and the range itself wraps or is in no region. -/
def WrapsOut (s : S2State) (vm : Vm) (pa size : U64) : Prop :=
  ∃ r, regionOfPa vm.mem pa = some r ∧ SomeMapped s vm pa size r ∧
    2 ^ 64 ≤ pa.toNat + (roundSize size).toNat ∧
    (pa.toNat + size.toNat ≤ 2 ^ 64 → ∀ r' ∈ vm.mem, ¬ Holds pa size r')

/-- **The second defect**, of a request whose rounded range does not end
beyond the region of its address: the range is in a region, and it is
mapped in part only. -/
def PartlyMapped (s : S2State) (vm : Vm) (pa size : U64) : Prop :=
  pa.toNat + size.toNat ≤ 2 ^ 64 ∧ (∃ r ∈ vm.mem, Holds pa size r) ∧
    (∀ r ∈ vm.mem, Holds pa size r → ¬ AllMapped s vm pa size r) ∧
    ∃ r, regionOfPa vm.mem pa = some r ∧ SomeMapped s vm pa size r ∧
      (pa.toNat + (roundSize size).toNat < 2 ^ 64 →
        pa.toNat + (roundSize size).toNat ≤ r.paBase.toNat + r.size.toNat)

variable {s : S2State} {vm : Vm} {pa size : U64} {r : MemRegion}

/-- A region that is found holds the address, and its end does not wrap. -/
theorem regionOfPa_spec (hr : regionOfPa vm.mem pa = some r) : r ∈ vm.mem ∧
    r.paBase.toNat ≤ pa.toNat ∧ pa.toNat < r.paBase.toNat + r.size.toNat ∧
    r.paBase.toNat + r.size.toNat < 2 ^ 64 := by
  have hfound := List.find?_some hr
  rw [Bool.and_eq_true, decide_eq_true_iff, decide_eq_true_iff] at hfound
  obtain ⟨hlow, hhigh⟩ := hfound
  have hlow : r.paBase.toNat ≤ pa.toNat := hlow
  have hhigh : pa.toNat < (r.paBase + r.size).toNat := hhigh
  have hsize := r.size.isLt
  have hbase := r.paBase.isLt
  rw [BitVec.toNat_add] at hhigh
  refine ⟨List.mem_of_find?_eq_some hr, hlow, ?_, ?_⟩
  · omega
  · omega

/-- A request that wraps passes the comparison of the ends, whatever the
region; one that does not passes if it ends inside. -/
theorem end_beyond_iff (hr : regionOfPa vm.mem pa = some r) : r.paBase + r.size < pa + roundSize size ↔
    r.paBase.toNat + r.size.toNat < pa.toNat + (roundSize size).toNat ∧
      pa.toNat + (roundSize size).toNat < 2 ^ 64 := by
  obtain ⟨-, -, hhigh, hfits⟩ := regionOfPa_spec hr
  have hpa := pa.isLt
  have hround := (roundSize size).isLt
  rw [BitVec.lt_def, BitVec.toNat_add, BitVec.toNat_add, Nat.mod_eq_of_lt hfits]
  omega

/-- **When the guard accepts.** -/
theorem dmaGuardCheck_eq_ok_iff : dmaGuardCheck s vm pa size = some .ok ↔
    ∃ r, regionOfPa vm.mem pa = some r ∧ ¬ r.paBase + r.size < pa + roundSize size ∧
      SomeMapped s vm pa size r := by
  unfold dmaGuardCheck
  by_cases hz : size = 0
  · rw [if_pos hz]
    constructor
    · intro hok
      cases hok
    · rintro ⟨r, -, -, k, hk, -⟩
      rw [hz] at hk
      exact absurd hk (Nat.not_lt_zero _)
  rw [if_neg hz]
  cases hr : regionOfPa vm.mem pa with
  | none =>
    constructor
    · intro hok
      cases hok
    · rintro ⟨r, hr, -⟩
      cases hr
  | some r =>
    dsimp only
    by_cases hend : pa + roundSize size > r.paBase + r.size
    · rw [if_pos hend]
      constructor
      · intro hok
        cases hok
      · rintro ⟨r', hr', hin, -⟩
        obtain rfl := Option.some.inj hr'
        exact absurd hend hin
    · rw [if_neg hend]
      obtain ⟨b, hb, hiff⟩ :=
        s2IpaIsMapped_eq s vm.s2Pgd (r.ipaBase + (pa - r.paBase)) (roundSize_le size)
      rw [hb]
      constructor
      · intro hok
        cases b with
        | false => cases hok
        | true => exact ⟨r, rfl, hend, hiff.mp rfl⟩
      · rintro ⟨r', hr', -, hmapped⟩
        obtain rfl := Option.some.inj hr'
        rw [hiff.mpr hmapped]
        rfl

/-- The same with the ends as numbers: a request is accepted if its region
has a page mapped, and its rounded range ends inside the region or wraps. -/
theorem accepted_iff : dmaGuardCheck s vm pa size = some .ok ↔
    ∃ r, regionOfPa vm.mem pa = some r ∧ SomeMapped s vm pa size r ∧
      (pa.toNat + (roundSize size).toNat < 2 ^ 64 →
        pa.toNat + (roundSize size).toNat ≤ r.paBase.toNat + r.size.toNat) := by
  rw [dmaGuardCheck_eq_ok_iff]
  refine exists_congr fun r => and_congr_right fun hr => ?_
  rw [end_beyond_iff hr, and_comm]
  refine and_congr_right fun _ => ?_
  omega

/-- A size that has pages to look at was not rounded to less than it is. -/
theorem le_roundSize (hpos : 0 < (roundSize size).toNat) : size.toNat ≤ (roundSize size).toNat := by
  unfold roundSize at hpos ⊢
  split
  · rename_i hodd
    rw [if_pos hodd] at hpos
    have hround : ((size + 0xFFF) &&& ~~~(0xFFF : U64)).toNat = (size + 0xFFF).toNat / 2 ^ 12 * 2 ^ 12 :=
      Word.toNat_clearLow (k := 12) (size + 0xFFF) (by decide)
    have hsum : (size + 0xFFF).toNat = (size.toNat + 0xFFF) % 2 ^ 64 := BitVec.toNat_add size 0xFFF
    omega
  · exact Nat.le_refl _

/-- **What acceptance is worth**: if the end of the rounded request does
not wrap, an accepted range does not wrap either and lies inside the
region that was found. -/
theorem inside_of_accepted (hok : dmaGuardCheck s vm pa size = some .ok)
    (hwrap : pa.toNat + (roundSize size).toNat < 2 ^ 64) :
    pa.toNat + size.toNat ≤ 2 ^ 64 ∧ ∃ r ∈ vm.mem, Holds pa size r := by
  obtain ⟨r, hr, ⟨k, hk, -⟩, hend⟩ := accepted_iff.mp hok
  obtain ⟨hmem, hlow, -, -⟩ := regionOfPa_spec hr
  have hround : size.toNat ≤ (roundSize size).toNat := le_roundSize (by omega)
  have hend := hend hwrap
  exact ⟨by omega, r, hmem, hlow, by omega⟩

/-- A request with a defect is accepted, and should not have been. -/
theorem PaSound.spared (hsound : PaSound s vm pa size) :
    ¬ WrapsOut s vm pa size ∧ ¬ PartlyMapped s vm pa size := by
  constructor
  · rintro ⟨r, hr, hsome, hwrap, hout⟩
    obtain ⟨hfits, r', hmem, hholds, -⟩ :=
      hsound (accepted_iff.mpr ⟨r, hr, hsome, fun hlt => by omega⟩)
    exact hout hfits r' hmem hholds
  · rintro ⟨-, -, hpart, haccepted⟩
    obtain ⟨-, r', hmem, hholds, hall⟩ := hsound (accepted_iff.mpr haccepted)
    exact hpart r' hmem hholds hall

/-- **The guard accepts only what it should**, for every VM, every table
state and every request, if and only if the request has neither defect.
What it accepts without a wrap lies inside a region. -/
theorem dma_guard_pa_sound_iff (s : S2State) (vm : Vm) (pa size : U64) :
    (PaSound s vm pa size ↔ ¬ WrapsOut s vm pa size ∧ ¬ PartlyMapped s vm pa size) ∧
    (dmaGuardCheck s vm pa size = some .ok → pa.toNat + (roundSize size).toNat < 2 ^ 64 →
      pa.toNat + size.toNat ≤ 2 ^ 64 ∧ ∃ r ∈ vm.mem, Holds pa size r) := by
  refine ⟨⟨PaSound.spared, fun ⟨hwrap, hpart⟩ hok => ?_⟩, inside_of_accepted⟩
  obtain ⟨r, hr, hsome, hend⟩ := accepted_iff.mp hok
  have hheld : pa.toNat + size.toNat ≤ 2 ^ 64 ∧ ∃ r ∈ vm.mem, Holds pa size r := by
    by_cases hlt : pa.toNat + (roundSize size).toNat < 2 ^ 64
    · exact inside_of_accepted hok hlt
    · -- The end wraps, and the range is in a region all the same.
      by_contra hout
      refine hwrap ⟨r, hr, hsome, Nat.le_of_not_lt hlt, fun hfits r' hmem hholds => ?_⟩
      exact hout ⟨hfits, r', hmem, hholds⟩
  by_contra hnot
  refine hpart ⟨hheld.1, hheld.2, fun r' hmem hholds hall => ?_, r, hr, hsome, hend⟩
  exact hnot ⟨hheld.1, r', hmem, hholds, hall⟩

theorem exists_onePageVm :
    letI := poolAt2M
    ∃ h vm, exec LifeOp.run Hyp.blank twoGuests = some h ∧
      h.vms[0]? = some vm ∧ vm.mem = [⟨0x60000000, 0, 0x1000, memR ||| memW⟩] ∧
      pageMapped h.s2 vm.s2Pgd 0 = true :=
  ⟨_, _, rfl, rfl, rfl, rfl⟩

/-- **A request that wraps is accepted**: `2^64 - 4096` bytes from
`0x60000000`, where the VM has one page. -/
theorem dma_guard_accepts_wrap :
    letI := poolAt2M
    ∃ h vm, exec LifeOp.run Hyp.blank twoGuests = some h ∧
      h.vms[0]? = some vm ∧ vm.mem = [⟨0x60000000, 0, 0x1000, memR ||| memW⟩] ∧
      dmaGuardCheck h.s2 vm 0x60000000 0xFFFFFFFFFFFFF000 = some .ok ∧
      ¬ PaSound h.s2 vm 0x60000000 0xFFFFFFFFFFFFF000 := by
  let _ := poolAt2M
  obtain ⟨h, vm, hrun, hvm, hmem, hmapped⟩ := exists_onePageVm
  have hok : dmaGuardCheck h.s2 vm 0x60000000 0xFFFFFFFFFFFFF000 = some .ok := by
    refine dmaGuardCheck_eq_ok_iff.mpr ⟨⟨0x60000000, 0, 0x1000, memR ||| memW⟩, ?_, ?_, 0, ?_, ?_⟩
    · rw [hmem]
      rfl
    · decide
    · decide
    · exact hmapped
  refine ⟨h, vm, hrun, hvm, hmem, hok, fun hsound => ?_⟩
  exact absurd (hsound hok).1 (by decide)

end Dma

end HypervisorBase
