import HypervisorBase.Dma.Guard
import HypervisorBase.Stage2.Queries
/-!
# What the DMA guard lets through

`dma_guard.h` promises `E_OK` only for a range that is mapped as a whole.
The guard asks `s2_ipa_is_mapped`, which answers for any one page of the
range. So it is sound for a request exactly when the request is not
partly mapped (`dma_guard_sound_iff`), and `hvc_dma_xfer`, which reports
what the guard refuses, reports every bad request exactly there.
-/

namespace HypervisorBase

namespace Dma

/-- Every byte of `[ipa, ipa + size)` is in a mapped page, and the range
does not wrap. -/
def Covered (s : S2State) (pgd ipa size : U64) : Prop :=
  ipa.toNat + size.toNat ≤ 2 ^ 64 ∧
    ∀ i < size.toNat, (Stage2.ipaToPa s pgd (ipa + BitVec.ofNat 64 i)).isSome

/-- The guard accepts only what is covered. -/
def Sound (s : S2State) (pgd ipa size : U64) : Prop :=
  dmaGuardCheckIpa s pgd ipa size = some .ok → Covered s pgd ipa size

/-- Either the request is covered or none of the pages the guard looks at,
one for every 4096 bytes of the rounded size, is mapped. -/
def NotPartly (s : S2State) (pgd ipa size : U64) : Prop :=
  Covered s pgd ipa size ∨ ∀ k, k * 4096 < (roundSize size).toNat →
    Stage2.pageMapped s pgd (ipa + BitVec.ofNat 64 (k * 4096)) = false

/-- The size a transfer asks for: a zero register stands for a page. -/
def xferSize (x2 : U64) : U64 := if x2 ≠ 0 then x2 else 0x1000

section Tables

variable [P : PtPool]

/-- A transfer of the current VM that is not covered is denied, after the
violation has been passed on. -/
def Reports (h : Hyp) (ipa x2 : U64) : Prop :=
  ∀ vm, currentVm h = some vm → ¬ Covered h.s2 vm.s2Pgd ipa (xferSize x2) →
    hvcDmaXfer h ipa x2 = (dmaGuardLogViolation h vm.id ipa).map fun h' => (.denied, h')

end Tables

/-! ## The guard's answer -/

/-- The rounded size is a whole number of pages, so the scan of the guard
returns. -/
theorem roundSize_le (size : U64) : (roundSize size).toNat ≤ 2 ^ 64 - 4096 := by
  have hlow := Word.toNat_and_lowMask size (show 12 ≤ 64 by decide)
  have hround := Word.toNat_clearLow (size + 0xFFF) (show 12 ≤ 64 by decide)
  have hlt := size.isLt
  unfold roundSize
  split
  · rename_i hne
    have heq : ((size + 0xFFF) &&& ~~~(0xFFF : U64)).toNat = (size + 0xFFF).toNat / 2 ^ 12 * 2 ^ 12 :=
      hround
    have hsum := (size + 0xFFF).isLt
    omega
  · rename_i hz
    have hz : (size &&& 0xFFF).toNat = 0 := by rw [not_not.1 hz]; rfl
    have heq : (size &&& 0xFFF).toNat = size.toNat % 2 ^ 12 := hlow
    omega

/-- **The guard accepts as soon as one page it looks at is mapped.** -/
theorem dmaGuardCheckIpa_eq_ok (s : S2State) (pgd ipa size : U64) :
    dmaGuardCheckIpa s pgd ipa size = some .ok ↔ ∃ k, k * 4096 < (roundSize size).toNat ∧
      Stage2.pageMapped s pgd (ipa + BitVec.ofNat 64 (k * 4096)) = true := by
  obtain ⟨b, hb, hiff⟩ := Stage2.s2IpaIsMapped_eq s pgd ipa (roundSize_le size)
  by_cases hz : size = 0
  · subst hz
    rw [dmaGuardCheckIpa, if_pos rfl]
    refine iff_of_false (by decide) ?_
    rintro ⟨k, hk, -⟩
    exact absurd hk (Nat.not_lt_zero _)
  · rw [← hiff, dmaGuardCheckIpa, if_neg hz, hb]
    cases b <;> simp

/-- And answers one way or the other on every request. -/
theorem exists_dmaGuardCheckIpa (s : S2State) (pgd ipa size : U64) :
    ∃ e, dmaGuardCheckIpa s pgd ipa size = some e := by
  obtain ⟨b, hb, -⟩ := Stage2.s2IpaIsMapped_eq s pgd ipa (roundSize_le size)
  unfold dmaGuardCheckIpa
  split
  · exact ⟨_, rfl⟩
  · exact ⟨if b then .ok else .inval, by rw [hb]; rfl⟩

theorem notPartly_iff (s : S2State) (pgd ipa size : U64) : NotPartly s pgd ipa size ↔
    Covered s pgd ipa size ∨ dmaGuardCheckIpa s pgd ipa size ≠ some .ok := by
  rw [NotPartly, Ne, dmaGuardCheckIpa_eq_ok]
  simp

theorem sound_iff (s : S2State) (pgd ipa size : U64) :
    Sound s pgd ipa size ↔ NotPartly s pgd ipa size := by
  rw [notPartly_iff, Sound]
  tauto

section Tables

variable [P : PtPool]

/-- A transfer goes the way the guard answers. -/
theorem hvcDmaXfer_eq {h : Hyp} {vm : Vm} (hvm : currentVm h = some vm) (ipa x2 : U64) :
    hvcDmaXfer h ipa x2 =
      if dmaGuardCheckIpa h.s2 vm.s2Pgd ipa (xferSize x2) = some .ok then some (.ok, h)
      else (dmaGuardLogViolation h vm.id ipa).map fun h' => (.denied, h') := by
  obtain ⟨e, he⟩ := exists_dmaGuardCheckIpa h.s2 vm.s2Pgd ipa (xferSize x2)
  unfold hvcDmaXfer
  rw [hvm]
  change (dmaGuardCheckIpa h.s2 vm.s2Pgd ipa (xferSize x2)).bind _ = _
  rw [he, Option.bind_some]
  by_cases hok : e = .ok
  · rw [if_pos hok, hok, if_pos rfl]; rfl
  · rw [if_neg hok, if_neg fun hc => hok (Option.some.inj hc)]
    cases dmaGuardLogViolation h vm.id ipa <;> rfl

/-- A violation is passed on unless the range is mapped in part. -/
theorem reports_iff (h : Hyp) (ipa x2 : U64) : Reports h ipa x2 ↔
    ∀ vm, currentVm h = some vm → NotPartly h.s2 vm.s2Pgd ipa (xferSize x2) := by
  refine forall_congr' fun vm => forall_congr' fun hvm => ?_
  rw [notPartly_iff, hvcDmaXfer_eq hvm]
  by_cases hok : dmaGuardCheckIpa h.s2 vm.s2Pgd ipa (xferSize x2) = some .ok
  · rw [if_pos hok]
    have hne : ¬ some (Err.ok, h) =
        (dmaGuardLogViolation h vm.id ipa).map fun h' => (Err.denied, h') := by
      cases dmaGuardLogViolation h vm.id ipa <;> simp
    tauto
  · rw [if_neg hok]
    tauto

/-- **The guard is sound exactly on requests that are not partly mapped.**
For every table state and every request, it accepts only covered ranges,
and the hypercall reports every range that is not covered, if and only if
the request is covered or has no page mapped that the guard looks at. -/
theorem dma_guard_sound_iff (h : Hyp) (ipa : U64) :
    (∀ s pgd size, Sound s pgd ipa size ↔ NotPartly s pgd ipa size) ∧
    ∀ x2, Reports h ipa x2 ↔
      ∀ vm, currentVm h = some vm → NotPartly h.s2 vm.s2Pgd ipa (xferSize x2) :=
  ⟨fun s pgd size => sound_iff s pgd ipa size, fun x2 => reports_iff h ipa x2⟩

end Tables

/-- A transfer of two pages of which the second is not mapped: the guard
accepts it. -/
theorem dma_guard_accepts_partly_mapped :
    letI := Stage2.poolAt2M
    ∃ st, exec Stage2.tableStep (Stage2.tableInit (fun _ => 0), 0) Stage2.onePage = some st ∧
      dmaGuardCheckIpa st.1 st.2 0x4000 0x2000 = some .ok ∧
      Stage2.ipaToPa st.1 st.2 0x5000 = none ∧ ¬ Sound st.1 st.2 0x4000 0x2000 := by
  let _ := Stage2.poolAt2M
  have hsome : (exec Stage2.tableStep (Stage2.tableInit (fun _ => 0), 0) Stage2.onePage).isSome := by
    decide
  refine ⟨_, (Option.some_get hsome).symm, ?_⟩
  have hok : dmaGuardCheckIpa (Option.get _ hsome).1 (Option.get _ hsome).2 0x4000 0x2000 =
      some .ok := (dmaGuardCheckIpa_eq_ok _ _ _ _).2 ⟨0, by decide, by decide +revert⟩
  have hnone : Stage2.ipaToPa (Option.get _ hsome).1 (Option.get _ hsome).2 0x5000 = none := by
    decide +revert
  refine ⟨hok, hnone, fun hsound => ?_⟩
  have := (hsound hok).2 0x1000 (by decide)
  rw [show (0x4000 : U64) + BitVec.ofNat 64 0x1000 = 0x5000 from rfl, hnone] at this
  exact absurd this (by decide)

end Dma

end HypervisorBase
