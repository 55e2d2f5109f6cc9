import Mathlib.Order.CompletePartialOrder
import Mathlib.Order.Interval.Set.Disjoint
import HypervisorBase.Common.Run
import HypervisorBase.Shmem.Model
import HypervisorBase.Stage2.Queries
import HypervisorBase.Vm.Lifecycle
/-!
# Confinement of the shared-memory pool

`shmem_map` hands out physical pages by moving a cursor, and compares
`_cursor + sz` with the end of the pool in wrapping arithmetic. A guest
chooses `sz` freely, and a size that wraps the sum passes the comparison.
`shmem_confined_iff` says that this is all that can go wrong: a run of
calls stays inside the pool, with the regions it records apart, precisely
when no call it accepts wraps the sum.
-/

namespace HypervisorBase

namespace Shmem

/-- A call of the shared-memory interface, as the hypercalls pass it on. -/
inductive ShmemCall
  | map (srcId dstId : U32) (ipa sz : U64)
  | unmap (ipa sz : U64)

/-- The physical bytes of a region. -/
def pageRange (r : ShmRegion) : Set ℕ := Set.Ico r.pa.toNat (r.pa.toNat + r.sz.toNat)

/-- The cursor is in the pool, end included, and recorded regions are
apart. -/
def PoolConfined (h : Hyp) : Prop :=
  (shmemPoolPa.toNat ≤ h.shmem.cursor.toNat ∧
    h.shmem.cursor.toNat ≤ shmemPoolPa.toNat + shmemPoolSz.toNat) ∧
  h.shmem.regions.Pairwise fun a b => Disjoint (pageRange a) (pageRange b)

/-- Every page a call hands to `s2_map` is a page of the pool. -/
def HandsPoolPages (h : Hyp) : ShmemCall → Prop
  | .map srcId dstId _ sz => ∀ roots pa h', shmemReserve h srcId dstId sz = .ok (roots, pa, h') →
      ∀ k, k * 4096 < sz.toNat →
        shmemPoolPa.toNat ≤ (pa + BitVec.ofNat 64 (k * 4096)).toNat ∧
        (pa + BitVec.ofNat 64 (k * 4096)).toNat + 4096 ≤ shmemPoolPa.toNat + shmemPoolSz.toNat
  | .unmap _ _ => True

/-- The checks of `shmem_map`, as the code makes them. -/
def Accepted (h : Hyp) (srcId dstId : U32) (sz : U64) : Prop :=
  h.shmem.regions.length < maxShmemRegions ∧ sz.toNat % 4096 = 0 ∧
    (h.shmem.cursor + sz).toNat ≤ shmemPoolPa.toNat + shmemPoolSz.toNat ∧
    (vmAt h srcId).isSome ∧ (vmAt h dstId).isSome

/-- An accepted call does not wrap the sum it was accepted by. -/
def NoWrap (h : Hyp) : ShmemCall → Prop
  | .map srcId dstId _ sz =>
    Accepted h srcId dstId sz → h.shmem.cursor.toNat + sz.toNat < 2 ^ 64
  | .unmap _ _ => True

/-! ## What a call does to the pool -/

variable {h h' : Hyp} {srcId dstId : U32} {ipa sz pa : U64} {roots : U64 × U64} {e : Err}

/-- `shmem_map` starts mapping when its checks pass, from the cursor. -/
theorem shmemReserve_eq_ok : shmemReserve h srcId dstId sz = .ok (roots, pa, h') →
    Accepted h srcId dstId sz ∧ pa = h.shmem.cursor ∧
      h' = { h with shmem := ⟨h.shmem.regions, h.shmem.cursor + sz⟩ } := by
  intro hok
  unfold shmemReserve at hok
  split at hok
  · exact absurd hok (by simp)
  rename_i hn
  split at hok
  · exact absurd hok (by simp)
  rename_i hal
  split at hok
  · exact absurd hok (by simp)
  rename_i hend
  split at hok
  · rename_i src dst hsrc hdst
    simp only [Except.ok.injEq, Prod.mk.injEq] at hok
    obtain ⟨-, hpa, hh⟩ := hok
    refine ⟨⟨by omega, ?_, ?_, by simp [hsrc], by simp [hdst]⟩, hpa.symm, hh.symm⟩
    · exact isAligned_page_iff.1 (by simpa using hal)
    · exact Nat.le_of_not_lt hend
  · exact absurd hok (by simp)

/-- A reservation that is accepted takes the next pages. -/
theorem exists_shmemReserve (hacc : Accepted h srcId dstId sz) :
    ∃ roots h', shmemReserve h srcId dstId sz = .ok (roots, h.shmem.cursor, h') := by
  obtain ⟨hn, hal, hend, hsrc, hdst⟩ := hacc
  obtain ⟨src, hsrc⟩ := Option.isSome_iff_exists.mp hsrc
  obtain ⟨dst, hdst⟩ := Option.isSome_iff_exists.mp hdst
  refine ⟨(src.s2Pgd, dst.s2Pgd),
    { h with shmem := ⟨h.shmem.regions, h.shmem.cursor + sz⟩ }, ?_⟩
  have hlt : ¬ shmemPoolPa + shmemPoolSz < h.shmem.cursor + sz := Nat.not_lt.2 hend
  unfold shmemReserve
  rw [if_neg (by omega), if_neg (by rw [isAligned_page_iff.2 hal]; simp), if_neg hlt, hsrc, hdst]

/-- `shmem_unmap` moves neither the cursor nor a range. -/
theorem shmemUnmap_ranges (h : Hyp) (ipa sz : U64) :
    (shmemUnmap h ipa sz).2.shmem.cursor = h.shmem.cursor ∧
      (shmemUnmap h ipa sz).2.shmem.regions.map (fun r => (r.pa, r.sz)) =
        h.shmem.regions.map fun r => (r.pa, r.sz) := by
  unfold shmemUnmap
  split
  · exact ⟨rfl, rfl⟩
  · rename_i k hfind
    split
    · exact ⟨rfl, rfl⟩
    · rename_i r hr
      refine ⟨rfl, ?_⟩
      have hk : (h.shmem.regions.map fun r => (r.pa, r.sz))[k]? = some (r.pa, r.sz) := by
        rw [List.getElem?_map, hr]; rfl
      obtain ⟨hlt, heq⟩ := List.getElem?_eq_some_iff.mp hk
      rw [List.map_set, ← heq]
      exact List.set_getElem_self hlt

/-- The spans handed out so far lie one after another below the cursor. -/
structure Packed (h : Hyp) : Prop where
  low : shmemPoolPa.toNat ≤ h.shmem.cursor.toNat
  high : h.shmem.cursor.toNat ≤ shmemPoolPa.toNat + shmemPoolSz.toNat
  below : ∀ s ∈ h.shmem.regions.map fun r => (r.pa, r.sz),
    s.1.toNat + s.2.toNat ≤ h.shmem.cursor.toNat
  apart : (h.shmem.regions.map fun r => (r.pa, r.sz)).Pairwise fun a b =>
    a.1.toNat + a.2.toNat ≤ b.1.toNat

/-- Regions that lie one after the other stay in the pool. -/
theorem Packed.poolConfined (hp : Packed h) : PoolConfined h := by
  refine ⟨⟨hp.low, hp.high⟩, ?_⟩
  refine (List.pairwise_map.1 hp.apart).imp fun {a b} hab => ?_
  have hab : a.pa.toNat + a.sz.toNat ≤ b.pa.toNat := hab
  rw [pageRange, pageRange, Set.Ico_disjoint_Ico]
  omega

theorem packed_shmemInit (h : Hyp) : Packed (shmemInit h) where
  low := Nat.le_refl _
  high := Nat.le_add_right _ _
  below := by simp [shmemInit]
  apart := by simp [shmemInit]

/-- An accepted call that does not wrap moves the cursor up, inside the
pool. -/
theorem cursor_add (hacc : Accepted h srcId dstId sz)
    (hno : h.shmem.cursor.toNat + sz.toNat < 2 ^ 64) :
    (h.shmem.cursor + sz).toNat = h.shmem.cursor.toNat + sz.toNat ∧
      h.shmem.cursor.toNat + sz.toNat ≤ shmemPoolPa.toNat + shmemPoolSz.toNat := by
  have hsum : (h.shmem.cursor + sz).toNat = h.shmem.cursor.toNat + sz.toNat := by
    rw [BitVec.toNat_add, Nat.mod_eq_of_lt hno]
  exact ⟨hsum, hsum ▸ hacc.2.2.1⟩

/-- **The pages of an accepted call are in the pool exactly when the sum
does not wrap.** A wrapped one reaches the first page past the pool. -/
theorem handsPoolPages_iff {c : ShmemCall} (hp : Packed h) : HandsPoolPages h c ↔ NoWrap h c := by
  cases c with
  | unmap ipa sz => exact Iff.rfl
  | map srcId dstId ipa sz =>
    have hlow := hp.low
    have hhigh := hp.high
    have hpool : shmemPoolPa.toNat = 0xA0000000 := rfl
    have hsize : shmemPoolSz.toNat = 0x20000000 := rfl
    have hpage : ∀ k, h.shmem.cursor.toNat + k * 4096 < 2 ^ 64 →
        (h.shmem.cursor + BitVec.ofNat 64 (k * 4096)).toNat = h.shmem.cursor.toNat + k * 4096 := by
      intro k hk
      rw [BitVec.toNat_add, BitVec.toNat_ofNat]
      omega
    constructor
    · intro hpages hacc
      by_contra hwrap
      obtain ⟨roots, h', hres⟩ := exists_shmemReserve hacc
      -- the size covers the rest of the pool and more: take the first page that ends past it
      obtain ⟨k, hk⟩ : ∃ k, k = (0xC0000000 - h.shmem.cursor.toNat) / 4096 := ⟨_, rfl⟩
      have := hpages roots _ h' hres k (by omega)
      rw [hpage k (by omega)] at this
      omega
    · intro hno roots pa h' hres k hk
      obtain ⟨hacc, rfl, -⟩ := shmemReserve_eq_ok hres
      obtain ⟨hsum, hend⟩ := cursor_add hacc (hno hacc)
      have hal := hacc.2.1
      rw [hpage k (by omega)]
      omega

section Pool

variable [P : PtPool]

def shmemStep (h : Hyp) : ShmemCall → Option Hyp
  | .map srcId dstId ipa sz => (shmemMap h srcId dstId ipa sz).map Prod.snd
  | .unmap ipa sz => some (shmemUnmap h ipa sz).2

/-- A call that returns: refused, or past the checks, with the cursor
moved and the region recorded or not. -/
theorem shmemMap_cases (hrun : shmemMap h srcId dstId ipa sz = some (e, h')) : h' = h ∨
    (Accepted h srcId dstId sz ∧ h'.shmem.cursor = h.shmem.cursor + sz ∧
      (h'.shmem.regions = h.shmem.regions ∨
        h'.shmem.regions = h.shmem.regions ++ [⟨h.shmem.cursor, sz, srcId, dstId, ipa, true⟩])) := by
  unfold shmemMap at hrun
  split at hrun
  · obtain ⟨-, rfl⟩ := Prod.mk.inj (Option.some.inj hrun)
    exact Or.inl rfl
  · rename_i src dst pa h₁ hres
    obtain ⟨hacc, rfl, rfl⟩ := shmemReserve_eq_ok hres
    refine Or.inr ⟨hacc, ?_⟩
    obtain ⟨⟨e₁, s₁⟩, -, hrun⟩ := Option.bind_eq_some_iff.mp hrun
    simp only at hrun
    split at hrun
    · obtain ⟨-, rfl⟩ := Prod.mk.inj (Option.some.inj hrun)
      exact ⟨rfl, Or.inl rfl⟩
    · obtain ⟨⟨e₂, s₂⟩, -, hrun⟩ := Option.bind_eq_some_iff.mp hrun
      simp only at hrun
      split at hrun
      · obtain ⟨-, rfl⟩ := Prod.mk.inj (Option.some.inj hrun)
        exact ⟨rfl, Or.inl rfl⟩
      · obtain ⟨-, rfl⟩ := Prod.mk.inj (Option.some.inj hrun)
        exact ⟨rfl, Or.inr rfl⟩

/-! ## Along a run -/

/-- **A call that does not wrap keeps the spans packed.** -/
theorem packed_step {c : ShmemCall} (hp : Packed h) (hno : NoWrap h c)
    (hstep : shmemStep h c = some h') : Packed h' := by
  cases c with
  | unmap ipa sz =>
    obtain rfl := Option.some.inj hstep
    obtain ⟨hcur, hspans⟩ := shmemUnmap_ranges h ipa sz
    exact ⟨by rw [hcur]; exact hp.low, by rw [hcur]; exact hp.high,
      by rw [hcur, hspans]; exact hp.below, by rw [hspans]; exact hp.apart⟩
  | map srcId dstId ipa sz =>
    obtain ⟨⟨e, h₁⟩, hrun, rfl⟩ := Option.map_eq_some_iff.mp hstep
    rcases shmemMap_cases hrun with rfl | ⟨hacc, hcur, hregions⟩
    · exact hp
    · obtain ⟨hsum, hend⟩ := cursor_add hacc (hno hacc)
      have hlow := hp.low
      have hbelow : ∀ s ∈ h.shmem.regions.map fun r => (r.pa, r.sz),
          s.1.toNat + s.2.toNat ≤ h.shmem.cursor.toNat + sz.toNat :=
        fun s hs => Nat.le_trans (hp.below s hs) (Nat.le_add_right _ _)
      rcases hregions with hr | hr
      · refine ⟨?_, ?_, ?_, ?_⟩ <;> simp only [hcur, hsum, hr]
        · omega
        · exact hend
        · exact hbelow
        · exact hp.apart
      · refine ⟨?_, ?_, ?_, ?_⟩ <;> simp only [hcur, hsum, hr, List.map_append, List.map_cons,
          List.map_nil]
        · omega
        · exact hend
        · intro s hs
          rcases List.mem_append.1 hs with hs | hs
          · exact hbelow s hs
          · obtain rfl := List.mem_singleton.1 hs
            exact Nat.le_refl _
        · refine List.pairwise_append.2 ⟨hp.apart, List.pairwise_singleton _ _, ?_⟩
          intro a ha b hb
          obtain rfl := List.mem_singleton.1 hb
          exact hp.below a ha

/-- **The pool is confined exactly on runs that do not wrap.** Starting
from `shmem_init`, in whatever state the rest of the hypervisor is, all
calls hand pool pages to `s2_map` and all states keep the cursor in the
pool and the regions apart, if and only if no accepted call wraps. -/
theorem shmem_confined_iff (h : Hyp) (calls : List ShmemCall) :
    (Throughout shmemStep PoolConfined (shmemInit h) calls ∧
      Guarded shmemStep HandsPoolPages (shmemInit h) calls) ↔
    Guarded shmemStep NoWrap (shmemInit h) calls :=
  safe_iff_guarded (fun _ hp => hp.poolConfined) (fun _ _ _ hp hno hs => packed_step hp hno hs)
    (fun _ _ hp hno => (handsPoolPages_iff hp).2 hno)
    (fun _ _ hp hno hpages => absurd ((handsPoolPages_iff hp).1 hpages) hno)
    (packed_shmemInit h)

end Pool

/-- Two VMs, as `platform_init` makes them before it maps anything. -/
def twoVms : Hyp :=
  let h := Hyp.blank
  { h with vms := [{ vmInit 1 .linux with s2Pgd := 0x40200000 },
                   { vmInit 2 .rtos with s2Pgd := 0x40201000 }] }

/-- A guest passes the size that wraps the cursor to zero, with an
unaligned address so that nothing is mapped: the call fails and the
cursor has left the pool. -/
theorem shmem_cursor_leaves_pool :
    letI := Stage2.poolAt2M
    ¬ (Throughout shmemStep PoolConfined (shmemInit twoVms)
        [.map 1 2 1 (0 - 0xA0000000)] ∧
      Guarded shmemStep HandsPoolPages (shmemInit twoVms) [.map 1 2 1 (0 - 0xA0000000)]) := by
  rintro ⟨⟨-, hnext⟩, -⟩
  have hafter := hnext _ rfl
  exact absurd hafter.1.1 (by decide)

end Shmem

end HypervisorBase
