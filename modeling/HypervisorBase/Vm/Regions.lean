import HypervisorBase.Vm.Teardown
/-!
# Regions that overlap

`vm_add_mem` means to refuse a region that overlaps one the VM has. It
asks the tables, which `vm_finalize` fills from the list of regions later
on, and not the list. `overlap_rejected_iff` gives the exact condition for
the regions of a VM to stay apart over any sequence of additions and
finalizations: whenever a region overlaps one of the list, there is room
in the list and a page that the query steps to is mapped.
-/

namespace HypervisorBase

open Stage2

/-- The guest addresses of a region. -/
def MemRegion.Contains (r : MemRegion) (x : ℕ) : Prop :=
  r.ipaBase.toNat ≤ x ∧ x < r.ipaBase.toNat + r.size.toNat

instance (r : MemRegion) (x : ℕ) : Decidable (r.Contains x) := by
  unfold MemRegion.Contains; infer_instance

/-- Two regions with an address in common. -/
def MemRegion.Overlaps (a b : MemRegion) : Prop := ∃ x, a.Contains x ∧ b.Contains x

/-- **The regions of the VM are apart.** -/
def RegionsApart (i : ℕ) (h : Hyp) : Prop :=
  ∀ vm, h.vms[i]? = some vm → vm.mem.Pairwise fun a b => ¬ a.Overlaps b

/-- What is done to a VM that is being set up. -/
inductive MemOp
  | add (pa ipa sz : U64) (flags : U32)
  | finalize

section Tables

variable [P : PtPool]
variable {h h' : Hyp} {i : ℕ} {vm : Vm} {pa ipa sz : U64} {flags : U32}

def memStep (i : ℕ) (h : Hyp) : MemOp → Option Hyp
  | .add pa ipa sz flags => (vmAddMem h i pa ipa sz flags).map Prod.snd
  | .finalize => (vmFinalize h i).map Prod.snd

/-- **A region that overlaps one the VM has is refused** with `E_BUSY` and
nothing changed. -/
def RejectsOverlap (i : ℕ) (h : Hyp) : MemOp → Prop
  | .add pa ipa sz flags => ∀ vm, h.vms[i]? = some vm →
      (∃ r ∈ vm.mem, r.Overlaps ⟨pa, ipa, sz, flags⟩) →
        vmAddMem h i pa ipa sz flags = some (.busy, h)
  | .finalize => True

/-- **The tables show the overlap**: there is room in the list, and one of
the pages that the query steps to is mapped. -/
def OverlapShows (i : ℕ) (h : Hyp) : MemOp → Prop
  | .add pa ipa sz flags => ∀ vm, h.vms[i]? = some vm →
      (∃ r ∈ vm.mem, r.Overlaps ⟨pa, ipa, sz, flags⟩) → vm.mem.length < maxMemRegions ∧
        ∃ k, k * 4096 < sz.toNat ∧
          s2IpaIsMapped h.s2 vm.s2Pgd (ipa + BitVec.ofNat 64 (k * 4096)) 0x1000 = some true
  | .finalize => True

/-- `vm_add_mem` on a VM with tables: a size of zero, a full list, and then
the query. -/
theorem vmAddMem_eq (hshape : Shape h.s2 h.roots) (hvm : h.vms[i]? = some vm) :
    vmAddMem h i pa ipa sz flags =
      if sz = 0 then some (.inval, h)
      else if maxMemRegions ≤ vm.mem.length then some (.nomem, h)
      else (s2IpaIsMapped h.s2 vm.s2Pgd ipa sz).bind fun mapped =>
        if mapped then some (.busy, h)
        else some (.ok, h.setVm i { vm with mem := vm.mem ++ [⟨pa, ipa, sz, flags⟩] }) := by
  have hpgd := hshape.root_ne_zero (Hyp.roots_of_vm hvm)
  unfold vmAddMem
  rw [hvm]
  dsimp only
  rw [if_pos hpgd]
  rfl

omit P in
theorem size_ne_zero_of_overlaps {r : MemRegion} (hover : r.Overlaps ⟨pa, ipa, sz, flags⟩) :
    sz ≠ 0 := by
  rintro rfl
  obtain ⟨x, -, hx⟩ := hover
  have hz : (0 : U64).toNat = 0 := rfl
  unfold MemRegion.Contains at hx
  dsimp only at hx
  omega

/-- **Busy** is the answer exactly if the list has room and the query finds
a page mapped. -/
theorem vmAddMem_busy_iff (hshape : Shape h.s2 h.roots) (hvm : h.vms[i]? = some vm)
    (hsz : sz ≠ 0) : vmAddMem h i pa ipa sz flags = some (.busy, h) ↔
      vm.mem.length < maxMemRegions ∧ s2IpaIsMapped h.s2 vm.s2Pgd ipa sz = some true := by
  rw [vmAddMem_eq hshape hvm, if_neg hsz]
  split
  · rename_i hfull
    refine ⟨fun hbusy => ?_, fun hroom => absurd hroom.1 (Nat.not_lt.mpr hfull)⟩
    cases hbusy
  · rename_i hroom
    cases hmapped : s2IpaIsMapped h.s2 vm.s2Pgd ipa sz with
    | none =>
      refine ⟨fun hbusy => ?_, fun htrue => ?_⟩
      · cases hbusy
      · cases htrue.2
    | some mapped =>
      cases mapped with
      | false =>
        refine ⟨fun hbusy => ?_, fun htrue => ?_⟩
        · cases hbusy
        · cases htrue.2
      | true => exact ⟨fun _ => ⟨Nat.not_le.mp hroom, rfl⟩, fun _ => rfl⟩

/-- The query over a range asks page after page. -/
theorem mapped_iff_page (hshape : Shape h.s2 h.roots) (hvm : h.vms[i]? = some vm) :
    s2IpaIsMapped h.s2 vm.s2Pgd ipa sz = some true ↔ ∃ k, k * 4096 < sz.toNat ∧
      s2IpaIsMapped h.s2 vm.s2Pgd (ipa + BitVec.ofNat 64 (k * 4096)) 0x1000 = some true := by
  have hr := Hyp.roots_of_vm hvm
  rw [s2IpaIsMapped_eq_true_iff]
  refine exists_congr fun k => and_congr_right fun _ => ?_
  rw [s2IpaIsMapped_page hshape.refines hr, pageMapped_iff hshape.refines hr, Option.some_inj]

/-- **An overlap is refused** exactly if the tables show it. -/
theorem rejectsOverlap_iff {op : MemOp} (hshape : Shape h.s2 h.roots) :
    RejectsOverlap i h op ↔ OverlapShows i h op := by
  cases op with
  | finalize => exact Iff.rfl
  | add pa ipa sz flags =>
    refine forall_congr' fun vm => forall_congr' fun hvm => forall_congr' fun hover => ?_
    obtain ⟨r, -, hover⟩ := hover
    rw [vmAddMem_busy_iff hshape hvm (size_ne_zero_of_overlaps hover), mapped_iff_page hshape hvm]

/-! ## Along a run -/

/-- Adding a region keeps the tables well formed. -/
theorem shape_of_memStep {op : MemOp} (hshape : Shape h.s2 h.roots)
    (hstep : memStep i h op = some h') : Shape h'.s2 h'.roots := by
  have hlife : ∃ op' : LifeOp, op'.run h = some h' := by
    cases op with
    | add pa ipa sz flags => exact ⟨.addMem i pa ipa sz flags, hstep⟩
    | finalize => exact ⟨.finalize i, hstep⟩
  obtain ⟨op', hrun⟩ := hlife
  exact shape_of_lifeOp hshape hrun

/-- What holds of a VM that is being set up. -/
structure SetUp (i : ℕ) (h : Hyp) : Prop where
  shape : Shape h.s2 h.roots
  apart : RegionsApart i h

/-- **A step keeps the regions apart** if the tables show every overlap. -/
theorem apart_of_memStep {op : MemOp} (hshape : Shape h.s2 h.roots) (hapart : RegionsApart i h)
    (hshows : OverlapShows i h op) (hstep : memStep i h op = some h') : RegionsApart i h' := by
  cases op with
  | finalize =>
    obtain ⟨⟨e, g⟩, hfinal, rfl⟩ := Option.map_eq_some_iff.mp hstep
    have hlayout := (retains_vmFinalize hfinal).layout
    intro vm' hvm'
    have hsame : (h.vms.map Vm.layout)[i]? = some vm'.layout := by
      rw [← hlayout, List.getElem?_map, hvm', Option.map_some]
    rw [List.getElem?_map] at hsame
    obtain ⟨vm, hvm, heq⟩ := Option.map_eq_some_iff.mp hsame
    have hmem : vm.mem = vm'.mem := congrArg (fun l => l.2.1) heq
    rw [← hmem]
    exact hapart vm hvm
  | add pa ipa sz flags =>
    obtain ⟨⟨e, g⟩, hadd, rfl⟩ := Option.map_eq_some_iff.mp hstep
    cases hvm : h.vms[i]? with
    | none =>
      unfold vmAddMem at hadd
      rw [hvm] at hadd
      cases hadd
      exact hapart
    | some vm =>
      by_cases hover : ∃ r ∈ vm.mem, r.Overlaps ⟨pa, ipa, sz, flags⟩
      · have hbusy := (rejectsOverlap_iff hshape).mpr hshows vm hvm hover
        rw [hadd] at hbusy
        cases hbusy
        exact hapart
      · -- what is added overlaps nothing
        have hgrown : RegionsApart i
            (h.setVm i { vm with mem := vm.mem ++ [⟨pa, ipa, sz, flags⟩] }) := by
          intro vm' hvm'
          have hi := (List.getElem?_eq_some_iff.mp hvm).1
          rw [Hyp.setVm, List.getElem?_set_self hi] at hvm'
          obtain rfl := Option.some.inj hvm'
          refine List.pairwise_append.mpr ⟨hapart vm hvm, List.pairwise_singleton _ _, ?_⟩
          intro a ha b hb
          obtain rfl := List.mem_singleton.mp hb
          exact fun hab => hover ⟨a, ha, hab⟩
        rw [vmAddMem_eq hshape hvm] at hadd
        split at hadd
        · cases hadd
          exact hapart
        split at hadd
        · cases hadd
          exact hapart
        obtain ⟨mapped, -, hadd⟩ := Option.bind_eq_some_iff.mp hadd
        split at hadd
        · cases hadd
          exact hapart
        · cases hadd
          exact hgrown

/-- **The regions of a VM stay apart**, every overlap being refused with
`E_BUSY`, over any sequence of additions and finalizations, if and only if
the tables show every overlap when it comes up. -/
theorem overlap_rejected_iff (i : ℕ) (ops : List MemOp) (hshape : Shape h.s2 h.roots)
    (hapart : RegionsApart i h) :
    (Throughout (memStep i) (RegionsApart i) h ops ∧
      Guarded (memStep i) (RejectsOverlap i) h ops) ↔
    Guarded (memStep i) (OverlapShows i) h ops := by
  have hinit : SetUp i h := ⟨hshape, hapart⟩
  refine safe_iff_guarded ?_ ?_ ?_ ?_ hinit
  · exact fun _ hset => hset.apart
  · exact fun _ _ _ hset hshows hstep =>
      ⟨shape_of_memStep hset.shape hstep, apart_of_memStep hset.shape hset.apart hshows hstep⟩
  · exact fun _ _ hset hshows => (rejectsOverlap_iff hset.shape).mpr hshows
  · exact fun _ _ hset hnot hrej => absurd ((rejectsOverlap_iff hset.shape).mp hrej) hnot

end Tables

/-- A page at address zero, the VM finalized, and the page again. -/
def pageTwice : List MemOp :=
  [.add 0x60000000 0 0x1000 (memR ||| memW), .finalize, .add 0x70000000 0 0x1000 (memR ||| memW)]

theorem exists_created :
    letI := poolAt2M
    ∃ h vm, exec LifeOp.run Hyp.blank [.create .rtos] =
      some h ∧ h.vms[0]? = some vm ∧ vm.mem = [] :=
  ⟨_, _, rfl, rfl, rfl⟩

theorem overlap_rejected_pageTwice :
    letI := poolAt2M
    ∃ h, exec LifeOp.run Hyp.blank [.create .rtos] =
        some h ∧
      ((Throughout (memStep 0) (RegionsApart 0) h pageTwice ∧
        Guarded (memStep 0) (RejectsOverlap 0) h pageTwice) ↔
      Guarded (memStep 0) (OverlapShows 0) h pageTwice) := by
  let _ := poolAt2M
  obtain ⟨h, vm, hrun, hvm, hmem⟩ := exists_created
  have hapart : RegionsApart 0 h := by
    intro vm' hvm'
    obtain rfl := Option.some.inj (hvm.symm.trans hvm')
    rw [hmem]
    exact List.Pairwise.nil
  exact ⟨h, hrun, overlap_rejected_iff 0 pageTwice (shape_of_lifeOps hrun) hapart⟩

/-- **Before `vm_finalize` the same range is accepted twice.** -/
theorem overlap_accepted_before_finalize :
    letI := poolAt2M
    ∃ h h₁ h₂ vm a b, exec LifeOp.run Hyp.blank
        [.create .rtos] = some h ∧
      vmAddMem h 0 0x60000000 0 0x1000 (memR ||| memW) = some (.ok, h₁) ∧
      vmAddMem h₁ 0 0x70000000 0 0x1000 (memR ||| memW) = some (.ok, h₂) ∧
      h₂.vms[0]? = some vm ∧ vm.mem = [a, b] ∧ a.Overlaps b :=
  ⟨_, _, _, _, _, _, rfl, rfl, rfl, rfl, rfl, 0, by decide, by decide⟩

end HypervisorBase
