import HypervisorBase.Stage2.Aliasing
import HypervisorBase.Vm.AddressSpace
/-!
# What a guest may do with its memory

The flags of a region say whether a guest may read, write and execute it
and whether it is device memory. `vm_finalize` looks at two of the four:
every page it maps may be read and written. `permissions_follow_iff` is
the exact condition for the tables to say what the flags say, with what
else can come between the two: the extra page of a Linux VM, regions whose
pages are taken for others, and a physical address that reaches into the
attribute bits of the descriptor.
-/

namespace HypervisorBase

open Stage2

/-- What may be done at an address. -/
structure Rights where
  read : Bool
  write : Bool
  exec : Bool
  device : Bool
  deriving DecidableEq, Repr

def Rights.none : Rights := ⟨false, false, false, false⟩

/-- The rights of a descriptor: the two access bits, the execute-never
bit, and a memory type whose upper half is zero for a device. -/
def rightsOf (e : U64) : Rights :=
  ⟨e.getLsbD 6, e.getLsbD 7, !e.getLsbD 54, !e.getLsbD 5 && !e.getLsbD 4⟩

/-- The rights that a region's flags name. -/
def flagRights (f : U32) : Rights :=
  ⟨f &&& memR ≠ 0, f &&& memW ≠ 0, f &&& memX ≠ 0, f &&& memIo ≠ 0⟩

/-- **What a guest may do at an address.** -/
def rightsAt (s : S2State) (pgd ipa : U64) : Rights :=
  ((ipaView s pgd ipa).map fun v => rightsOf v.1).getD .none

/-- **What the last region that contains the address says.** -/
def declaredRights (vm : Vm) (ipa : U64) : Rights :=
  ((lastRegion vm.mem ipa.toNat).map fun reg => flagRights reg.flags).getD .none

/-- The physical address and the flags that `vm_finalize` last mapped a
page with. The extra page of a Linux VM is executable normal memory. -/
def mappedWith (vm : Vm) (p : ℕ) : Option (U64 × U32) :=
  if vm.type = .linux ∧ p = faultPage then some (faultPa vm, memX)
  else (lastWrite vm.mem p).map fun w => (w.1.paBase + BitVec.ofNat 64 (w.2 * 4096), w.1.flags)

/-- The rights this gives. -/
def givenRights (w : U64 × U32) : Rights :=
  ⟨true, true, w.2 &&& memX ≠ 0 && !w.1.getLsbD 54, w.2 &&& memIo ≠ 0⟩

/-! ## Descriptors -/

/-- The rights that a descriptor grants, bit by bit. -/
theorem rightsOf_pageDesc (pa f : U64) : rightsOf (pageDesc pa f) =
    ⟨f.getLsbD 6, f.getLsbD 7, !(pa.getLsbD 54 || f.getLsbD 54), !f.getLsbD 5 && !f.getLsbD 4⟩ := by
  have hbit : ∀ k, (pageDesc pa f).getLsbD k =
      (pa.getLsbD k && addrMask.getLsbD k || f.getLsbD k || s2DescValid.getLsbD k ||
        s2DescPage.getLsbD k) := by
    intro k
    simp only [pageDesc, BitVec.getLsbD_or, BitVec.getLsbD_and]
  have h4 : addrMask.getLsbD 4 = false ∧ s2DescValid.getLsbD 4 = false ∧
      s2DescPage.getLsbD 4 = false := by decide
  have h5 : addrMask.getLsbD 5 = false ∧ s2DescValid.getLsbD 5 = false ∧
      s2DescPage.getLsbD 5 = false := by decide
  have h6 : addrMask.getLsbD 6 = false ∧ s2DescValid.getLsbD 6 = false ∧
      s2DescPage.getLsbD 6 = false := by decide
  have h7 : addrMask.getLsbD 7 = false ∧ s2DescValid.getLsbD 7 = false ∧
      s2DescPage.getLsbD 7 = false := by decide
  have h54 : addrMask.getLsbD 54 = true ∧ s2DescValid.getLsbD 54 = false ∧
      s2DescPage.getLsbD 54 = false := by decide
  simp only [rightsOf, hbit, h4, h5, h6, h7, h54, Bool.and_false, Bool.and_true, Bool.false_or,
    Bool.or_false]

/-- **The rights of a page** follow from its region. -/
theorem rightsOf_entryAt (reg : MemRegion) (k : ℕ) : rightsOf (reg.entryAt k) =
    givenRights (reg.paBase + BitVec.ofNat 64 (k * 4096), reg.flags) := by
  rw [MemRegion.entryAt, rightsOf_pageDesc, givenRights]
  generalize (reg.paBase + BitVec.ofNat 64 (k * 4096)).getLsbD 54 = b
  unfold regionFlags
  by_cases hio : reg.flags &&& memIo = 0 <;> by_cases hx : reg.flags &&& memX = 0 <;>
    simp only [hio, hx, ne_eq, not_true, not_false_eq_true, if_true, if_false, decide_true,
      decide_false] <;> cases b <;> decide

theorem rightsOf_fault (pa : U64) : rightsOf (pageDesc pa faultFlags) = givenRights (pa, memX) := by
  have hbits : ∀ b : Bool, (⟨faultFlags.getLsbD 6, faultFlags.getLsbD 7,
      !(b || faultFlags.getLsbD 54), !faultFlags.getLsbD 5 && !faultFlags.getLsbD 4⟩ : Rights) =
        ⟨true, true, memX &&& memX ≠ 0 && !b, memX &&& memIo ≠ 0⟩ := by decide
  rw [rightsOf_pageDesc]
  exact hbits _

variable {h h' : Hyp} {i : ℕ} {vm : Vm} {s : S2State} {roots : List U64} {M : ℕ → Space} {v : ℕ}
variable {r : U64}

theorem rightsAt_of_ge {j : U64} (hge : 2 ^ 39 ≤ j.toNat) : rightsAt s r j = .none := by
  rw [rightsAt, ipaView_of_ge hge]
  rfl

/-- **What must hold of a VM's regions** for the tables to say what they
say. `vm_finalize` gives every page it maps both access rights, so each
region must have both where it is the last; and what it maps a page with
last must be that region's flags, where they are looked at. -/
structure FlagsKept (h : Hyp) (vm : Vm) : Prop where
  access : ∀ (j : U64) reg, j.toNat < 2 ^ 39 → lastRegion vm.mem j.toNat = some reg →
    reg.flags &&& memR ≠ 0 ∧ reg.flags &&& memW ≠ 0
  attributes : ∀ (j : U64) reg w, j.toNat < 2 ^ 39 → lastRegion vm.mem j.toNat = some reg →
    mappedWith vm (j.toNat / 4096) = some w →
      (reg.flags &&& memX ≠ 0 ↔ w.2 &&& memX ≠ 0 ∧ w.1.getLsbD 54 = false) ∧
      (reg.flags &&& memIo ≠ 0 ↔ w.2 &&& memIo ≠ 0)
  beyond : ∀ (j : U64) reg, 2 ^ 39 ≤ j.toNat → lastRegion vm.mem j.toNat = some reg →
    flagRights reg.flags = .none
  outside : ∀ j : U64, j.toNat < 2 ^ 39 → lastRegion vm.mem j.toNat = none →
    mappedWith vm (j.toNat / 4096) = none ∧ rightsAt h.s2 vm.s2Pgd j = .none

/-- A page that a region contains was mapped. -/
theorem mappedWith_ne_none {j : U64} {reg : MemRegion} (hal : ∀ reg ∈ vm.mem, reg.Aligned)
    (hj : j.toNat < 2 ^ 39) (hlast : lastRegion vm.mem j.toNat = some reg) :
    mappedWith vm (j.toNat / 4096) ≠ none := by
  obtain ⟨hmem, hin⟩ := mem_of_lastRegion hlast
  obtain ⟨hipa, -, hsz⟩ := hal reg hmem
  unfold mappedWith
  split
  · exact Option.some_ne_none _
  · rw [ne_eq, Option.map_eq_none_iff, lastWrite_eq_none_iff]
    exact fun hout => hout reg hmem (visited_of_inRange hipa hsz hj hin)

/-- When the rights given are the ones that flags ask for. -/
theorem givenRights_eq_flagRights {w : U64 × U32} {f : U32} : givenRights w = flagRights f ↔
    (f &&& memR ≠ 0 ∧ f &&& memW ≠ 0) ∧
      (f &&& memX ≠ 0 ↔ w.2 &&& memX ≠ 0 ∧ w.1.getLsbD 54 = false) ∧
      (f &&& memIo ≠ 0 ↔ w.2 &&& memIo ≠ 0) := by
  rw [givenRights, flagRights, Rights.mk.injEq, eq_comm, decide_eq_true_iff, eq_comm,
    decide_eq_true_iff, and_assoc, decide_eq_decide]
  refine and_congr_right fun _ => and_congr_right fun _ => and_congr ?_ ⟨Iff.symm, Iff.symm⟩
  rw [Bool.eq_iff_iff, Bool.and_eq_true, decide_eq_true_iff, decide_eq_true_iff, Bool.not_eq_true']
  exact ⟨Iff.symm, Iff.symm⟩

theorem givenRights_ne_none (w : U64 × U32) : givenRights w ≠ .none := by
  intro heq
  cases congrArg Rights.read heq

theorem declaredRights_of_some {j : U64} {reg : MemRegion}
    (hlast : lastRegion vm.mem j.toNat = some reg) :
    declaredRights vm j = flagRights reg.flags := by
  rw [declaredRights, hlast]
  rfl

theorem declaredRights_of_none {j : U64} (hlast : lastRegion vm.mem j.toNat = none) :
    declaredRights vm j = .none := by
  rw [declaredRights, hlast]
  rfl

section Tables

variable [P : PtPool]

theorem rightsAt_eq (href : Refines s roots M) (hr : roots[v]? = some r) {j : U64}
    (hj : j.toNat < 2 ^ 39) :
    rightsAt s r j = ((M v (j.toNat / 4096)).map rightsOf).getD .none := by
  rw [rightsAt, ipaView_eq href hr hj, Option.map_map]
  rfl

/-- **The rights after `vm_finalize`**: those of the last mapping, and for
a page it did not map those from before. -/
theorem rightsAt_vmFinalize (hshape : Shape h.s2 h.roots) (hvm : h.vms[i]? = some vm)
    (hrun : vmFinalize h i = some (.ok, h')) {j : U64} (hj : j.toNat < 2 ^ 39) :
    rightsAt h'.s2 vm.s2Pgd j =
      (mappedWith vm (j.toNat / 4096)).elim (rightsAt h.s2 vm.s2Pgd j) givenRights := by
  have hr := Hyp.roots_of_vm hvm
  have hbuilt := (vmFinalize_refines hshape.refines hvm hrun).1
  rw [rightsAt_eq hbuilt hr hj, rightsAt_eq hshape.refines hr hj, Function.update_self]
  unfold mappedWith
  split
  · rename_i hfault
    rw [Space.finalize, if_pos hfault.1, hfault.2, Function.update_self, Option.map_some,
      rightsOf_fault]
    rfl
  · rename_i hfault
    rw [Space.finalize_of_ne hfault, Space.build_eq]
    cases lastWrite vm.mem (j.toNat / 4096) with
    | none => rfl
    | some w =>
      rw [Option.elim_some, Option.map_some, rightsOf_entryAt]
      rfl

/-- **The permissions follow the flags** at every address of a VM that was
finalized, whatever its regions are and whatever was mapped before, if and
only if the flags are of the kind that `vm_finalize` keeps. -/
theorem permissions_follow_iff (hshape : Shape h.s2 h.roots) (hvm : h.vms[i]? = some vm)
    (hrun : vmFinalize h i = some (.ok, h')) :
    (∀ j, rightsAt h'.s2 vm.s2Pgd j = declaredRights vm j) ↔ FlagsKept h vm := by
  have hal := (vmFinalize_refines hshape.refines hvm hrun).2
  constructor
  · intro hfollow
    have hgiven : ∀ (j : U64) w, j.toNat < 2 ^ 39 → mappedWith vm (j.toNat / 4096) = some w →
        givenRights w = declaredRights vm j := by
      intro j w hj hw
      rw [← hfollow j, rightsAt_vmFinalize hshape hvm hrun hj, hw]
      rfl
    refine ⟨fun j reg hj hlast => ?_, fun j reg w hj hlast hw => ?_, fun j reg hj hlast => ?_,
      fun j hj hlast => ?_⟩
    · obtain ⟨w, hw⟩ := Option.ne_none_iff_exists'.mp (mappedWith_ne_none hal hj hlast)
      have heq := hgiven j w hj hw
      rw [declaredRights_of_some hlast, givenRights_eq_flagRights] at heq
      exact heq.1
    · have heq := hgiven j w hj hw
      rw [declaredRights_of_some hlast, givenRights_eq_flagRights] at heq
      exact heq.2
    · rw [← declaredRights_of_some hlast, ← hfollow j, rightsAt_of_ge hj]
    · have hnone := hfollow j
      rw [declaredRights_of_none hlast, rightsAt_vmFinalize hshape hvm hrun hj] at hnone
      cases hw : mappedWith vm (j.toNat / 4096) with
      | none =>
        rw [hw] at hnone
        exact ⟨rfl, hnone⟩
      | some w =>
        rw [hw] at hnone
        exact absurd hnone (givenRights_ne_none w)
  · intro hkept j
    by_cases hj : j.toNat < 2 ^ 39
    · rw [rightsAt_vmFinalize hshape hvm hrun hj]
      cases hlast : lastRegion vm.mem j.toNat with
      | none =>
        obtain ⟨hw, hbefore⟩ := hkept.outside j hj hlast
        rw [hw, declaredRights_of_none hlast]
        exact hbefore
      | some reg =>
        obtain ⟨w, hw⟩ := Option.ne_none_iff_exists'.mp (mappedWith_ne_none hal hj hlast)
        rw [hw, declaredRights_of_some hlast]
        exact givenRights_eq_flagRights.mpr
          ⟨hkept.access j reg hj hlast, hkept.attributes j reg w hj hlast hw⟩
    · rw [rightsAt_of_ge (Nat.not_lt.mp hj)]
      cases hlast : lastRegion vm.mem j.toNat with
      | none => exact (declaredRights_of_none hlast).symm
      | some reg =>
        rw [declaredRights_of_some hlast, hkept.beyond j reg (Nat.not_lt.mp hj) hlast]

end Tables

/-- A VM with one page that it may only read. -/
def readOnlyVm : List LifeOp := [.create .rtos, .addMem 0 0x60000000 0 0x1000 memR]

theorem exists_readOnlyVm :
    letI := poolAt2M
    ∃ h vm h', exec LifeOp.run Hyp.blank readOnlyVm = some h ∧
      h.vms[0]? = some vm ∧ vmFinalize h 0 = some (.ok, h') :=
  ⟨_, _, _, rfl, rfl, rfl⟩

theorem permissions_follow_readOnlyVm :
    letI := poolAt2M
    ∃ h vm h', exec LifeOp.run Hyp.blank readOnlyVm = some h ∧
      h.vms[0]? = some vm ∧ vmFinalize h 0 = some (.ok, h') ∧
      ((∀ j, rightsAt h'.s2 vm.s2Pgd j = declaredRights vm j) ↔ FlagsKept h vm) := by
  let _ := poolAt2M
  obtain ⟨h, vm, h', hrun, hvm, hfinal⟩ := exists_readOnlyVm
  exact ⟨h, vm, h', hrun, hvm, hfinal,
    permissions_follow_iff (shape_of_lifeOps hrun) hvm hfinal⟩

/-- **The page that may only be read can be written.** -/
theorem read_only_page_is_writable :
    letI := poolAt2M
    ∃ h vm h', exec LifeOp.run Hyp.blank readOnlyVm = some h ∧
      h.vms[0]? = some vm ∧ vmFinalize h 0 = some (.ok, h') ∧
      declaredRights vm 0 = ⟨true, false, false, false⟩ ∧
      rightsAt h'.s2 vm.s2Pgd 0 = ⟨true, true, false, false⟩ :=
  ⟨_, _, _, rfl, rfl, rfl, rfl, rfl⟩

end HypervisorBase
