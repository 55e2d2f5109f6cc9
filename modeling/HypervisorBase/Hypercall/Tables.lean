import HypervisorBase.Hypercall.Parts
import HypervisorBase.Stage2.Supply
/-!
# What hypercalls do to the tables

Of all that a hypercall may do, starting and stopping VMs, rebuilding one
from its backup and sharing memory work on Stage-2 tables. `Retains` is
what they have in common: every VM keeps its root, its regions and its
type, the heap keeps its shape, and a table that is there stays there.
-/

namespace HypervisorBase

open Stage2

/-- The roots of the VMs, in order. -/
def Hyp.roots (h : Hyp) : List U64 := h.vms.map Vm.s2Pgd

/-- What a rebuild of a VM depends on. -/
def Vm.layout (vm : Vm) : U64 × List MemRegion × VmType := (vm.s2Pgd, vm.mem, vm.type)

variable {h h' h'' : Hyp}

variable {i : ℕ} {vm : Vm}

theorem Hyp.roots_of_vm (hvm : h.vms[i]? = some vm) :
    h.roots[i]? = some vm.s2Pgd := by
  rw [Hyp.roots, List.getElem?_map, hvm]
  rfl

theorem exists_root_of_vmAt {id : U32} (hvm : vmAt h id = some vm) :
    ∃ i : ℕ, h.roots[i]? = some vm.s2Pgd := by
  obtain ⟨i, -, hi⟩ := Option.bind_eq_some_iff.mp hvm
  exact ⟨i, Hyp.roots_of_vm hi⟩

section Tables

variable [P : PtPool]

/-- **The tables are retained.** -/
structure Retains (h h' : Hyp) : Prop where
  layout : h'.vms.map Vm.layout = h.vms.map Vm.layout
  tables : Shape h.s2 h.roots → Extends h.roots h.s2 h'.s2

omit P in
theorem roots_of_layout (hlayout : h'.vms.map Vm.layout = h.vms.map Vm.layout) :
    h'.roots = h.roots := by
  have hroots : ∀ g : Hyp, g.roots = (g.vms.map Vm.layout).map Prod.fst := by
    intro g
    rw [List.map_map]
    rfl
  rw [hroots, hroots, hlayout]

theorem Retains.roots (a : Retains h h') : h'.roots = h.roots := roots_of_layout a.layout

theorem Retains.of_same (hs2 : h'.s2 = h.s2) (hvms : h'.vms = h.vms) : Retains h h' := by
  refine ⟨by rw [hvms], fun hshape => ?_⟩
  rw [hs2]
  exact .refl hshape

theorem Retains.refl (h : Hyp) : Retains h h := .of_same rfl rfl

theorem Retains.trans (a : Retains h h') (b : Retains h' h'') : Retains h h'' := by
  refine ⟨b.layout.trans a.layout, fun hshape => ?_⟩
  have hfirst := a.tables hshape
  have hrest := b.tables (by rw [a.roots]; exact hfirst.shape)
  rw [a.roots] at hrest
  exact hfirst.trans hrest

variable {vm' : Vm}

omit P in
/-- A VM is replaced by one that agrees with it in what is looked at. -/
theorem map_set_of_eq {α : Type*} {f : Vm → α} (hvm : h.vms[i]? = some vm)
    (hsame : f vm' = f vm) : (h.vms.set i vm').map f = h.vms.map f := by
  have hi : (h.vms.map f)[i]? = some (f vm') := by
    rw [List.getElem?_map, hvm, Option.map_some, hsame]
  obtain ⟨hlt, heq⟩ := List.getElem?_eq_some_iff.mp hi
  rw [List.map_set, ← heq]
  exact List.set_getElem_self hlt

theorem retains_setVm (hvm : h.vms[i]? = some vm)
    (hsame : vm'.layout = vm.layout) : Retains h (h.setVm i vm') :=
  ⟨map_set_of_eq hvm hsame, fun hshape => .refl hshape⟩

/-! ## The life of a VM -/

theorem retains_vmStart (h : Hyp) (i : ℕ) : Retains h (vmStart h i).2 :=
  keeps_of_cases (R := Retains h) (vmStart_cases h i) (.refl h) fun _ hvm =>
    retains_setVm hvm rfl

variable {roots : List U64} {s : S2State} {v : ℕ}

/-- Unmapping keeps every table. -/
theorem extends_unmapRegions {r : U64}
    (hshape : Shape s roots) (hr : roots[v]? = some r) (mem : List MemRegion) :
    Extends roots s (unmapRegions r mem s) := by
  unfold unmapRegions
  induction mem generalizing s with
  | nil => exact .refl hshape
  | cons region mem ih =>
    have hfirst := extends_s2Unmap hshape hr region.ipaBase region.size
    exact hfirst.trans (ih hfirst.shape)

theorem retains_vmStop (h : Hyp) (i : ℕ) : Retains h (vmStop h i).2 :=
  keeps_of_cases (R := Retains h) (vmStop_cases h i) (.refl h) fun vm hvm =>
    ⟨map_set_of_eq hvm rfl, fun hshape =>
      extends_unmapRegions hshape (Hyp.roots_of_vm hvm) vm.mem⟩

theorem retains_vmSuspend (h : Hyp) (i : ℕ) : Retains h (vmSuspend h i).2 :=
  keeps_of_cases (R := Retains h) (vmSuspend_cases h i) (.refl h) fun _ hvm =>
    ⟨map_set_of_eq hvm rfl, fun hshape => .refl hshape⟩

theorem retains_vmResume (h : Hyp) (i : ℕ) : Retains h (vmResume h i).2 :=
  keeps_of_cases (R := Retains h) (vmResume_cases h i) (.refl h) fun _ hvm =>
    ⟨map_set_of_eq hvm rfl, fun hshape => .refl hshape⟩

variable {e : Err}

/-- Mapping keeps every table and may add some. -/
theorem extends_mapRegions {s' : S2State} {r : U64}
    {mem : List MemRegion} (hshape : Shape s roots) (hr : roots[v]? = some r)
    (hrun : mapRegions r mem s = some (e, s')) : Extends roots s s' := by
  induction mem generalizing s with
  | nil =>
    cases hrun
    exact .refl hshape
  | cons region mem ih =>
    obtain ⟨⟨e₁, s₁⟩, hmap, hrun⟩ := Option.bind_eq_some_iff.mp hrun
    have hfirst := extends_s2Map hshape hr hmap
    dsimp only at hrun
    split at hrun
    · exact hfirst.trans (ih hfirst.shape hrun)
    · cases hrun
      exact hfirst

theorem extends_mapLinuxFaultPage {s' : S2State}
    (hshape : Shape s roots) (hr : roots[v]? = some vm.s2Pgd)
    (hrun : mapLinuxFaultPage vm s = some s') : Extends roots s s' := by
  unfold mapLinuxFaultPage at hrun
  split at hrun
  · obtain ⟨⟨e, s₁⟩, hmap, hrun⟩ := Option.bind_eq_some_iff.mp hrun
    cases hrun
    exact extends_s2Map hshape hr hmap
  · cases hrun
    exact .refl hshape

omit P in
/-- New virtual CPUs leave the layout of a VM alone. -/
theorem layout_initVcpus {n w : ℕ} {pool pool' : List Vcpu}
    (hrun : initVcpus i n w vm pool = (e, vm', pool')) : vm'.layout = vm.layout := by
  induction n generalizing w vm pool with
  | zero =>
    cases hrun
    rfl
  | succ n ih =>
    unfold initVcpus at hrun
    split at hrun
    · cases hrun
      rfl
    · exact (ih hrun).trans rfl

/-- **A rebuild** keeps the layout and every table. -/
theorem retains_vmFinalize (hrun : vmFinalize h i = some (e, h')) :
    Retains h h' := by
  rcases vmFinalize_cases hrun with ⟨-, -, rfl⟩ | ⟨vm, hvm, hcases⟩
  · exact .refl _
  have hr := Hyp.roots_of_vm hvm
  rcases hcases with ⟨s₁, hregions, -, rfl⟩ | ⟨s₁, s₂, vm', pool, hregions, hpage, hinit, rfl⟩
  · exact ⟨rfl, fun hshape => extends_mapRegions hshape hr hregions⟩
  · have hlayout := layout_initVcpus hinit
    refine ⟨map_set_of_eq hvm hlayout, fun hshape => ?_⟩
    have hmapped := extends_mapRegions hshape hr hregions
    exact hmapped.trans (extends_mapLinuxFaultPage hmapped.shape hr hpage)

/-! ## Shared memory -/

omit P in
/-- The roots `shmem_map` works on are those of the two VMs. -/
theorem shmemReserve_roots {src dst : U32} {sz pa : U64} {roots : U64 × U64}
    (hok : Shmem.shmemReserve h src dst sz = .ok (roots, pa, h')) :
    ∃ vm vm', vmAt h src = some vm ∧ vmAt h dst = some vm' ∧
      roots = (vm.s2Pgd, vm'.s2Pgd) ∧ h'.s2 = h.s2 := by
  unfold Shmem.shmemReserve at hok
  repeat' split at hok
  all_goals cases hok
  rename_i vm vm' hsrc hdst
  exact ⟨vm, vm', hsrc, hdst, rfl, rfl⟩

/-- **Sharing** keeps the layout and every table. -/
theorem retains_shmemMap {src dst : U32} {ipa sz : U64}
    (hrun : Shmem.shmemMap h src dst ipa sz = some (e, h')) : Retains h h' := by
  refine ⟨by rw [Hypercall.shmemMap_rest hrun], fun hshape => ?_⟩
  unfold Shmem.shmemMap at hrun
  split at hrun
  · cases hrun
    exact .refl hshape
  · rename_i r r' pa h₁ hres
    obtain ⟨vm, vm', hsrc, hdst, hroots, hs2⟩ := shmemReserve_roots hres
    obtain ⟨rfl, rfl⟩ := Prod.mk.inj hroots
    obtain ⟨i, hi⟩ := exists_root_of_vmAt hsrc
    obtain ⟨j, hj⟩ := exists_root_of_vmAt hdst
    obtain ⟨⟨e₁, s₁⟩, hmap₁, hrun⟩ := Option.bind_eq_some_iff.mp hrun
    rw [hs2] at hmap₁
    have hfirst := extends_s2Map hshape hi hmap₁
    dsimp only at hrun
    split at hrun
    · cases hrun
      exact hfirst
    · obtain ⟨⟨e₂, s₂⟩, hmap₂, hrun⟩ := Option.bind_eq_some_iff.mp hrun
      have hsecond := hfirst.trans (extends_s2Map hfirst.shape hj hmap₂)
      dsimp only at hrun
      split at hrun
      · cases hrun
        exact hsecond.trans (extends_s2Unmap hsecond.shape hi ipa sz)
      · cases hrun
        exact hsecond

theorem extends_unmapIn (hshape : Shape s h.roots) (id : U32) (ipa sz : U64) :
    Extends h.roots s (Shmem.unmapIn (vmAt h id) ipa sz s) := by
  unfold Shmem.unmapIn
  split
  · exact .refl hshape
  · rename_i vm hvm
    obtain ⟨i, hi⟩ := exists_root_of_vmAt hvm
    exact extends_s2Unmap hshape hi ipa sz

/-- **Unsharing** keeps the layout and every table. -/
theorem retains_shmemUnmap (h : Hyp) (ipa sz : U64) : Retains h (Shmem.shmemUnmap h ipa sz).2 := by
  refine ⟨by rw [Hypercall.shmemUnmap_rest], fun hshape => ?_⟩
  unfold Shmem.shmemUnmap
  split
  · exact .refl hshape
  split
  · exact .refl hshape
  · rename_i region _
    have hsrc := extends_unmapIn hshape region.src ipa sz
    exact hsrc.trans (extends_unmapIn hsrc.shape region.dst ipa sz)

/-! ## Hypercalls -/

/-- **No part of a hypercall takes a table away.** -/
theorem retains_of_part (hpart : Hypercall.Part h h') : Retains h h' := by
  cases hpart with
  | aside ha =>
    exact .of_same (ha.eq Hyp.s2 fun _ _ _ _ _ _ _ _ => rfl) (ha.eq Hyp.vms fun _ _ _ _ _ _ _ _ => rfl)
  | vse hv => exact .of_same (hv.eq Hyp.s2 fun _ _ _ _ _ => rfl) (hv.eq Hyp.vms fun _ _ _ _ _ => rfl)
  | backup ix b => exact .of_same rfl rfl
  | start i => exact retains_vmStart h i
  | stop i => exact retains_vmStop h i
  | suspend i => exact retains_vmSuspend h i
  | resume i => exact retains_vmResume h i
  | rebuild hbuild => exact retains_vmFinalize hbuild
  | restart entryIpa hbuild =>
    refine (retains_vmFinalize hbuild).trans ?_
    unfold Vse.resetEntry
    split <;> exact .of_same rfl rfl
  | map hmap => exact retains_shmemMap hmap
  | unmap ipa sz => exact retains_shmemUnmap h ipa sz

theorem retains_of_parts (hparts : Hypercall.Parts h h') : Retains h h' :=
  hparts.invariant (fun _ _ hpart hi => hi.trans (retains_of_part hpart)) (.refl h)

end Tables

end HypervisorBase
