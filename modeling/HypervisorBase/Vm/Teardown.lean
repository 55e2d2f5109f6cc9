import HypervisorBase.Common.Run
import HypervisorBase.Hypercall.Tables
import HypervisorBase.Stage2.Queries
/-!
# What a stopped VM leaves mapped

`vm_stop` should leave nothing mapped, since its VMID may be used again.
It walks the VM's list of regions. Pages also come from elsewhere: the
page `vm_finalize` maps for a Linux kernel's early fault, and shared
memory. And a VM that is stopped already is not looked at.
`stop_clears_iff` says what must hold before, in every state that creating
VMs, finalizing them and hypercalls lead to: what is mapped lies in the
regions. The hypercalls are those that receive no message into the
hypervisor's own memory, where the tables and the regions are
(`Ipc.StoresOutside`).
-/

namespace HypervisorBase

open Stage2

/-! ## The states -/

/-- What leads to a state: VMs are set up, and the guest on some vCPU makes
a hypercall. -/
inductive LifeOp
  | create (type : VmType)
  | addMem (i : ℕ) (pa ipa sz : U64) (flags : U32)
  | finalize (i : ℕ)
  | start (i : ℕ)
  | call (caller : Option ℕ) (x : Hypercall.Regs)

section Tables

variable [P : PtPool]

def LifeOp.run (h : Hyp) : LifeOp → Option Hyp
  | .create type => (vmCreate h type).map Prod.snd
  | .addMem i pa ipa sz flags => (vmAddMem h i pa ipa sz flags).map Prod.snd
  | .finalize i => (vmFinalize h i).map Prod.snd
  | .start i => some (vmStart h i).2
  | .call caller x => Hypercall.hvcStep { h with current := caller } x

variable {h h' : Hyp} {s : S2State} {roots : List U64} {M : ℕ → Space} {v : ℕ} {r : U64}

variable {i : ℕ} {vm : Vm}

omit P in
theorem roots_setVm {vm' : Vm} (hvm : h.vms[i]? = some vm) (hpgd : vm'.s2Pgd = vm.s2Pgd) :
    (h.setVm i vm').roots = h.roots := by
  obtain ⟨hlt, heq⟩ := List.getElem?_eq_some_iff.mp (Hyp.roots_of_vm hvm)
  unfold Hyp.roots Hyp.setVm
  rw [List.map_set, hpgd]
  change h.roots.set i vm.s2Pgd = h.roots
  rw [← heq]
  exact List.set_getElem_self hlt

variable {e : Err} {ipa : U64}

omit P in
/-- **What `vm_add_mem` can do**: nothing, or add the region to its VM. -/
theorem vmAddMem_cases {pa sz : U64} {flags : U32}
    (hrun : vmAddMem h i pa ipa sz flags = some (e, h')) :
    h' = h ∨ ∃ vm, h.vms[i]? = some vm ∧
      h' = h.setVm i { vm with mem := vm.mem ++ [⟨pa, ipa, sz, flags⟩] } := by
  unfold vmAddMem at hrun
  cases hvm : h.vms[i]? with
  | none =>
    rw [hvm] at hrun
    cases hrun
    exact .inl rfl
  | some vm =>
    rw [hvm] at hrun
    dsimp only at hrun
    split at hrun
    · cases hrun
      exact .inl rfl
    split at hrun
    · cases hrun
      exact .inl rfl
    · -- whether the range is in use or not, only the list of regions grows
      have hgrown : ∀ mapped : Bool, (if mapped = true then some (Err.busy, h)
          else some (.ok, h.setVm i { vm with mem := vm.mem ++ [⟨pa, ipa, sz, flags⟩] })) =
            some (e, h') →
          h' = h ∨ ∃ vm', some vm = some vm' ∧
            h' = h.setVm i { vm' with mem := vm'.mem ++ [⟨pa, ipa, sz, flags⟩] } := by
        intro mapped hrun
        split at hrun
        · cases hrun
          exact .inl rfl
        · cases hrun
          exact .inr ⟨vm, rfl, rfl⟩
      split at hrun
      · obtain ⟨mapped, -, hrun⟩ := Option.bind_eq_some_iff.mp hrun
        exact hgrown mapped hrun
      · exact hgrown false hrun

omit P in
theorem s2_of_vmAddMem {pa sz : U64} {flags : U32}
    (hrun : vmAddMem h i pa ipa sz flags = some (e, h')) : h'.s2 = h.s2 ∧ h'.roots = h.roots := by
  rcases vmAddMem_cases hrun with rfl | ⟨vm, hvm, rfl⟩
  · exact ⟨rfl, rfl⟩
  · exact ⟨rfl, roots_setVm hvm rfl⟩

/-- `vm_create` adds a VM with nothing mapped, if there is room for it. -/
theorem vmCreate_refines {type : VmType} (href : Refines h.s2 h.roots M)
    (hrun : vmCreate h type = some (e, h')) :
    h' = h ∨ Refines h'.s2 h'.roots (Function.update M h.roots.length fun _ => none) := by
  unfold vmCreate at hrun
  split at hrun
  · cases hrun
    exact .inl rfl
  · obtain ⟨⟨⟨pgd, vttbr⟩, s⟩, hroot, hrun⟩ := Option.bind_eq_some_iff.mp hrun
    cases hrun
    have hnew := s2Create_refines href hroot
    have hroots : h.roots ++ [pgd] = (h.vms ++ [{ vmInit (BitVec.ofNat 32 (h.vms.length + 1)) type
        with s2Pgd := pgd, vttbr := vttbr }]).map Vm.s2Pgd := by
      rw [List.map_append]
      rfl
    rw [hroots] at hnew
    exact .inr hnew

/-- **The tables of the VMs have their shape in every such state.** -/
theorem shape_of_lifeOp {op : LifeOp} (hshape : Shape h.s2 h.roots) (hrun : op.run h = some h') :
    Shape h'.s2 h'.roots := by
  have hretained : Retains h h' → Shape h'.s2 h'.roots := by
    intro hretain
    rw [hretain.roots]
    exact (hretain.tables hshape).shape
  cases op with
  | create type =>
    obtain ⟨⟨e, g⟩, hcreate, rfl⟩ := Option.map_eq_some_iff.mp hrun
    rcases vmCreate_refines hshape.refines hcreate with rfl | hnew
    · exact hshape
    · exact hnew.shape
  | addMem i pa ipa sz flags =>
    obtain ⟨⟨e, g⟩, hadd, rfl⟩ := Option.map_eq_some_iff.mp hrun
    obtain ⟨hs2, hroots⟩ := s2_of_vmAddMem hadd
    dsimp only
    rw [hs2, hroots]
    exact hshape
  | finalize i =>
    obtain ⟨⟨e, g⟩, hfinal, rfl⟩ := Option.map_eq_some_iff.mp hrun
    exact hretained (retains_vmFinalize hfinal)
  | start i =>
    obtain rfl := Option.some.inj hrun
    exact hretained (retains_vmStart h i)
  | call caller x =>
    obtain ⟨⟨x', g⟩, hcall, rfl⟩ := Option.map_eq_some_iff.mp hrun
    have hcaller : Retains h { h with current := caller } := .of_same rfl rfl
    exact hretained (hcaller.trans (retains_of_parts (Hypercall.parts_of_hvcDispatch hcall)))

theorem shape_of_lifeOps {mem : U64 → U64} {phys : U64 → U8} {timer : ℕ → U64} {ops : List LifeOp}
    (hrun : exec LifeOp.run (Hyp.start mem phys timer) ops = some h) : Shape h.s2 h.roots := by
  have hstep : ∀ (g : Hyp) (op : LifeOp) g', Shape g.s2 g.roots → op.run g = some g' →
      Shape g'.s2 g'.roots := fun _ _ _ hshape hop => shape_of_lifeOp hshape hop
  exact exec_invariant hstep (refines_tableInit mem).shape hrun

/-! ## Pages and regions -/

/-- **No page of the VM is mapped**: neither by the hypervisor's own
question nor for the guest. -/
def Unmapped (s : S2State) (pgd : U64) : Prop :=
  ∀ ipa, s2IpaIsMapped s pgd ipa 0x1000 = some false ∧ ipaToPa s pgd ipa = none

/-- The page of an address is in a region that `s2_unmap` accepts. The
tables see 39 bits of an address. -/
def InRegions (mem : List MemRegion) (ipa : U64) : Prop :=
  ∃ reg ∈ mem, reg.ipaBase.toNat % 4096 = 0 ∧ reg.size.toNat % 4096 = 0 ∧
    ∃ k < reg.size.toNat / 4096, vpn (reg.ipaBase + BitVec.ofNat 64 (k * 4096)) = vpn ipa

theorem s2IpaIsMapped_page (href : Refines s roots M) (hr : roots[v]? = some r) (ipa : U64) :
    s2IpaIsMapped s r ipa 0x1000 = some (M v (vpn ipa)).isSome := by
  obtain ⟨b, hb, hiff⟩ := s2IpaIsMapped_eq s r ipa (show (0x1000 : U64).toNat ≤ 2 ^ 64 - 4096 by decide)
  have hpage : b = true ↔ (M v (vpn ipa)).isSome = true := by
    rw [hiff, ← pageMapped_iff href hr]
    constructor
    · rintro ⟨k, hk, hmapped⟩
      have hzero : k = 0 := by
        have : (0x1000 : U64).toNat = 4096 := rfl
        omega
      rw [hzero, Nat.zero_mul, BitVec.add_zero] at hmapped
      exact hmapped
    · intro hmapped
      refine ⟨0, by decide, ?_⟩
      rw [Nat.zero_mul, BitVec.add_zero]
      exact hmapped
  rw [hb, Bool.eq_iff_iff.mpr hpage]

/-- A VM is unmapped if its space is empty. -/
theorem unmapped_iff (href : Refines s roots M) (hr : roots[v]? = some r) :
    Unmapped s r ↔ ∀ ipa, M v (vpn ipa) = none := by
  unfold Unmapped
  constructor
  · intro hun ipa
    have hfalse := (hun ipa).1
    rw [s2IpaIsMapped_page href hr, Option.some_inj] at hfalse
    exact Option.not_isSome_iff_eq_none.mp (by rw [hfalse]; exact Bool.false_ne_true)
  · intro hnone ipa
    refine ⟨?_, ?_⟩
    · rw [s2IpaIsMapped_page href hr, hnone]
      rfl
    · unfold ipaToPa
      split
      · rw [s2Walk_mapped href hr, hnone]
        rfl
      · rfl

/-! ## The stop -/

/-- The pages that `vm_stop` drops. -/
def regionPages (mem : List MemRegion) : Set ℕ :=
  {p | ∃ reg ∈ mem, p ∈ unmapPages reg.ipaBase reg.size}

omit P in
theorem inRegions_iff {mem : List MemRegion} :
    InRegions mem ipa ↔ vpn ipa ∈ regionPages mem := Iff.rfl

/-- **`vm_stop`'s loop drops the pages of the regions.** -/
theorem unmapRegions_refines (href : Refines s roots M) (hr : roots[v]? = some r)
    (mem : List MemRegion) :
    Refines (unmapRegions r mem s) roots (Function.update M v ((M v).drop (regionPages mem))) := by
  unfold unmapRegions
  induction mem generalizing s M with
  | nil =>
    have hsame : (M v).drop (regionPages []) = M v :=
      funext fun p => Space.drop_of_notMem fun ⟨_, hreg, _⟩ => by cases hreg
    rw [hsame, Function.update_eq_self]
    exact href
  | cons reg mem ih =>
    have hrest := ih (s2Unmap_refines href hr reg.ipaBase reg.size)
    have hboth : ((M v).drop (unmapPages reg.ipaBase reg.size)).drop (regionPages mem) =
        (M v).drop (regionPages (reg :: mem)) := by
      have hcons : regionPages (reg :: mem) = unmapPages reg.ipaBase reg.size ∪ regionPages mem := by
        ext p
        simp only [regionPages, List.exists_mem_cons_iff, Set.mem_union, Set.mem_ofPred_eq]
      rw [hcons, Space.drop_drop]
    rw [Function.update_idem, Function.update_self, hboth] at hrest
    exact hrest

/-- **What must hold before a stop**: each page that is mapped lies in a
region, and none is if the VM is stopped already. -/
def Reclaimable (h : Hyp) (vm : Vm) : Prop :=
  ∀ ipa, s2IpaIsMapped h.s2 vm.s2Pgd ipa 0x1000 = some true →
    vm.state ≠ .stopped ∧ InRegions vm.mem ipa

/-- **Stopping unmaps a VM** exactly if what is mapped lies in its regions. -/
theorem unmapped_stop_iff (hshape : Shape h.s2 h.roots)
    (hvm : h.vms[i]? = some vm) :
    Unmapped (vmStop h i).2.s2 vm.s2Pgd ↔ Reclaimable h vm := by
  have hr := Hyp.roots_of_vm hvm
  have href := hshape.refines
  generalize (fun (w : ℕ) p => (h.roots[w]?).bind fun r => translate h.s2 r (BitVec.ofNat 64 (4096 * p)))
    = M at href
  have hmapped : ∀ ipa, s2IpaIsMapped h.s2 vm.s2Pgd ipa 0x1000 = some true ↔
      M i (vpn ipa) ≠ none := by
    intro ipa
    rw [s2IpaIsMapped_page href hr, Option.some_inj, Option.ne_none_iff_isSome]
  unfold Reclaimable vmStop
  rw [hvm]
  dsimp only
  by_cases hst : vm.state = .stopped
  · rw [if_pos hst, unmapped_iff href hr]
    constructor
    · exact fun hnone ipa hmap => absurd (hnone ipa) ((hmapped ipa).mp hmap)
    · intro hbefore ipa
      by_contra hsome
      exact (hbefore ipa ((hmapped ipa).mpr hsome)).1 hst
  · rw [if_neg hst]
    change Unmapped (unmapRegions vm.s2Pgd vm.mem h.s2) vm.s2Pgd ↔ _
    rw [unmapped_iff (unmapRegions_refines href hr vm.mem) hr]
    refine forall_congr' fun ipa => ?_
    rw [Function.update_self, Space.drop_eq_none_iff, ← inRegions_iff, hmapped]
    constructor
    · exact fun hor hsome => ⟨hst, hor.resolve_right hsome⟩
    · intro himp
      by_cases hsome : M i (vpn ipa) = none
      · exact .inr hsome
      · exact .inl (himp hsome).2

/-- **A stop leaves nothing mapped**, in every state that set-up and
hypercalls lead to and for every VM, if and only if what is mapped lies in
its regions, and nothing is if it is stopped. -/
theorem stop_clears_iff (mem : U64 → U64) (phys : U64 → U8) (timer : ℕ → U64) (ops : List LifeOp)
    (hrun : exec LifeOp.run (Hyp.start mem phys timer) ops = some h)
    (hvm : h.vms[i]? = some vm) :
    ((vmStop h i).1 = .ok ∧ Unmapped (vmStop h i).2.s2 vm.s2Pgd) ↔ Reclaimable h vm := by
  have hok : (vmStop h i).1 = .ok := by
    unfold vmStop
    rw [hvm]
    dsimp only
    split <;> rfl
  rw [unmapped_stop_iff (shape_of_lifeOps hrun) hvm]
  exact ⟨And.right, fun hbefore => ⟨hok, hbefore⟩⟩

end Tables

/-- Two VMs, the first with a page of its own. -/
def twoGuests : List LifeOp :=
  [.create .rtos, .create .rtos, .addMem 0 0x60000000 0 0x1000 (memR ||| memW), .finalize 0,
    .finalize 1]

/-- They share a page at `0x50000000`. -/
def sharePage : LifeOp :=
  .call none fun
    | 0 => 0x10
    | 1 => 1
    | 2 => 2
    | 3 => 0x50000000
    | 4 => 0x1000
    | _ => 0

theorem exists_twoGuests :
    letI := poolAt2M
    ∃ h vm, exec LifeOp.run Hyp.blank twoGuests = some h ∧
      h.vms[0]? = some vm :=
  ⟨_, _, rfl, rfl⟩

theorem stop_clears_twoGuests :
    letI := poolAt2M
    ∃ h vm, exec LifeOp.run Hyp.blank twoGuests = some h ∧
      h.vms[0]? = some vm ∧
      (((vmStop h 0).1 = .ok ∧ Unmapped (vmStop h 0).2.s2 vm.s2Pgd) ↔ Reclaimable h vm) := by
  let _ := poolAt2M
  obtain ⟨h, vm, hrun, hvm⟩ := exists_twoGuests
  exact ⟨h, vm, hrun, hvm, stop_clears_iff _ _ _ twoGuests hrun hvm⟩

/-- The shared page outlives the stop, and so does the page that is mapped
for a Linux kernel without memory there. -/
theorem shared_page_survives_stop :
    letI := poolAt2M
    (∃ h vm, exec LifeOp.run Hyp.blank
        (twoGuests ++ [sharePage]) = some h ∧ h.vms[0]? = some vm ∧ (vmStop h 0).1 = .ok ∧
      ¬ Unmapped (vmStop h 0).2.s2 vm.s2Pgd) ∧
    ∃ h vm, exec LifeOp.run Hyp.blank
        [.create .linux, .finalize 0] = some h ∧ h.vms[0]? = some vm ∧ (vmStop h 0).1 = .ok ∧
      ¬ Unmapped (vmStop h 0).2.s2 vm.s2Pgd := by
  let _ := poolAt2M
  have hmapped : ∀ (ipa : U64) {s : S2State} {pgd : U64}, s2IpaIsMapped s pgd ipa 0x1000 = some true →
      ¬ Unmapped s pgd := by
    intro ipa s pgd htrue hun
    exact absurd (htrue.symm.trans (hun ipa).1) (by decide)
  exact ⟨⟨_, _, rfl, rfl, rfl, hmapped 0x50000000 rfl⟩,
    _, _, rfl, rfl, rfl, hmapped 0x2BF000 rfl⟩

end HypervisorBase
