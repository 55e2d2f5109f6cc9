import Mathlib.Algebra.GroupWithZero.Nat
import Mathlib.Data.List.Nodup
import HypervisorBase.Boot.Platform
import HypervisorBase.Stage2.Capacity
import HypervisorBase.Stage2.Queries
/-!
# The platform after boot

`platform_init` returns `E_OK` on every machine: the tables of the whole
profile fit into the page-table pool. What it leaves behind is three
running VMs whose address spaces are those of their regions
(`exists_platformInit`).
-/

namespace HypervisorBase

open Stage2

/-- A state with other tables, VMs and virtual CPUs: all that building the
VMs changes. -/
def Hyp.rebuilt (h : Hyp) (s2 : S2State) (vms : List Vm) (vcpus : List Vcpu) : Hyp :=
  { h with s2 := s2, vms := vms, vcpus := vcpus }

@[simp] theorem Hyp.rebuilt_vms (h : Hyp) (s2 : S2State) (vms : List Vm) (vcpus : List Vcpu) :
    (h.rebuilt s2 vms vcpus).vms = vms := rfl

/-- A space after `vm_finalize`'s loop over the regions. -/
def Stage2.Space.mapRegions (m : Space) (rs : List MemRegion) : Space :=
  rs.foldl (fun m r => m.mapRange (r.ipaBase.toNat / 4096) (r.size.toNat / 4096) fun k =>
    pageDesc (r.paBase + BitVec.ofNat 64 (k * 4096)) (regionFlags r)) m

/-- A region `s2_map` accepts, inside the 39 bits of the tables. -/
def MemRegion.Fits (r : MemRegion) : Prop :=
  r.ipaBase.toNat % 4096 = 0 ∧ r.paBase.toNat % 4096 = 0 ∧ r.size.toNat % 4096 = 0 ∧
    0 < r.size.toNat ∧ r.ipaBase.toNat + r.size.toNat ≤ 2 ^ 39

instance (r : MemRegion) : Decidable r.Fits := by unfold MemRegion.Fits; infer_instance

/-- The tables the regions may need. -/
def regionBudget (rs : List MemRegion) : ℕ := (rs.map fun r => tableBudget r.ipaBase r.size).sum

variable {i : ℕ} {vm : Vm}

/-- The virtual CPUs are taken from the pool in order. -/
theorem initVcpus_eq {n w : ℕ} {pool : List Vcpu} (hroom : pool.length + n ≤ maxVcpus) :
    initVcpus i n w vm pool = (.ok, { vm with vcpus := vm.vcpus ++ List.range' pool.length n },
      pool ++ (List.range' w n).map fun k => vcpuInit i vm (BitVec.ofNat 32 k)) := by
  induction n generalizing w vm pool with
  | zero => simp [initVcpus]
  | succ n ih =>
    rw [initVcpus, if_neg (by omega), ih (by simp; omega)]
    simp [List.range'_succ, vcpuInit]

variable {h : Hyp}

/-- A VM that was just made ready starts. -/
theorem vmStart_setVm (hi : i < h.vms.length)
    (hready : vm.state = .ready) :
    vmStart (h.setVm i vm) i = (.ok, h.setVm i { vm with state := .running }) := by
  simp [vmStart, Hyp.setVm, hi, hready]

section Finalize

variable [P : PtPool]
variable {s s' : S2State} {roots : List U64} {M : ℕ → Space} {v : ℕ} {r : U64}

/-- **The regions are mapped while the pool has room for them.** -/
theorem exists_mapRegions {rs : List MemRegion} (h : Refines s roots M)
    (hr : roots[v]? = some r) (hfits : ∀ x ∈ rs, x.Fits)
    (hroom : s.ptIdx + regionBudget rs ≤ ptPoolPages) :
    ∃ s', mapRegions r rs s = some (.ok, s') ∧ s'.ptIdx ≤ s.ptIdx + regionBudget rs ∧
      Refines s' roots (Function.update M v ((M v).mapRegions rs)) := by
  induction rs generalizing s M with
  | nil =>
    refine ⟨s, rfl, Nat.le_add_right _ _, ?_⟩
    rw [Space.mapRegions, List.foldl_nil, Function.update_eq_self]
    exact h
  | cons x xs ih =>
    obtain ⟨hipa, hpa, hsz, hpos, hle⟩ := hfits x (List.mem_cons_self ..)
    rw [regionBudget, List.map_cons, List.sum_cons] at hroom
    have hrest : regionBudget xs = (xs.map fun r => tableBudget r.ipaBase r.size).sum := rfl
    obtain ⟨s₁, hmap, hidx⟩ := exists_s2Map (f := regionFlags x) h hr hipa hpa hsz hpos hle
      (by omega)
    obtain ⟨s₂, hrun, hidx₂, href⟩ := ih (s2Map_refines_range h hr hle hmap)
      (fun y hy => hfits y (List.mem_cons_of_mem _ hy)) (by omega)
    refine ⟨s₂, ?_, ?_, ?_⟩
    · rw [mapRegions, hmap]; exact hrun
    · rw [regionBudget, List.map_cons, List.sum_cons]
      omega
    · rwa [Function.update_idem, Function.update_self] at href

/-- A space after the extra page of a Linux VM is mapped. -/
def faultSpace (vm : Vm) (m : Space) : Space :=
  if vm.type = .linux then
    let pa := ((vm.mem[0]?).map MemRegion.paBase).getD 0 + linuxFaultIpa
    m.mapRange (linuxFaultIpa.toNat / 4096) 1 fun k => pageDesc (pa + BitVec.ofNat 64 (k * 4096))
      (s2Af ||| s2ShInner ||| s2S2apRw ||| s2MemattrWb)
  else m

theorem exists_mapLinuxFaultPage (h : Refines s roots M)
    (hr : roots[v]? = some vm.s2Pgd) (hfits : ∀ x ∈ vm.mem, x.Fits)
    (hroom : s.ptIdx + 2 ≤ ptPoolPages) :
    ∃ s', mapLinuxFaultPage vm s = some s' ∧ s'.ptIdx ≤ s.ptIdx + 2 ∧
      Refines s' roots (Function.update M v (faultSpace vm (M v))) := by
  unfold mapLinuxFaultPage faultSpace
  split
  · have hpa : (((vm.mem[0]?).map MemRegion.paBase).getD 0).toNat % 4096 = 0 := by
      cases hmem : vm.mem[0]? with
      | none => rfl
      | some x => exact (hfits x (List.mem_of_getElem? hmem)).2.1
    have hsum : (((vm.mem[0]?).map MemRegion.paBase).getD 0 + linuxFaultIpa).toNat % 4096 = 0 := by
      rw [BitVec.toNat_add, show linuxFaultIpa.toNat = 0x2BF000 from rfl]
      omega
    have hipa : linuxFaultIpa.toNat % 4096 = 0 := by decide
    have hle : linuxFaultIpa.toNat + (0x1000 : U64).toNat ≤ 2 ^ 39 := by decide
    have hbudget : tableBudget linuxFaultIpa 0x1000 = 2 := rfl
    obtain ⟨s', hmap, hidx⟩ := exists_s2Map (f := s2Af ||| s2ShInner ||| s2S2apRw ||| s2MemattrWb)
      h hr hipa hsum (by decide) (by decide) hle (by rw [hbudget]; exact hroom)
    refine ⟨s', ?_, hidx, s2Map_refines_range h hr hle hmap⟩
    dsimp only
    rw [hmap]; rfl
  · exact ⟨s, rfl, Nat.le_add_right _ _, by rw [Function.update_eq_self]; exact h⟩

/-- A VM as `vm_start` leaves it, with its virtual CPUs from `first` on. -/
def startedVm (vm : Vm) (first : ℕ) : Vm :=
  { vm with vcpus := List.range' first (numVcpus vm.type), state := .running }

/-- The tables a VM may need. -/
def vmBudget (vm : Vm) : ℕ := regionBudget vm.mem + 2

/-- The space of a VM once it is finalised. -/
def finalSpace (vm : Vm) (m : Space) : Space := faultSpace vm (m.mapRegions vm.mem)

/-- **A VM is finalised and started while there is room for it.** -/
theorem exists_finalizeStart (href : Refines h.s2 roots M)
    (hvm : h.vms[i]? = some vm) (hr : roots[i]? = some vm.s2Pgd) (hfits : ∀ x ∈ vm.mem, x.Fits)
    (hroom : h.s2.ptIdx + vmBudget vm ≤ ptPoolPages)
    (hpool : h.vcpus.length + numVcpus vm.type ≤ maxVcpus) :
    ∃ s', Boot.finalizeStart h i = some (.ok, h.rebuilt s'
        (h.vms.set i (startedVm vm h.vcpus.length))
        (h.vcpus ++ (List.range' 0 (numVcpus vm.type)).map fun k =>
          vcpuInit i vm (BitVec.ofNat 32 k))) ∧
      s'.ptIdx ≤ h.s2.ptIdx + vmBudget vm ∧
      Refines s' roots (Function.update M i (finalSpace vm (M i))) := by
  rw [vmBudget] at hroom ⊢
  obtain ⟨s₁, hmap, hidx₁, href₁⟩ := exists_mapRegions href hr hfits (by omega)
  obtain ⟨s₂, hfault, hidx₂, href₂⟩ := exists_mapLinuxFaultPage href₁ hr hfits (by omega)
  rw [Function.update_idem, Function.update_self] at href₂
  refine ⟨s₂, ?_, by omega, href₂⟩
  have hi : i < h.vms.length := (List.getElem?_eq_some_iff.mp hvm).1
  have hinit : initVcpus i (numVcpus vm.type) 0 { vm with vcpus := [] } h.vcpus = _ :=
    initVcpus_eq hpool
  unfold Boot.finalizeStart vmFinalize
  rw [hvm]
  dsimp only
  rw [hmap]
  change Boot.andThen ((mapLinuxFaultPage vm s₁).bind _) _ = _
  rw [hfault]
  change Boot.andThen (if (initVcpus i (numVcpus vm.type) 0 { vm with vcpus := [] } h.vcpus).1 ≠ .ok
    then _ else _) _ = _
  rw [hinit]
  exact congrArg some (vmStart_setVm hi rfl)

end Finalize

namespace Boot

/-- The region of a profile entry. -/
def ProfileEntry.region (e : ProfileEntry) : MemRegion := ⟨e.paBase, e.ipaBase, e.size, e.flags⟩

/-- A VM with the regions that the entries give it. -/
def withRegions (es : List ProfileEntry) (vm : Vm) : Vm :=
  { vm with mem := vm.mem ++ (es.filter fun e => e.vmId = vm.id).map ProfileEntry.region }

theorem withRegions_nil (vm : Vm) : withRegions [] vm = vm := by simp [withRegions]

theorem withRegions_cons (e : ProfileEntry) (es : List ProfileEntry) (vm : Vm) :
    withRegions (e :: es) vm = withRegions es (withRegions [e] vm) := by
  by_cases h : e.vmId = vm.id <;> simp [withRegions, h]

variable {e : ProfileEntry}

theorem withRegions_of_ne (h : e.vmId ≠ vm.id) :
    withRegions [e] vm = vm := by simp [withRegions, h]

/-- In a table with distinct ids, adding a region at the index an id is
found at is adding it to the VM with that id. -/
theorem modify_eq_map_withRegions {vms : List Vm}
    (hid : (vms.map Vm.id).Nodup) (hi : i < vms.length) (hname : e.vmId = vms[i].id) :
    (vms.modify i fun vm => { vm with mem := vm.mem ++ [e.region] }) =
      vms.map (withRegions [e]) := by
  apply List.ext_getElem?
  intro j
  rw [List.getElem?_modify, List.getElem?_map]
  cases hj : vms[j]? with
  | none => rfl
  | some vm =>
    obtain ⟨hlt, rfl⟩ := List.getElem?_eq_some_iff.mp hj
    by_cases hij : i = j
    · subst hij
      simp [withRegions, hname]
    · have hne : vms[i].id ≠ vms[j].id := by
        intro heq
        have hi' : i < (vms.map Vm.id).length := by simpa using hi
        have hj' : j < (vms.map Vm.id).length := by simpa using hlt
        have hsame : (vms.map Vm.id)[i] = (vms.map Vm.id)[j] := by simpa using heq
        exact hij (hid.getElem_inj_iff.1 hsame)
      simp [hij, withRegions_of_ne (hname ▸ hne)]

/-! ## Creating the VMs -/

section Create

variable [P : PtPool]
variable {roots : List U64} {M : ℕ → Space}

/-- A VM as its `create_*_vm` leaves it. -/
def bareVm (id : U32) (type : VmType) (entryIpa dtbIpa pgd vttbr : U64) : Vm :=
  { vmInit id type with
    s2Pgd := pgd, vttbr := vttbr, entryIpa := entryIpa, dtbIpa := dtbIpa }

/-- **A VM is created while the pool has a page for its root.** -/
theorem exists_createVm (href : Refines h.s2 roots fun _ _ => none)
    (hn : h.vms.length < maxVms) (hroom : h.s2.ptIdx < ptPoolPages) (type : VmType)
    (entryIpa dtbIpa : U64) :
    ∃ pgd vttbr s', createVm h type entryIpa dtbIpa = some (.ok, h.rebuilt s'
        (h.vms ++ [bareVm (BitVec.ofNat 32 (h.vms.length + 1)) type entryIpa dtbIpa pgd vttbr])
        h.vcpus) ∧
      s'.ptIdx = h.s2.ptIdx + 1 ∧ Refines s' (roots ++ [pgd]) fun _ _ => none := by
  obtain ⟨⟨pgd, s₁⟩, ha⟩ : ∃ ps, ptAlloc h.s2 = some ps := ⟨_, if_neg (Nat.not_le.2 hroom)⟩
  have hidx : s₁.ptIdx = h.s2.ptIdx + 1 := by rw [(ptAlloc_eq_some.1 ha).2.2]
  obtain ⟨vttbr, hcreate⟩ : ∃ vttbr, s2Create h.s2 =
      some ((pgd, vttbr), { s₁ with vmid := s₁.vmid + 1 }) := ⟨_, by rw [s2Create, ha]; rfl⟩
  have hspace := s2Create_refines href hcreate
  rw [Function.update_eq_self_iff.2 rfl] at hspace
  refine ⟨pgd, vttbr, { s₁ with vmid := s₁.vmid + 1 }, ?_, hidx, hspace⟩
  unfold createVm vmCreate
  rw [if_neg (Nat.not_le.2 hn), hcreate]
  change some (Err.ok, _) = _
  simp [bareVm, Hyp.rebuilt, List.modify_eq_set_getElem?]

/-! ## Applying the profile -/

/-- `vm_add_mem` accepts any region while the VM's tables are empty and it
has a slot left. -/
theorem vmAddMem_of_empty {pa ipa sz : U64} {flags : U32}
    (href : Refines h.s2 roots fun _ _ => none) (hvm : h.vms[i]? = some vm)
    (hr : roots[i]? = some vm.s2Pgd) (hsz : sz ≠ 0) (hbig : sz.toNat ≤ 2 ^ 64 - 4096)
    (hmem : vm.mem.length < maxMemRegions) :
    vmAddMem h i pa ipa sz flags = some (.ok, h.rebuilt h.s2
      (h.vms.modify i fun vm => { vm with mem := vm.mem ++ [⟨pa, ipa, sz, flags⟩] }) h.vcpus) := by
  have hfalse : s2IpaIsMapped h.s2 vm.s2Pgd ipa sz = some false := by
    obtain ⟨b, hb, hiff⟩ := s2IpaIsMapped_eq h.s2 vm.s2Pgd ipa hbig
    rw [hb]
    cases b with
    | false => rfl
    | true =>
      obtain ⟨k, -, hk⟩ := hiff.1 rfl
      rw [pageMapped_iff href hr] at hk
      exact absurd hk (by simp)
  unfold vmAddMem
  rw [hvm]
  dsimp only
  rw [if_neg hsz, if_neg (Nat.not_le.2 hmem), hfalse, List.modify_eq_set_getElem?, hvm]
  split <;> rfl

/-- **One entry of the profile**, while no VM has tables yet. -/
theorem deviceProfileInit_entry (es : List ProfileEntry)
    (href : Refines h.s2 roots fun _ _ => none)
    (hr : ∀ (i : ℕ) vm, h.vms[i]? = some vm → roots[i]? = some vm.s2Pgd)
    (hid : (h.vms.map Vm.id).Nodup) (hstate : ∀ vm ∈ h.vms, vm.state ≠ .none)
    (hsz : e.size ≠ 0) (hbig : e.size.toNat ≤ 2 ^ 64 - 4096)
    (hslot : ∀ vm ∈ h.vms, e.vmId = vm.id → vm.mem.length < maxMemRegions) :
    deviceProfileInit (e :: es) h =
      deviceProfileInit es (h.rebuilt h.s2 (h.vms.map (withRegions [e])) h.vcpus) := by
  rw [deviceProfileInit]
  cases hfind : vmById h e.vmId with
  | none =>
    have hno : ∀ vm ∈ h.vms, withRegions [e] vm = vm := by
      intro vm hvm
      apply withRegions_of_ne
      have hnone := List.findIdx?_eq_none_iff.mp hfind vm hvm
      intro heq
      simp [heq, hstate vm hvm] at hnone
    rw [List.map_congr_left hno, List.map_id']
    rfl
  | some i =>
    obtain ⟨hi, hfound, -⟩ := List.findIdx?_eq_some_iff_getElem.mp hfind
    have hvm : h.vms[i]? = some h.vms[i] := List.getElem?_eq_getElem hi
    have hname : e.vmId = h.vms[i].id := by simp at hfound; exact hfound.1.symm
    dsimp only
    rw [vmAddMem_of_empty href hvm (hr i _ hvm) hsz hbig (hslot _ (List.getElem_mem hi) hname),
      andThen_ok, ← modify_eq_map_withRegions hid hi hname]
    rfl

omit P in
/-- An entry takes a slot of the VM it names. -/
theorem length_withRegions_entry (e : ProfileEntry) (es : List ProfileEntry) (vm : Vm) :
    (withRegions [e] vm).mem.length + (es.filter fun x => x.vmId = vm.id).length =
      vm.mem.length + ((e :: es).filter fun x => x.vmId = vm.id).length := by
  by_cases heq : e.vmId = vm.id
  · simp [withRegions, heq]; omega
  · simp [withRegions, heq]

/-- **The profile is applied entry by entry while no VM has tables yet**
and none runs out of slots. The induction is on the entries left, and a
VM needs a slot for each of those that name it. -/
theorem deviceProfileInit_of_empty {es : List ProfileEntry}
    (href : Refines h.s2 roots fun _ _ => none)
    (hr : ∀ (i : ℕ) vm, h.vms[i]? = some vm → roots[i]? = some vm.s2Pgd)
    (hid : (h.vms.map Vm.id).Nodup) (hstate : ∀ vm ∈ h.vms, vm.state ≠ .none)
    (hes : ∀ e ∈ es, e.size ≠ 0 ∧ e.size.toNat ≤ 2 ^ 64 - 4096)
    (hmem : ∀ vm ∈ h.vms, vm.mem.length + (es.filter fun e => e.vmId = vm.id).length ≤ maxMemRegions) :
    deviceProfileInit es h =
      some (.ok, h.rebuilt h.s2 (h.vms.map (withRegions es)) h.vcpus) := by
  induction es generalizing h with
  | nil =>
    rw [List.map_congr_left fun vm _ => withRegions_nil vm, List.map_id']
    rfl
  | cons e es ih =>
    have hrest : ∀ e ∈ es, e.size ≠ 0 ∧ e.size.toNat ≤ 2 ^ 64 - 4096 :=
      fun x hx => hes x (List.mem_cons_of_mem _ hx)
    have hslot : ∀ vm ∈ h.vms, e.vmId = vm.id → vm.mem.length < maxMemRegions := by
      intro vm hvm hname
      have hmany := hmem vm hvm
      rw [List.filter_cons, if_pos (by simpa using hname), List.length_cons] at hmany
      omega
    obtain ⟨hsz, hbig⟩ := hes e (List.mem_cons_self ..)
    have hstep := deviceProfileInit_entry es href hr hid hstate hsz hbig hslot
    have hids : (h.vms.map (withRegions [e])).map Vm.id = h.vms.map Vm.id := by
      rw [List.map_map]; rfl
    refine hstep.trans ((ih (h := h.rebuilt h.s2 (h.vms.map (withRegions [e])) h.vcpus) href
      ?_ ?_ ?_ hrest ?_).trans ?_)
    · intro i vm hi
      rw [Hyp.rebuilt_vms, List.getElem?_map] at hi
      obtain ⟨vm₀, hvm₀, rfl⟩ := Option.map_eq_some_iff.mp hi
      exact hr i vm₀ hvm₀
    · rwa [Hyp.rebuilt_vms, hids]
    · intro vm hvm
      obtain ⟨vm₀, hvm₀, rfl⟩ := List.mem_map.mp hvm
      exact hstate vm₀ hvm₀
    · intro vm hvm
      obtain ⟨vm₀, hvm₀, rfl⟩ := List.mem_map.mp hvm
      exact Nat.le_trans (Nat.le_of_eq (length_withRegions_entry e es vm₀)) (hmem vm₀ hvm₀)
    · rw [Hyp.rebuilt_vms, List.map_map,
        List.map_congr_left fun vm _ => withRegions_cons e es vm]
      rfl

end Create

/-! ## The booted platform -/

/-- The regions the profile gives a VM. The VMs follow as they are created,
with their regions, and started. -/
def regionsOf (id : U32) : List MemRegion :=
  (profile.filter fun e => e.vmId = id).map ProfileEntry.region

def linuxBare (pgd vttbr : U64) : Vm := bareVm 1 .linux 0x00200000 0x04000000 pgd vttbr

def rtosBare (pgd vttbr : U64) : Vm := bareVm 2 .rtos 0x00008000 0 pgd vttbr

def androidBare (pgd vttbr : U64) : Vm := bareVm 3 .android 0x00200000 0x02000000 pgd vttbr

def linuxReady (pgd vttbr : U64) : Vm := withRegions profile (linuxBare pgd vttbr)

def rtosReady (pgd vttbr : U64) : Vm := withRegions profile (rtosBare pgd vttbr)

def androidReady (pgd vttbr : U64) : Vm := withRegions profile (androidBare pgd vttbr)

def linuxVm (pgd vttbr : U64) : Vm := startedVm (linuxReady pgd vttbr) 0

def rtosVm (pgd vttbr : U64) : Vm := startedVm (rtosReady pgd vttbr) 1

def androidVm (pgd vttbr : U64) : Vm := startedVm (androidReady pgd vttbr) 2

/-- The address spaces of the three VMs. -/
def bootSpace : ℕ → Space
  | 0 => finalSpace (linuxVm 0 0) fun _ => none
  | 1 => finalSpace (rtosVm 0 0) fun _ => none
  | 2 => finalSpace (androidVm 0 0) fun _ => none
  | _ => fun _ => none

/-- **The state `platform_init` leaves**: three running VMs whose tables
hold the regions of the profile, with one virtual CPU for Linux and the
RTOS and two for Android, and everything else as it was. -/
structure Booted [PtPool] (h₀ h : Hyp) : Prop where
  vms : ∃ p₁ t₁ p₂ t₂ p₃ t₃, h.vms = [linuxVm p₁ t₁, rtosVm p₂ t₂, androidVm p₃ t₃] ∧
    Refines h.s2 [p₁, p₂, p₃] bootSpace
  vcpus : h.vcpus.map Vcpu.vm = [0, 1, 2, 2]
  rest : ∃ s2 vms vcpus power, h = { h₀ with s2 := s2, vms := vms, vcpus := vcpus, power := power }

variable {p₁ p₂ p₃ : U64}

/-- Each of the three is there, with room for the regions of its devices. -/
theorem bare_fit {t₁ t₂ t₃ : U64}
    (hvm : vm ∈ [linuxBare p₁ t₁, rtosBare p₂ t₂, androidBare p₃ t₃]) :
    vm.state ≠ .none ∧
      vm.mem.length + (profile.filter fun e => e.vmId = vm.id).length ≤ maxMemRegions := by
  have hfit : ∀ x ∈ [(VmState.created, 0, (1 : U32)), (.created, 0, 2), (.created, 0, 3)],
      x.1 ≠ .none ∧ x.2.1 + (profile.filter fun e => e.vmId = x.2.2).length ≤ maxMemRegions := by
    decide
  exact hfit (vm.state, vm.mem.length, vm.id)
    (List.mem_map_of_mem (f := fun vm : Vm => (vm.state, vm.mem.length, vm.id)) hvm)

theorem bare_root {t₁ t₂ t₃ : U64}
    (hvm : [linuxBare p₁ t₁, rtosBare p₂ t₂, androidBare p₃ t₃][i]? = some vm) :
    [p₁, p₂, p₃][i]? = some vm.s2Pgd := by
  have hroots : [linuxBare p₁ t₁, rtosBare p₂ t₂, androidBare p₃ t₃].map Vm.s2Pgd =
      [p₁, p₂, p₃] := rfl
  rw [← hroots, List.getElem?_map, hvm]
  rfl

section Boot

variable [P : PtPool]

/-- A booted VM has the regions of its id, and its tables are at its
index. -/
theorem Booted.vm_eq {h₀ : Hyp} (hb : Booted h₀ h)
    (hvm : h.vms[i]? = some vm) :
    (vm.mem = regionsOf (BitVec.ofNat 32 (i + 1)) ∧ (vm.type = .linux → i = 0)) ∧
      vm.id = BitVec.ofNat 32 (i + 1) ∧ bootSpace i = finalSpace vm (fun _ => none) ∧
      ∃ roots, Refines h.s2 roots bootSpace ∧ roots[i]? = some vm.s2Pgd := by
  obtain ⟨p₁, t₁, p₂, t₂, p₃, t₃, hvms, href⟩ := hb.vms
  rw [hvms] at hvm
  rcases i with _ | _ | _ | i
  · obtain rfl : linuxVm p₁ t₁ = vm := Option.some.inj hvm
    exact ⟨⟨rfl, fun _ => rfl⟩, rfl, rfl, _, href, rfl⟩
  · obtain rfl : rtosVm p₂ t₂ = vm := Option.some.inj hvm
    exact ⟨⟨rfl, fun h => (by cases h)⟩, rfl, rfl, _, href, rfl⟩
  · obtain rfl : androidVm p₃ t₃ = vm := Option.some.inj hvm
    exact ⟨⟨rfl, fun h => (by cases h)⟩, rfl, rfl, _, href, rfl⟩
  · cases hvm

omit P in
/-- The tables the three VMs may take. -/
theorem vmBudget_ready (p t : U64) : vmBudget (linuxReady p t) = 592 ∧
    vmBudget (rtosReady p t) = 127 ∧ vmBudget (androidReady p t) = 263 := by
  have hregions : regionBudget (regionsOf 1) = 590 ∧ regionBudget (regionsOf 2) = 125 ∧
      regionBudget (regionsOf 3) = 261 := by decide
  exact ⟨congrArg (· + 2) hregions.1, congrArg (· + 2) hregions.2.1, congrArg (· + 2) hregions.2.2⟩

/-- **The three VMs are created**: each takes one page for its root. -/
theorem exists_createdVms (h : Hyp) (mem : U64 → U64) :
    ∃ p₁ t₁ p₂ t₂ p₃ t₃ s₁ s₂ s₃,
      createVm (h.rebuilt (tableInit mem) [] []) .linux 0x00200000 0x04000000 =
        some (.ok, h.rebuilt s₁ [linuxBare p₁ t₁] []) ∧
      createVm (h.rebuilt s₁ [linuxBare p₁ t₁] []) .rtos 0x00008000 0 =
        some (.ok, h.rebuilt s₂ [linuxBare p₁ t₁, rtosBare p₂ t₂] []) ∧
      createVm (h.rebuilt s₂ [linuxBare p₁ t₁, rtosBare p₂ t₂] []) .android 0x00200000 0x02000000 =
        some (.ok, h.rebuilt s₃ [linuxBare p₁ t₁, rtosBare p₂ t₂, androidBare p₃ t₃] []) ∧
      s₃.ptIdx = 3 ∧ Refines s₃ [p₁, p₂, p₃] fun _ _ => none := by
  have hpool : ptPoolPages = 1024 := rfl
  obtain ⟨p₁, t₁, s₁, hc₁, hi₁, hr₁⟩ := exists_createVm (h := h.rebuilt (tableInit mem) [] [])
    (refines_tableInit mem) (show 0 < maxVms by decide) (show 0 < ptPoolPages by decide)
    .linux 0x00200000 0x04000000
  have hi₁ : s₁.ptIdx = 1 := hi₁
  obtain ⟨p₂, t₂, s₂, hc₂, hi₂, hr₂⟩ := exists_createVm (h := h.rebuilt s₁ [linuxBare p₁ t₁] [])
    hr₁ (show 1 < maxVms by decide) (show s₁.ptIdx < ptPoolPages by omega) .rtos 0x00008000 0
  have hi₂ : s₂.ptIdx = s₁.ptIdx + 1 := hi₂
  obtain ⟨p₃, t₃, s₃, hc₃, hi₃, hr₃⟩ := exists_createVm
    (h := h.rebuilt s₂ [linuxBare p₁ t₁, rtosBare p₂ t₂] []) hr₂ (show 2 < maxVms by decide)
    (show s₂.ptIdx < ptPoolPages by omega) .android 0x00200000 0x02000000
  have hi₃ : s₃.ptIdx = s₂.ptIdx + 1 := hi₃
  exact ⟨p₁, t₁, p₂, t₂, p₃, t₃, s₁, s₂, s₃, hc₁, hc₂, hc₃, by omega, hr₃⟩

/-- **The three VMs are finalised and started**, the tables of one after
the other. -/
theorem exists_startVms {s : S2State} (h : Hyp) (t₁ t₂ t₃ : U64)
    (hr : Refines s [p₁, p₂, p₃] fun _ _ => none) (hidx : s.ptIdx = 3) :
    ∃ s', startVms 3 0
        (h.rebuilt s [linuxReady p₁ t₁, rtosReady p₂ t₂, androidReady p₃ t₃] []) =
          some (.ok, h.rebuilt s' [linuxVm p₁ t₁, rtosVm p₂ t₂, androidVm p₃ t₃]
            [vcpuInit 0 (linuxReady p₁ t₁) 0, vcpuInit 1 (rtosReady p₂ t₂) 0,
              vcpuInit 2 (androidReady p₃ t₃) 0, vcpuInit 2 (androidReady p₃ t₃) 1]) ∧
      Refines s' [p₁, p₂, p₃] bootSpace := by
  have hpool : ptPoolPages = 1024 := rfl
  have hlinux := (vmBudget_ready p₁ t₁).1
  have hrtos := (vmBudget_ready p₂ t₂).2.1
  have handroid := (vmBudget_ready p₃ t₃).2.2
  obtain ⟨s₁, hf₁, hi₁, hr₁⟩ := exists_finalizeStart (h := h.rebuilt s
      [linuxReady p₁ t₁, rtosReady p₂ t₂, androidReady p₃ t₃] []) (i := 0)
    hr rfl rfl (show ∀ x ∈ regionsOf 1, x.Fits by decide)
    (show s.ptIdx + vmBudget (linuxReady p₁ t₁) ≤ ptPoolPages by omega) (show 0 + 1 ≤ maxVcpus by decide)
  have hi₁ : s₁.ptIdx ≤ s.ptIdx + vmBudget (linuxReady p₁ t₁) := hi₁
  obtain ⟨s₂, hf₂, hi₂, hr₂⟩ := exists_finalizeStart (h := h.rebuilt s₁
      [linuxVm p₁ t₁, rtosReady p₂ t₂, androidReady p₃ t₃] [vcpuInit 0 (linuxReady p₁ t₁) 0]) (i := 1)
    hr₁ rfl rfl (show ∀ x ∈ regionsOf 2, x.Fits by decide)
    (show s₁.ptIdx + vmBudget (rtosReady p₂ t₂) ≤ ptPoolPages by omega) (show 1 + 1 ≤ maxVcpus by decide)
  have hi₂ : s₂.ptIdx ≤ s₁.ptIdx + vmBudget (rtosReady p₂ t₂) := hi₂
  obtain ⟨s₃, hf₃, -, hr₃⟩ := exists_finalizeStart (h := h.rebuilt s₂
      [linuxVm p₁ t₁, rtosVm p₂ t₂, androidReady p₃ t₃]
      [vcpuInit 0 (linuxReady p₁ t₁) 0, vcpuInit 1 (rtosReady p₂ t₂) 0]) (i := 2)
    hr₂ rfl rfl (show ∀ x ∈ regionsOf 3, x.Fits by decide)
    (show s₂.ptIdx + vmBudget (androidReady p₃ t₃) ≤ ptPoolPages by omega) (show 2 + 2 ≤ maxVcpus by decide)
  refine ⟨s₃, ?_, ?_⟩
  · rw [startVms, hf₁, andThen_ok, startVms]
    refine (congrArg (fun r => andThen r fun h => startVms 1 2 h) hf₂).trans ?_
    rw [andThen_ok, startVms]
    refine (congrArg (fun r => andThen r fun h => startVms 0 3 h) hf₃).trans ?_
    rfl
  · refine Eq.mp (congrArg (Refines s₃ [p₁, p₂, p₃]) (funext fun v => ?_)) hr₃
    rcases v with _ | _ | _ | v <;> rfl

/-- **`platform_init` returns `E_OK` on every machine.** The three roots
and the tables of the whole profile take at most 985 of the pool's 1024
pages. -/
theorem exists_platformInit (mem : U64 → U64) (phys : U64 → U8) (timer : ℕ → U64) :
    ∃ h, platformInit (Hyp.start mem phys timer) = some (.ok, h) ∧
      Booted (Hyp.start mem phys timer) h := by
  obtain ⟨h₀, hh₀⟩ : ∃ h₀ : Hyp, h₀ = { Hyp.start mem phys timer with
    power := (Hyp.start mem phys timer).power.powerInit } := ⟨_, rfl⟩
  obtain ⟨p₁, t₁, p₂, t₂, p₃, t₃, s₁, s₂, s₃, hc₁, hc₂, hc₃, hidx, hr⟩ := exists_createdVms h₀ mem
  -- no table holds anything yet, so no entry of the profile overlaps
  have hprofile : deviceProfileInit profile
      (h₀.rebuilt s₃ [linuxBare p₁ t₁, rtosBare p₂ t₂, androidBare p₃ t₃] []) =
        some (.ok, h₀.rebuilt s₃ [linuxReady p₁ t₁, rtosReady p₂ t₂, androidReady p₃ t₃] []) :=
    deviceProfileInit_of_empty hr (fun i vm hvm => bare_root hvm)
      (show [(1 : U32), 2, 3].Nodup by decide) (fun vm hvm => (bare_fit hvm).1)
      (show ∀ e ∈ profile, e.size ≠ 0 ∧ e.size.toNat ≤ 2 ^ 64 - 4096 by decide)
      (fun vm hvm => (bare_fit hvm).2)
  obtain ⟨s', hstarted, hspace⟩ := exists_startVms h₀ t₁ t₂ t₃ hr hidx
  have hstart : platformInit (Hyp.start mem phys timer) =
      andThen (createVm (h₀.rebuilt (tableInit mem) [] []) .linux 0x00200000 0x04000000) fun h =>
      andThen (createVm h .rtos 0x00008000 0) fun h =>
      andThen (createVm h .android 0x00200000 0x02000000) fun h =>
      andThen (deviceProfileInit profile h) fun h => startVms h.vms.length 0 h := by
    rw [hh₀]; rfl
  rw [hc₁, andThen_ok, hc₂, andThen_ok, hc₃, andThen_ok, hprofile, andThen_ok] at hstart
  exact ⟨_, hstart.trans hstarted, ⟨p₁, t₁, p₂, t₂, p₃, t₃, rfl, hspace⟩, rfl,
    ⟨_, _, _, _, by rw [hh₀]; rfl⟩⟩

end Boot

end Boot

end HypervisorBase
