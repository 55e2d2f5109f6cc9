import HypervisorBase.Hypercall.Tables
import HypervisorBase.Sched.Events
import HypervisorBase.Vse.Footprint
/-!
# The pool of vCPUs

A vCPU stays in the pool for ever. What a stop and a switch write into it
is its state, its list register and its context of the performance
monitor. A function of a vCPU that looks at none of them (`Lasting`) has
the same value afterwards, and a hypercall that rebuilds a VM only adds
new vCPUs behind the others (`Grows`).
-/

namespace HypervisorBase

variable {α : Type*} {f : Vcpu → α} {h h' h'' : Hyp} {c : ℕ}

/-! ## What lasts -/

/-- **A function of a vCPU that lasts** through a stop and a switch. -/
def Lasting (f : Vcpu → α) : Prop :=
  ∀ vc lr pmu state, f { vc with ichLr0 := lr, pmu := pmu, state := state } = f vc

theorem map_modify {g : Vcpu → Vcpu} (hg : ∀ vc, f (g vc) = f vc) (pool : List Vcpu) (v : ℕ) :
    (pool.modify v g).map f = pool.map f := by
  apply List.ext_getElem?
  intro n
  rw [List.getElem?_map, List.getElem?_map, List.getElem?_modify]
  cases pool[n]? with
  | none => rfl
  | some vc =>
    by_cases hv : v = n
    · simp [hv, hg]
    · simp [hv]

theorem map_set {pool : List Vcpu} {v : ℕ} {vc vc' : Vcpu} (hvc : pool[v]? = some vc)
    (heq : f vc' = f vc) : (pool.set v vc').map f = pool.map f := by
  have hlt : v < pool.length := (List.getElem?_eq_some_iff.mp hvc).1
  apply List.ext_getElem?
  intro n
  rw [List.getElem?_map, List.getElem?_map]
  by_cases hv : v = n
  · rw [← hv, List.getElem?_set_self hlt, hvc, Option.map_some, Option.map_some, heq]
  · rw [List.getElem?_set_ne hv]

theorem map_stopVcpus (hf : Lasting f) (vs : List ℕ) (pool : List Vcpu) :
    (stopVcpus vs pool).map f = pool.map f := by
  induction vs generalizing pool with
  | nil => rfl
  | cons v vs ih =>
    exact (ih _).trans (map_modify (g := vcpuStop) (fun vc => hf vc vc.ichLr0 vc.pmu .stopped) pool v)

/-! ## A switch -/

namespace Sched

theorem map_switchOut (hf : Lasting f) (h : Hyp) (prev : ℕ) :
    (switchOut h prev).vcpus.map f = h.vcpus.map f := by
  unfold switchOut
  cases hprev : h.vcpus[prev]? with
  | none => rfl
  | some vc => exact map_set hprev (hf vc _ _ _)

theorem map_switchIn (hf : Lasting f) (h : Hyp) (next : ℕ) :
    (switchIn h next).vcpus.map f = h.vcpus.map f := by
  unfold switchIn
  cases hnext : h.vcpus[next]? with
  | none => rfl
  | some vc => exact map_set hnext (hf vc vc.ichLr0 vc.pmu _)

/-- A switch changes nothing lasting. -/
theorem map_vcpuDoSwitch (hf : Lasting f) (h : Hyp) (prev : Option ℕ) (next : ℕ) :
    (vcpuDoSwitch h prev next).vcpus.map f = h.vcpus.map f := by
  unfold vcpuDoSwitch
  cases prev with
  | none => exact map_switchIn hf h next
  | some p => exact (map_switchIn hf _ next).trans (map_switchOut hf h p)

/-- **A switch moves nothing that lasts.** -/
theorem map_switchTo (hf : Lasting f) (h : Hyp) (ch : Choice) (isPreempt : Bool) :
    (switchTo h ch isPreempt).vcpus.map f = h.vcpus.map f := by
  obtain ⟨g, g', hbefore, hswitch, hafter⟩ := switchTo_cases h ch isPreempt
  have hg : g.vcpus = h.vcpus := hbefore.vcpus
  rw [hafter.vcpus, ← hg]
  rcases hswitch with rfl | ⟨-, rfl⟩
  · exact map_vcpuDoSwitch hf _ _ _
  · rfl

end Sched

/-! ## New vCPUs -/

/-- A vCPU as `vcpu_init` leaves it for one of `n` VMs, as far as its VM
and its CPU interface go. -/
structure Newborn (n : ℕ) (vc : Vcpu) : Prop where
  vm : vc.vm < n
  vgicCpu : vc.vgicCpu = ⟨0, 0, 0⟩

/-- **The pool grows**: what lasts of the old vCPUs is as it was, and new
ones stand behind them. -/
structure Grows (f : Vcpu → α) (h h' : Hyp) : Prop where
  vms : h.vms.length ≤ h'.vms.length
  pool : ∃ news : List Vcpu, h'.vcpus.map f = (h.vcpus ++ news).map f ∧
    ∀ vc ∈ news, Newborn h'.vms.length vc

theorem Grows.of_map (hvms : h.vms.length ≤ h'.vms.length) (hpool : h'.vcpus.map f = h.vcpus.map f) :
    Grows f h h' := by
  refine ⟨hvms, [], ?_, ?_⟩
  · rw [List.append_nil, hpool]
  · intro vc hvc
    cases hvc

theorem Grows.of_same (hvms : h'.vms = h.vms) (hvcpus : h'.vcpus = h.vcpus) : Grows f h h' :=
  .of_map (by rw [hvms]) (by rw [hvcpus])

theorem Grows.refl (h : Hyp) : Grows f h h := .of_same rfl rfl

theorem Grows.trans (a : Grows f h h') (b : Grows f h' h'') : Grows f h h'' := by
  obtain ⟨news, hpool, hnews⟩ := a.pool
  obtain ⟨news', hpool', hnews'⟩ := b.pool
  refine ⟨Nat.le_trans a.vms b.vms, news ++ news', ?_, ?_⟩
  · rw [hpool', List.map_append, hpool, ← List.map_append, List.append_assoc]
  · intro vc hvc
    rcases List.mem_append.mp hvc with hold | hnew
    · exact ⟨Nat.lt_of_lt_of_le (hnews vc hold).vm b.vms, (hnews vc hold).vgicCpu⟩
    · exact hnews' vc hnew

/-- A vCPU that is there stays. -/
theorem Grows.kept (a : Grows f h h') {x : α} (hc : (h.vcpus[c]?).map f = some x) :
    (h'.vcpus[c]?).map f = some x := by
  obtain ⟨news, hpool, -⟩ := a.pool
  obtain ⟨vc, hvc, -⟩ := Option.map_eq_some_iff.mp hc
  have hlt : c < h.vcpus.length := (List.getElem?_eq_some_iff.mp hvc).1
  rw [← List.getElem?_map, hpool, List.getElem?_map, List.getElem?_append_left hlt, hc]

/-- A vCPU was there before, or it is a new one. -/
theorem Grows.cases (a : Grows f h h') {vc' : Vcpu} (hc : h'.vcpus[c]? = some vc') :
    ∃ vc, f vc' = f vc ∧ (h.vcpus[c]? = some vc ∨ Newborn h'.vms.length vc) := by
  obtain ⟨news, hpool, hnews⟩ := a.pool
  have hat : (h'.vcpus.map f)[c]? = some (f vc') := by
    rw [List.getElem?_map, hc]
    rfl
  rw [hpool, List.getElem?_map] at hat
  obtain ⟨vc, hvc, heq⟩ := Option.map_eq_some_iff.mp hat
  refine ⟨vc, heq.symm, ?_⟩
  by_cases hlt : c < h.vcpus.length
  · exact .inl ((List.getElem?_append_left hlt).symm.trans hvc)
  · rw [List.getElem?_append_right (Nat.not_lt.mp hlt)] at hvc
    exact .inr (hnews vc (List.mem_of_getElem? hvc))

/-! ## Rebuilding a VM -/

/-- New virtual CPUs are added behind the others. -/
theorem initVcpus_append {i n w : ℕ} {vm vm' : Vm} {pool pool' : List Vcpu} {e : Err}
    (hrun : initVcpus i n w vm pool = (e, vm', pool')) :
    ∃ news, pool' = pool ++ news ∧ ∀ vc ∈ news, vc.vm = i ∧ vc.vgicCpu = ⟨0, 0, 0⟩ := by
  have hnone : ∀ pool : List Vcpu, ∃ news, pool = pool ++ news ∧
      ∀ vc ∈ news, vc.vm = i ∧ vc.vgicCpu = ⟨0, 0, 0⟩ := by
    intro pool
    refine ⟨[], (List.append_nil _).symm, ?_⟩
    intro vc hvc
    cases hvc
  induction n generalizing w vm pool with
  | zero =>
    cases hrun
    exact hnone _
  | succ n ih =>
    unfold initVcpus at hrun
    split at hrun
    · cases hrun
      exact hnone _
    · obtain ⟨news, hnews, hall⟩ := ih hrun
      refine ⟨_ :: news, hnews.trans (List.append_assoc ..), ?_⟩
      intro vc hvc
      rcases List.mem_cons.mp hvc with rfl | hvc
      · exact ⟨rfl, rfl⟩
      · exact hall vc hvc

/-- **What `vm_finalize` does to the pool**: it adds vCPUs of that VM, and
if it comes to its end these are all the VM has. -/
theorem vmFinalize_pool [P : PtPool] {i : ℕ} {e : Err} (hrun : vmFinalize h i = some (e, h')) :
    (∃ news, h'.vcpus = h.vcpus ++ news ∧ ∀ vc ∈ news, Newborn h'.vms.length vc) ∧
      (e = .ok → ∀ v ∈ vcpusAt h' i, h.vcpus.length ≤ v) := by
  have hsame : ∃ news, h.vcpus = h.vcpus ++ news ∧ ∀ vc ∈ news, Newborn h.vms.length vc := by
    refine ⟨[], (List.append_nil _).symm, ?_⟩
    intro vc hvc
    cases hvc
  rcases vmFinalize_cases hrun with ⟨-, rfl, rfl⟩ | ⟨vm, hvm, hcases⟩
  · exact ⟨hsame, fun herr => by cases herr⟩
  rcases hcases with ⟨s₁, -, hbad, rfl⟩ | ⟨s₁, s₂, vm', pool, -, -, hinit, rfl⟩
  · exact ⟨hsame, fun hok => absurd hok hbad⟩
  · have hlt : i < h.vms.length := (List.getElem?_eq_some_iff.mp hvm).1
    obtain ⟨news, hnews, hall⟩ := initVcpus_append hinit
    refine ⟨⟨news, hnews, ?_⟩, fun _ v hv => ?_⟩
    · intro vc hvc
      obtain ⟨howner, hcpu⟩ := hall vc hvc
      refine ⟨?_, hcpu⟩
      rw [howner, Hyp.setVm, List.length_set]
      exact hlt
    · obtain ⟨-, -, -, hfresh⟩ := initVcpus_fresh hinit
      rw [vcpusAt, Hyp.setVm, List.getElem?_set_self hlt] at hv
      rcases hfresh v hv with hold | hnew
      · cases hold
      · exact hnew.1

/-- The entry point is set in a vCPU behind the old ones. -/
theorem modify_append_right {g : Vcpu → Vcpu} (old news : List Vcpu) {v : ℕ} (hv : old.length ≤ v) :
    (old ++ news).modify v g = old ++ news.modify (v - old.length) g := by
  induction old generalizing v with
  | nil => rfl
  | cons vc old ih =>
    obtain ⟨w, rfl⟩ : ∃ w, v = w + 1 := ⟨v - 1, by simp at hv; omega⟩
    have hw : old.length ≤ w := by simpa using hv
    simp [ih hw]

/-- Setting up a virtual CPU leaves the others of the pool new. -/
theorem newborn_modify {g : Vcpu → Vcpu} {n v : ℕ} {news : List Vcpu}
    (hg : ∀ vc, Newborn n vc → Newborn n (g vc)) (hall : ∀ vc ∈ news, Newborn n vc) :
    ∀ vc ∈ news.modify v g, Newborn n vc := by
  intro vc hvc
  obtain ⟨k, hk⟩ := List.mem_iff_getElem?.mp hvc
  rw [List.getElem?_modify] at hk
  obtain ⟨vc₀, hvc₀, heq⟩ := Option.map_eq_some_iff.mp hk
  have hnew := hall vc₀ (List.mem_of_getElem? hvc₀)
  split at heq
  · exact heq ▸ hg vc₀ hnew
  · exact heq ▸ hnew

/-! ## The parts of a hypercall -/

section Tables

variable [P : PtPool]

theorem length_vms_of_retains (hr : Retains h h') : h'.vms.length = h.vms.length := by
  have hlayout := congrArg List.length hr.layout
  rwa [List.length_map, List.length_map] at hlayout

/-- **A part of a hypercall moves nothing that lasts**, and adds new vCPUs
at most. -/
theorem grows_of_part (hf : Lasting f) (hpart : Hypercall.Part h h') : Grows f h h' := by
  have hvms : h.vms.length ≤ h'.vms.length :=
    Nat.le_of_eq (length_vms_of_retains (retains_of_part hpart)).symm
  have hvcpus : h'.vcpus = h.vcpus → Grows f h h' := by
    intro hsame
    exact .of_map hvms (by rw [hsame])
  cases hpart with
  | aside ha => exact hvcpus (ha.eq Hyp.vcpus fun _ _ _ _ _ _ _ _ => rfl)
  | vse hv => exact hvcpus (hv.eq Hyp.vcpus fun _ _ _ _ _ => rfl)
  | backup ix b => exact hvcpus rfl
  | start i => exact hvcpus (by rw [Sched.vmStart_rest])
  | stop i =>
    exact .of_map hvms (keeps_of_cases (R := fun g => g.vcpus.map f = h.vcpus.map f)
      (vmStop_cases h i) rfl fun _ _ => map_stopVcpus hf _ _)
  | suspend i =>
    exact hvcpus (keeps_of_cases (R := fun g => g.vcpus = h.vcpus) (vmSuspend_cases h i) rfl
      fun _ _ => rfl)
  | resume i =>
    exact hvcpus (keeps_of_cases (R := fun g => g.vcpus = h.vcpus) (vmResume_cases h i) rfl
      fun _ _ => rfl)
  | rebuild hbuild =>
    obtain ⟨⟨news, hnews, hall⟩, -⟩ := vmFinalize_pool hbuild
    exact ⟨hvms, news, by rw [hnews], hall⟩
  | restart entryIpa hbuild =>
    obtain ⟨⟨news, hnews, hall⟩, hfresh⟩ := vmFinalize_pool hbuild
    unfold Vse.resetEntry at hvms ⊢
    split
    · rename_i hnone
      rw [hnone] at hvms
      exact ⟨hvms, news, by rw [hnews], hall⟩
    · -- the entry point is that of one of the new vCPUs
      rename_i v hv
      rw [hv] at hvms
      obtain ⟨vm, hvm, hv⟩ := Option.bind_eq_some_iff.mp hv
      have hge := hfresh rfl v (by rw [vcpusAt, hvm]; exact List.mem_of_getElem? hv)
      refine ⟨hvms, news.modify (v - h.vcpus.length) fun vc => vcpuSetEntry vc entryIpa 0, ?_,
        newborn_modify (fun vc hnew => ⟨hnew.vm, hnew.vgicCpu⟩) hall⟩
      dsimp only
      rw [hnews, modify_append_right _ _ hge]
  | map hmap => exact hvcpus (by rw [Hypercall.shmemMap_rest hmap])
  | unmap ipa sz => exact hvcpus (by rw [Hypercall.shmemUnmap_rest])

theorem grows_of_parts (hf : Lasting f) (hparts : Hypercall.Parts h h') : Grows f h h' :=
  hparts.invariant (fun _ _ hpart hg => hg.trans (grows_of_part hf hpart)) (.refl h)

end Tables

end HypervisorBase
