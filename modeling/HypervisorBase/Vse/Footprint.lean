import HypervisorBase.Vse.Outcomes
/-!
# What an operation leaves of the other VMs

Every operation of the trust engine and of the VM lifecycle works on one
VM. `Touches i` says that nothing the enforcement depends on has changed
elsewhere, and `Becomes i` adds the level and the state VM `i` ends up
with. These specifications compose (`Becomes.trans`), so a longer operation
is described by going through its calls, whatever it passes through on
the way.
-/

namespace HypervisorBase

/-! ## VMs by index -/

/-- The trust level of the VM at an index. -/
def levelAt (h : Hyp) (i : ℕ) : TrustLevel :=
  if hi : i < maxVms then (h.trust.vm ⟨i, hi⟩).level else .unknown

/-- The state of the VM at an index. -/
def stateAt (h : Hyp) (i : ℕ) : Option VmState := (h.vms[i]?).map Vm.state

theorem stateAt_of_vm {h : Hyp} {i : ℕ} {vm : Vm} (hvm : h.vms[i]? = some vm) :
    stateAt h i = some vm.state := by rw [stateAt, hvm]; rfl

theorem exists_vm_of_state {h : Hyp} {i : ℕ} {st : VmState} (hst : stateAt h i = some st) :
    ∃ vm, h.vms[i]? = some vm ∧ vm.state = st := Option.map_eq_some_iff.mp hst

/-- The virtual CPUs of the VM at an index. -/
def vcpusAt (h : Hyp) (i : ℕ) : List ℕ := ((h.vms[i]?).map Vm.vcpus).getD []

/-- **The table of VMs as `vm_create` fills it**: ids follow the index. -/
structure Roster (h : Hyp) : Prop where
  length_le : h.vms.length ≤ maxVms
  ids : ∀ (i : ℕ) vm, h.vms[i]? = some vm → vm.id = BitVec.ofNat 32 (i + 1)
  alive : ∀ i, stateAt h i ≠ some .none

theorem idx_ofNat {i : ℕ} (hi : i < maxVms) : idx (BitVec.ofNat 32 (i + 1)) = some ⟨i, hi⟩ := by
  have hmax : maxVms = 4 := rfl
  have hn : (BitVec.ofNat 32 (i + 1)).toNat = i + 1 := by
    rw [BitVec.toNat_ofNat]
    omega
  unfold idx
  rw [dif_neg (by omega)]
  simp [hn]

theorem idx_eq_some {id : U32} {ix : Fin maxVms} (h : idx id = some ix) :
    id = BitVec.ofNat 32 (ix.val + 1) := by
  unfold idx at h
  split at h
  · cases h
  · obtain rfl := Option.some.inj h
    apply BitVec.eq_of_toNat_eq
    simp only [BitVec.toNat_ofNat]
    omega

/-- `vm_by_id` finds the VM at the index its id names. -/
theorem Roster.vmById_eq {h : Hyp} (hr : Roster h) {id : U32} {i : ℕ}
    (hfound : vmById h id = some i) :
    id = BitVec.ofNat 32 (i + 1) ∧ i < maxVms ∧ ∃ vm, h.vms[i]? = some vm := by
  obtain ⟨hi, hp, -⟩ := List.findIdx?_eq_some_iff_getElem.mp hfound
  have hvm : h.vms[i]? = some h.vms[i] := List.getElem?_eq_getElem hi
  have hid : h.vms[i].id = id := by simpa using (Bool.and_eq_true_iff.mp hp).1
  refine ⟨?_, Nat.lt_of_lt_of_le hi hr.length_le, _, hvm⟩
  rw [← hid]
  exact hr.ids i _ hvm

/-- And every VM of the table is found by its id. -/
theorem Roster.vmById_of_vm {h : Hyp} (hr : Roster h) {i : ℕ} {vm : Vm}
    (hvm : h.vms[i]? = some vm) : vmById h (BitVec.ofNat 32 (i + 1)) = some i := by
  have hmax : maxVms = 4 := rfl
  have hlen := hr.length_le
  have hstate := hr.alive i
  obtain ⟨hi, rfl⟩ := List.getElem?_eq_some_iff.mp hvm
  rw [stateAt_of_vm hvm] at hstate
  refine List.findIdx?_eq_some_iff_getElem.mpr ⟨hi, ?_, fun j hj => ?_⟩
  · have halive : h.vms[i].state ≠ .none := fun h0 => hstate (congrArg some h0)
    simp [hr.ids i _ hvm, halive]
  · have hlt : j < h.vms.length := Nat.lt_trans hj hi
    have hne : BitVec.ofNat 32 (j + 1) ≠ BitVec.ofNat 32 (i + 1) := by
      intro heq
      have := congrArg BitVec.toNat heq
      simp only [BitVec.toNat_ofNat] at this
      omega
    simp [hr.ids j _ (List.getElem?_eq_getElem hlt), hne]

/-! ## One VM is touched -/

/-- **Only VM `i` is touched**: it keeps its id, and any virtual CPU it
gains is a new one. -/
structure Touches (i : ℕ) (h h' : Hyp) : Prop where
  initialized : h'.trust.initialized = h.trust.initialized
  levels : ∀ j, j ≠ i → levelAt h' j = levelAt h j
  vms : ∀ j : ℕ, j ≠ i → h'.vms[j]? = h.vms[j]?
  ident : (h'.vms[i]?).map Vm.id = (h.vms[i]?).map Vm.id
  alive : stateAt h i ≠ some .none → stateAt h' i ≠ some .none
  pool : h.vcpus.length ≤ h'.vcpus.length
  fresh : ∀ v ∈ vcpusAt h' i, v ∈ vcpusAt h i ∨ h.vcpus.length ≤ v ∧ v < h'.vcpus.length

/-- Nothing the enforcement depends on has changed. -/
structure SameVms (h h' : Hyp) : Prop where
  vms : h'.vms = h.vms
  vcpus : h'.vcpus = h.vcpus
  initialized : h'.trust.initialized = h.trust.initialized
  records : h'.trust.vm = h.trust.vm

theorem SameVms.refl (h : Hyp) : SameVms h h := ⟨rfl, rfl, rfl, rfl⟩

theorem Touches.refl (i : ℕ) (h : Hyp) : Touches i h h :=
  ⟨rfl, fun _ _ => rfl, fun _ _ => rfl, rfl, id, Nat.le_refl _, fun _ hv => .inl hv⟩

theorem Touches.trans {i : ℕ} {h h' h'' : Hyp} (a : Touches i h h') (b : Touches i h' h'') :
    Touches i h h'' where
  initialized := b.initialized.trans a.initialized
  levels j hj := (b.levels j hj).trans (a.levels j hj)
  vms j hj := (b.vms j hj).trans (a.vms j hj)
  ident := b.ident.trans a.ident
  alive hs := b.alive (a.alive hs)
  pool := Nat.le_trans a.pool b.pool
  fresh v hv := by
    have hab := a.pool
    have hbc := b.pool
    rcases b.fresh v hv with hv' | hnew
    · rcases a.fresh v hv' with hold | hnew
      · exact .inl hold
      · exact .inr (by omega)
    · exact .inr (by omega)

/-- **Only VM `i` is touched, and it then has this level and this
state.** -/
structure Becomes (i : ℕ) (h h' : Hyp) (l : TrustLevel) (s : Option VmState) : Prop where
  touches : Touches i h h'
  level : levelAt h' i = l
  state : stateAt h' i = s

theorem Becomes.refl (i : ℕ) (h : Hyp) : Becomes i h h (levelAt h i) (stateAt h i) :=
  ⟨.refl i h, rfl, rfl⟩

theorem Becomes.trans {i : ℕ} {h h' h'' : Hyp} {l l' : TrustLevel} {s s' : Option VmState}
    (a : Becomes i h h' l s) (b : Becomes i h' h'' l' s') : Becomes i h h'' l' s' :=
  ⟨a.touches.trans b.touches, b.level, b.state⟩

theorem SameVms.becomes {h h' : Hyp} (hsame : SameVms h h') (i : ℕ) :
    Becomes i h h' (levelAt h i) (stateAt h i) := by
  have hlevel : ∀ j, levelAt h' j = levelAt h j := fun j => by rw [levelAt, levelAt, hsame.records]
  have hstate : ∀ j, stateAt h' j = stateAt h j := fun j => by rw [stateAt, stateAt, hsame.vms]
  refine ⟨⟨?_, fun j _ => hlevel j, fun j _ => ?_, ?_, fun hs => ?_, ?_, fun v hv => ?_⟩,
    hlevel i, hstate i⟩
  · exact hsame.initialized
  · rw [hsame.vms]
  · rw [hsame.vms]
  · rwa [hstate]
  · exact Nat.le_of_eq (by rw [hsame.vcpus])
  · rw [vcpusAt, hsame.vms] at hv
    exact .inl hv

theorem Becomes.of_same {i : ℕ} {h h' h'' : Hyp} {l : TrustLevel} {s : Option VmState}
    (a : Becomes i h h' l s) (b : SameVms h' h'') : Becomes i h h'' l s := by
  have hb := b.becomes i
  rw [a.level, a.state] at hb
  exact a.trans hb

/-- The roster outlasts a change of one VM. -/
theorem Roster.of_touches {h h' : Hyp} {i : ℕ} (hr : Roster h) (ht : Touches i h h') :
    Roster h' := by
  have hsome : ∀ j : ℕ, (h'.vms[j]?).map Vm.id = (h.vms[j]?).map Vm.id := by
    intro j
    by_cases hj : j = i
    · rw [hj]; exact ht.ident
    · rw [ht.vms j hj]
  refine ⟨?_, fun j vm hvm => ?_, fun j => ?_⟩
  · have hnone := hsome h.vms.length
    simp only [List.getElem?_eq_none (Nat.le_refl h.vms.length), Option.map_none,
      Option.map_eq_none_iff, List.getElem?_eq_none_iff] at hnone
    exact Nat.le_trans hnone hr.length_le
  · have hid := hsome j
    rw [hvm] at hid
    obtain ⟨vm₀, hvm₀, heq⟩ := Option.map_eq_some_iff.mp hid.symm
    rw [← heq]
    exact hr.ids j vm₀ hvm₀
  · by_cases hj : j = i
    · rw [hj]; exact ht.alive (hr.alive i)
    · rw [stateAt, ht.vms j hj]
      exact hr.alive j

/-! ## What stays aside -/

/-- Power, the backups and the devices of the VMs are as they were. -/
structure Steady (h h' : Hyp) : Prop where
  power : h'.power = h.power
  failover : h'.failover = h.failover
  devs : ∀ j : ℕ, (h'.vms[j]?).map Vm.dev = (h.vms[j]?).map Vm.dev

theorem Steady.refl (h : Hyp) : Steady h h := ⟨rfl, rfl, fun _ => rfl⟩

theorem Steady.trans {h h' h'' : Hyp} (a : Steady h h') (b : Steady h' h'') : Steady h h'' :=
  ⟨b.power.trans a.power, b.failover.trans a.failover, fun j => (b.devs j).trans (a.devs j)⟩

theorem steady_setVm {h h' : Hyp} {i : ℕ} {vm vm' : Vm} (hvm : h.vms[i]? = some vm)
    (hdev : vm'.dev = vm.dev) (hvms : h'.vms = h.vms.set i vm') (hpower : h'.power = h.power)
    (hfailover : h'.failover = h.failover) : Steady h h' := by
  refine ⟨hpower, hfailover, fun j => ?_⟩
  have hlt : i < h.vms.length := (List.getElem?_eq_some_iff.mp hvm).1
  rw [hvms]
  by_cases hj : i = j
  · rw [← hj, List.getElem?_set_self hlt, hvm, Option.map_some, Option.map_some, hdev]
  · rw [List.getElem?_set_ne hj]

/-! ## The lifecycle operations -/

/-- A VM is put back with another state, and whatever virtual CPUs the
new pool has for it. -/
theorem becomes_setVm {h h' : Hyp} {i : ℕ} {vm vm' : Vm} (hvm : h.vms[i]? = some vm)
    (hvms : h'.vms = h.vms) (htrust : h'.trust = h.trust) (hid : vm'.id = vm.id)
    (halive : vm.state ≠ .none → vm'.state ≠ .none) (hpool : h.vcpus.length ≤ h'.vcpus.length)
    (hfresh : ∀ v ∈ vm'.vcpus, v ∈ vm.vcpus ∨ h.vcpus.length ≤ v ∧ v < h'.vcpus.length) :
    Becomes i h (h'.setVm i vm') (levelAt h i) (some vm'.state) := by
  have hi : i < h.vms.length := (List.getElem?_eq_some_iff.mp hvm).1
  have hself : (h'.setVm i vm').vms[i]? = some vm' := by
    rw [Hyp.setVm, hvms]
    exact List.getElem?_set_self hi
  have hlevel : ∀ j, levelAt (h'.setVm i vm') j = levelAt h j := by
    intro j
    rw [levelAt, levelAt, Hyp.setVm, htrust]
  have hstate : stateAt (h'.setVm i vm') i = some vm'.state := stateAt_of_vm hself
  refine ⟨⟨?_, fun j _ => hlevel j, fun j hj => ?_, ?_, fun hs => ?_, hpool, fun v hv => ?_⟩,
    hlevel i, hstate⟩
  · rw [Hyp.setVm, htrust]
  · rw [Hyp.setVm, hvms]
    exact List.getElem?_set_ne (Ne.symm hj)
  · rw [hself, hvm, Option.map_some, Option.map_some, hid]
  · rw [hstate]
    intro hnone
    exact halive (fun h0 => hs (by rw [stateAt_of_vm hvm, h0])) (Option.some.inj hnone)
  · rw [vcpusAt, hself] at hv
    rw [vcpusAt, hvm]
    exact hfresh v hv

/-- An operation that only gives the VM another state. -/
theorem becomes_setState {h h' : Hyp} {i : ℕ} {vm : Vm} {st : VmState} (hvm : h.vms[i]? = some vm)
    (hvms : h'.vms = h.vms) (htrust : h'.trust = h.trust)
    (hpool : h'.vcpus.length = h.vcpus.length) (hst : st ≠ .none) :
    Becomes i h (h'.setVm i { vm with state := st }) (levelAt h i) (some st) :=
  becomes_setVm hvm hvms htrust rfl (fun _ => hst) (Nat.le_of_eq hpool.symm) fun _ hv => .inl hv

theorem length_stopVcpus (vs : List ℕ) (pool : List Vcpu) :
    (stopVcpus vs pool).length = pool.length := by
  induction vs generalizing pool with
  | nil => rfl
  | cons v vs ih => exact (ih _).trans (List.length_modify ..)

section Lifecycle

variable {h : Hyp} {i : ℕ} {vm : Vm}

theorem vmStop_becomes (hvm : h.vms[i]? = some vm) :
    (vmStop h i).1 = .ok ∧ Becomes i h (vmStop h i).2 (levelAt h i) (some .stopped) := by
  unfold vmStop
  rw [hvm]
  dsimp only
  split
  · rename_i hst
    exact ⟨rfl, ⟨.refl i h, rfl, by rw [stateAt_of_vm hvm, hst]⟩⟩
  · exact ⟨rfl, becomes_setState hvm rfl rfl (length_stopVcpus ..) (by decide)⟩

/-- `vm_suspend` stops a running VM and refuses any other. -/
theorem vmSuspend_becomes (hvm : h.vms[i]? = some vm) :
    Becomes i h (vmSuspend h i).2 (levelAt h i)
      (some (if vm.state = .running then .suspended else vm.state)) := by
  unfold vmSuspend
  rw [hvm]
  dsimp only
  split
  · exact ⟨.refl i h, rfl, stateAt_of_vm hvm⟩
  · rename_i hst
    rw [if_pos (not_not.mp hst)]
    exact becomes_setState hvm rfl rfl rfl (by decide)

/-- `vm_resume` restarts a suspended VM and refuses any other. -/
theorem vmResume_becomes (hvm : h.vms[i]? = some vm) :
    Becomes i h (vmResume h i).2 (levelAt h i)
      (some (if vm.state = .suspended then .running else vm.state)) := by
  unfold vmResume
  rw [hvm]
  dsimp only
  split
  · exact ⟨.refl i h, rfl, stateAt_of_vm hvm⟩
  · rename_i hst
    rw [if_pos (not_not.mp hst)]
    exact becomes_setState hvm rfl rfl rfl (by decide)

theorem vmStart_becomes (hvm : h.vms[i]? = some vm) (hready : vm.state = .ready) :
    (vmStart h i).1 = .ok ∧ Becomes i h (vmStart h i).2 (levelAt h i) (some .running) := by
  unfold vmStart
  rw [hvm]
  dsimp only
  rw [if_neg (not_not.mpr hready)]
  exact ⟨rfl, becomes_setState hvm rfl rfl rfl (by decide)⟩

theorem vmStop_steady (h : Hyp) (i : ℕ) : Steady h (vmStop h i).2 :=
  keeps_of_cases (R := Steady h) (vmStop_cases h i) (.refl h) fun vm hvm => by
    have hdev : ({ vm with state := .stopped } : Vm).dev = vm.dev := rfl
    exact steady_setVm hvm hdev rfl rfl rfl

theorem vmStart_steady (h : Hyp) (i : ℕ) : Steady h (vmStart h i).2 :=
  keeps_of_cases (R := Steady h) (vmStart_cases h i) (.refl h) fun vm hvm => by
    have hdev : ({ vm with state := .running } : Vm).dev = vm.dev := rfl
    exact steady_setVm hvm hdev rfl rfl rfl

/-- The virtual CPUs a VM is given are the next of the pool. -/
theorem initVcpus_fresh {n w : ℕ} {vm vm' : Vm} {pool pool' : List Vcpu} {e : Err}
    (hrun : initVcpus i n w vm pool = (e, vm', pool')) :
    vm'.id = vm.id ∧ vm'.state = vm.state ∧ pool.length ≤ pool'.length ∧
      ∀ v ∈ vm'.vcpus, v ∈ vm.vcpus ∨ pool.length ≤ v ∧ v < pool'.length := by
  induction n generalizing w vm pool with
  | zero =>
    obtain ⟨-, rfl, rfl⟩ := by simpa [initVcpus] using hrun
    exact ⟨rfl, rfl, Nat.le_refl _, fun v hv => .inl hv⟩
  | succ n ih =>
    rw [initVcpus] at hrun
    split at hrun
    · obtain ⟨-, rfl, rfl⟩ := by simpa using hrun
      exact ⟨rfl, rfl, Nat.le_refl _, fun v hv => .inl hv⟩
    · obtain ⟨hid, hst, hlen, hfresh⟩ := ih hrun
      simp only [List.length_append, List.length_cons, List.length_nil] at hlen hfresh
      refine ⟨hid, hst, by omega, fun v hv => ?_⟩
      rcases hfresh v hv with hold | hnew
      · rcases List.mem_append.mp hold with hold | hlast
        · exact .inl hold
        · exact .inr (by rw [List.mem_singleton.mp hlast]; omega)
      · exact .inr (by omega)

/-- `vm_finalize` makes the VM ready, or fails and leaves its state. -/
theorem vmFinalize_becomes [P : PtPool] {h' : Hyp} {e : Err} (hvm : h.vms[i]? = some vm)
    (hrun : vmFinalize h i = some (e, h')) :
    Becomes i h h' (levelAt h i) (some (if e = .ok then .ready else vm.state)) := by
  rcases vmFinalize_cases hrun with ⟨hnone, -⟩ | ⟨vm', hvm', hcases⟩
  · cases hnone.symm.trans hvm
  obtain rfl := Option.some.inj (hvm.symm.trans hvm')
  rcases hcases with ⟨s₁, -, herr, rfl⟩ | ⟨s₁, s₂, vm', pool, -, -, hinit, rfl⟩
  · have hsame : SameVms h { h with s2 := s₁ } := ⟨rfl, rfl, rfl, rfl⟩
    rw [if_neg herr, ← stateAt_of_vm hvm]
    exact hsame.becomes i
  · obtain ⟨hid, hst, hlen, hfresh⟩ := initVcpus_fresh hinit
    have hnew : ∀ v ∈ vm'.vcpus, v ∈ vm.vcpus ∨ h.vcpus.length ≤ v ∧ v < pool.length :=
      fun v hv => .inr ((hfresh v hv).resolve_left (List.not_mem_nil))
    have hlive : vm.state ≠ .none → (if e = .ok then VmState.ready else vm'.state) ≠ .none := by
      intro h0
      split
      · decide
      · rwa [hst]
    rw [show vm.state = vm'.state from hst.symm]
    exact becomes_setVm hvm rfl rfl hid hlive hlen hnew

theorem dev_initVcpus {n w : ℕ} {vm vm' : Vm} {pool pool' : List Vcpu} {e : Err}
    (hrun : initVcpus i n w vm pool = (e, vm', pool')) : vm'.dev = vm.dev := by
  induction n generalizing w vm pool with
  | zero =>
    obtain ⟨-, rfl, -⟩ := by simpa [initVcpus] using hrun
    rfl
  | succ n ih =>
    rw [initVcpus] at hrun
    split at hrun
    · obtain ⟨-, rfl, -⟩ := by simpa using hrun
      rfl
    · have hrest := ih hrun
      exact hrest

/-- A rebuild leaves power, backups and devices alone. -/
theorem vmFinalize_steady [P : PtPool] {h' : Hyp} {e : Err}
    (hrun : vmFinalize h i = some (e, h')) : Steady h h' := by
  rcases vmFinalize_cases hrun with ⟨-, -, rfl⟩ | ⟨vm, hvm, hcases⟩
  · exact .refl _
  rcases hcases with ⟨s₁, -, -, rfl⟩ | ⟨s₁, s₂, vm', pool, -, -, hinit, rfl⟩
  · exact ⟨rfl, rfl, fun _ => rfl⟩
  · have hdev := dev_initVcpus hinit
    refine steady_setVm hvm ?_ rfl rfl rfl
    exact hdev

end Lifecycle

/-! ## The trust records -/

namespace Vse

section Levels

variable {h : Hyp} {i : ℕ} {id : U32}

/-- A record is replaced: only the level of its VM can change. -/
theorem becomes_setTrust {h h' : Hyp} (ix : Fin maxVms) (r : TrustRecord)
    (hsame : SameVms h h') :
    Becomes ix.val h (h'.setTrust ix r) r.level (stateAt h ix.val) := by
  have hlevel : ∀ j, levelAt (h'.setTrust ix r) j = if j = ix.val then r.level else levelAt h j := by
    intro j
    unfold levelAt Hyp.setTrust
    by_cases hj : j = ix.val
    · subst hj
      simp
    · by_cases hlt : j < maxVms
      · have hne : (⟨j, hlt⟩ : Fin maxVms) ≠ ix := fun heq => hj (congrArg Fin.val heq)
        simp [hlt, hj, hsame.records, Function.update_of_ne hne]
      · simp [hlt, hj]
  have hb := hsame.becomes ix.val
  refine ⟨⟨hb.touches.initialized, fun j hj => ?_, hb.touches.vms, hb.touches.ident,
    hb.touches.alive, hb.touches.pool, hb.touches.fresh⟩, ?_, hb.state⟩
  · rw [hlevel, if_neg hj]
  · rw [hlevel, if_pos rfl]

theorem levelAt_fin (h : Hyp) (ix : Fin maxVms) : levelAt h ix.val = (h.trust.vm ix).level :=
  dif_pos ix.isLt

theorem trustGet_eq (hinit : h.trust.initialized = true) (hi : i < maxVms) :
    trustGet h (BitVec.ofNat 32 (i + 1)) = levelAt h i := by
  rw [trustGet, idx_ofNat hi]
  exact (if_pos hinit).trans (levelAt_fin h ⟨i, hi⟩).symm

/-- Setting a level changes that level only. -/
theorem trustSet_becomes (hinit : h.trust.initialized = true) (hi : i < maxVms) (l : TrustLevel) :
    Becomes i h (trustSet h (BitVec.ofNat 32 (i + 1)) l).2 l (stateAt h i) := by
  unfold trustSet
  rw [idx_ofNat hi]
  dsimp only
  rw [if_neg (by simp [hinit])]
  split
  · exact becomes_setTrust ⟨i, hi⟩ _ ⟨rfl, rfl, rfl, rfl⟩
  · rename_i hsame
    exact ⟨.refl i h, (levelAt_fin h ⟨i, hi⟩).trans (not_not.mp hsame), rfl⟩

/-- **A revoked VM is stopped.** -/
theorem trustRevoke_becomes (hr : Roster h) (hinit : h.trust.initialized = true)
    (hfound : vmById h id = some i) :
    Becomes i h (trustRevoke h id).2 .revoked (some .stopped) := by
  obtain ⟨rfl, hi, vm, hvm⟩ := hr.vmById_eq hfound
  have hset := trustSet_becomes hinit hi .revoked
  unfold trustRevoke
  rw [idx_ofNat hi, hfound]
  dsimp only
  split
  · obtain ⟨vm', hvm', -⟩ := exists_vm_of_state (hset.state.trans (stateAt_of_vm hvm))
    have hstop := (vmStop_becomes hvm').2
    rw [hset.level] at hstop
    exact hset.trans hstop
  · rename_i hst
    exact ⟨hset.touches, hset.level, not_not.mp hst⟩

theorem trustSet_steady (h : Hyp) (id : U32) (l : TrustLevel) : Steady h (trustSet h id l).2 := by
  unfold trustSet timerNowUs
  dsimp only
  repeat' split
  all_goals exact ⟨rfl, rfl, fun _ => rfl⟩

theorem trustRevoke_steady (h : Hyp) (id : U32) : Steady h (trustRevoke h id).2 :=
  trustRevoke_keeps (R := Steady h) (.refl h) (trustSet_steady h id .revoked)
    fun g i hg => hg.trans (vmStop_steady g i)

end Levels

/-! ## Failover -/

section Failover

variable {h h' : Hyp} {i : ℕ} {id : U32} {e : Err}

theorem sameVms_restoreImage (h : Hyp) (bd : BackupDesc) : SameVms h (restoreImage h bd) := by
  unfold restoreImage
  split <;> exact ⟨rfl, rfl, rfl, rfl⟩

theorem steady_restoreImage (h : Hyp) (bd : BackupDesc) : Steady h (restoreImage h bd) := by
  unfold restoreImage
  split <;> exact ⟨rfl, rfl, fun _ => rfl⟩

theorem steady_resetEntry (h : Hyp) (i : ℕ) (entryIpa : U64) :
    Steady h (resetEntry h i entryIpa) := by
  unfold resetEntry
  split <;> exact ⟨rfl, rfl, fun _ => rfl⟩

/-- The new entry point goes into a virtual CPU. -/
theorem resetEntry_becomes (h : Hyp) (i : ℕ) (entryIpa : U64) :
    Becomes i h (resetEntry h i entryIpa) (levelAt h i) (stateAt h i) := by
  unfold resetEntry
  split
  · exact .refl i h
  · have hlen : ∀ (v : ℕ) f, (h.vcpus.modify v f).length = h.vcpus.length :=
      fun v f => List.length_modify ..
    exact ⟨⟨rfl, fun _ _ => rfl, fun _ _ => rfl, rfl, fun hs => hs, Nat.le_of_eq (hlen ..).symm,
      fun _ hv => .inl hv⟩, rfl, rfl⟩

/-- A rebuilt VM starts at its new entry point. -/
theorem restart_becomes (hst : stateAt h i = some .ready) (entryIpa : U64) :
    (vmStart (resetEntry h i entryIpa) i).1 = .ok ∧
      Becomes i h (vmStart (resetEntry h i entryIpa) i).2 (levelAt h i) (some .running) := by
  have hb := resetEntry_becomes h i entryIpa
  obtain ⟨vm, hvm, hready⟩ := exists_vm_of_state (hb.state.trans hst)
  obtain ⟨hok, hstart⟩ := vmStart_becomes hvm hready
  rw [hb.level] at hstart
  exact ⟨hok, hb.trans hstart⟩

variable [P : PtPool]

/-- Rebuilding a stopped VM makes it ready, or leaves it stopped. -/
theorem rebuild_becomes {bd : BackupDesc} (hst : stateAt h i = some .stopped)
    (hrun : vmFinalize (restoreImage h bd) i = some (e, h')) :
    Becomes i h h' (levelAt h i) (some (if e = .ok then .ready else .stopped)) := by
  have hb := (sameVms_restoreImage h bd).becomes i
  obtain ⟨vm, hvm, hstopped⟩ := exists_vm_of_state (hb.state.trans hst)
  have hfin := vmFinalize_becomes hvm hrun
  rw [hb.level, hstopped] at hfin
  exact hb.trans hfin

/-- The VM has a backup. -/
def HasBackup (h : Hyp) (ix : Fin maxVms) : Prop :=
  h.failover.initialized = true ∧ (h.failover.backup ix).registered = true

/-- Its attempts are used up. -/
def Spent (h : Hyp) (ix : Fin maxVms) : Prop :=
  failoverMaxAttempts ≤ (h.failover.backup ix).failoverCount.toNat

/-- A counted attempt. -/
def countAttempt (h : Hyp) (ix : Fin maxVms) : Hyp :=
  h.setBackup ix { h.failover.backup ix with
    failoverCount := (h.failover.backup ix).failoverCount + 1 }

/-- **One more attempt**: it is counted, and it ends with the VM stopped or
restarted. Only the VM and the count change. -/
structure Attempted (i : ℕ) (ix : Fin maxVms) (h h' : Hyp) : Prop where
  steady : Steady (countAttempt h ix) h'
  outcome : Becomes i h h' (levelAt h i) (some .stopped) ∨ Becomes i h h' .degraded (some .running)

omit P in
theorem sameVms_countAttempt (h : Hyp) (ix : Fin maxVms) : SameVms h (countAttempt h ix) :=
  ⟨rfl, rfl, rfl, rfl⟩

/-- **What `_do_failover` can do** to the VM it finds. -/
theorem doFailover_cases {ix : Fin maxVms} (hr : Roster h)
    (hinit : h.trust.initialized = true) (hfound : vmById h id = some i)
    (hrun : doFailover h id ix = some (e, h')) :
    Spent h ix ∧ h' = (trustRevoke h id).2 ∨ ¬ Spent h ix ∧ Attempted i ix h h' := by
  rcases doFailover_inv hrun with ⟨hnone, -⟩ | ⟨j, hj, ⟨hspent, -, rfl⟩ | ⟨hleft, hend⟩⟩
  · cases hnone.symm.trans hfound
  · exact .inl ⟨hspent, rfl⟩
  obtain rfl := Option.some.inj (hfound.symm.trans hj)
  rw [← countAttempt] at hend
  refine .inr ⟨hleft, ?_, ?_⟩
  · rcases hend.keeps (R := fun g => Steady (countAttempt h ix) g) (.refl _)
      (fun g hg => hg.trans (vmStop_steady g i)) (fun g hg => hg.trans (steady_restoreImage g _))
      (fun hfin hg => hg.trans (vmFinalize_steady hfin)) (fun g hg => hg.trans (steady_resetEntry g i _))
      (fun g hg => hg.trans (vmStart_steady g i)) with ⟨-, hsteady⟩ | ⟨-, k, hsteady, rfl⟩
    · exact hsteady
    · exact hsteady.trans (trustSet_steady k id .degraded)
  obtain ⟨rfl, hi, vm, hvm⟩ := hr.vmById_eq hfound
  have hsame := sameVms_countAttempt h ix
  obtain ⟨hok, hstop⟩ := vmStop_becomes (h := countAttempt h ix) (i := i) (by rw [hsame.vms]; exact hvm)
  rw [(hsame.becomes i).level] at hstop
  replace hstop := (hsame.becomes i).trans hstop
  have hbuilt : ∀ {s g e'}, vmStop (countAttempt h ix) i = (.ok, s) →
      vmFinalize (restoreImage s (h.failover.backup ix)) i = some (e', g) →
      Becomes i h g (levelAt h i) (some (if e' = .ok then .ready else .stopped)) := by
    intro s g e' heq hfin
    rw [heq] at hstop
    have hrebuilt := hstop.trans (rebuild_becomes hstop.state hfin)
    rwa [hstop.level] at hrebuilt
  -- a VM that is found can be stopped, and started once it is ready
  cases hend with
  | stopFails heq herr => exact absurd ((congrArg Prod.fst heq).symm.trans hok) herr
  | finalizeFails heq hfin herr =>
    have hstopped := hbuilt heq hfin
    rw [if_neg herr] at hstopped
    exact .inl hstopped
  | startFails heq hfin heq' herr =>
    obtain ⟨hok', -⟩ := restart_becomes (hbuilt heq hfin).state (h.failover.backup ix).entryIpa
    exact absurd ((congrArg Prod.fst heq').symm.trans hok') herr
  | restarts heq hfin heq' hok' hset =>
    obtain ⟨-, hstart⟩ := restart_becomes (hbuilt heq hfin).state (h.failover.backup ix).entryIpa
    rw [heq'] at hstart
    have hrunning := (hbuilt heq hfin).trans hstart
    have hlevel := trustSet_becomes (hrunning.touches.initialized.trans hinit) hi .degraded
    rw [hrunning.state] at hlevel
    rw [hset]
    exact .inr (hrunning.trans hlevel)

/-- **What a failover leaves**: the VM revoked when its attempts are used
up, stopped when it cannot be rebuilt, or running and degraded. -/
theorem doFailover_becomes {ix : Fin maxVms} (hr : Roster h)
    (hinit : h.trust.initialized = true) (hfound : vmById h id = some i)
    (hrun : doFailover h id ix = some (e, h')) :
    Becomes i h h' .revoked (some .stopped) ∨ Becomes i h h' (levelAt h i) (some .stopped) ∨
      Becomes i h h' .degraded (some .running) := by
  rcases doFailover_cases hr hinit hfound hrun with ⟨-, rfl⟩ | ⟨-, hattempt⟩
  · exact .inl (trustRevoke_becomes hr hinit hfound)
  · exact .inr hattempt.outcome

end Failover

end Vse

end HypervisorBase
