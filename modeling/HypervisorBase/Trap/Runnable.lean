import HypervisorBase.Boot.Launch
import HypervisorBase.Trap.Parts
/-!
# Only runnable vCPUs run

A guest should be returned to only if its VM runs, its vCPU is still one
of the VM's and has not been stopped. The scheduler looks at all of this,
but most traps return without it, to the vCPU that trapped. So the vCPU
must not have been taken away inside its own trap: by a hypercall that
stops or suspends the caller's own VM, or by a fault that has it
quarantined, which suspends it or, with a backup, gives it other vCPUs.
`only_runnable_run` says that these are the only ways: from boot on, a
guest returned to is runnable as long as no trap is of this kind, and no
message is received into the hypervisor's own memory.
-/

namespace HypervisorBase

namespace Trap

/-! ## The invariant -/

/-- **A vCPU that may run.** -/
def Runs (h : Hyp) (c : ℕ) : Prop :=
  ∃ vc vm, h.vcpus[c]? = some vc ∧ vc.state ≠ .stopped ∧ h.vms[vc.vm]? = some vm ∧
    c ∈ vm.vcpus ∧ vm.state = .running

/-- **The guest that is returned to may run.** -/
def Runnable (h : Hyp) : Prop := ∃ c, h.current = some c ∧ Runs h c

/-- The table of VMs and the pool agree on which vCPU belongs to which
VM. -/
structure Arranged (h : Hyp) : Prop where
  roster : Roster h
  initialized : h.trust.initialized = true
  owned : ∀ i, ∀ v ∈ vcpusAt h i, (h.vcpus[v]?).map Vcpu.vm = some i

/-- The VMs are as they were, and each vCPU belongs to the same one. -/
structure Framed (h h' : Hyp) : Prop where
  vms : h'.vms = h.vms
  owners : ∀ v : ℕ, (h'.vcpus[v]?).map Vcpu.vm = (h.vcpus[v]?).map Vcpu.vm
  initialized : h'.trust.initialized = h.trust.initialized

/-- And the same vCPU is current, with every vCPU in the state it was in. -/
structure Keeps (h h' : Hyp) : Prop where
  framed : Framed h h'
  states : ∀ v : ℕ, (h'.vcpus[v]?).map Vcpu.state = (h.vcpus[v]?).map Vcpu.state
  current : h'.current = h.current

variable {h h' h'' : Hyp}

theorem Framed.trans (a : Framed h h') (b : Framed h' h'') : Framed h h'' :=
  ⟨b.vms.trans a.vms, fun v => (b.owners v).trans (a.owners v), b.initialized.trans a.initialized⟩

theorem Keeps.refl (h : Hyp) : Keeps h h := ⟨⟨rfl, fun _ => rfl, rfl⟩, fun _ => rfl, rfl⟩

theorem keeps_of_eq (hvms : h'.vms = h.vms) (hvcpus : h'.vcpus = h.vcpus)
    (hcurrent : h'.current = h.current) (hinit : h'.trust.initialized = h.trust.initialized) :
    Keeps h h' :=
  ⟨⟨hvms, fun v => by rw [hvcpus], hinit⟩, fun v => by rw [hvcpus], hcurrent⟩

theorem keeps_of_onlyVse (a : Vse.OnlyVse h h') : Keeps h h' :=
  keeps_of_eq (a.eq Hyp.vms fun _ _ _ _ _ => rfl) (a.eq Hyp.vcpus fun _ _ _ _ _ => rfl)
    (a.eq Hyp.current fun _ _ _ _ _ => rfl) a.initialized

theorem keeps_of_aside (a : Hypercall.Aside h h') : Keeps h h' :=
  keeps_of_eq (a.eq Hyp.vms fun _ _ _ _ _ _ _ _ => rfl) (a.eq Hyp.vcpus fun _ _ _ _ _ _ _ _ => rfl)
    (a.eq Hyp.current fun _ _ _ _ _ _ _ _ => rfl)
    (a.eq (fun g => g.trust.initialized) fun _ _ _ _ _ _ _ _ => rfl)

/-- A change to the registers of one vCPU. -/
theorem keeps_modify (h : Hyp) (c : ℕ) {f : Vcpu → Vcpu} (hvm : ∀ vc, (f vc).vm = vc.vm)
    (hstate : ∀ vc, (f vc).state = vc.state) :
    Keeps h { h with vcpus := h.vcpus.modify c f } := by
  have hmap : ∀ {α : Type} (g : Vcpu → α), (∀ vc, g (f vc) = g vc) → ∀ v : ℕ,
      ((h.vcpus.modify c f)[v]?).map g = (h.vcpus[v]?).map g := by
    intro α g hg v
    rw [List.getElem?_modify]
    cases hv : h.vcpus[v]? with
    | none => rfl
    | some vc =>
      by_cases hcv : c = v
      · simp [hcv, hg]
      · simp [hcv]
  exact ⟨⟨rfl, hmap Vcpu.vm hvm, rfl⟩, hmap Vcpu.state hstate, rfl⟩

/-- The arrangement depends on what is framed. -/
theorem Arranged.of_framed (ha : Arranged h) (hf : Framed h h') : Arranged h' := by
  have hstate : ∀ i, stateAt h' i = stateAt h i := fun i => by rw [stateAt, stateAt, hf.vms]
  refine ⟨⟨?_, ?_, ?_⟩, hf.initialized.trans ha.initialized, ?_⟩
  · rw [hf.vms]
    exact ha.roster.length_le
  · rw [hf.vms]
    exact ha.roster.ids
  · intro i
    rw [hstate]
    exact ha.roster.alive i
  · intro i v hv
    rw [vcpusAt, hf.vms] at hv
    rw [hf.owners]
    exact ha.owned i v hv

variable {c : ℕ}

/-- What keeps the frame keeps the current virtual CPU running. -/
theorem Runs.of_keeps (hr : Runs h c) (hk : Keeps h h') : Runs h' c := by
  obtain ⟨vc, vm, hvc, hstate, hvm, hmem, hrunning⟩ := hr
  have howner := hk.framed.owners c
  have hstates := hk.states c
  rw [hvc] at howner hstates
  obtain ⟨vc', hvc', howner⟩ := Option.map_eq_some_iff.mp howner
  rw [hvc', Option.map_some, Option.map_some, Option.some_inj] at hstates
  refine ⟨vc', vm, hvc', ?_, ?_, hmem, hrunning⟩
  · rw [hstates]
    exact hstate
  · rw [howner, hk.framed.vms]
    exact hvm

theorem Runnable.of_keeps (hr : Runnable h) (hk : Keeps h h') : Runnable h' := by
  obtain ⟨c, hc, hruns⟩ := hr
  exact ⟨c, hk.current.trans hc, hruns.of_keeps hk⟩

/-- **The invariant of a run.** -/
structure Sound (h : Hyp) : Prop where
  arranged : Arranged h
  runnable : Runnable h

theorem Sound.of_keeps (hs : Sound h) (hk : Keeps h h') : Sound h' :=
  ⟨hs.arranged.of_framed hk.framed, hs.runnable.of_keeps hk⟩

/-! ## Scheduling -/

/-- What a slot stands for may run. -/
theorem runs_of_slot (ha : Arranged h) {k v : ℕ} (hslot : Sched.slotVcpu h k = some v) : Runs h v := by
  obtain ⟨sl, -, hslot⟩ := Option.bind_eq_some_iff.mp hslot
  obtain ⟨vm, hvm, hslot⟩ := Option.bind_eq_some_iff.mp hslot
  obtain ⟨i, -, hi⟩ := Vse.vmAt_eq_some hvm
  split at hslot
  · cases hslot
  · rename_i hst
    obtain ⟨v', hv', hslot⟩ := Option.bind_eq_some_iff.mp hslot
    obtain ⟨vc, hvc, hslot⟩ := Option.bind_eq_some_iff.mp hslot
    split at hslot
    · cases hslot
    · rename_i hlive
      obtain rfl := Option.some.inj hslot
      have hmem := List.mem_of_getElem? hv'
      have howner := ha.owned i v' (by rw [vcpusAt, hi]; exact hmem)
      rw [hvc, Option.map_some, Option.some_inj] at howner
      exact ⟨vc, vm, hvc, hlive, by rw [howner]; exact hi, hmem, not_not.mp hst⟩

/-- The vCPU that leaves is ready, whatever it was. -/
theorem switchOut_spec (h : Hyp) (p : ℕ) : Framed h (Sched.switchOut h p) ∧
    ∀ c, Runs h c → Runs (Sched.switchOut h p) c := by
  unfold Sched.switchOut
  cases hp : h.vcpus[p]? with
  | none => exact ⟨(Keeps.refl h).framed, fun _ hr => hr⟩
  | some vc =>
    have hlt : p < h.vcpus.length := (List.getElem?_eq_some_iff.mp hp).1
    refine ⟨⟨rfl, fun v => ?_, rfl⟩, fun c hr => ?_⟩
    · dsimp only
      by_cases hv : p = v
      · rw [← hv, List.getElem?_set_self hlt, hp]
        rfl
      · rw [List.getElem?_set_ne hv]
    · obtain ⟨vc', vm, hvc', hstate, hvm, hmem, hrunning⟩ := hr
      by_cases hc : p = c
      · rw [← hc, hp] at hvc'
        obtain rfl := Option.some.inj hvc'
        have hready : ∀ w : Vcpu, w.vm = vc.vm → w.state = .ready → Runs
            { h with vcpus := h.vcpus.set p w, pmu := (Pmu.pmuSave vc.pmu h.pmu).2 } c := by
          intro w hw hst
          refine ⟨w, vm, ?_, ?_, by rw [hw]; exact hvm, hmem, hrunning⟩
          · rw [← hc]
            exact List.getElem?_set_self hlt
          · rw [hst]
            exact fun hstopped => by cases hstopped
        exact hready _ rfl rfl
      · refine ⟨vc', vm, ?_, hstate, hvm, hmem, hrunning⟩
        dsimp only
        rw [List.getElem?_set_ne hc]
        exact hvc'

/-- The vCPU that comes is current and running. -/
theorem switchIn_spec {next : ℕ} (hr : Runs h next) : Framed h (Sched.switchIn h next) ∧
    Runnable (Sched.switchIn h next) := by
  obtain ⟨vc, vm, hvc, -, hvm, hmem, hrunning⟩ := hr
  have hlt : next < h.vcpus.length := (List.getElem?_eq_some_iff.mp hvc).1
  unfold Sched.switchIn
  rw [hvc]
  refine ⟨⟨rfl, fun v => ?_, rfl⟩, next, rfl, _, vm, List.getElem?_set_self hlt, ?_, hvm, hmem,
    hrunning⟩
  · dsimp only
    by_cases hv : next = v
    · rw [← hv, List.getElem?_set_self hlt, hvc]
      rfl
    · rw [List.getElem?_set_ne hv]
  · exact fun hstopped => by cases hstopped

variable {t : TrapLabel}

/-- **What a trap does by itself leaves a runnable vCPU.** -/
theorem Sound.here (hs : Sound h) (hl : Local t c h h') : Sound h' := by
  cases hl with
  | own hf =>
    exact hs.of_keeps (keeps_modify h c (fun vc => congrArg Prod.fst (hf.bound vc)) hf.state)
  | switch hslot =>
    have hnext := runs_of_slot hs.arranged hslot
    unfold Sched.vcpuDoSwitch
    cases h.current with
    | none =>
      obtain ⟨hin, hrun⟩ := switchIn_spec hnext
      exact ⟨hs.arranged.of_framed hin, hrun⟩
    | some p =>
      obtain ⟨hout, hkept⟩ := switchOut_spec h p
      obtain ⟨hin, hrun⟩ := switchIn_spec (hkept _ hnext)
      exact ⟨hs.arranged.of_framed (hout.trans hin), hrun⟩
  | beside hb => exact hs.of_keeps (keeps_of_eq hb.vms hb.vcpus hb.current hb.initialized)

theorem Sound.locals (hs : Sound h) (hl : Locals t c h h') : Sound h' := by
  induction hl with
  | refl => exact hs
  | tail _ hlast ih => exact ih.here hlast

/-! ## Another VM -/

theorem getElem?_stopVcpus_of_notMem {vs : List ℕ} (hc : c ∉ vs) (pool : List Vcpu) :
    (stopVcpus vs pool)[c]? = pool[c]? := by
  induction vs generalizing pool with
  | nil => rfl
  | cons v vs ih =>
    have hne : v ≠ c := fun heq => hc (by rw [heq]; exact List.mem_cons_self)
    refine (ih (fun hmem => hc (List.mem_cons_of_mem v hmem)) _).trans ?_
    rw [List.getElem?_modify]
    simp [hne]

/-- Stopped virtual CPUs keep their owner. -/
theorem owner_stopVcpus (vs : List ℕ) (pool : List Vcpu) (w : ℕ) :
    ((stopVcpus vs pool)[w]?).map Vcpu.vm = (pool[w]?).map Vcpu.vm := by
  induction vs generalizing pool with
  | nil => rfl
  | cons v vs ih =>
    refine (ih _).trans ?_
    rw [List.getElem?_modify]
    cases pool[w]? with
    | none => rfl
    | some vc => by_cases hv : v = w <;> simp [hv, vcpuStop]

/-- The VM of the current vCPU, by its index. -/
def currentIdx (h : Hyp) : Option ℕ := h.current.bind fun c => (h.vcpus[c]?).map Vcpu.vm

variable {j : ℕ} {st : VmState}

/-- A VM may change its state, and the vCPUs theirs, as long as none
changes hands. -/
theorem Arranged.of_set (ha : Arranged h) {vm : Vm}
    (hvm : h.vms[j]? = some vm) (hst : st ≠ .none)
    (howner : ∀ w : ℕ, (h'.vcpus[w]?).map Vcpu.vm = (h.vcpus[w]?).map Vcpu.vm)
    (hvms : h'.vms = h.vms.set j { vm with state := st }) (htrust : h'.trust = h.trust) :
    Arranged h' := by
  have hlt : j < h.vms.length := (List.getElem?_eq_some_iff.mp hvm).1
  have hself : h'.vms[j]? = some { vm with state := st } := by
    rw [hvms]
    exact List.getElem?_set_self hlt
  have hothers : ∀ k : ℕ, k ≠ j → h'.vms[k]? = h.vms[k]? := by
    intro k hk
    rw [hvms]
    exact List.getElem?_set_ne (Ne.symm hk)
  -- each clause looks at one VM: the one that changed, or one as it was
  refine ⟨⟨?_, fun k vm' hk => ?_, fun k => ?_⟩, ?_, fun k v hv => ?_⟩
  · rw [hvms, List.length_set]
    exact ha.roster.length_le
  · by_cases hkj : k = j
    · rw [hkj, hself] at hk
      obtain rfl := Option.some.inj hk
      rw [hkj]
      exact ha.roster.ids j vm hvm
    · rw [hothers k hkj] at hk
      exact ha.roster.ids k vm' hk
  · by_cases hkj : k = j
    · rw [hkj, stateAt_of_vm hself]
      exact fun hnone => hst (Option.some.inj hnone)
    · rw [stateAt, hothers k hkj]
      exact ha.roster.alive k
  · rw [htrust]
    exact ha.initialized
  · have hlist : vcpusAt h' k = vcpusAt h k := by
      by_cases hkj : k = j
      · rw [vcpusAt, vcpusAt, hkj, hself, hvm]
        rfl
      · rw [vcpusAt, vcpusAt, hothers k hkj]
    rw [hlist] at hv
    rw [howner]
    exact ha.owned k v hv

/-- **A VM other than the current one may change its state**, and the
vCPUs of that VM theirs. -/
theorem Sound.of_other (hs : Sound h) {vm : Vm} {pool : List Vcpu}
    (hvm : h.vms[j]? = some vm) (hst : st ≠ .none) (hj : currentIdx h ≠ some j)
    (howner : ∀ w : ℕ, (pool[w]?).map Vcpu.vm = (h.vcpus[w]?).map Vcpu.vm)
    (hrest : ∀ c, c ∉ vm.vcpus → pool[c]? = h.vcpus[c]?)
    (hvms : h'.vms = h.vms.set j { vm with state := st }) (hpool : h'.vcpus = pool)
    (hcur : h'.current = h.current) (htrust : h'.trust = h.trust) : Sound h' := by
  refine ⟨hs.arranged.of_set hvm hst (by rw [hpool]; exact howner) hvms htrust, ?_⟩
  obtain ⟨c, hc, vc, cvm, hvc, hlive, hcvm, hmem, hrunning⟩ := hs.runnable
  have hne : vc.vm ≠ j := by
    intro heq
    refine hj ?_
    rw [currentIdx, hc, Option.bind_some, hvc, Option.map_some, heq]
  -- the current vCPU is not among those of the VM that changes
  have hnot : c ∉ vm.vcpus := by
    intro hin
    have hown := hs.arranged.owned j c (by rw [vcpusAt, hvm]; exact hin)
    rw [hvc, Option.map_some, Option.some_inj] at hown
    exact hne hown
  refine ⟨c, hcur.trans hc, vc, cvm, ?_, hlive, ?_, hmem, hrunning⟩
  · rw [hpool, hrest c hnot]
    exact hvc
  · rw [hvms, List.getElem?_set_ne (Ne.symm hne)]
    exact hcvm

/-- The VM an id names is the current one only if the id is its. -/
theorem ne_currentIdx (ha : Arranged h) {id : U32} (hid : vmById h id = some j)
    (hne : id ≠ currentVmId h) : currentIdx h ≠ some j := by
  intro hcur
  obtain ⟨c, hc, hidx⟩ := Option.bind_eq_some_iff.mp hcur
  obtain ⟨vc, hvc, hj⟩ := Option.map_eq_some_iff.mp hidx
  obtain ⟨rfl, -, vm, hvm⟩ := ha.roster.vmById_eq hid
  refine hne ?_
  rw [currentVmId, currentVm, hc, Option.bind_some, hvc, Option.bind_some, hj, hvm, Option.map_some,
    Option.getD_some, ha.roster.ids j vm hvm]

theorem sound_vmStop (hs : Sound h) (hj : currentIdx h ≠ some j) :
    Sound (vmStop h j).2 :=
  keeps_of_cases (R := Sound) (vmStop_cases h j) hs fun vm hvm =>
    hs.of_other hvm (by decide) hj (owner_stopVcpus vm.vcpus h.vcpus)
      (fun c hc => getElem?_stopVcpus_of_notMem hc h.vcpus) rfl rfl rfl rfl

theorem sound_vmSuspend (hs : Sound h) (hj : currentIdx h ≠ some j) :
    Sound (vmSuspend h j).2 :=
  keeps_of_cases (R := Sound) (vmSuspend_cases h j) hs fun vm hvm =>
    hs.of_other hvm (by decide) hj (fun _ => rfl) (fun _ _ => rfl) rfl rfl rfl rfl

/-- Only a suspended VM is resumed, so not the current one. -/
theorem sound_vmResume (hs : Sound h) (j : ℕ) : Sound (vmResume h j).2 := by
  rcases vmResume_cases h j with heq | ⟨vm, hvm, hsusp, heq⟩
  · rw [heq]
    exact hs
  · rw [heq]
    refine hs.of_other hvm (by decide) ?_ (fun _ => rfl) (fun _ _ => rfl) rfl rfl rfl rfl
    intro hcur
    obtain ⟨c, hc, vc, cvm, hvc, -, hcvm, -, hrunning⟩ := hs.runnable
    rw [currentIdx, hc, Option.bind_some, hvc, Option.map_some, Option.some_inj] at hcur
    rw [hcur, hvm, Option.some_inj] at hcvm
    rw [hcvm, hrunning] at hsusp
    cases hsusp

/-! ## Hypercalls -/

section Tables

variable [P : PtPool]

/-- Sharing changes tables and regions, and no virtual CPU. -/
theorem keeps_shmemMap {srcId dstId : U32} {ipa sz : U64} {e : Err}
    (hrun : Shmem.shmemMap h srcId dstId ipa sz = some (e, h')) : Keeps h h' := by
  rw [Hypercall.shmemMap_rest hrun]
  exact keeps_of_eq rfl rfl rfl rfl

omit P in
theorem keeps_shmemUnmap (h : Hyp) (ipa sz : U64) : Keeps h (Shmem.shmemUnmap h ipa sz).2 := by
  rw [Hypercall.shmemUnmap_rest]
  exact keeps_of_eq rfl rfl rfl rfl

/-! ## The traps that take the guest away -/

/-- A fault of the current VM would not have it quarantined. -/
def FaultSpares (h : Hyp) : Prop := ∀ ix, idx (currentVmId h) = some ix → ¬ Vse.Escalates h ix

/-- The guard lets the current VM's transfer through. -/
def DmaAllowed (h : Hyp) (ipa x2 : U64) : Prop :=
  ∀ vm, currentVm h = some vm →
    Dma.dmaGuardCheckIpa h.s2 vm.s2Pgd ipa (if x2 ≠ 0 then x2 else 0x1000) = some .ok

/-- A hypercall that does not stop or suspend the caller's own VM, nor
has it quarantined for a transfer it may not make. -/
def SparesCall (h : Hyp) (x : Hypercall.Regs) : Prop :=
  ((x 0).setWidth 32 = (3 : U32) ∨ (x 0).setWidth 32 = (4 : U32) →
    (x 1).setWidth 32 ≠ currentVmId h) ∧
  ((x 0).setWidth 32 = (0x68 : U32) → DmaAllowed h (x 1) (x 2) ∨ FaultSpares h)

/-- **A trap that leaves the guest its CPU or takes it by a switch.** -/
def Spares (h : Hyp) (t : TrapLabel) : Prop :=
  match t.cause with
  | .irq _ _ => True
  | .sync esr far _ =>
    match Class.ofEsr esr with
    | .hvc64 => SparesCall h t.regs.x
    | .dabtLower => isMmioFar far = true ∨ FaultSpares h
    | _ => True

/-- **A transfer** that is allowed, or whose fault spares the caller. -/
theorem sound_hvcDmaXfer (hs : Sound h) {ipa x2 : U64} {e : Err}
    (hspare : DmaAllowed h ipa x2 ∨ FaultSpares h)
    (hrun : Dma.hvcDmaXfer h ipa x2 = some (e, h')) : Sound h' := by
  unfold Dma.hvcDmaXfer at hrun
  split at hrun
  · cases hrun
    exact hs
  · rename_i vm hvm
    obtain ⟨e₁, hcheck, hrun⟩ := Option.bind_eq_some_iff.mp hrun
    split at hrun
    · cases hrun
      exact hs
    · rename_i hbad
      obtain ⟨g, hlog, hrun⟩ := Option.bind_eq_some_iff.mp hrun
      cases hrun
      rcases hspare with hallow | hquiet
      · exact absurd (Option.some.inj (hcheck.symm.trans (hallow vm hvm))) hbad
      · have hid : currentVmId h = vm.id := by rw [currentVmId, hvm]; rfl
        rw [FaultSpares, hid] at hquiet
        exact hs.of_keeps (keeps_of_onlyVse
          (Vse.fdetectDmaViolation_onlyVse hs.arranged.initialized hquiet hlog))

/-- **A hypercall that spares the caller** leaves it runnable. -/
theorem sound_hvcCall (hs : Sound h) {x x' : Hypercall.Regs} (hspare : SparesCall h x)
    (hrun : Hypercall.hvcCall h x = some (x', h')) : Sound h' := by
  rcases Hypercall.hvcCall_cases hrun with
    haside | ⟨hid, rfl⟩ | ⟨hid, rfl⟩ | rfl | ⟨src, dst, e, hmap⟩ | rfl | ⟨hid, e, hdma⟩
  · exact hs.of_keeps (keeps_of_aside haside)
  · rcases Hypercall.onVm_cases vmStop h ((x 1).setWidth 32) with heq | ⟨j, hj, heq⟩
    · rw [Hypercall.hvcVmStop, heq]
      exact hs
    · rw [Hypercall.hvcVmStop, heq]
      exact sound_vmStop hs (ne_currentIdx hs.arranged hj (hspare.1 (.inl hid)))
  · rcases Hypercall.onVm_cases vmSuspend h ((x 1).setWidth 32) with heq | ⟨j, hj, heq⟩
    · rw [Hypercall.hvcVmSuspend, heq]
      exact hs
    · rw [Hypercall.hvcVmSuspend, heq]
      exact sound_vmSuspend hs (ne_currentIdx hs.arranged hj (hspare.1 (.inr hid)))
  · rcases Hypercall.onVm_cases vmResume h ((x 1).setWidth 32) with heq | ⟨j, hj, heq⟩
    · rw [Hypercall.hvcVmResume, heq]
      exact hs
    · rw [Hypercall.hvcVmResume, heq]
      exact sound_vmResume hs j
  · exact hs.of_keeps (keeps_shmemMap hmap)
  · exact hs.of_keeps (keeps_shmemUnmap h _ _)
  · exact sound_hvcDmaXfer hs (hspare.2 hid) hdma

/-! ## The trap -/

/-- **A trap of the other kinds leaves a runnable guest.** -/
theorem sound_trapStep (hs : Sound h) (hspare : Spares h t)
    (hrun : trapStep h t = some h') : Sound h' := by
  obtain ⟨c, hc, hl | ⟨g, hsave, hlast, esr, far, hpfar, hcause, hcases⟩⟩ := trapStep_cases hrun
  · exact hs.locals hl
  refine Sound.locals ?_ hlast
  have hs₁ := hs.locals hsave
  have hid := currentVmId_saveGuestRegs h c t.regs
  -- nothing the condition speaks of is among the saved registers
  have hfault : FaultSpares h → FaultSpares (saveGuestRegs h c t.regs) := by
    intro hquiet
    rw [FaultSpares, hid]
    exact hquiet
  have hdma : ∀ ipa x2, DmaAllowed h ipa x2 → DmaAllowed (saveGuestRegs h c t.regs) ipa x2 := by
    intro ipa x2 hallow
    rw [DmaAllowed, currentVm_saveGuestRegs]
    exact hallow
  unfold Spares at hspare
  rw [hcause] at hspare
  dsimp only at hspare
  rcases hcases with ⟨hclass, x, hcall⟩ | ⟨hclass, hfar, ipa, wr, hreport⟩
  · rw [hclass] at hspare
    unfold Hypercall.hvcDispatch at hcall
    split at hcall
    · obtain ⟨v, -, hcall⟩ := Option.map_eq_some_iff.mp hcall
      cases hcall
      exact hs₁
    · refine sound_hvcCall hs₁ ⟨?_, fun hid' => ?_⟩ hcall
      · rw [hid]
        exact hspare.1
      · exact (hspare.2 hid').imp (hdma _ _) hfault
  · rw [hclass] at hspare
    have hquiet := hfault (hspare.resolve_left (by rw [hfar]; exact Bool.false_ne_true))
    exact hs₁.of_keeps
      (keeps_of_onlyVse (Vse.fdetectMemFault_onlyVse hs₁.arranged.initialized hquiet hreport))

/-! ## From boot on -/

/-- **The first guest is runnable.** -/
theorem sound_of_launch {h₀ : Hyp} (hb : Boot.Booted h₀ h) (gm : U32 → Vse.Gmeas) :
    ∃ h₁, Boot.launch h gm = some h₁ ∧ Sound h₁ ∧ currentVmId h₁ = 2 := by
  obtain ⟨g, vc, hlaunch, hvc, hcur, hvms, hvcpus, hinit⟩ := Boot.exists_launch hb gm
  have howner : ∀ v : ℕ, (h.vcpus[v]?).map Vcpu.vm = ([0, 1, 2, 2] : List ℕ)[v]? := by
    intro v
    rw [← hb.vcpus, List.getElem?_map]
  have hlt : 1 < h.vcpus.length := (List.getElem?_eq_some_iff.mp hvc).1
  have hself : g.vcpus[1]? = some { vc with state := .running } := by
    rw [hvcpus]
    exact List.getElem?_set_self hlt
  have hvm : vc.vm = 1 := by
    have hown := howner 1
    rw [hvc] at hown
    exact Option.some.inj hown
  have hframe : Framed h { g with trust := h.trust } := by
    refine ⟨hvms, fun v => ?_, rfl⟩
    by_cases hv : v = 1
    · rw [hv]
      exact (congrArg (Option.map Vcpu.vm) hself).trans (congrArg (Option.map Vcpu.vm) hvc).symm
    · dsimp only
      rw [hvcpus, List.getElem?_set_ne (Ne.symm hv)]
  obtain ⟨p₁, t₁, p₂, t₂, p₃, t₃, htable, -⟩ := hb.vms
  have hrtos : g.vms[1]? = some (Boot.rtosVm p₂ t₂) := by
    rw [hvms, htable]
    rfl
  refine ⟨g, hlaunch, ⟨⟨?_, hinit, fun i v hv => ?_⟩, 1, hcur, _, Boot.rtosVm p₂ t₂, hself, ?_, ?_,
    ?_, rfl⟩, ?_⟩
  · have hroster := Vse.roster_of_booted hb
    refine ⟨?_, ?_, fun i => ?_⟩
    · rw [hvms]
      exact hroster.length_le
    · rw [hvms]
      exact hroster.ids
    · rw [stateAt, hvms]
      exact hroster.alive i
  · rw [hframe.owners v, howner]
    rw [vcpusAt, hvms] at hv
    have hlist := Vse.vcpusAt_of_booted hb i
    rw [vcpusAt] at hlist
    rw [hlist] at hv
    rcases i with _ | _ | _ | i
    · obtain rfl := List.mem_singleton.mp hv
      rfl
    · obtain rfl := List.mem_singleton.mp hv
      rfl
    · rcases List.mem_pair.mp hv with rfl | rfl <;> rfl
    · cases hv
  · exact fun hstopped => by cases hstopped
  · rw [hvm]
    exact hrtos
  · exact List.mem_singleton.mpr rfl
  · rw [currentVmId, currentVm, hcur, Option.bind_some, hself, Option.bind_some, hvm, hrtos]
    rfl

/-- **Only runnable vCPUs run.** On every machine the platform boots and
launches its first guest, and the guest that is returned to, now and after
every trap, may run, as long as no trap takes the trapping guest away and
none stores into the hypervisor's own memory. -/
theorem only_runnable_run (mem : U64 → U64) (phys : U64 → U8) (timer : ℕ → U64) :
    ∃ h, Boot.platformInit (Hyp.start mem phys timer) = some (.ok, h) ∧
      ∀ gm, ∃ h₁, Boot.launch h gm = some h₁ ∧
        ∀ ts, Guarded trapStep (fun h t => Spares h t ∧ StoresOutside h t) h₁ ts →
          Throughout trapStep Runnable h₁ ts := by
  obtain ⟨h, hboot, hb⟩ := Boot.exists_platformInit mem phys timer
  refine ⟨h, hboot, fun gm => ?_⟩
  obtain ⟨h₁, hlaunch, hs, -⟩ := sound_of_launch hb gm
  refine ⟨h₁, hlaunch, fun ts hguard => ?_⟩
  exact throughout_of_guarded (fun _ _ _ hs hspare hrun => sound_trapStep hs hspare.1 hrun)
    (fun _ hs => hs.runnable) hs hguard

end Tables

/-- A guest that waits and then is interrupted by the timer. -/
theorem only_runnable_run_wfi_timer :
    letI := Stage2.poolAt2M
    ∃ h, Boot.platformInit Hyp.blank = some (.ok, h) ∧
      ∃ h₁, Boot.launch h (fun _ => .match) = some h₁ ∧ Throughout trapStep Runnable h₁
        [⟨⟨fun _ => 0, 0, 0⟩, .sync 0x04000000 0 0⟩, ⟨⟨fun _ => 0, 0, 0⟩, .irq true 1023⟩] := by
  let _ := Stage2.poolAt2M
  obtain ⟨h, hboot, hruns⟩ := only_runnable_run (fun _ => 0) (fun _ => 0) fun _ => 0
  obtain ⟨h₁, hlaunch, hrun⟩ := hruns fun _ => .match
  have hclass : Class.ofEsr 0x04000000 = .wfi := by decide
  refine ⟨h, hboot, h₁, hlaunch, hrun _ ⟨⟨?_, ?_⟩, fun _ _ => ⟨⟨trivial, ?_⟩, fun _ _ => trivial⟩⟩⟩
  · simp only [Spares, hclass]
  · rintro esr far hpfar ⟨⟩ hcall
    exact absurd (hclass.symm.trans hcall) (by decide)
  · rintro esr far hpfar ⟨⟩

/-- The trap of a guest that asks to stop the VM with this id. -/
def stopCall (vmId : U64) : TrapLabel where
  regs := ⟨fun n => if n = 0 then 3 else if n = 1 then vmId else 0, 0, 0⟩
  cause := .sync 0x58000000 0 0

section Stop

variable [P : PtPool]

theorem hvcDispatch_stop {x : Hypercall.Regs} (hx : x 0 = 3) :
    Hypercall.hvcDispatch h x =
      some (Function.update x 0 (Hypercall.hvcVmStop h ((x 1).setWidth 32)).1.word,
        (Hypercall.hvcVmStop h ((x 1).setWidth 32)).2) := by
  unfold Hypercall.hvcDispatch Hypercall.hvcCall
  rw [if_neg (by rw [hx]; decide)]
  dsimp only
  rw [if_neg (by rw [hx]; decide), if_neg (by rw [hx]; decide), if_pos (by rw [hx]; decide)]

omit P in
/-- A guest whose VM does not run is not runnable. -/
theorem not_runnable_of_state (hidx : currentIdx h = some j)
    (hst : stateAt h j = some st) (hne : st ≠ .running) : ¬ Runnable h := by
  rintro ⟨c, hc, vc, vm, hvc, -, hvm, -, hrunning⟩
  rw [currentIdx, hc, Option.bind_some, hvc, Option.map_some, Option.some_inj] at hidx
  rw [hidx] at hvm
  rw [stateAt_of_vm hvm, hrunning, Option.some_inj] at hst
  exact hne hst.symm

omit P in
theorem currentIdx_of_keeps (hk : Keeps h h') : currentIdx h' = currentIdx h := by
  rw [currentIdx, currentIdx, hk.current]
  congr 1
  funext c
  exact hk.framed.owners c

omit P in
theorem currentIdx_vmStop (h : Hyp) (j : ℕ) : currentIdx (vmStop h j).2 = currentIdx h := by
  refine keeps_of_cases (R := fun g => currentIdx g = currentIdx h) (vmStop_cases h j) rfl
    fun vm _ => ?_
  unfold currentIdx
  dsimp only
  congr 1
  funext c
  exact owner_stopVcpus ..

/-- **A guest that stops itself goes on.** -/
theorem stopCall_not_runnable (hs : Sound h) {vmId : U64}
    (hid : vmId.setWidth 32 = currentVmId h) :
    ∃ h', trapStep h (stopCall vmId) = some h' ∧ ¬ Runnable h' := by
  obtain ⟨c, hc, vc, vm, hvc, -, hvm, -, hrunning⟩ := hs.runnable
  have hsave : Keeps h (saveGuestRegs h c (stopCall vmId).regs) :=
    keeps_modify h c (fun _ => rfl) fun _ => rfl
  have hs₁ := hs.of_keeps hsave
  have hvmId : currentVmId h = BitVec.ofNat 32 (vc.vm + 1) := by
    rw [currentVmId, currentVm, hc, Option.bind_some, hvc, Option.bind_some, hvm]
    exact hs.arranged.roster.ids vc.vm vm hvm
  have hidx : currentIdx h = some vc.vm := by
    rw [currentIdx, hc, Option.bind_some, hvc, Option.map_some]
  have hclass : Class.ofEsr 0x58000000 = .hvc64 := by decide
  unfold trapStep
  rw [hc]
  dsimp only
  generalize saveGuestRegs h c (stopCall vmId).regs = h₁ at hsave hs₁ ⊢
  have hvm₁ : h₁.vms[vc.vm]? = some vm := by
    rw [hsave.framed.vms]
    exact hvm
  have hstop : Hypercall.hvcVmStop h₁ (vmId.setWidth 32) = vmStop h₁ vc.vm := by
    have hfound : vmById h₁ (vmId.setWidth 32) = some vc.vm := by
      rw [hid, hvmId]
      exact hs₁.arranged.roster.vmById_of_vm hvm₁
    rw [Hypercall.hvcVmStop, Hypercall.onVm, hfound]
  have hcall := hvcDispatch_stop (h := h₁) (x := (stopCall vmId).regs.x) rfl
  have hx1 : (stopCall vmId).regs.x 1 = vmId := rfl
  rw [hx1, hstop] at hcall
  have hstate := (vmStop_becomes hvm₁).2.state
  have hidx₁ : currentIdx (vmStop h₁ vc.vm).2 = some vc.vm := by
    rw [currentIdx_vmStop, currentIdx_of_keeps hsave, hidx]
  generalize vmStop h₁ vc.vm = r at hcall hstate hidx₁
  generalize Function.update (stopCall vmId).regs.x 0 r.1.word = x at hcall
  have hsync : ∀ far hpfar, hypSyncHandler h₁ c (stopCall vmId).regs 0x58000000 far hpfar =
      some { r.2 with vcpus := r.2.vcpus.modify c fun w => w.setX x } := by
    intro far hpfar
    unfold hypSyncHandler
    rw [hclass]
    dsimp only
    rw [hcall]
    rfl
  refine ⟨_, hsync 0 0, ?_⟩
  -- the vCPU that trapped is still the current one, and its VM is stopped
  have hres := keeps_modify r.2 c (f := fun w => w.setX x) (fun _ => rfl) fun _ => rfl
  rw [← currentIdx_of_keeps hres] at hidx₁
  exact not_runnable_of_state hidx₁ hstate (by decide)

end Stop

/-- On a machine whose memory is zero and with every guest measured as
expected: the first guest, the RTOS, stops its own VM and is returned to. -/
theorem rtos_runs_after_stop :
    letI := Stage2.poolAt2M
    ∃ h, Boot.platformInit Hyp.blank = some (.ok, h) ∧
      ∃ h₁, Boot.launch h (fun _ => .match) = some h₁ ∧
        ∃ h₂, trapStep h₁ (stopCall 2) = some h₂ ∧ ¬ Runnable h₂ := by
  let _ := Stage2.poolAt2M
  obtain ⟨h, hboot, hb⟩ := Boot.exists_platformInit (fun _ => 0) (fun _ => 0) fun _ => 0
  obtain ⟨h₁, hlaunch, hs, hid⟩ := sound_of_launch hb fun _ => .match
  refine ⟨h, hboot, h₁, hlaunch, stopCall_not_runnable hs ?_⟩
  rw [hid]
  rfl

end Trap

end HypervisorBase
