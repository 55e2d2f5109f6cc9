import HypervisorBase.Sched.Events
/-!
# Who may use an emulated device

A device registered for one VM is for that VM alone: an access of another
is refused, counted, and reads as zero. `mmio_handle` decides by the VM
that `mmio_set_current_vm` named last, and nothing calls that function, so
the id stays 0 whatever the scheduler does. `mmio_ownership_iff` says what
is left of the rule: a device is refused to every VM, its owner included,
and only an access of the owner is decided wrongly.
-/

namespace HypervisorBase

namespace Sched

variable {h h' : Hyp}

/-- Launching the first guest registers no device. -/
theorem mmio_schedRun (hrun : schedRun h = some h') : h'.mmio = h.mmio := by
  rw [(onlySched_schedRun hrun).mmio, startReady_rest]

end Sched

namespace Device

/-! ## Registration -/

/-- A call of one of the two registration functions. -/
inductive Registration
  | shared (base sz : U64) (fn : Option MmioFn)
  | owned (vmId : U32) (base sz : U64) (fn : Option MmioFn)

def Registration.run (h : Hyp) : Registration → Hyp
  | .shared base sz fn => (mmioRegister h base sz fn).2
  | .owned vmId base sz fn => (mmioRegisterVmDevice h vmId base sz fn).2

/-- **The states the rule is about**: devices are registered in an empty
table, the scheduler launches the first guest, and then there are events. -/
def scheduled (h : Hyp) (regs : List Registration) (events : List Sched.Event) : Option Hyp :=
  (Sched.schedRun (regs.foldl Registration.run { h with mmio := ⟨[], 0⟩ })).map
    (events.foldl Sched.Event.run)

theorem currentVmId_run (h : Hyp) (reg : Registration) :
    (reg.run h).mmio.currentVmId = h.mmio.currentVmId := by
  have hadd : ∀ owner base sz fn, (mmioAdd h owner base sz fn).2.mmio.currentVmId =
      h.mmio.currentVmId := by
    intro owner base sz fn
    unfold mmioAdd
    split <;> rfl
  cases reg with
  | shared base sz fn => exact hadd 0 base sz fn
  | owned vmId base sz fn => exact hadd vmId base sz fn

theorem currentVmId_registered (regs : List Registration) (h : Hyp) :
    (regs.foldl Registration.run h).mmio.currentVmId = h.mmio.currentVmId := by
  induction regs generalizing h with
  | nil => rfl
  | cons reg regs ih => exact (ih _).trans (currentVmId_run h reg)

/-- **Nobody tells the devices which VM runs.** -/
theorem currentVmId_scheduled {h g : Hyp} {regs : List Registration} {events : List Sched.Event}
    (hrun : scheduled h regs events = some g) : g.mmio.currentVmId = 0 := by
  obtain ⟨h₁, hlaunch, rfl⟩ := Option.map_eq_some_iff.mp hrun
  rw [(Sched.onlySched_events events h₁).mmio, Sched.mmio_schedRun hlaunch, currentVmId_registered]

/-! ## The rule -/

/-- An active region that contains the address. -/
def Covers (r : MmioReg) (fa : U64) : Prop := r.active = true ∧ r.base ≤ fa ∧ fa < r.base + r.sz

/-- The first of the table. -/
structure FirstRegion (h : Hyp) (fa : U64) (i : ℕ) (r : MmioReg) : Prop where
  region : h.mmio.regs[i]? = some r
  covers : Covers r fa
  first : ∀ j < i, ∀ r', h.mmio.regs[j]? = some r' → ¬ Covers r' fa

/-- Bit 6 of the syndrome. -/
def isWriteAccess (esr : U64) : Bool := (esr >>> 6) &&& 1 ≠ 0

/-- The access is handed to the region's emulation function. -/
def invoke (h : Hyp) (r : MmioReg) (fa esr : U64) : Hyp :=
  match r.fn with
  | none => h
  | some fn =>
    let result := runMmioFn h fa (isWriteAccess esr) 0 fn
    putResult result.2 esr (isWriteAccess esr) result.1

/-- The access is refused: counted at the region, and read as zero. -/
def refuse (h : Hyp) (i : ℕ) (r : MmioReg) (esr : U64) : Hyp :=
  putResult { h with mmio := { h.mmio with
    regs := h.mmio.regs.set i { r with violationCnt := r.violationCnt + 1 } } }
    esr (isWriteAccess esr) 0

/-- **The rule for an access of VM `v`**: the first region decides, and no
register changes but the destination of a read. -/
structure OwnershipRule (h h' : Hyp) (v : U32) (fa esr : U64) : Prop where
  invoked : ∀ i r, FirstRegion h fa i r → r.ownerVmId = 0 ∨ r.ownerVmId = v →
    h' = invoke h r fa esr
  refused : ∀ i r, FirstRegion h fa i r → ¬ (r.ownerVmId = 0 ∨ r.ownerVmId = v) →
    h' = refuse h i r esr
  registers : h'.vcpus = h.vcpus ∨ isWriteAccess esr = false ∧
    ∃ val, h'.vcpus = (h.modifyCurrent fun vc =>
      vc.setX (putReg vc.regs.x (srtOf esr) val)).vcpus

/-! ## What the code does -/

section Access

variable {h : Hyp} {fa esr : U64} {i : ℕ} {r : MmioReg}

/-- The test of the loop. -/
theorem covers_iff (r : MmioReg) (fa : U64) :
    (r.active && !(fa < r.base || r.base + r.sz ≤ fa)) = true ↔ Covers r fa := by
  simp [Covers, BitVec.not_lt, BitVec.not_le]

/-- The search stops at the first region that matches. -/
theorem findIdx?_of_first (hf : FirstRegion h fa i r) :
    (h.mmio.regs.findIdx? fun r => r.active && !(fa < r.base || r.base + r.sz ≤ fa)) = some i := by
  obtain ⟨hi, hr⟩ := List.getElem?_eq_some_iff.mp hf.region
  refine List.findIdx?_eq_some_iff_getElem.mpr ⟨hi, ?_, fun j hj => ?_⟩
  · rw [hr]
    exact (covers_iff r fa).mpr hf.covers
  · intro hcov
    exact hf.first j hj _ (List.getElem?_eq_getElem (Nat.lt_trans hj hi)) ((covers_iff _ fa).mp hcov)

/-- The first region decides, for the VM that was named last. -/
theorem mmioHandle_of_first (hf : FirstRegion h fa i r) (esr : U64) :
    mmioHandle h fa esr =
      if r.ownerVmId ≠ 0 ∧ r.ownerVmId ≠ h.mmio.currentVmId then refuse h i r esr
      else invoke h r fa esr := by
  unfold mmioHandle
  rw [findIdx?_of_first hf]
  dsimp only
  rw [hf.region]
  rfl

theorem mmio_putResult (h : Hyp) (esr : U64) (isWrite : Bool) (val : U64) :
    (putResult h esr isWrite val).mmio = h.mmio := by
  unfold putResult Hyp.modifyCurrent
  split
  · rfl
  · split <;> rfl

theorem mmio_invoke (h : Hyp) (r : MmioReg) (fa esr : U64) : (invoke h r fa esr).mmio = h.mmio := by
  unfold invoke
  cases r.fn with
  | none => rfl
  | some fn =>
    have hfn := congrArg Hyp.mmio (runMmioFn_rest h fa (isWriteAccess esr) 0 fn)
    exact (mmio_putResult _ esr _ _).trans hfn

/-- Only a refusal is counted. -/
theorem refuse_ne_invoke (hf : FirstRegion h fa i r) (esr : U64) :
    refuse h i r esr ≠ invoke h r fa esr := by
  intro heq
  have hregs : (refuse h i r esr).mmio.regs[i]? = (invoke h r fa esr).mmio.regs[i]? := by rw [heq]
  have hlt : i < h.mmio.regs.length := (List.getElem?_eq_some_iff.mp hf.region).1
  rw [mmio_invoke, hf.region, refuse, mmio_putResult] at hregs
  dsimp only at hregs
  rw [List.getElem?_set_self hlt, Option.some_inj] at hregs
  have hcount : r.violationCnt + 1 = r.violationCnt := congrArg MmioReg.violationCnt hregs
  simp at hcount

/-- The only register that changes is the destination of a read. -/
theorem registers_putResult {g : Hyp} (hvcpus : g.vcpus = h.vcpus) (hcur : g.current = h.current)
    (esr : U64) (val : U64) :
    (putResult g esr (isWriteAccess esr) val).vcpus = h.vcpus ∨ isWriteAccess esr = false ∧
      ∃ w, (putResult g esr (isWriteAccess esr) val).vcpus = (h.modifyCurrent fun vc =>
        vc.setX (putReg vc.regs.x (srtOf esr) w)).vcpus := by
  cases hwr : isWriteAccess esr with
  | true => exact .inl hvcpus
  | false =>
    refine .inr ⟨rfl, val, ?_⟩
    simp only [putResult, Hyp.modifyCurrent, hcur]
    cases h.current with
    | none => exact hvcpus
    | some c => simp [hvcpus]

/-- Only a read changes a register of the guest. -/
theorem registers_mmioHandle (h : Hyp) (fa esr : U64) :
    (mmioHandle h fa esr).vcpus = h.vcpus ∨ isWriteAccess esr = false ∧
      ∃ val, (mmioHandle h fa esr).vcpus = (h.modifyCurrent fun vc =>
        vc.setX (putReg vc.regs.x (srtOf esr) val)).vcpus := by
  rcases mmioHandle_eq h fa esr with heq | ⟨m, p, val, heq⟩
  · rw [heq]
    exact .inl rfl
  · rw [heq]
    have hvcpus : Hyp.vcpus { h with mmio := m, phys := p } = h.vcpus := rfl
    exact registers_putResult hvcpus rfl esr val

/-- With no VM named, the rule holds of an access unless it is the
owner's. -/
theorem ownershipRule_iff (hcur : h.mmio.currentVmId = 0) (v : U32) (fa esr : U64) :
    OwnershipRule h (mmioHandle h fa esr) v fa esr ↔
      ∀ i r, FirstRegion h fa i r → r.ownerVmId = 0 ∨ r.ownerVmId ≠ v := by
  constructor
  · intro hrule i r hf
    by_contra hnot
    obtain ⟨howned, hmine⟩ := not_or.mp hnot
    have hinvoked := hrule.invoked i r hf (.inr (not_not.mp hmine))
    rw [mmioHandle_of_first hf, hcur, if_pos ⟨howned, howned⟩] at hinvoked
    exact refuse_ne_invoke hf esr hinvoked
  · intro hothers
    refine ⟨fun i r hf hallowed => ?_, fun i r hf hdenied => ?_, registers_mmioHandle h fa esr⟩
    · have hshared : r.ownerVmId = 0 := by
        rcases hallowed with hzero | hmine
        · exact hzero
        · exact (hothers i r hf).resolve_right fun hne => hne hmine
      rw [mmioHandle_of_first hf, if_neg fun hboth => hboth.1 hshared]
    · obtain ⟨howned, -⟩ := not_or.mp hdenied
      rw [mmioHandle_of_first hf, hcur, if_pos ⟨howned, howned⟩]

end Access

/-- **MMIO ownership follows the running VM**, for every table of regions
and every history of the scheduler, if and only if the access is not one
of the owner to its own device. -/
theorem mmio_ownership_iff (h : Hyp) (regs : List Registration) (events : List Sched.Event)
    {g : Hyp} (hrun : scheduled h regs events = some g) (fa esr : U64) :
    OwnershipRule g (mmioHandle g fa esr) (Sched.vcpuVmId g g.current) fa esr ↔
      ∀ i r, FirstRegion g fa i r →
        r.ownerVmId = 0 ∨ r.ownerVmId ≠ Sched.vcpuVmId g g.current :=
  ownershipRule_iff (currentVmId_scheduled hrun) _ fa esr

/-- A guest is ready and the scheduler has a slot for it. -/
def guestReady (id : U32) (type : VmType) : Hyp :=
  let vm : Vm := { vmInit id type with state := .ready, vcpus := [0] }
  { Hyp.blank with
    vms := [vm]
    vcpus := [vcpuInit 0 vm 0]
    sched := { slots := [⟨id, 0, 2000000⟩], cur := 0, stats := Sched.statsInit, timerUs := 0 } }

/-- A device of Linux in which every register reads as 7. -/
def linuxRegion : MmioReg := ⟨0x08010000, 0x1000, some (.device fun _ _ _ m => (7, m)), true, 1, 0⟩

def linuxDevice : Registration := .owned 1 linuxRegion.base linuxRegion.sz linuxRegion.fn

/-- The device of Linux is the only one, and the first at its address. -/
theorem firstRegion_linux {g : Hyp} (hregs : g.mmio.regs = [linuxRegion]) :
    FirstRegion g 0x08010000 0 linuxRegion ∧
      ∀ i r, FirstRegion g 0x08010000 i r → r = linuxRegion := by
  refine ⟨⟨by rw [hregs]; rfl, ⟨rfl, by decide, by decide⟩,
    fun j hj => absurd hj (Nat.not_lt_zero j)⟩, fun i r hf => ?_⟩
  have hr := List.mem_of_getElem? hf.region
  rw [hregs] at hr
  exact List.mem_singleton.mp hr

/-- The RTOS runs and is refused the device of Linux, as it should be. -/
theorem mmio_ownership_foreign :
    ∃ g, scheduled (guestReady 2 .rtos) [linuxDevice] [.timer, .wfi] = some g ∧
      Sched.vcpuVmId g g.current = 2 ∧ FirstRegion g 0x08010000 0 linuxRegion ∧
      OwnershipRule g (mmioHandle g 0x08010000 0x90000000) (Sched.vcpuVmId g g.current) 0x08010000
        0x90000000 := by
  obtain ⟨g, hg, hregs, hrtos⟩ : ∃ g, scheduled (guestReady 2 .rtos) [linuxDevice] [.timer, .wfi] =
      some g ∧ g.mmio.regs = [linuxRegion] ∧ Sched.vcpuVmId g g.current = 2 := ⟨_, rfl, rfl, rfl⟩
  obtain ⟨hfirst, honly⟩ := firstRegion_linux hregs
  refine ⟨g, hg, hrtos, hfirst, (mmio_ownership_iff _ _ _ hg _ _).mpr fun i r hf => .inr ?_⟩
  rw [honly i r hf, hrtos]
  decide

/-- Linux runs and is refused its own device. -/
theorem linux_refused_own_device :
    ∃ g, scheduled (guestReady 1 .linux) [linuxDevice] [.timer, .wfi] = some g ∧
      ¬ OwnershipRule g (mmioHandle g 0x08010000 0x90000000) (Sched.vcpuVmId g g.current) 0x08010000
        0x90000000 := by
  obtain ⟨g, hg, hregs, hlinux⟩ : ∃ g, scheduled (guestReady 1 .linux) [linuxDevice] [.timer, .wfi] =
      some g ∧ g.mmio.regs = [linuxRegion] ∧ Sched.vcpuVmId g g.current = 1 := ⟨_, rfl, rfl, rfl⟩
  refine ⟨g, hg, fun hrule => ?_⟩
  have hothers := (ownershipRule_iff (currentVmId_scheduled hg) _ _ _).mp hrule
  rcases hothers 0 linuxRegion (firstRegion_linux hregs).1 with hshared | hforeign
  · exact absurd hshared (by decide)
  · exact hforeign hlinux.symm

end Device

end HypervisorBase
