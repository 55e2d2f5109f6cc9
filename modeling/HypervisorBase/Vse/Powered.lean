import HypervisorBase.Vse.Levels
/-!
# Running VMs are powered

`vm_suspend` gates a VM's devices and `vm_resume` ungates them, and nothing
else touches the power state. So a VM that leaves `VM_SUSPENDED` by another
door stays gated: `vm_stop` on a suspended VM, and with it a failover,
which a quarantine of a VM with a backup runs right after it has suspended
the VM. `running_vms_powered` says that a VM is gated precisely while it is
suspended as long as no operation does this, and as long as no interrupt
of a VM that is gated belongs to another VM as well.
-/

namespace HypervisorBase

/-! ## Gating and interrupts -/

namespace Power

theorem state_foldl_gateDev (devs : List DevAssign) (p : Power) :
    (devs.foldl gateDev p).state = p.state := by
  induction devs generalizing p with
  | nil => rfl
  | cons d devs ih => exact ih (gateDev p d)

theorem state_foldl_ungateDev (devs : List DevAssign) (p : Power) :
    (devs.foldl ungateDev p).state = p.state := by
  induction devs generalizing p with
  | nil => rfl
  | cons d devs ih => exact ih (ungateDev p d)

/-- Gating leaves the interrupts of other devices alone. -/
theorem irq_foldl_gateDev {devs : List DevAssign} {q : U32}
    (hq : ∀ d ∈ devs, d.irq ≠ 0 → d.irq ≠ q) (p : Power) :
    (devs.foldl gateDev p).irqEnabled q = p.irqEnabled q := by
  induction devs generalizing p with
  | nil => rfl
  | cons d devs ih =>
    refine (ih (fun d' hd' => hq d' (List.mem_cons_of_mem d hd')) _).trans ?_
    have hd := hq d List.mem_cons_self
    unfold gateDev
    dsimp only
    split
    · rename_i hirq
      exact Function.update_of_ne (Ne.symm (hd hirq)) ..
    · rfl

/-- Ungating disables nothing. -/
theorem irq_foldl_ungateDev {q : U32} (devs : List DevAssign) {p : Power}
    (hq : p.irqEnabled q = true) : (devs.foldl ungateDev p).irqEnabled q = true := by
  induction devs generalizing p with
  | nil => exact hq
  | cons d devs ih =>
    refine ih ?_
    unfold ungateDev
    dsimp only
    split
    · by_cases hd : q = d.irq
      · rw [hd, Function.update_self]
      · rw [Function.update_of_ne hd]
        exact hq
    · exact hq

/-- Ungating enables the interrupts of the devices. -/
theorem irq_foldl_ungateDev_of_mem {devs : List DevAssign} {d : DevAssign} (hd : d ∈ devs)
    (hirq : d.irq ≠ 0) (p : Power) : (devs.foldl ungateDev p).irqEnabled d.irq = true := by
  induction devs generalizing p with
  | nil => cases hd
  | cons d' devs ih =>
    rcases List.mem_cons.mp hd with rfl | hd
    · refine irq_foldl_ungateDev devs ?_
      unfold ungateDev
      dsimp only
      rw [if_pos hirq, Function.update_self]
    · exact ih hd _

end Power

namespace Vse

variable {h₀ h h' : Hyp} {i : ℕ} {l : TrustLevel} {s : Option VmState} {id : U32}
  {ix : Fin maxVms} {e : Err}

/-! ## The invariant -/

/-- **Powered**: a VM is gated precisely if it is suspended, and a running
one is on and has the device interrupts it had at the start. -/
def Powered (h₀ h : Hyp) : Prop := ∀ vm ∈ h.vms,
  (h.power.powerGetState vm.id = .gated ↔ vm.state = .suspended) ∧
  (vm.state = .running → h.power.powerGetState vm.id = .on ∧ ∀ d ∈ vm.dev, d.irq ≠ 0 →
    h₀.power.irqEnabled d.irq = true → h.power.irqEnabled d.irq = true)

/-- A VM is on, with the interrupts of its devices. -/
structure Lit (h₀ h : Hyp) (ix : Fin maxVms) : Prop where
  on : h.power.state ix = .on
  irqs : ∀ vm, h.vms[ix.val]? = some vm → ∀ d ∈ vm.dev, d.irq ≠ 0 →
    h₀.power.irqEnabled d.irq = true → h.power.irqEnabled d.irq = true

/-- **The invariant**: suspended VMs are gated and all others are on. -/
structure Wired (h₀ h : Hyp) : Prop where
  standing : Standing h
  gated : ∀ ix : Fin maxVms, stateAt h ix = some .suspended → h.power.state ix = .gated
  lit : ∀ ix : Fin maxVms, stateAt h ix ≠ some .suspended → Lit h₀ h ix

/-- **Wired VMs that run are powered.** -/
theorem Wired.powered (hw : Wired h₀ h) : Powered h₀ h := by
  intro vm hmem
  obtain ⟨i, hvm⟩ := List.mem_iff_getElem?.mp hmem
  have hlt : i < h.vms.length := (List.getElem?_eq_some_iff.mp hvm).1
  have hi : i < maxVms := Nat.lt_of_lt_of_le hlt hw.standing.roster.length_le
  have hget : h.power.powerGetState vm.id = h.power.state ⟨i, hi⟩ := by
    rw [Power.powerGetState, hw.standing.roster.ids i vm hvm, idx_ofNat hi]
  have hstate := stateAt_of_vm hvm
  rw [hget]
  by_cases hsusp : vm.state = .suspended
  · have hgated := hw.gated ⟨i, hi⟩ (by rw [hstate, hsusp])
    refine ⟨⟨fun _ => hsusp, fun _ => hgated⟩, fun hrunning => ?_⟩
    rw [hsusp] at hrunning
    cases hrunning
  · have hlit := hw.lit ⟨i, hi⟩ (by rw [hstate]; exact fun heq => hsusp (Option.some.inj heq))
    refine ⟨⟨fun hgated => ?_, fun heq => absurd heq hsusp⟩, fun _ => ⟨hlit.on, hlit.irqs vm hvm⟩⟩
    rw [hlit.on] at hgated
    cases hgated

/-- The devices of a VM are what they were. -/
theorem lit_of_steady (hl : Lit h₀ h ix) (hpower : h'.power = h.power)
    (hdevs : (h'.vms[ix.val]?).map Vm.dev = (h.vms[ix.val]?).map Vm.dev) : Lit h₀ h' ix := by
  refine ⟨by rw [hpower]; exact hl.on, fun vm' hvm' => ?_⟩
  rw [hvm', Option.map_some] at hdevs
  obtain ⟨vm, hvm, hdev⟩ := Option.map_eq_some_iff.mp hdevs.symm
  rw [hpower, ← hdev]
  exact hl.irqs vm hvm

/-- **An operation on the power of one VM** keeps the invariant if it
leaves that VM in order and takes nothing from the others. -/
theorem Wired.of_powers (hw : Wired h₀ h) (hb : Becomes i h h' l s)
    (hpower : ∀ ix : Fin maxVms, ix.val ≠ i → h'.power.state ix = h.power.state ix)
    (hirqs : ∀ j : ℕ, j ≠ i → ∀ vm, h.vms[j]? = some vm → ∀ d ∈ vm.dev,
      h.power.irqEnabled d.irq = true → h'.power.irqEnabled d.irq = true)
    (hgated : ∀ ix : Fin maxVms, ix.val = i → s = some .suspended → h'.power.state ix = .gated)
    (hlit : ∀ ix : Fin maxVms, ix.val = i → s ≠ some .suspended → Lit h₀ h' ix) : Wired h₀ h' := by
  refine ⟨hw.standing.of_becomes hb, fun ix hst => ?_, fun ix hst => ?_⟩
  · by_cases hix : ix.val = i
    · rw [hix, hb.state] at hst
      exact hgated ix hix hst
    · rw [stateAt, hb.touches.vms _ hix] at hst
      exact (hpower ix hix).trans (hw.gated ix hst)
  · by_cases hix : ix.val = i
    · rw [hix, hb.state] at hst
      exact hlit ix hix hst
    · rw [stateAt, hb.touches.vms _ hix] at hst
      have hother := hw.lit ix hst
      refine ⟨(hpower ix hix).trans hother.on, fun vm' hvm' d hd hirq hstart => ?_⟩
      rw [hb.touches.vms _ hix] at hvm'
      exact hirqs ix hix vm' hvm' d hd (hother.irqs vm' hvm' d hd hirq hstart)

/-- **An operation that leaves power alone** keeps the invariant if the VM
it is on was not and is not suspended. -/
theorem Wired.of_becomes (hw : Wired h₀ h) (hb : Becomes i h h' l s)
    (hpower : h'.power = h.power)
    (hdevs : ∀ j : ℕ, (h'.vms[j]?).map Vm.dev = (h.vms[j]?).map Vm.dev)
    (hbefore : stateAt h i ≠ some .suspended) (hafter : s ≠ some .suspended) : Wired h₀ h' := by
  refine hw.of_powers hb (fun ix _ => by rw [hpower])
    (fun _ _ _ _ _ _ hon => by rw [hpower]; exact hon) (fun _ _ hst => absurd hst hafter)
    (fun ix hix _ => ?_)
  exact lit_of_steady (hw.lit ix (by rw [hix]; exact hbefore)) hpower (hdevs ix)

theorem Wired.of_onlyVse (hw : Wired h₀ h) (a : OnlyVse h h') : Wired h₀ h' := by
  refine ⟨hw.standing.of_onlyVse a, fun ix hst => ?_, fun ix hst => ?_⟩
  · rw [a.stateAt] at hst
    rw [a.steady.power]
    exact hw.gated ix hst
  · rw [a.stateAt] at hst
    exact lit_of_steady (hw.lit ix hst) a.steady.power (a.steady.devs ix)

/-! ## Suspending and resuming -/

/-- **No interrupt of the VM's devices belongs to another VM.** -/
def OwnIrqs (h : Hyp) (i : ℕ) : Prop := ∀ vm, h.vms[i]? = some vm →
  ∀ j vm', j ≠ i → h.vms[j]? = some vm' →
    ∀ d ∈ vm.dev, ∀ d' ∈ vm'.dev, d.irq ≠ 0 → d.irq ≠ d'.irq

/-- **Suspending** a VM whose interrupts are its own. -/
theorem wired_vmSuspend (hw : Wired h₀ h) (hown : stateAt h i = some .running → OwnIrqs h i) :
    Wired h₀ (vmSuspend h i).2 := by
  cases hvm : h.vms[i]? with
  | none =>
    unfold vmSuspend
    rw [hvm]
    exact hw
  | some vm =>
    have hb := vmSuspend_becomes hvm
    have hlt : i < h.vms.length := (List.getElem?_eq_some_iff.mp hvm).1
    have hi : i < maxVms := Nat.lt_of_lt_of_le hlt hw.standing.roster.length_le
    unfold vmSuspend at hb ⊢
    rw [hvm] at hb ⊢
    dsimp only at hb ⊢
    split
    · exact hw
    rename_i hrun
    have hrunning : vm.state = .running := not_not.mp hrun
    rw [if_neg hrun, if_pos hrunning] at hb
    have hown := hown (by rw [stateAt_of_vm hvm, hrunning]) vm hvm
    have hgate : (h.power.powerGateVm vm).2 = { vm.dev.foldl Power.gateDev h.power with
        state := Function.update h.power.state ⟨i, hi⟩ .gated } := by
      rw [Power.powerGateVm, hw.standing.roster.ids i vm hvm, idx_ofNat hi]
      dsimp only
      rw [Power.state_foldl_gateDev]
    rw [hgate] at hb ⊢
    refine hw.of_powers hb (fun ix hne => ?_) (fun j hne vm' hvm' d hd hon => ?_)
      (fun ix hix _ => ?_) (fun _ _ hst => absurd rfl hst)
    · exact Function.update_of_ne (fun heq => hne (congrArg Fin.val heq)) _ _
    · -- gating disables the interrupts of this VM, and they are its own
      have hother : ∀ d₁ ∈ vm.dev, d₁.irq ≠ 0 → d₁.irq ≠ d.irq :=
        fun d₁ hd₁ hirq₁ => hown j vm' hne hvm' d₁ hd₁ d hd hirq₁
      exact (Power.irq_foldl_gateDev hother h.power).trans hon
    · obtain rfl : ix = ⟨i, hi⟩ := Fin.ext hix
      exact Function.update_self ..

/-- **Resuming** any VM. -/
theorem wired_vmResume (hw : Wired h₀ h) (i : ℕ) : Wired h₀ (vmResume h i).2 := by
  cases hvm : h.vms[i]? with
  | none =>
    unfold vmResume
    rw [hvm]
    exact hw
  | some vm =>
    have hb := vmResume_becomes hvm
    have hlt : i < h.vms.length := (List.getElem?_eq_some_iff.mp hvm).1
    have hi : i < maxVms := Nat.lt_of_lt_of_le hlt hw.standing.roster.length_le
    unfold vmResume at hb ⊢
    rw [hvm] at hb ⊢
    dsimp only at hb ⊢
    split
    · exact hw
    rename_i hsusp
    have hsuspended : vm.state = .suspended := not_not.mp hsusp
    rw [if_neg hsusp, if_pos hsuspended] at hb
    have hungate : (h.power.powerUngateVm vm).2 = { vm.dev.foldl Power.ungateDev h.power with
        state := Function.update h.power.state ⟨i, hi⟩ .on } := by
      rw [Power.powerUngateVm, hw.standing.roster.ids i vm hvm, idx_ofNat hi]
      dsimp only
      rw [Power.state_foldl_ungateDev]
    rw [hungate] at hb ⊢
    refine hw.of_powers hb (fun ix hne => ?_)
      (fun j hne vm' hvm' d hd hon => Power.irq_foldl_ungateDev vm.dev hon)
      (fun _ _ hst => by cases hst) (fun ix hix _ => ?_)
    · exact Function.update_of_ne (fun heq => hne (congrArg Fin.val heq)) _ _
    · obtain rfl : ix = ⟨i, hi⟩ := Fin.ext hix
      refine ⟨Function.update_self .., fun vm' hvm' d hd hirq _ => ?_⟩
      -- its own interrupts are enabled again
      have hself : (h.vms.set i { vm with state := .running })[i]? =
          some { vm with state := .running } := List.getElem?_set_self hlt
      obtain rfl := Option.some.inj (hself.symm.trans hvm')
      exact Power.irq_foldl_ungateDev_of_mem hd hirq h.power

/-! ## Quarantine and failover -/

theorem wired_vmStart (hw : Wired h₀ h) (i : ℕ) : Wired h₀ (vmStart h i).2 := by
  have hsteady := vmStart_steady h i
  cases hvm : h.vms[i]? with
  | none =>
    unfold vmStart
    rw [hvm]
    exact hw
  | some vm =>
    by_cases hready : vm.state = .ready
    · refine hw.of_becomes (vmStart_becomes hvm hready).2 hsteady.power hsteady.devs ?_ (by decide)
      rw [stateAt_of_vm hvm, hready]
      decide
    · unfold vmStart
      rw [hvm]
      dsimp only
      rw [if_pos hready]
      exact hw

/-- A VM that is not suspended may be stopped. -/
theorem wired_vmStop (hw : Wired h₀ h) (hst : stateAt h i ≠ some .suspended) :
    Wired h₀ (vmStop h i).2 := by
  have hsteady := vmStop_steady h i
  cases hvm : h.vms[i]? with
  | none =>
    unfold vmStop
    rw [hvm]
    exact hw
  | some vm =>
    exact hw.of_becomes (vmStop_becomes hvm).2 hsteady.power hsteady.devs hst (by decide)

theorem wired_trustRestore (hw : Wired h₀ h) (id : U32) : Wired h₀ (trustRestore h id).2 := by
  rcases trustRestore_cases hw.standing.roster hw.standing.initialized id with
    heq | ⟨i, g, -, -, honly, -, heq⟩
  · rw [heq]
    exact hw
  · rw [heq]
    split
    · exact wired_vmResume (hw.of_onlyVse honly) i
    · exact hw.of_onlyVse honly

section Tables

variable [P : PtPool]

/-- **A failover leaves a VM on** that was on. -/
theorem wired_doFailover (hw : Wired h₀ h) (hfound : vmById h id = some i)
    (hst : stateAt h i ≠ some .suspended) (hrun : doFailover h id ix = some (e, h')) :
    Wired h₀ h' := by
  rcases doFailover_cases hw.standing.roster hw.standing.initialized hfound hrun with
    ⟨-, rfl⟩ | ⟨-, hattempt⟩
  · have hsteady := trustRevoke_steady h id
    exact hw.of_becomes (trustRevoke_becomes hw.standing.roster hw.standing.initialized hfound)
      hsteady.power hsteady.devs hst (by decide)
  · have hpower : h'.power = h.power := hattempt.steady.power
    have hdevs : ∀ j : ℕ, (h'.vms[j]?).map Vm.dev = (h.vms[j]?).map Vm.dev := hattempt.steady.devs
    rcases hattempt.outcome with hb | hb
    · exact hw.of_becomes hb hpower hdevs hst (by decide)
    · exact hw.of_becomes hb hpower hdevs hst (by decide)

omit P in
theorem wired_suspendRunnable (hw : Wired h₀ h) (hown : stateAt h i = some .running → OwnIrqs h i) :
    Wired h₀ (suspendRunnable h i) :=
  suspendRunnable_keeps hw (wired_vmSuspend hw hown)

/-- **A quarantine that spares the power state** of the VM: if it takes
effect and suspends the VM, the interrupts are the VM's own, and it does
not restart a VM that runs or is suspended. -/
def SparesPower (h : Hyp) (ix : Fin maxVms) : Prop :=
  (h.trust.vm ix).level.rank < TrustLevel.quarantine.rank →
    (stateAt h ix = some .running → OwnIrqs h ix) ∧
    (HasBackup h ix → stateAt h ix ≠ some .running ∧ stateAt h ix ≠ some .suspended)

/-- **A quarantine that spares the power state.** -/
theorem wired_trustQuarantine (hw : Wired h₀ h)
    (hspare : ∀ ix, idx id = some ix → SparesPower h ix)
    (hrun : trustQuarantine h id = some (e, h')) : Wired h₀ h' := by
  rcases trustQuarantine_cases hw.standing.roster hrun with ⟨-, rfl⟩ | ⟨i, e', hfound, hlow, hfail⟩
  · exact hw
  obtain ⟨rfl, hi, vm, hvm⟩ := hw.standing.roster.vmById_eq hfound
  have hix := idx_ofNat hi
  rw [levelAt_fin h ⟨i, hi⟩] at hlow
  obtain ⟨hown, hno⟩ := hspare ⟨i, hi⟩ hix hlow
  have hq := quarantined_becomes hw.standing.initialized hi hvm
  have hfailover := failover_quarantined h (BitVec.ofNat 32 (i + 1)) i
  have hwq : Wired h₀ (quarantined h (BitVec.ofNat 32 (i + 1)) i) := by
    unfold quarantined
    have hset := onlyVse_trustSet h (BitVec.ofNat 32 (i + 1)) .quarantine
    generalize (trustSet h (BitVec.ofNat 32 (i + 1)) .quarantine).2 = g at hset ⊢
    have hmark : OnlyVse h { g with trust := { g.trust with
        quarantineCount := g.trust.quarantineCount + 1 } } := hset.trans ⟨rfl, rfl⟩
    refine wired_suspendRunnable (hw.of_onlyVse hmark) fun hst => ?_
    rw [hmark.stateAt] at hst
    have hvms := hmark.eq Hyp.vms fun _ _ _ _ _ => rfl
    rw [OwnIrqs, hvms]
    exact hown hst
  generalize quarantined h (BitVec.ofNat 32 (i + 1)) i = g at hq hfailover hwq hfail
  rcases failoverOnQuarantine_cases hfail with ⟨-, rfl⟩ | ⟨jx, j, hjx, hfound', hbackup, -, hdo⟩
  · exact hwq
  · obtain rfl : jx = ⟨i, hi⟩ := Option.some.inj (hjx.symm.trans hix)
    obtain ⟨hid, hj, -⟩ := hwq.standing.roster.vmById_eq hfound'
    obtain rfl := eq_of_id hi hj hid
    rw [HasBackup, hfailover] at hbackup
    obtain ⟨hnotRunning, hnotSuspended⟩ := hno hbackup
    rw [stateAt_of_vm hvm] at hnotRunning hnotSuspended
    refine wired_doFailover hwq hfound' ?_ hdo
    rw [hq.state, if_neg fun hst => hnotRunning (by rw [hst])]
    exact hnotSuspended

/-! ## Runs -/

/-- The operations that move a VM between its states. -/
inductive PowerOp
  | vmStart (i : ℕ)
  | vmSuspend (i : ℕ)
  | vmResume (i : ℕ)
  | vmStop (i : ℕ)
  | quarantine (vmId : U32)
  | restore (vmId : U32)
  | failoverRegister (vmId : U32) (backupPa livePa backupSize entryIpa : U64)
  | failoverTrigger (vmId : U32)
  | failoverOnQuarantine (vmId : U32)

def powerStep (h : Hyp) : PowerOp → Option Hyp
  | .vmStart i => some (HypervisorBase.vmStart h i).2
  | .vmSuspend i => some (HypervisorBase.vmSuspend h i).2
  | .vmResume i => some (HypervisorBase.vmResume h i).2
  | .vmStop i => some (HypervisorBase.vmStop h i).2
  | .quarantine vmId => (trustQuarantine h vmId).map Prod.snd
  | .restore vmId => some (trustRestore h vmId).2
  | .failoverRegister vmId backupPa livePa backupSize entryIpa =>
    some (Vse.failoverRegister h vmId backupPa livePa backupSize entryIpa).2
  | .failoverTrigger vmId => (Vse.failoverTrigger h vmId).map Prod.snd
  | .failoverOnQuarantine vmId => (Vse.failoverOnQuarantine h vmId).map Prod.snd

/-- **The operations that keep power and state together**: a suspended VM
is neither stopped nor restarted, and one that is suspended has its
interrupts to itself. -/
def KeepsPower (h : Hyp) : PowerOp → Prop
  | .vmSuspend i => stateAt h i = some .running → OwnIrqs h i
  | .vmStop i => stateAt h i ≠ some .suspended
  | .quarantine vmId => ∀ ix, idx vmId = some ix → SparesPower h ix
  | .failoverTrigger vmId | .failoverOnQuarantine vmId =>
    ∀ ix, idx vmId = some ix → HasBackup h ix → stateAt h ix ≠ some .suspended
  | _ => True

/-- **One operation.** -/
theorem wired_powerStep {op : PowerOp} (hw : Wired h₀ h) (hkeep : KeepsPower h op)
    (hrun : powerStep h op = some h') : Wired h₀ h' := by
  have hfailover : ∀ {id ix i}, idx id = some ix → vmById h id = some i →
      stateAt h ix ≠ some .suspended → stateAt h i ≠ some .suspended := by
    intro id ix i hix hfound hst
    obtain ⟨rfl, hi, -⟩ := hw.standing.roster.vmById_eq hfound
    obtain rfl : ix = ⟨i, hi⟩ := Option.some.inj (hix.symm.trans (idx_ofNat hi))
    exact hst
  cases op with
  | vmStart i =>
    cases hrun
    exact wired_vmStart hw i
  | vmSuspend i =>
    cases hrun
    exact wired_vmSuspend hw hkeep
  | vmResume i =>
    cases hrun
    exact wired_vmResume hw i
  | vmStop i =>
    cases hrun
    exact wired_vmStop hw hkeep
  | quarantine vmId =>
    obtain ⟨⟨e, g⟩, hcall, rfl⟩ := Option.map_eq_some_iff.mp hrun
    exact wired_trustQuarantine hw hkeep hcall
  | restore vmId =>
    cases hrun
    exact wired_trustRestore hw vmId
  | failoverRegister vmId backupPa livePa backupSize entryIpa =>
    cases hrun
    have hsame := sameVms_failoverRegister h vmId backupPa livePa backupSize entryIpa
    have hpower : (failoverRegister h vmId backupPa livePa backupSize entryIpa).2.power =
        h.power := by rw [failoverRegister_rest]
    have hstate : ∀ j, stateAt (failoverRegister h vmId backupPa livePa backupSize entryIpa).2 j =
        stateAt h j := fun j => (hsame.becomes j).state
    refine ⟨hw.standing.of_same hsame, fun ix hst => ?_, fun ix hst => ?_⟩
    · rw [hstate] at hst
      rw [hpower]
      exact hw.gated ix hst
    · rw [hstate] at hst
      exact lit_of_steady (hw.lit ix hst) hpower (by rw [hsame.vms])
  | failoverTrigger vmId =>
    obtain ⟨⟨e, g⟩, hcall, rfl⟩ := Option.map_eq_some_iff.mp hrun
    rcases failoverTrigger_cases hcall with ⟨-, rfl⟩ | ⟨ix, i, hix, hfound, hbackup, hdo⟩
    · exact hw
    · exact wired_doFailover hw hfound (hfailover hix hfound (hkeep ix hix hbackup)) hdo
  | failoverOnQuarantine vmId =>
    obtain ⟨⟨e, g⟩, hcall, rfl⟩ := Option.map_eq_some_iff.mp hrun
    rcases failoverOnQuarantine_cases hcall with ⟨-, rfl⟩ | ⟨ix, i, hix, hfound, hbackup, -, hdo⟩
    · exact hw
    · exact wired_doFailover hw hfound (hfailover hix hfound (hkeep ix hix hbackup)) hdo

/-- **Running VMs are powered.** From any state in which every VM is on
and none is suspended, whatever operations follow that keep power and state
together: in every state a VM is gated precisely if it is suspended, and a
running VM is on with the device interrupts it had. -/
theorem running_vms_powered {ops : List PowerOp} (hs : Standing h)
    (hon : ∀ ix, h.power.state ix = .on) (hawake : ∀ vm ∈ h.vms, vm.state ≠ .suspended)
    (hguard : Guarded powerStep KeepsPower h ops) : Throughout powerStep (Powered h) h ops := by
  have hstart : Wired h h := by
    refine ⟨hs, fun ix hst => ?_, fun ix _ => ⟨hon ix, fun _ _ _ _ _ henabled => henabled⟩⟩
    obtain ⟨vm, hvm, hsusp⟩ := exists_vm_of_state hst
    exact absurd hsusp (hawake vm (List.mem_of_getElem? hvm))
  exact throughout_of_guarded (fun _ _ _ hw hkeep hrun => wired_powerStep hw hkeep hrun)
    (fun _ hw => hw.powered) hstart hguard

end Tables

/-- A running RTOS that has a device with interrupt 40, as in
`loneRtos`. -/
def rtosWithDevice : Hyp :=
  { loneRtos with
    vms := loneRtos.vms.map fun vm => { vm with dev := [⟨0x0A000000, 0x1000, 40, true⟩] }
    power := { state := fun _ => .on, gatedDevs := [], irqEnabled := fun _ => true } }

/-- It is suspended and resumed. -/
theorem running_vms_powered_rtosWithDevice :
    letI := Stage2.poolAt2M
    Throughout powerStep (Powered rtosWithDevice) rtosWithDevice [.vmSuspend 0, .vmResume 0] := by
  let _ := Stage2.poolAt2M
  have hs : Standing rtosWithDevice := standing_of_one rfl rfl (by decide) rfl
  have hawake : ∀ vm ∈ rtosWithDevice.vms, vm.state ≠ .suspended := by
    intro vm hvm
    obtain rfl := List.mem_singleton.mp hvm
    exact fun hst => by cases hst
  refine running_vms_powered hs (fun _ => rfl) hawake
    ⟨fun _ vm hvm j vm' hj hvm' => ?_, fun _ _ => ⟨trivial, fun _ _ => trivial⟩⟩
  rcases j with _ | j
  · exact absurd rfl hj
  · cases hvm'

/-- It gets a backup and is quarantined: it runs again, gated and without
its interrupt. -/
theorem restarted_rtos_gated :
    letI := Stage2.poolAt2M
    ∃ g, exec powerStep rtosWithDevice
        [.failoverRegister 1 0x50000000 0 0x1000 0, .quarantine 1] = some g ∧
      stateAt g 0 = some .running ∧ g.power.powerGetState 1 = .gated ∧
      g.power.irqEnabled 40 = false ∧ ¬ Powered rtosWithDevice g := by
  let _ := Stage2.poolAt2M
  refine ⟨_, rfl, rfl, rfl, rfl, fun hpowered => ?_⟩
  have hgated := ((hpowered _ List.mem_cons_self).1.mp rfl)
  cases hgated

end Vse

end HypervisorBase
