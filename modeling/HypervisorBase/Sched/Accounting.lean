import Mathlib.Algebra.BigOperators.Fin
import Mathlib.Algebra.GroupWithZero.Nat
import HypervisorBase.Common.Run
import HypervisorBase.Sched.Fairness
/-!
# Who is charged for a slice

The counters of `core/sched/sched_stats.c` against the time the guests
really ran. A guest runs the slice its timer was armed with, until the
timer preempts it; `Ledger` writes these slices down beside the state.
`do_switch` charges the guest that leaves with the slice of the guest that
comes, so the accounts are exact as long as these are equal:
`accounts_exact_iff`.
-/

namespace HypervisorBase

namespace Sched

/-! ## The time the guests ran -/

/-- A slice a guest completed. -/
structure Slice where
  vmId : U32
  us : U32
  deriving DecidableEq, Repr

/-- The scheduler, with the slices completed so far. -/
structure Ledger where
  hyp : Hyp
  slices : List Slice

/-- What happens to a scheduler no guest calls. -/
inductive TickOp
  | timer
  | setSlice (vmId durUs : U32)
  deriving DecidableEq, Repr

/-- The timer fires when the guest has run the slice it was armed with. -/
def tick (s : Ledger) : TickOp → Option Ledger
  | .timer => some ⟨schedOnTimer s.hyp, s.slices ++ [⟨yielding s.hyp, s.hyp.sched.timerUs⟩]⟩
  | .setSlice vmId durUs => some ⟨(schedSetSlice s.hyp vmId durUs).2, s.slices⟩

/-- How long the VM of a record ran. -/
def timeOf (ix : Fin maxVms) (slices : List Slice) : ℕ :=
  (slices.map fun sl => if idx sl.vmId = some ix then sl.us.toNat else 0).sum

/-- How long all of them ran. -/
def elapsed (slices : List Slice) : ℕ := (slices.map fun sl => sl.us.toNat).sum

/-- `total_us` of a VM. -/
def totalUs (h : Hyp) (ix : Fin maxVms) : U64 := (h.sched.stats ix).totalUs

/-- **The accounts are exact**, each one and all together. -/
structure Exact (s : Ledger) : Prop where
  each : ∀ ix, (totalUs s.hyp ix).toNat = timeOf ix s.slices
  all : ∑ ix, (totalUs s.hyp ix).toNat = elapsed s.slices

theorem timeOf_concat (ix : Fin maxVms) (slices : List Slice) (sl : Slice) :
    timeOf ix (slices ++ [sl]) =
      timeOf ix slices + if idx sl.vmId = some ix then sl.us.toNat else 0 := by
  simp [timeOf]

theorem elapsed_concat (slices : List Slice) (sl : Slice) :
    elapsed (slices ++ [sl]) = elapsed slices + sl.us.toNat := by
  simp [elapsed]

/-- Where every slice is some VM's, the times add up. -/
theorem sum_timeOf {slices : List Slice} (hall : ∀ sl ∈ slices, ∃ ix, idx sl.vmId = some ix) :
    ∑ ix, timeOf ix slices = elapsed slices := by
  induction slices using List.reverseRecOn with
  | nil => simp [timeOf, elapsed]
  | append_singleton slices sl ih =>
    obtain ⟨jx, hjx⟩ := hall sl (by simp)
    have hrest := ih fun sl' hsl' => hall sl' (List.mem_append_left _ hsl')
    simp only [timeOf_concat, Finset.sum_add_distrib, hrest, elapsed_concat, hjx, Option.some_inj]
    simp

/-! ## The charge of a switch -/

theorem totalUs_modifyStats (s : Sched) (vmId : U32) (f : VmStats → VmStats) (ix : Fin maxVms) :
    ((modifyStats s vmId f).stats ix).totalUs =
      if idx vmId = some ix then (f (s.stats ix)).totalUs else (s.stats ix).totalUs := by
  unfold modifyStats
  cases hix : idx vmId with
  | none => rfl
  | some jx =>
    by_cases hj : jx = ix
    · subst hj
      simp
    · rw [if_neg fun heq => hj (Option.some.inj heq)]
      dsimp only
      rw [Function.update_of_ne (Ne.symm hj)]

/-- The guest that leaves is charged. -/
theorem totalUs_statsOnSwitch (s : Sched) (prevVmId nextVmId durUs : U32) (wasPreempt : Bool)
    (ix : Fin maxVms) : ((statsOnSwitch s prevVmId nextVmId durUs wasPreempt).stats ix).totalUs =
      if idx prevVmId = some ix then (s.stats ix).totalUs + durUs.setWidth 64
      else (s.stats ix).totalUs := by
  unfold statsOnSwitch
  dsimp only
  rw [totalUs_modifyStats, ite_self, totalUs_modifyStats]

theorem sched_pollOnSwitch (h : Hyp) : (pollOnSwitch h).sched = h.sched := by
  unfold pollOnSwitch
  dsimp only
  split
  · exact (Vse.onlyVse_idsPoll _).eq Hyp.sched fun _ _ _ _ _ => rfl
  · rfl

/-- A switch charges the guest that leaves with the slice of the one that
comes. -/
theorem totalUs_switchTo (h : Hyp) (ch : Choice) (isPreempt : Bool) (ix : Fin maxVms) :
    totalUs (switchTo h ch isPreempt) ix =
      if idx (yielding h) = some ix then totalUs h ix + ch.durationUs.setWidth 64
      else totalUs h ix := by
  have hyield : vcpuVmId { h with sched := { h.sched with cur := ch.slot } } h.current =
    yielding h := rfl
  unfold switchTo doSwitch
  dsimp only
  rw [hyield]
  generalize hh₁ : ({ h with sched := { h.sched with cur := ch.slot } } : Hyp) = h₁
  generalize vcpuVmId h₁ (some ch.vcpu) = nextId
  have hpoll : (if yielding h ≠ nextId then pollOnSwitch h₁ else h₁).sched = h₁.sched := by
    split
    · exact sched_pollOnSwitch h₁
    · rfl
  generalize (if yielding h ≠ nextId then pollOnSwitch h₁ else h₁) = h₂ at hpoll ⊢
  have hdone : ∀ g : Hyp, g.sched = statsOnSwitch h₂.sched (yielding h) nextId ch.durationUs isPreempt →
      totalUs (timerSetUs (gateUart g ch.vcpu) ch.durationUs) ix =
        if idx (yielding h) = some ix then totalUs h ix + ch.durationUs.setWidth 64
        else totalUs h ix := by
    intro g hg
    have hstats : totalUs (timerSetUs (gateUart g ch.vcpu) ch.durationUs) ix =
      (g.sched.stats ix).totalUs := rfl
    rw [hstats, hg, totalUs_statsOnSwitch, hpoll, ← hh₁]
    rfl
  split
  · exact hdone _ (sched_vcpuDoSwitch _ _ _)
  · exact hdone _ rfl

/-- What a tick charges: the slice of the guest that comes, and nothing
where none can run. -/
def charged (h : Hyp) : U32 := ((findNextRr h).map Choice.durationUs).getD 0

/-- **A tick** charges the VM that gives way. -/
theorem totalUs_schedOnTimer (h : Hyp) (ix : Fin maxVms) : totalUs (schedOnTimer h) ix =
    if idx (yielding h) = some ix then totalUs h ix + (charged h).setWidth 64 else totalUs h ix := by
  have hrun : schedOnTimer h = Event.run h .timer := rfl
  have hchoice : Event.choice h .timer = findNextRr h := rfl
  rw [hrun, Event.run_eq, hchoice, charged]
  cases findNextRr h with
  | none =>
    have hzero : totalUs h ix + (0 : U32).setWidth 64 = totalUs h ix := by simp
    rw [Option.map_none, Option.getD_none, hzero, ite_self]
    rfl
  | some ch => exact totalUs_switchTo h ch _ ix

theorem totalUs_schedSetSlice (h : Hyp) (vmId durUs : U32) (ix : Fin maxVms) :
    totalUs (schedSetSlice h vmId durUs).2 ix = totalUs h ix := by
  have hslice : ∀ (s : Sched) (dur : U32),
      ((statsSetSlice s vmId dur).stats ix).totalUs = (s.stats ix).totalUs := by
    intro s dur
    unfold statsSetSlice
    cases idx vmId with
    | none => rfl
    | some jx =>
      by_cases hj : ix = jx
      · rw [hj]
        simp
      · dsimp only
        rw [Function.update_of_ne hj]
  unfold schedSetSlice
  dsimp only
  split
  · rfl
  · exact hslice _ _

/-! ## Whose turn it is -/

/-- Every vCPU belongs to a VM that has an account, the current one too. -/
structure Housed (h : Hyp) : Prop where
  owned : Owned h
  numbered : ∀ (i : ℕ) vm, h.vms[i]? = some vm → ∃ ix, idx vm.id = some ix
  current : ∃ ix, idx (yielding h) = some ix

variable {h : Hyp}

theorem numbered_of_roster (hr : Roster h) (i : ℕ) (vm : Vm) (hvm : h.vms[i]? = some vm) :
    ∃ ix, idx vm.id = some ix := by
  have hi : i < maxVms :=
    Nat.lt_of_lt_of_le (List.getElem?_eq_some_iff.mp hvm).1 hr.length_le
  rw [hr.ids i vm hvm]
  exact ⟨_, idx_ofNat hi⟩

/-- Every virtual CPU of a VM has an account. -/
theorem account_of_mem (ho : Owned h)
    (hnum : ∀ (i : ℕ) vm, h.vms[i]? = some vm → ∃ ix, idx vm.id = some ix) {i v : ℕ}
    (hv : v ∈ vcpusAt h i) : ∃ ix, idx (vcpuVmId h (some v)) = some ix := by
  have howner := ho i v hv
  obtain ⟨vc, hvc, hvm⟩ := Option.map_eq_some_iff.mp howner
  cases hi : h.vms[i]? with
  | none =>
    rw [vcpusAt, hi] at hv
    cases hv
  | some vm =>
    rw [vcpuVmId, Option.bind_some, hvc, Option.bind_some, hvm, hi]
    exact hnum i vm hi

theorem mem_vcpusAt_of_slotVcpu {k v : ℕ} (hslot : slotVcpu h k = some v) :
    ∃ i, v ∈ vcpusAt h i := by
  obtain ⟨sl, -, hslot⟩ := Option.bind_eq_some_iff.mp hslot
  obtain ⟨vm, hvm, hslot⟩ := Option.bind_eq_some_iff.mp hslot
  obtain ⟨i, -, hi⟩ := Option.bind_eq_some_iff.mp hvm
  split at hslot
  · cases hslot
  · obtain ⟨w, hw, hslot⟩ := Option.bind_eq_some_iff.mp hslot
    obtain ⟨vc, -, hslot⟩ := Option.bind_eq_some_iff.mp hslot
    split at hslot
    · cases hslot
    · obtain rfl := Option.some.inj hslot
      exact ⟨i, by rw [vcpusAt, hi]; exact List.mem_of_getElem? hw⟩

theorem mem_vcpusAt_of_launchAt {k : ℕ} {ch : Choice} (hlaunch : launchAt h k = some ch) :
    ∃ i, ch.vcpu ∈ vcpusAt h i := by
  obtain ⟨sl, -, hlaunch⟩ := Option.bind_eq_some_iff.mp hlaunch
  obtain ⟨vm, hvm, hlaunch⟩ := Option.bind_eq_some_iff.mp hlaunch
  obtain ⟨i, -, hi⟩ := Option.bind_eq_some_iff.mp hvm
  split at hlaunch
  · cases hlaunch
  · obtain ⟨w, hw, rfl⟩ := Option.map_eq_some_iff.mp hlaunch
    exact ⟨i, by rw [vcpusAt, hi]; exact List.mem_of_getElem? hw⟩

theorem mem_vcpusAt_of_firstSlot {ch : Choice} (hfirst : firstSlot h = some ch) :
    ∃ i, ch.vcpu ∈ vcpusAt h i := by
  rcases Option.or_eq_some_iff.mp hfirst with hrt | ⟨-, hany⟩
  · obtain ⟨k, -, hk⟩ := List.exists_of_findSome?_eq_some hrt
    split at hk
    · exact mem_vcpusAt_of_launchAt hk
    · cases hk
  · obtain ⟨k, -, hk⟩ := List.exists_of_findSome?_eq_some hany
    exact mem_vcpusAt_of_launchAt hk

/-- A tick leaves everyone housed. -/
theorem Housed.timer (hh : Housed h) : Housed (schedOnTimer h) := by
  have hsame := sameSlots_run h .timer
  have ho : Owned (schedOnTimer h) := hh.owned.of_same hsame
  have hnum : ∀ (i : ℕ) vm, (schedOnTimer h).vms[i]? = some vm → ∃ ix, idx vm.id = some ix := by
    intro i vm hvm
    exact hh.numbered i vm (hsame.vms ▸ hvm)
  refine ⟨ho, hnum, ?_⟩
  change ∃ ix, idx (vcpuVmId (Event.run h .timer) (Event.run h .timer).current) = some ix
  rw [vcpuVmId_congr hsame]
  cases hch : Event.choice h .timer with
  | none =>
    rw [(idle_run hch).2.2.1]
    exact hh.current
  | some ch =>
    obtain ⟨i, hi⟩ := mem_vcpusAt_of_slotVcpu (slotVcpu_of_choice hch)
    rw [(switched_run hch).current]
    exact account_of_mem hh.owned hh.numbered hi

theorem schedSetSlice_rest (h : Hyp) (vmId durUs : U32) : (schedSetSlice h vmId durUs).2 =
    { h with sched := (schedSetSlice h vmId durUs).2.sched } := by
  unfold schedSetSlice
  dsimp only
  split <;> rfl

theorem Housed.setSlice (hh : Housed h) (vmId durUs : U32) :
    Housed (schedSetSlice h vmId durUs).2 := by
  rw [schedSetSlice_rest]
  exact ⟨hh.owned, hh.numbered, hh.current⟩

/-! ## The launch -/

/-- What the scheduler reads off a VM that starting it does not change. -/
def plate (vm : Vm) : U32 × List ℕ := (vm.id, vm.vcpus)

theorem plates_startReady (h : Hyp) : (startReady h).vms.map plate = h.vms.map plate := by
  have hone : ∀ (g : Hyp) (i : ℕ), (vmStart g i).2.vms.map plate = g.vms.map plate := by
    intro g i
    rcases vmStart_cases (h := g) (i := i) with heq | ⟨vm, hvm, -, heq⟩
    · rw [heq]
    · rw [heq]
      change (g.vms.set i _).map plate = _
      obtain ⟨hi, rfl⟩ := List.getElem?_eq_some_iff.mp hvm
      have hsame : plate { g.vms[i] with state := .running } = plate g.vms[i] := rfl
      rw [List.map_set, hsame, ← List.map_set, List.set_getElem_self]
  have hloop : ∀ (l : List ℕ) (g : Hyp),
      (l.foldl (fun h i => (vmStart h i).2) g).vms.map plate = g.vms.map plate := by
    intro l
    induction l with
    | nil => exact fun g => rfl
    | cons i l ih =>
      intro g
      rw [List.foldl_cons, ih, hone]
  exact hloop _ h

theorem plateAt_startReady (h : Hyp) (i : ℕ) :
    ((startReady h).vms[i]?).map plate = (h.vms[i]?).map plate := by
  rw [← List.getElem?_map, plates_startReady, List.getElem?_map]

theorem vcpusAt_startReady (h : Hyp) (i : ℕ) : vcpusAt (startReady h) i = vcpusAt h i := by
  have hsnd := congrArg (Option.map Prod.snd) (plateAt_startReady h i)
  rw [Option.map_map, Option.map_map] at hsnd
  exact congrArg (Option.getD · []) hsnd

theorem owned_startReady (ho : Owned h) : Owned (startReady h) := by
  intro i v hv
  rw [vcpusAt_startReady] at hv
  rw [ownerAt, startReady_rest]
  exact ho i v hv

theorem numbered_startReady
    (hnum : ∀ (i : ℕ) vm, h.vms[i]? = some vm → ∃ ix, idx vm.id = some ix) (i : ℕ) (vm : Vm)
    (hvm : (startReady h).vms[i]? = some vm) : ∃ ix, idx vm.id = some ix := by
  have hplate := plateAt_startReady h i
  rw [hvm, Option.map_some] at hplate
  obtain ⟨vm', hvm', hsame⟩ := Option.map_eq_some_iff.mp hplate.symm
  have hid : vm'.id = vm.id := congrArg Prod.fst hsame
  rw [← hid]
  exact hnum i vm' hvm'

/-- The launch houses the first guest, and charges nobody. -/
theorem housed_schedRun {h' : Hyp} (hr : Roster h) (ho : Owned h) (hrun : schedRun h = some h') :
    Housed h' ∧ ∀ ix, totalUs h' ix = totalUs h ix := by
  obtain ⟨ch, vc, hfirst, hvc, hrun⟩ := schedRun_cases hrun
  have ho₁ := owned_startReady ho
  have hnum := numbered_startReady (numbered_of_roster hr)
  obtain ⟨i, hi⟩ := mem_vcpusAt_of_firstSlot hfirst
  obtain ⟨ix, hix⟩ := account_of_mem ho₁ hnum hi
  have hstats : (startReady h).sched = h.sched := by rw [startReady_rest]
  generalize startReady h = h₁ at hfirst hvc ho₁ hnum hi hix hrun hstats
  have hsame : SameSlots h₁ h' := by
    rw [hrun]
    exact ⟨rfl, rfl, ownerAt_set hvc rfl rfl⟩
  have hcurrent : h'.current = some ch.vcpu := by rw [hrun]; rfl
  refine ⟨⟨ho₁.of_same hsame, ?_, ix, ?_⟩, fun jx => ?_⟩
  · rw [hsame.vms]
    exact hnum
  · rw [yielding, hcurrent, vcpuVmId_congr hsame]
    exact hix
  · rw [hrun, totalUs, totalUs, ← hstats]
    rfl

/-! ## The exact accounts -/

/-- **A tick that charges what the guest ran**, to an account that has
room for it. -/
def Fits (s : Ledger) : TickOp → Prop
  | .timer => charged s.hyp = s.hyp.sched.timerUs ∧
      ∀ ix, idx (yielding s.hyp) = some ix →
        (totalUs s.hyp ix).toNat + s.hyp.sched.timerUs.toNat < 2 ^ 64
  | .setSlice _ _ => True

/-- The invariant: exact accounts, of guests that have one. -/
structure Booking (s : Ledger) : Prop where
  housed : Housed s.hyp
  each : ∀ ix, (totalUs s.hyp ix).toNat = timeOf ix s.slices
  slices : ∀ sl ∈ s.slices, ∃ ix, idx sl.vmId = some ix

variable {s : Ledger}

theorem Booking.exact (hb : Booking s) : Exact s := by
  refine ⟨hb.each, ?_⟩
  rw [← sum_timeOf hb.slices]
  exact Finset.sum_congr rfl fun ix _ => hb.each ix

/-- What a tick leaves on an account. -/
theorem toNat_totalUs_timer (h : Hyp) (ix : Fin maxVms) : (totalUs (schedOnTimer h) ix).toNat =
    if idx (yielding h) = some ix then ((totalUs h ix).toNat + (charged h).toNat) % 2 ^ 64
    else (totalUs h ix).toNat := by
  rw [totalUs_schedOnTimer]
  split
  · have hlt : (charged h).toNat < 2 ^ 64 := by have := (charged h).isLt; omega
    rw [BitVec.toNat_add, BitVec.toNat_setWidth, Nat.mod_eq_of_lt hlt]
  · rfl

/-- **One tick keeps the books.** -/
theorem Booking.tick {s' : Ledger} {op : TickOp} (hb : Booking s) (hfits : Fits s op)
    (hstep : tick s op = some s') : Booking s' := by
  cases op with
  | timer =>
    obtain rfl := Option.some.inj hstep
    obtain ⟨hcharge, hroom⟩ := hfits
    refine ⟨hb.housed.timer, fun ix => ?_, fun sl hsl => ?_⟩
    · dsimp only
      rw [toNat_totalUs_timer, timeOf_concat, hb.each, hcharge]
      split
      · rename_i hix
        rw [← hb.each, Nat.mod_eq_of_lt (hroom ix hix)]
      · rfl
    · rcases List.mem_append.mp hsl with hsl | hsl
      · exact hb.slices sl hsl
      · rw [List.mem_singleton.mp hsl]
        exact hb.housed.current
  | setSlice vmId durUs =>
    obtain rfl := Option.some.inj hstep
    refine ⟨hb.housed.setSlice vmId durUs, fun ix => ?_, hb.slices⟩
    dsimp only
    rw [totalUs_schedSetSlice]
    exact hb.each ix

/-- A tick that does not fit spoils the account of the guest that ran. -/
theorem Booking.spoilt {op : TickOp} (hb : Booking s) (hfits : ¬ Fits s op) :
    ∃ s', Sched.tick s op = some s' ∧ ¬ Exact s' := by
  cases op with
  | timer =>
    refine ⟨_, rfl, fun hexact => hfits ?_⟩
    obtain ⟨ix, hix⟩ := hb.housed.current
    have hafter := hexact.each ix
    dsimp only at hafter
    rw [toNat_totalUs_timer, timeOf_concat, if_pos hix, if_pos hix, ← hb.each] at hafter
    dsimp only at hafter
    have hran := s.hyp.sched.timerUs.isLt
    have hcharge := (charged s.hyp).isLt
    refine ⟨BitVec.eq_of_toNat_eq (by omega), fun jx hjx => ?_⟩
    rw [hix, Option.some_inj] at hjx
    subst hjx
    have hlt := Nat.mod_lt ((totalUs s.hyp ix).toNat + (charged s.hyp).toNat) (Nat.two_pow_pos 64)
    omega
  | setSlice vmId durUs => exact absurd trivial hfits

/-- **Exactly when the accounts are exact.** From the launch on, over any
ticks and changes of slices, each account is the time its VM ran and all
of them the time that passed, precisely as long as every tick finds the
next guest's slice equal to the one that ends, and room for it. -/
theorem accounts_exact_iff {h₀ : Hyp} (hr : Roster h₀) (ho : Owned h₀)
    (hzero : ∀ ix, totalUs h₀ ix = 0) (hrun : schedRun h₀ = some h) (ops : List TickOp) :
    Throughout tick Exact ⟨h, []⟩ ops ↔ Guarded tick Fits ⟨h, []⟩ ops := by
  obtain ⟨hhoused, hsame⟩ := housed_schedRun hr ho hrun
  have hstart : Booking ⟨h, []⟩ := by
    refine ⟨hhoused, fun ix => ?_, fun sl hsl => absurd hsl List.not_mem_nil⟩
    dsimp only
    rw [hsame, hzero]
    rfl
  have hexact : ∀ s, Booking s → Exact s := fun _ hb => hb.exact
  exact throughout_iff_guarded hexact (fun _ _ _ hb hfits hstep => hb.tick hfits hstep)
    (fun _ _ hb hfits => hb.spoilt hfits) hstart

/-- Linux, the RTOS and Android are numbered in order. -/
theorem roster_threeGuests : Roster threeGuests := by
  refine ⟨by decide, fun i vm hvm => ?_, fun i => ?_⟩
  · match i with
    | 0 | 1 | 2 =>
      obtain rfl := Option.some.inj hvm
      rfl
    | i + 3 => cases hvm
  · match i with
    | 0 | 1 | 2 => decide
    | i + 3 => exact fun hnone => by cases hnone

/-- The RTOS is launched first. With the slices of the other two set to
its own, three ticks charge everybody rightly. -/
theorem accounts_exact_equal_slices : ∃ h, schedRun threeGuests = some h ∧
    Throughout tick Exact ⟨h, []⟩
      [.setSlice 1 500000, .setSlice 3 500000, .timer, .timer, .timer] := by
  obtain ⟨h, hrun, hfits⟩ : ∃ h, schedRun threeGuests = some h ∧ Guarded tick Fits ⟨h, []⟩
      [.setSlice 1 500000, .setSlice 3 500000, .timer, .timer, .timer] := by
    refine ⟨_, rfl, trivial, ?_⟩
    rintro _ ⟨⟩
    refine ⟨trivial, ?_⟩
    rintro _ ⟨⟩
    refine ⟨⟨by decide, by decide⟩, ?_⟩
    rintro _ ⟨⟩
    refine ⟨⟨by decide, by decide⟩, ?_⟩
    rintro _ ⟨⟩
    refine ⟨⟨by decide, by decide⟩, fun _ _ => trivial⟩
  exact ⟨h, hrun, (accounts_exact_iff roster_threeGuests owned_threeGuests (by decide) hrun _).mpr
    hfits⟩

/-- The RTOS runs its half second and is charged the two seconds of
Android, who comes after it. -/
theorem rtos_overcharged : Roster threeGuests ∧ Owned threeGuests ∧ (∀ ix, totalUs threeGuests ix = 0) ∧
    ∃ h s, schedRun threeGuests = some h ∧ exec tick ⟨h, []⟩ [.timer] = some s ∧
      s.slices = [⟨2, 500000⟩] ∧ totalUs s.hyp ⟨1, by decide⟩ = 2000000 ∧
      timeOf ⟨1, by decide⟩ s.slices = 500000 ∧
      ∑ ix, (totalUs s.hyp ix).toNat = 2000000 ∧ elapsed s.slices = 500000 :=
  ⟨roster_threeGuests, owned_threeGuests, by decide, _, _, rfl, rfl, rfl, rfl, rfl, rfl, rfl⟩

end Sched

end HypervisorBase
