import HypervisorBase.Common.RoundRobin
import HypervisorBase.Sched.Events
import HypervisorBase.Vse.Footprint
/-!
# Who gets a turn

The slots are a round-robin table: a place for each slot, owned by the
slot's VM and ready when its vCPU may run. The timer preempts the current
slot and a waiting guest yields to another VM. `slots_selections` says
that the events of the scheduler are turns around this table, as long as
the runnable slots stay the same.

From it follows that n events select every VM that has a runnable slot.
Not every slot: a guest that yields passes over its own VM, so of two
neighbouring slots of one VM the second may never run.
`all_slots_selected_iff` says when this cannot happen.
-/

namespace HypervisorBase

namespace Sched

open RoundRobin (IsNext Table Turn)

/-! ## The table -/

/-- The VM of a slot. -/
def slotVm (h : Hyp) (k : ℕ) : U32 := ((h.sched.slots[k]?).map SchedSlot.vmId).getD 0

/-- **A slot that may run.** -/
def RunnableSlot (h : Hyp) (k : ℕ) : Prop := (slotVcpu h k).isSome

/-- The slots as a round-robin table. -/
def table (h : Hyp) : Table U32 where
  size := h.sched.slots.length
  owner := slotVm h
  ready := fun k => (slotVcpu h k).isSome

def Event.turn : Event → Turn
  | .timer => .preempt
  | .wfi => .yield

variable {h h' : Hyp} {event : Event} {events : List Event}

theorem lt_of_runnableSlot {k : ℕ} (hk : RunnableSlot h k) : k < h.sched.slots.length := by
  by_contra hge
  rw [RunnableSlot, slotVcpu, List.getElem?_eq_none (by omega)] at hk
  cases hk

theorem ready_table_iff {k : ℕ} : (table h).Ready k ↔ RunnableSlot h k :=
  ⟨And.right, fun hk => ⟨lt_of_runnableSlot hk, hk⟩⟩

/-- The table depends on the slots and on who is runnable. -/
theorem table_congr (a : SameSlots h h') (hrun : ∀ k, RunnableSlot h' k ↔ RunnableSlot h k) :
    table h' = table h := by
  have hready : (fun k => (slotVcpu h' k).isSome) = fun k => (slotVcpu h k).isSome :=
    funext fun k => Bool.eq_iff_iff.mpr (hrun k)
  unfold table slotVm
  rw [a.slots, hready]

theorem table_enter (h : Hyp) (event : Event) : table (event.enter h) = table h := by
  obtain ⟨hsame, -, -, hstanding⟩ := enter_spec h event
  refine table_congr hsame fun k => ?_
  rw [RunnableSlot, slotVcpu_congr hsame hstanding, RunnableSlot]

/-! ## A choice is a turn -/

theorem slot_choiceAt (h : Hyp) (k : ℕ) :
    (choiceAt h k).map Choice.slot = if (slotVcpu h k).isSome then some k else none := by
  unfold choiceAt
  cases hv : slotVcpu h k with
  | none => rfl
  | some v =>
    obtain ⟨sl, hsl, -⟩ := Option.bind_eq_some_iff.mp hv
    rw [Option.bind_some, hsl]
    rfl

theorem slot_findSome? {f : ℕ → Option Choice} {q : ℕ → Bool}
    (hf : ∀ k, (f k).map Choice.slot = if q k then some k else none) (l : List ℕ) :
    (l.findSome? f).map Choice.slot = l.find? q := by
  induction l with
  | nil => rfl
  | cons k l ih =>
    have hk := hf k
    rw [List.findSome?_cons, List.find?_cons]
    cases hq : q k with
    | true =>
      rw [hq, if_pos rfl] at hk
      obtain ⟨ch, hch, hslot⟩ := Option.map_eq_some_iff.mp hk
      rw [hch]
      exact congrArg some hslot
    | false =>
      rw [hq, if_neg Bool.false_ne_true] at hk
      rw [Option.map_eq_none_iff.mp hk]
      exact ih

theorem slot_findNextRr (h : Hyp) :
    (findNextRr h).map Choice.slot = (table h).next h.sched.cur :=
  slot_findSome? (slot_choiceAt h) _

/-- What the first scan of `sched_on_wfi` looks for. -/
def otherAt (h : Hyp) (vmId : U32) (k : ℕ) : Option Choice :=
  if (h.sched.slots[k]?).map SchedSlot.vmId = some vmId then none else choiceAt h k

theorem slot_otherAt (h : Hyp) (vmId : U32) (k : ℕ) : (otherAt h vmId k).map Choice.slot =
    if (slotVcpu h k).isSome && decide (slotVm h k ≠ vmId) then some k else none := by
  unfold otherAt slotVm
  cases hsl : h.sched.slots[k]? with
  | none =>
    have hnone : slotVcpu h k = none := by rw [slotVcpu, hsl]; rfl
    rw [if_neg (by simp), slot_choiceAt, hnone]
    rfl
  | some sl =>
    rw [Option.map_some, Option.getD_some]
    by_cases hvm : sl.vmId = vmId
    · rw [if_pos (congrArg some hvm), if_neg (by simp [hvm])]
      rfl
    · rw [if_neg (fun heq => hvm (Option.some.inj heq)), slot_choiceAt]
      simp [hvm]

theorem slot_findOther (h : Hyp) (vmId : U32) :
    (findOther h vmId).map Choice.slot = (table h).nextOther h.sched.cur vmId :=
  slot_findSome? (slot_otherAt h vmId) _

/-- **What an event chooses is whose turn it is.** -/
theorem slot_choice (h : Hyp) (event : Event) : (event.choice h).map Choice.slot =
    (table h).pick h.sched.cur (yielding h) event.turn := by
  cases event with
  | timer => exact slot_findNextRr h
  | wfi =>
    obtain ⟨-, hcur, -, -⟩ := enter_spec h .wfi
    have hor : ∀ x y : Option Choice,
        (x.or y).map Choice.slot = (x.map Choice.slot).or (y.map Choice.slot) := by
      intro x y
      cases x <;> rfl
    change ((findOther _ _).or (findNextRr _)).map Choice.slot = _
    rw [hor, slot_findOther, slot_findNextRr, table_enter, hcur]
    rfl

/-! ## The law of one decision -/

/-- The search of an event as its loops, each with a number of rounds. It
returns with what it found and where `_cur` is left. -/
def Event.search (h : Hyp) (fuel : ℕ) : Event → Option (Option Choice × ℕ)
  | .timer =>
    RoundRobin.scanLoop h.sched.slots.length h.sched.cur (choiceAt h) fuel h.sched.cur
  | .wfi =>
    let n := h.sched.slots.length
    let h' := Event.enter h .wfi
    (RoundRobin.scanLoop n h.sched.cur (otherAt h' (yielding h)) fuel h.sched.cur).bind fun r =>
      match r with
      | (some ch, cur) => some (some ch, cur)
      | (none, cur) => RoundRobin.scanLoop n cur (choiceAt h') fuel cur

/-- **What a decision of the scheduler is**, in a table with a current
slot. -/
structure Lawful (h : Hyp) (event : Event) : Prop where
  /-- The loops end after a round each. -/
  ends : event.search h h.sched.slots.length = some (event.choice h, (event.run h).sched.cur)
  /-- Nothing is chosen if and only if nothing may run. -/
  none_iff : event.choice h = none ↔ ∀ k, ¬ RunnableSlot h k
  /-- The timer takes the next slot. -/
  timer : event = .timer → ∀ ch, event.choice h = some ch →
    IsNext h.sched.slots.length h.sched.cur (RunnableSlot h) ch.slot
  /-- A waiting guest gives way to the next slot of another VM. -/
  wfi : event = .wfi → (∃ k, RunnableSlot h k ∧ slotVm h k ≠ yielding h) →
    ∀ ch, event.choice h = some ch → IsNext h.sched.slots.length h.sched.cur
      (fun k => RunnableSlot h k ∧ slotVm h k ≠ yielding h) ch.slot
  /-- Without one, to the next slot. -/
  alone : event = .wfi → (¬ ∃ k, RunnableSlot h k ∧ slotVm h k ≠ yielding h) →
    ∀ ch, event.choice h = some ch →
      IsNext h.sched.slots.length h.sched.cur (RunnableSlot h) ch.slot
  /-- There is a current slot again. -/
  cur_lt : (event.run h).sched.cur < (event.run h).sched.slots.length

/-- The position stays within the slots. -/
theorem cur_lt_run (hcur : h.sched.cur < h.sched.slots.length) (event : Event) :
    (event.run h).sched.cur < (event.run h).sched.slots.length := by
  rw [(sameSlots_run h event).slots]
  cases hch : event.choice h with
  | none =>
    rw [(idle_run hch).2.1]
    exact hcur
  | some ch =>
    rw [(switched_run hch).cur]
    have hslot := slotVcpu_of_choice hch
    exact lt_of_runnableSlot (by rw [RunnableSlot, hslot]; rfl)

/-- Where `_cur` is left by a search that ends with the choice. -/
theorem cur_run (event : Event) (last : ℕ) (hnone : event.choice h = none → last = h.sched.cur)
    (hsome : ∀ ch, event.choice h = some ch → ch.slot = last) : (event.run h).sched.cur = last := by
  cases hch : event.choice h with
  | none => rw [(idle_run hch).2.1, hnone hch]
  | some ch => rw [(switched_run hch).cur, hsome ch hch]

/-- **What the search finds** is what the event chooses. -/
theorem search_eq (hcur : h.sched.cur < h.sched.slots.length) (event : Event) :
    event.search h h.sched.slots.length = some (event.choice h, (event.run h).sched.cur) := by
  cases event with
  | timer =>
    obtain ⟨last, -, hloop, hnone, hsome⟩ := RoundRobin.scanLoop_eq (choiceAt h) hcur
    refine hloop.trans ?_
    rw [cur_run .timer last hnone fun ch hch => (choiceAt_eq_some (hsome ch hch)).1]
    rfl
  | wfi =>
    obtain ⟨hsame, henter, -, -⟩ := enter_spec h .wfi
    obtain ⟨last, -, hloop, hnone, hsome⟩ :=
      RoundRobin.scanLoop_eq (otherAt (Event.enter h .wfi) (yielding h)) hcur
    obtain ⟨last', -, hloop', hnone', hsome'⟩ :=
      RoundRobin.scanLoop_eq (choiceAt (Event.enter h .wfi)) hcur
    have hscan : scanOrder (Event.enter h .wfi).sched.slots.length (Event.enter h .wfi).sched.cur =
        RoundRobin.scan h.sched.slots.length h.sched.cur := by
      rw [hsame.slots, henter]
      rfl
    have hother : findOther (Event.enter h .wfi) (yielding h) =
        (RoundRobin.scan h.sched.slots.length h.sched.cur).findSome?
          (otherAt (Event.enter h .wfi) (yielding h)) := by
      rw [← hscan]
      rfl
    have hnext : findNextRr (Event.enter h .wfi) =
        (RoundRobin.scan h.sched.slots.length h.sched.cur).findSome?
          (choiceAt (Event.enter h .wfi)) := by
      rw [← hscan]
      rfl
    have hchoice : Event.choice h .wfi = (findOther (Event.enter h .wfi) (yielding h)).or
        (findNextRr (Event.enter h .wfi)) := rfl
    unfold Event.search
    dsimp only
    rw [hloop, Option.bind_some]
    rw [hother, hnext] at hchoice
    generalize (RoundRobin.scan h.sched.slots.length h.sched.cur).findSome?
      (otherAt (Event.enter h .wfi) (yielding h)) = other at *
    cases other with
    | some ch =>
      rw [Option.some_or] at hchoice
      have hat : ch.slot = last := by
        have hfound := hsome ch rfl
        unfold otherAt at hfound
        split at hfound
        · cases hfound
        · exact (choiceAt_eq_some hfound).1
      rw [cur_run .wfi last (fun hno => ?_) fun c hc => ?_, hchoice]
      · rw [hchoice] at hno
        cases hno
      · rw [hchoice] at hc
        obtain rfl := Option.some.inj hc
        exact hat
    | none =>
      -- back at its start, the loop leaves the second one as it found it
      rw [Option.none_or] at hchoice
      dsimp only
      rw [hnone rfl, hloop', cur_run .wfi last' (fun hno => ?_) fun c hc => ?_,
        hchoice]
      · exact hnone' (hchoice.symm.trans hno)
      · exact (choiceAt_eq_some (hsome' c (hchoice.symm.trans hc))).1

/-- **Every decision keeps the law.** -/
theorem lawful (hcur : h.sched.cur < h.sched.slots.length) (event : Event) : Lawful h event := by
  have hpick := slot_choice h event
  have hcases : ∀ ch, event.choice h = some ch →
      IsNext h.sched.slots.length h.sched.cur (table h).Ready ch.slot ∧
        (event.turn = .preempt ∨ ∀ j, (table h).Ready j → slotVm h j = yielding h) ∨
      event.turn = .yield ∧ IsNext h.sched.slots.length h.sched.cur
        (fun j => (table h).Ready j ∧ slotVm h j ≠ yielding h) ch.slot := by
    intro ch hch
    rw [hch] at hpick
    exact Table.pick_cases hcur hpick.symm
  refine ⟨search_eq hcur event, ?_, ?_, ?_, ?_, cur_lt_run hcur event⟩
  · rw [← Option.map_eq_none_iff (f := Choice.slot), hpick, Table.pick_eq_none_iff hcur]
    exact forall_congr' fun k => not_congr ready_table_iff
  · rintro rfl ch hch
    rcases hcases ch hch with ⟨hnext, -⟩ | ⟨hturn, -⟩
    · exact hnext.congr fun _ => ready_table_iff
    · cases hturn
  · rintro rfl ⟨k, hk, hother⟩ ch hch
    rcases hcases ch hch with ⟨-, hturn | hall⟩ | ⟨-, hnext⟩
    · cases hturn
    · exact absurd (hall k (ready_table_iff.mpr hk)) hother
    · exact hnext.congr fun _ => and_congr_left' ready_table_iff
  · rintro rfl hnone ch hch
    rcases hcases ch hch with ⟨hnext, -⟩ | ⟨-, hnext⟩
    · exact hnext.congr fun _ => ready_table_iff
    · exact absurd ⟨ch.slot, ready_table_iff.mp hnext.holds.1, hnext.holds.2⟩ hnone

/-! ## Runs of decisions -/

/-- What the scheduler selects, event after event. -/
def selections : Hyp → List Event → List (Option Choice)
  | _, [] => []
  | h, event :: events => event.choice h :: selections (event.run h) events

/-- **The runnable set stays fixed.** -/
def RunnableFixed (h : Hyp) (events : List Event) : Prop :=
  ∀ past, past <+: events → ∀ k, RunnableSlot (past.foldl Event.run h) k ↔ RunnableSlot h k

/-- The table of VMs and the pool agree on which vCPU belongs to which
VM. -/
def Owned (h : Hyp) : Prop := ∀ i, ∀ v ∈ vcpusAt h i, ownerAt h v = some i

theorem Owned.of_same (ho : Owned h) (a : SameSlots h h') : Owned h' := by
  intro i v hv
  rw [vcpusAt, a.vms] at hv
  rw [a.owners]
  exact ho i v hv

theorem RunnableFixed.head (hfixed : RunnableFixed h (event :: events)) (k : ℕ) :
    RunnableSlot (event.run h) k ↔ RunnableSlot h k :=
  hfixed [event] (List.prefix_append [event] events) k

theorem RunnableFixed.tail (hfixed : RunnableFixed h (event :: events)) :
    RunnableFixed (event.run h) events := by
  intro past hpast k
  rw [hfixed.head]
  exact hfixed (event :: past) (List.cons_prefix_cons.mpr ⟨rfl, hpast⟩) k

theorem id_of_vmById {id : U32} {i : ℕ} {vm : Vm} (hid : vmById h id = some i)
    (hvm : h.vms[i]? = some vm) : vm.id = id := by
  obtain ⟨hlt, hmatch, -⟩ := List.findIdx?_eq_some_iff_getElem.mp hid
  rw [List.getElem?_eq_getElem hlt, Option.some_inj] at hvm
  rw [hvm, Bool.and_eq_true_iff] at hmatch
  exact of_decide_eq_true hmatch.1

/-- The vCPU of a slot is of the slot's VM. -/
theorem vcpuVmId_of_slotVcpu (ho : Owned h) {k v : ℕ} (hslot : slotVcpu h k = some v) :
    vcpuVmId h (some v) = slotVm h k := by
  obtain ⟨sl, hsl, hslot⟩ := Option.bind_eq_some_iff.mp hslot
  obtain ⟨vm, hvm, hslot⟩ := Option.bind_eq_some_iff.mp hslot
  obtain ⟨i, hid, hi⟩ := Option.bind_eq_some_iff.mp hvm
  split at hslot
  · cases hslot
  · obtain ⟨w, hw, hslot⟩ := Option.bind_eq_some_iff.mp hslot
    obtain ⟨vc, hvc, hslot⟩ := Option.bind_eq_some_iff.mp hslot
    split at hslot
    · cases hslot
    · obtain rfl := Option.some.inj hslot
      have howner := ho i w (by rw [vcpusAt, hi]; exact List.mem_of_getElem? hw)
      rw [ownerAt, hvc, Option.map_some, Option.some_inj] at howner
      rw [vcpuVmId, Option.bind_some, hvc, Option.bind_some, howner, hi, slotVm, hsl]
      exact id_of_vmById hid hi

/-- The owner of a virtual CPU goes with the slots. -/
theorem vcpuVmId_congr (a : SameSlots h h') (c : Option ℕ) : vcpuVmId h' c = vcpuVmId h c := by
  have howner : ∀ (g : Hyp) (c : ℕ), ((g.vcpus[c]?).bind fun vc => g.vms[vc.vm]?) =
      (ownerAt g c).bind fun i => g.vms[i]? := by
    intro g c
    unfold ownerAt
    cases g.vcpus[c]? <;> rfl
  unfold vcpuVmId
  simp only [howner]
  simp only [a.owners, a.vms]

/-- **Decisions are turns around the table**, one after the other. -/
theorem slots_selections (ho : Owned h) (hfixed : RunnableFixed h events) :
    (selections h events).map (Option.map Choice.slot) =
      (table h).picks h.sched.cur (yielding h) (events.map Event.turn) := by
  induction events generalizing h with
  | nil => rfl
  | cons event events ih =>
    have hsame := sameSlots_run h event
    have htable := table_congr hsame hfixed.head
    have hrest := ih (ho.of_same hsame) hfixed.tail
    rw [selections, List.map_cons, List.map_cons, Table.picks, ← slot_choice, hrest, htable]
    cases hch : event.choice h with
    | none =>
      obtain ⟨-, hcur, hcurrent, -⟩ := idle_run hch
      have hyield : yielding (event.run h) = yielding h := by
        rw [yielding, hcurrent, vcpuVmId_congr hsame, yielding]
      rw [hcur, hyield]
      rfl
    | some ch =>
      obtain ⟨-, hcur, hcurrent, -⟩ := switched_run hch
      have hyield : yielding (event.run h) = slotVm h ch.slot := by
        rw [yielding, hcurrent, vcpuVmId_congr hsame]
        exact vcpuVmId_of_slotVcpu ho (slotVcpu_of_choice hch)
      rw [hcur, hyield]
      rfl

/-- A slot with a turn is one that is selected. -/
theorem mem_selections {k : ℕ} (ho : Owned h) (hfixed : RunnableFixed h events) :
    some k ∈ (table h).picks h.sched.cur (yielding h) (events.map Event.turn) ↔
      ∃ ch, some ch ∈ selections h events ∧ ch.slot = k := by
  rw [← slots_selections ho hfixed, List.mem_map]
  constructor
  · rintro ⟨sel, hsel, hk⟩
    obtain ⟨ch, rfl, hslot⟩ := Option.map_eq_some_iff.mp hk
    exact ⟨ch, hsel, hslot⟩
  · rintro ⟨ch, hch, rfl⟩
    exact ⟨some ch, hch, rfl⟩

theorem cur_lt_events (hcur : h.sched.cur < h.sched.slots.length) (events : List Event) :
    (events.foldl Event.run h).sched.cur < (events.foldl Event.run h).sched.slots.length := by
  induction events generalizing h with
  | nil => exact hcur
  | cons event events ih => exact ih (cur_lt_run hcur event)

/-- As long as the current vCPU has not been stopped, the same vCPUs
stand. -/
theorem standing_run (hcurrent : ∀ c, h.current = some c → standing h c = true) (event : Event) :
    (∀ v, standing (event.run h) v = standing h v) ∧
    ∀ c, (event.run h).current = some c → standing (event.run h) c = true := by
  cases hch : event.choice h with
  | none =>
    obtain ⟨-, -, hsame, hstanding⟩ := idle_run hch
    refine ⟨hstanding, fun c hc => ?_⟩
    rw [hstanding]
    exact hcurrent c (hsame.symm.trans hc)
  | some ch =>
    have hsw := switched_run hch
    refine ⟨hsw.standing hcurrent, fun c hc => ?_⟩
    rw [hsw.current, Option.some_inj] at hc
    rw [hsw.standing hcurrent, ← hc]
    exact standing_of_slotVcpu (slotVcpu_of_choice hch)

/-- Then the runnable set stays fixed by itself. -/
theorem runnableFixed_of_standing (hcurrent : ∀ c, h.current = some c → standing h c = true)
    (events : List Event) : RunnableFixed h events := by
  have hrun : ∀ (past : List Event) (g : Hyp), (∀ c, g.current = some c → standing g c = true) →
      ∀ k, RunnableSlot (past.foldl Event.run g) k ↔ RunnableSlot g k := by
    intro past
    induction past with
    | nil => exact fun g _ k => Iff.rfl
    | cons event past ih =>
      intro g hg k
      obtain ⟨hstanding, hnext⟩ := standing_run hg event
      refine (ih _ hnext k).trans ?_
      rw [RunnableSlot, slotVcpu_congr (sameSlots_run g event) hstanding, RunnableSlot]
  exact fun past _ => hrun past h hcurrent

/-! ## Every VM gets a turn -/

/-- **The round-robin bound**: every decision keeps the law, and as many
decisions as there are slots select every VM with a runnable one. -/
theorem round_robin (hcur : h.sched.cur < h.sched.slots.length) :
    (∀ (past : List Event) (event : Event), Lawful (past.foldl Event.run h) event) ∧
    (Owned h → ∀ events : List Event, events.length = h.sched.slots.length →
      RunnableFixed h events → ∀ k, RunnableSlot h k →
        ∃ ch, some ch ∈ selections h events ∧ slotVm h ch.slot = slotVm h k) := by
  refine ⟨fun past event => lawful (cur_lt_events hcur past) event, ?_⟩
  intro ho events hlen hfixed k hk
  have henough : (table h).size ≤ (events.map Event.turn).length := by
    rw [List.length_map, hlen]
    exact Nat.le_refl _
  obtain ⟨j, hj, hvm⟩ := Table.picks_owner (y := yielding h) hcur (ready_table_iff.mpr hk) henough
  obtain ⟨ch, hch, rfl⟩ := (mem_selections ho hfixed).mp hj
  exact ⟨ch, hch, hvm⟩

/-- The same table at another slot and with another vCPU. -/
def placed (h : Hyp) (cur : ℕ) (current : Option ℕ) : Hyp :=
  { h with sched := { h.sched with cur := cur }, current := current }

/-- Linux, the RTOS and Android with its two vCPUs, all running. -/
def threeGuests : Hyp :=
  let linux : Vm := { vmInit 1 .linux with state := .running, vcpus := [0] }
  let rtos : Vm := { vmInit 2 .rtos with state := .running, vcpus := [1] }
  let android : Vm := { vmInit 3 .android with state := .running, vcpus := [2, 3] }
  schedInit { Hyp.blank with
    vms := [linux, rtos, android]
    vcpus := [vcpuInit 0 linux 0, vcpuInit 1 rtos 0, vcpuInit 2 android 0, vcpuInit 2 android 1]
    current := some 0 }

theorem owned_threeGuests : Owned threeGuests := by
  intro i v hv
  match i with
  | 0 | 1 =>
    rw [List.mem_singleton.mp (show v ∈ [_] from hv)]
    rfl
  | 2 =>
    rcases List.mem_cons.mp (show v ∈ [2, 3] from hv) with rfl | hv
    · rfl
    · rw [List.mem_singleton.mp hv]
      rfl
  | i + 3 => cases (show v ∈ [] from hv)

/-- Nobody has been stopped, wherever the table is entered. -/
theorem fixed_threeGuests (cur : ℕ) {v : ℕ} (hv : standing threeGuests v = true)
    (events : List Event) : RunnableFixed (placed threeGuests cur (some v)) events := by
  refine runnableFixed_of_standing (fun c hc => ?_) events
  obtain rfl := Option.some.inj hc
  exact hv

/-- Linux yields, the RTOS is preempted, Android yields, Linux yields. -/
theorem round_robin_threeGuests :
    (∀ (past : List Event) (event : Event), Lawful (past.foldl Event.run threeGuests) event) ∧
    ∃ ch, some ch ∈ selections threeGuests [.wfi, .timer, .wfi, .wfi] ∧
      slotVm threeGuests ch.slot = slotVm threeGuests 2 :=
  have hcur : threeGuests.sched.cur < threeGuests.sched.slots.length := by decide
  ⟨(round_robin hcur).1, (round_robin hcur).2 owned_threeGuests [.wfi, .timer, .wfi, .wfi] rfl
    (fixed_threeGuests 0 (v := 0) rfl _) 2 rfl⟩

/-! ## Every slot -/

/-- **Which tables pass over no slot.** -/
theorem all_slots_selected_iff (ho : Owned h) :
    (∀ cur < h.sched.slots.length, ∀ current, ∀ events : List Event,
      events.length = h.sched.slots.length * h.sched.slots.length →
      RunnableFixed (placed h cur current) events → ∀ k, RunnableSlot h k →
        ∃ ch, some ch ∈ selections (placed h cur current) events ∧ ch.slot = k) ↔
    (table h).Spread := by
  constructor
  · intro hall
    by_contra hspread
    obtain ⟨k, k', hk, hk', hpassed⟩ := Table.exists_passed_over hspread
    obtain ⟨v, hv⟩ := Option.isSome_iff_exists.mp (ready_table_iff.mp hk)
    -- slot `k` is current with its own vCPU, and every guest waits
    have ho' : Owned (placed h k (some v)) := ho
    have hfixed := runnableFixed_of_standing (h := placed h k (some v)) (fun c hc => by
      obtain rfl := Option.some.inj hc
      exact standing_of_slotVcpu (h := h) hv)
      (List.replicate (h.sched.slots.length * h.sched.slots.length) .wfi)
    have hsel := (mem_selections ho' hfixed).mpr
      (hall k hk.1 (some v) _ List.length_replicate hfixed k' (ready_table_iff.mp hk'))
    rw [List.map_replicate] at hsel
    have hyield : yielding (placed h k (some v)) = slotVm h k := vcpuVmId_of_slotVcpu ho hv
    rw [hyield] at hsel
    exact hpassed _ hsel
  · intro hspread cur hcur current events hlen hfixed k hk
    have ho' : Owned (placed h cur current) := ho
    refine (mem_selections ho' hfixed).mp (hspread.mem_picks hcur (ready_table_iff.mpr hk) ?_)
    rw [List.length_map, hlen]
    exact Nat.le_mul_of_pos_left _ (by omega)

/-- Linux and the RTOS alone. -/
def twoGuests : Hyp :=
  schedInit { threeGuests with vms := threeGuests.vms.take 2, vcpus := threeGuests.vcpus.take 2 }

theorem owned_twoGuests : Owned twoGuests := by
  intro i v hv
  match i with
  | 0 | 1 =>
    rw [List.mem_singleton.mp (show v ∈ [_] from hv)]
    rfl
  | i + 2 => cases (show v ∈ [] from hv)

theorem spread_twoGuests : (table twoGuests).Spread := by
  refine .inl fun k k' hk hnext => ?_
  have hlt : k < 2 := hk.1
  have hlt' : k' < 2 := hnext.lt
  obtain rfl | rfl : k = 0 ∨ k = 1 := by omega
  all_goals obtain rfl | rfl : k' = 0 ∨ k' = 1 := by omega
  -- a slot does not follow itself: the other one comes first
  · exact absurd (hnext.first 1 (by decide) ⟨by decide, rfl⟩) (by decide)
  · decide
  · decide
  · exact absurd (hnext.first 0 (by decide) ⟨by decide, rfl⟩) (by decide)

/-- Both are selected within four decisions, whatever these are. -/
theorem all_slots_selected_twoGuests : (table twoGuests).Spread ∧
    ∀ cur < 2, ∀ current, ∀ events : List Event, events.length = 2 * 2 →
      RunnableFixed (placed twoGuests cur current) events → ∀ k, RunnableSlot twoGuests k →
        ∃ ch, some ch ∈ selections (placed twoGuests cur current) events ∧ ch.slot = k :=
  ⟨spread_twoGuests, (all_slots_selected_iff owned_twoGuests).mpr spread_twoGuests⟩

/-- Android's second vCPU is passed over while all guests yield: its first
one is found before it, and passes over it. -/
theorem android_passed_over :
    RunnableFixed (placed threeGuests 2 (some 2)) (List.replicate (4 * 4) .wfi) ∧
    RunnableSlot threeGuests 3 ∧
    ¬ ∃ ch, some ch ∈ selections (placed threeGuests 2 (some 2)) (List.replicate (4 * 4) .wfi) ∧
      ch.slot = 3 := by
  have hfixed := fixed_threeGuests 2 (v := 2) rfl (List.replicate (4 * 4) .wfi)
  refine ⟨hfixed, rfl, fun hsel => ?_⟩
  have hmem := (mem_selections (h := placed threeGuests 2 (some 2)) owned_threeGuests hfixed).mpr hsel
  exact absurd hmem (by decide)

end Sched

end HypervisorBase
