import HypervisorBase.Sched.Switch
import HypervisorBase.Vse.Bookkeeping
/-!
# What a scheduling event does

The timer and a guest that waits for an interrupt make the scheduler
choose. `Event.run_eq` splits both events into the choice and the switch
to it, `OnlySched` says what neither touches, and `Switched` what a switch
does to the slots and to the pool of vCPUs.
-/

namespace HypervisorBase

namespace Sched

/-! ## What scheduling leaves alone -/

/-- **Only what a switch works on has changed.** -/
structure OnlySched (h h' : Hyp) : Prop where
  rest : h' = { h with
    sched := h'.sched, current := h'.current, vcpus := h'.vcpus, power := h'.power
    lr := h'.lr, pmu := h'.pmu, vttbrEl2 := h'.vttbrEl2, cnthp := h'.cnthp
    idsPollCtr := h'.idsPollCtr, trust := h'.trust, fdetect := h'.fdetect, ids := h'.ids
    timer := h'.timer }

variable {h h' h'' : Hyp}

theorem OnlySched.refl (h : Hyp) : OnlySched h h := ⟨rfl⟩

theorem OnlySched.trans (a : OnlySched h h') (b : OnlySched h' h'') : OnlySched h h'' := by
  refine ⟨?_⟩
  rw [b.rest, a.rest]

theorem OnlySched.of_vse (a : Vse.OnlyVse h h') : OnlySched h h' := by
  refine ⟨?_⟩
  rw [a.rest]

theorem OnlySched.mmio (a : OnlySched h h') : h'.mmio = h.mmio := by rw [a.rest]

theorem OnlySched.vms (a : OnlySched h h') : h'.vms = h.vms := by rw [a.rest]

theorem onlySched_timerSetUs (h : Hyp) (us : U32) : OnlySched h (timerSetUs h us) := ⟨rfl⟩

theorem onlySched_modifyCurrent (h : Hyp) (f : Vcpu → Vcpu) : OnlySched h (h.modifyCurrent f) := by
  unfold Hyp.modifyCurrent
  split <;> exact ⟨rfl⟩

theorem onlySched_switchOut (h : Hyp) (prev : ℕ) : OnlySched h (switchOut h prev) := by
  unfold switchOut
  cases h.vcpus[prev]? with
  | none => exact .refl h
  | some vc => exact ⟨rfl⟩

theorem onlySched_switchIn (h : Hyp) (next : ℕ) : OnlySched h (switchIn h next) := by
  unfold switchIn
  cases h.vcpus[next]? with
  | none => exact .refl h
  | some vc => exact ⟨rfl⟩

theorem onlySched_vcpuDoSwitch (h : Hyp) (prev : Option ℕ) (next : ℕ) :
    OnlySched h (vcpuDoSwitch h prev next) := by
  unfold vcpuDoSwitch
  cases prev with
  | none => exact onlySched_switchIn h next
  | some p => exact (onlySched_switchOut h p).trans (onlySched_switchIn _ next)

/-- **Books are kept**: the table, the pool, what is current and its tables
are as they were. -/
structure Booked (h h' : Hyp) : Prop where
  only : OnlySched h h'
  vcpus : h'.vcpus = h.vcpus
  current : h'.current = h.current
  vttbrEl2 : h'.vttbrEl2 = h.vttbrEl2
  slots : h'.sched.slots = h.sched.slots
  cur : h'.sched.cur = h.sched.cur
  initialized : h'.trust.initialized = h.trust.initialized

theorem Booked.refl (h : Hyp) : Booked h h := ⟨.refl h, rfl, rfl, rfl, rfl, rfl, rfl⟩

theorem Booked.trans (a : Booked h h') (b : Booked h' h'') : Booked h h'' :=
  ⟨a.only.trans b.only, b.vcpus.trans a.vcpus, b.current.trans a.current,
    b.vttbrEl2.trans a.vttbrEl2, b.slots.trans a.slots, b.cur.trans a.cur,
    b.initialized.trans a.initialized⟩

theorem booked_pollOnSwitch (h : Hyp) : Booked h (pollOnSwitch h) := by
  unfold pollOnSwitch
  dsimp only
  split
  · have hpoll := Vse.onlyVse_idsPoll { h with idsPollCtr := h.idsPollCtr + 1 }
    refine ⟨OnlySched.trans ⟨rfl⟩ (.of_vse hpoll), ?_, ?_, ?_, ?_, ?_, hpoll.initialized⟩
    all_goals rw [hpoll.rest]
  · exact ⟨⟨rfl⟩, rfl, rfl, rfl, rfl, rfl, rfl⟩

/-- Accounting works on the counters of the VMs alone. -/
theorem modifyStats_table (s : Sched) (vmId : U32) (f : VmStats → VmStats) :
    (modifyStats s vmId f).slots = s.slots ∧ (modifyStats s vmId f).cur = s.cur := by
  unfold modifyStats
  split <;> exact ⟨rfl, rfl⟩

theorem booked_statsOnSwitch (h : Hyp) (prevVmId nextVmId durUs : U32) (wasPreempt : Bool) :
    Booked h { h with sched := statsOnSwitch h.sched prevVmId nextVmId durUs wasPreempt } := by
  refine ⟨⟨rfl⟩, rfl, rfl, rfl, ?_, ?_, rfl⟩
  · exact (modifyStats_table _ nextVmId _).1.trans (modifyStats_table _ prevVmId _).1
  · exact (modifyStats_table _ nextVmId _).2.trans (modifyStats_table _ prevVmId _).2

/-- **A switch and what surrounds it.** Once the slot is noted there are
the poll and the accounting, then the switch proper, unless the vCPU is
current already, and last the console and the timer. -/
theorem switchTo_cases (h : Hyp) (ch : Choice) (isPreempt : Bool) : ∃ g g',
    Booked { h with sched := { h.sched with cur := ch.slot } } g ∧
    (g' = vcpuDoSwitch g h.current ch.vcpu ∨ h.current = some ch.vcpu ∧ g' = g) ∧
    Booked g' (switchTo h ch isPreempt) := by
  have hlast : ∀ g, Booked g (timerSetUs (gateUart g ch.vcpu) ch.durationUs) :=
    fun g => ⟨⟨rfl⟩, rfl, rfl, rfl, rfl, rfl, rfl⟩
  unfold switchTo doSwitch
  dsimp only
  generalize ({ h with sched := { h.sched with cur := ch.slot } } : Hyp) = h₁
  generalize vcpuVmId h₁ h.current = prevId, vcpuVmId h₁ (some ch.vcpu) = nextId
  have hpoll : Booked h₁ (if prevId ≠ nextId then pollOnSwitch h₁ else h₁) := by
    split
    · exact booked_pollOnSwitch h₁
    · exact .refl h₁
  have hstats := hpoll.trans (booked_statsOnSwitch _ prevId nextId ch.durationUs isPreempt)
  by_cases hsame : h.current = some ch.vcpu
  · refine ⟨_, _, hstats, .inr ⟨hsame, rfl⟩, ?_⟩
    rw [if_neg (not_not.mpr hsame)]
    exact hlast _
  · refine ⟨_, _, hstats, .inl rfl, ?_⟩
    rw [if_pos hsame]
    exact hlast _

/-- A switch is the business of the scheduler only. -/
theorem onlySched_switchTo (h : Hyp) (ch : Choice) (isPreempt : Bool) :
    OnlySched h (switchTo h ch isPreempt) := by
  obtain ⟨g, g', hbefore, hswitch, hafter⟩ := switchTo_cases h ch isPreempt
  have hg : OnlySched h g := OnlySched.trans ⟨rfl⟩ hbefore.only
  rcases hswitch with rfl | ⟨-, rfl⟩
  · exact (hg.trans (onlySched_vcpuDoSwitch ..)).trans hafter.only
  · exact hg.trans hafter.only

theorem onlySched_schedOnTimer (h : Hyp) : OnlySched h (schedOnTimer h) := by
  unfold schedOnTimer
  split
  · exact onlySched_timerSetUs h _
  split
  · exact onlySched_timerSetUs h _
  · exact onlySched_switchTo h _ _

theorem onlySched_schedOnWfi (h : Hyp) : OnlySched h (schedOnWfi h) := by
  unfold schedOnWfi
  dsimp only
  generalize vcpuVmId h h.current = prevId
  have hmoved := onlySched_modifyCurrent h fun vc => vc.setElr (vc.regs.elrEl2 + 4)
  generalize (h.modifyCurrent fun vc => vc.setElr (vc.regs.elrEl2 + 4)) = h₁ at hmoved ⊢
  have hstats : OnlySched h { h₁ with sched := statsOnWfi h₁.sched prevId } := hmoved.trans ⟨rfl⟩
  split
  · exact hstats.trans (onlySched_timerSetUs _ _)
  · exact hstats.trans (onlySched_switchTo _ _ _)

/-! ## The launch -/

theorem vmStart_rest (h : Hyp) (i : ℕ) :
    (vmStart h i).2 = { h with vms := (vmStart h i).2.vms } := by
  unfold vmStart
  split
  · rfl
  · split <;> rfl

/-- Starting the VMs changes their states only. -/
theorem startReady_rest (h : Hyp) : startReady h = { h with vms := (startReady h).vms } := by
  have hloop : ∀ (l : List ℕ) (g : Hyp), l.foldl (fun h i => (vmStart h i).2) g =
      { g with vms := (l.foldl (fun h i => (vmStart h i).2) g).vms } := by
    intro l
    induction l with
    | nil => exact fun g => rfl
    | cons i l ih =>
      intro g
      rw [List.foldl_cons, ih, vmStart_rest g i]
  exact hloop _ h

/-- **What the launch does**: the VMs are started, and the vCPU of the
first slot to launch is put on the CPU. -/
theorem schedRun_cases (hrun : schedRun h = some h') :
    ∃ ch vc, firstSlot (startReady h) = some ch ∧ (startReady h).vcpus[ch.vcpu]? = some vc ∧
      h' = timerSetUs { startReady h with
        sched := { (startReady h).sched with cur := ch.slot }
        current := some ch.vcpu
        vcpus := (startReady h).vcpus.set ch.vcpu { vc with state := .running }
        lr := Function.update (startReady h).lr 0 vc.ichLr0
        vttbrEl2 := vc.vttbrEl2 } ch.durationUs := by
  unfold schedRun at hrun
  split at hrun
  · cases hrun
  · dsimp only at hrun
    split at hrun
    · cases hrun
    · rename_i ch hch
      obtain ⟨vc, hvc, rfl⟩ := Option.map_eq_some_iff.mp hrun
      exact ⟨ch, vc, hch, hvc, rfl⟩

/-- Launching the first guest is a switch after the VMs are started. -/
theorem onlySched_schedRun (hrun : schedRun h = some h') : OnlySched (startReady h) h' := by
  obtain ⟨ch, vc, -, -, rfl⟩ := schedRun_cases hrun
  exact ⟨rfl⟩

/-! ## Events -/

/-- An event of the scheduler. -/
inductive Event
  | timer
  | wfi
  deriving DecidableEq, Repr

def Event.run (h : Hyp) : Event → Hyp
  | .timer => schedOnTimer h
  | .wfi => schedOnWfi h

/-- So is any run of events. -/
theorem onlySched_events (events : List Event) (h : Hyp) :
    OnlySched h (events.foldl Event.run h) := by
  induction events generalizing h with
  | nil => exact .refl h
  | cons event events ih =>
    refine OnlySched.trans ?_ (ih _)
    cases event with
    | timer => exact onlySched_schedOnTimer h
    | wfi => exact onlySched_schedOnWfi h

/-! ## The choice -/

/-- The VM that gives up its turn. -/
def yielding (h : Hyp) : U32 := vcpuVmId h h.current

/-- What an event does before the scheduler chooses. -/
def Event.enter (h : Hyp) : Event → Hyp
  | .timer => h
  | .wfi =>
    let h' := h.modifyCurrent fun vc => vc.setElr (vc.regs.elrEl2 + 4)
    { h' with sched := statsOnWfi h'.sched (yielding h) }

/-- **The slot an event chooses.** -/
def Event.choice (h : Hyp) : Event → Option Choice
  | .timer => findNextRr h
  | .wfi => (findOther (Event.enter h .wfi) (yielding h)).or (findNextRr (Event.enter h .wfi))

/-- An event is its choice and the switch to it, or else the timer is
armed for another round. -/
theorem Event.run_eq (h : Hyp) (event : Event) : event.run h =
    match event.choice h with
    | none => timerSetUs (event.enter h) majorFrameUs
    | some ch => switchTo (event.enter h) ch (event = .timer) := by
  cases event with
  | timer =>
    change schedOnTimer h = _
    unfold schedOnTimer Event.choice
    split
    · rename_i hempty
      -- without slots the scan has nowhere to go
      have hnone : findNextRr h = none := by
        unfold findNextRr
        rw [List.isEmpty_iff.mp hempty]
        rfl
      rw [hnone]
      rfl
    · rfl
  | wfi => rfl

/-! ## The pool -/

/-- The VM a vCPU of the pool belongs to. -/
def ownerAt (h : Hyp) (v : ℕ) : Option ℕ := (h.vcpus[v]?).map Vcpu.vm

/-- Whether a vCPU is in the pool and has not been stopped. -/
def standing (h : Hyp) (v : ℕ) : Bool := (h.vcpus[v]?).any fun vc => vc.state ≠ .stopped

/-- The same slots, and each vCPU with the VM it had. -/
structure SameSlots (h h' : Hyp) : Prop where
  slots : h'.sched.slots = h.sched.slots
  vms : h'.vms = h.vms
  owners : ∀ v, ownerAt h' v = ownerAt h v

theorem SameSlots.refl (h : Hyp) : SameSlots h h := ⟨rfl, rfl, fun _ => rfl⟩

theorem SameSlots.trans (a : SameSlots h h') (b : SameSlots h' h'') : SameSlots h h'' :=
  ⟨b.slots.trans a.slots, b.vms.trans a.vms, fun v => (b.owners v).trans (a.owners v)⟩

theorem slotVcpu_eq (h : Hyp) (k : ℕ) : slotVcpu h k =
    (h.sched.slots[k]?).bind fun sl => (vmAt h sl.vmId).bind fun vm =>
      if vm.state ≠ .running then none
      else (vm.vcpus[sl.vcpuId.toNat]?).bind fun v => if standing h v then some v else none := by
  have hlast : ∀ v : ℕ, ((h.vcpus[v]?).bind fun vc =>
      if vc.state = .stopped then none else some v) = if standing h v then some v else none := by
    intro v
    unfold standing
    cases h.vcpus[v]? with
    | none => rfl
    | some vc => by_cases hst : vc.state = .stopped <;> simp [hst]
  unfold slotVcpu
  simp only [hlast]

/-- What a slot stands for depends on the table and on who stands. -/
theorem slotVcpu_congr (a : SameSlots h h') (hstanding : ∀ v, standing h' v = standing h v) (k : ℕ) :
    slotVcpu h' k = slotVcpu h k := by
  have hvmAt : ∀ id, vmAt h' id = vmAt h id := by
    intro id
    unfold vmAt vmById
    rw [a.vms]
  rw [slotVcpu_eq, slotVcpu_eq, a.slots]
  simp only [hvmAt, hstanding]

/-- What a slot offers is not stopped. -/
theorem standing_of_slotVcpu {k v : ℕ} (hslot : slotVcpu h k = some v) : standing h v = true := by
  rw [slotVcpu_eq] at hslot
  obtain ⟨sl, -, hslot⟩ := Option.bind_eq_some_iff.mp hslot
  obtain ⟨vm, -, hslot⟩ := Option.bind_eq_some_iff.mp hslot
  split at hslot
  · cases hslot
  · obtain ⟨w, -, hw⟩ := Option.bind_eq_some_iff.mp hslot
    split at hw
    · rename_i hstands
      obtain rfl := Option.some.inj hw
      exact hstands
    · cases hw

/-- A vCPU of the pool that is replaced by one of the same VM. -/
theorem ownerAt_set {c : ℕ} {vc w : Vcpu} (hc : h.vcpus[c]? = some vc)
    (hpool : h'.vcpus = h.vcpus.set c w) (hw : w.vm = vc.vm) (v : ℕ) :
    ownerAt h' v = ownerAt h v := by
  rw [ownerAt, hpool]
  by_cases hv : c = v
  · rw [← hv, List.getElem?_set_self (List.getElem?_eq_some_iff.mp hc).1, ownerAt, hc,
      Option.map_some, Option.map_some, hw]
  · rw [List.getElem?_set_ne hv, ownerAt]

theorem standing_set {c : ℕ} {w : Vcpu} (hc : standing h c = true)
    (hpool : h'.vcpus = h.vcpus.set c w) (hw : w.state ≠ .stopped) (v : ℕ) :
    standing h' v = standing h v := by
  rw [standing, hpool]
  by_cases hv : c = v
  · subst hv
    have hlt : c < h.vcpus.length := by
      by_contra hge
      rw [standing, List.getElem?_eq_none (by omega)] at hc
      cases hc
    rw [List.getElem?_set_self hlt, hc, Option.any_some]
    exact decide_eq_true hw
  · rw [List.getElem?_set_ne hv, standing]

/-! ## The switch -/

theorem sameSlots_modifyCurrent (h : Hyp) {f : Vcpu → Vcpu} (hvm : ∀ vc, (f vc).vm = vc.vm) :
    SameSlots h (h.modifyCurrent f) := by
  unfold Hyp.modifyCurrent
  split
  · exact .refl h
  · rename_i c _
    refine ⟨rfl, rfl, fun v => ?_⟩
    unfold ownerAt
    dsimp only
    rw [List.getElem?_modify, Option.map_eq_map, Option.map_map]
    cases h.vcpus[v]? with
    | none => rfl
    | some vc =>
      rw [Option.map_some, Option.map_some, Function.comp_apply]
      split
      · rw [hvm]
      · rfl

theorem standing_modifyCurrent (h : Hyp) {f : Vcpu → Vcpu} (hstate : ∀ vc, (f vc).state = vc.state)
    (v : ℕ) : standing (h.modifyCurrent f) v = standing h v := by
  unfold Hyp.modifyCurrent
  split
  · rfl
  · rename_i c _
    unfold standing
    dsimp only
    rw [List.getElem?_modify, Option.map_eq_map]
    cases h.vcpus[v]? with
    | none => rfl
    | some vc =>
      rw [Option.map_some, Option.any_some, Option.any_some]
      split
      · rw [hstate]
      · rfl

theorem current_modifyCurrent (h : Hyp) (f : Vcpu → Vcpu) : (h.modifyCurrent f).current = h.current := by
  unfold Hyp.modifyCurrent
  split <;> rfl

theorem sameSlots_switchOut (h : Hyp) (p : ℕ) : SameSlots h (switchOut h p) := by
  unfold switchOut
  cases hp : h.vcpus[p]? with
  | none => exact .refl h
  | some vc =>
    refine ⟨rfl, rfl, fun v => ?_⟩
    refine ownerAt_set hp rfl ?_ v
    rfl

/-- Leaving a virtual CPU does not stop it. -/
theorem standing_switchOut {p : ℕ} (hp : standing h p = true) (v : ℕ) :
    standing (switchOut h p) v = standing h v := by
  unfold switchOut
  cases h.vcpus[p]? with
  | none => rfl
  | some vc => exact standing_set hp rfl (fun hstopped => by cases hstopped) v

theorem sameSlots_switchIn (h : Hyp) (next : ℕ) : SameSlots h (switchIn h next) := by
  unfold switchIn
  cases hn : h.vcpus[next]? with
  | none => exact .refl h
  | some vc =>
    refine ⟨rfl, rfl, fun v => ?_⟩
    refine ownerAt_set hn rfl ?_ v
    rfl

variable {next : ℕ}

theorem standing_switchIn (hnext : standing h next = true) (v : ℕ) :
    standing (switchIn h next) v = standing h v := by
  unfold switchIn
  cases h.vcpus[next]? with
  | none => rfl
  | some vc => exact standing_set hnext rfl (fun hstopped => by cases hstopped) v

/-- The one that is entered is current. -/
theorem current_switchIn (hnext : (ownerAt h next).isSome) :
    (switchIn h next).current = some next := by
  unfold switchIn
  cases hn : h.vcpus[next]? with
  | none =>
    rw [ownerAt, hn] at hnext
    cases hnext
  | some vc => rfl

theorem Booked.same (a : Booked h h') : SameSlots h h' :=
  ⟨a.slots, a.only.vms, fun v => by rw [ownerAt, a.vcpus, ownerAt]⟩

theorem Booked.standing (a : Booked h h') (v : ℕ) : standing h' v = standing h v := by
  rw [Sched.standing, a.vcpus, Sched.standing]

/-- **What a switch does to the table**: the slot it chose is current and
so is its vCPU. The vCPUs that stand are the same, unless the one that
leaves had been stopped: that one is made ready. -/
structure Switched (h h' : Hyp) (ch : Choice) : Prop where
  same : SameSlots h h'
  cur : h'.sched.cur = ch.slot
  current : h'.current = some ch.vcpu
  standing : (∀ c, h.current = some c → standing h c = true) → ∀ v, standing h' v = standing h v

theorem sched_vcpuDoSwitch (h : Hyp) (prev : Option ℕ) (next : ℕ) :
    (vcpuDoSwitch h prev next).sched = h.sched := by
  have hin : ∀ g, (switchIn g next).sched = g.sched := by
    intro g
    unfold switchIn
    cases g.vcpus[next]? <;> rfl
  unfold vcpuDoSwitch
  rw [hin]
  cases prev with
  | none => rfl
  | some p =>
    dsimp only
    unfold switchOut
    cases h.vcpus[p]? <;> rfl

/-- The switch proper. -/
theorem switched_vcpuDoSwitch (prev : Option ℕ) (hnext : standing h next = true) :
    SameSlots h (vcpuDoSwitch h prev next) ∧ (vcpuDoSwitch h prev next).current = some next ∧
    ((∀ c, prev = some c → standing h c = true) →
      ∀ v, standing (vcpuDoSwitch h prev next) v = standing h v) := by
  have hpool : (ownerAt h next).isSome := by
    unfold standing at hnext
    unfold ownerAt
    cases hn : h.vcpus[next]? with
    | none =>
      rw [hn] at hnext
      cases hnext
    | some vc => rfl
  unfold vcpuDoSwitch
  cases prev with
  | none =>
    exact ⟨sameSlots_switchIn h next, current_switchIn hpool, fun _ => standing_switchIn hnext⟩
  | some p =>
    have hout := sameSlots_switchOut h p
    refine ⟨hout.trans (sameSlots_switchIn _ next), current_switchIn ?_, fun hprev v => ?_⟩
    · rw [hout.owners]
      exact hpool
    · have hstay := standing_switchOut (hprev p rfl)
      rw [standing_switchIn ((hstay next).trans hnext), hstay]

variable {ch : Choice}

/-- **A switch**: who is current, and that the slots offer the same. -/
theorem switched_switchTo (isPreempt : Bool) (hch : standing h ch.vcpu = true) :
    Switched h (switchTo h ch isPreempt) ch := by
  obtain ⟨g, g', hbefore, hswitch, hafter⟩ := switchTo_cases h ch isPreempt
  have hsame : SameSlots h g := ⟨hbefore.slots, hbefore.only.vms, hbefore.same.owners⟩
  have hstanding : ∀ v, standing g v = standing h v := hbefore.standing
  have hg' : SameSlots h g' ∧ g'.sched.cur = ch.slot ∧ g'.current = some ch.vcpu ∧
      ((∀ c, h.current = some c → standing h c = true) → ∀ v, standing g' v = standing h v) := by
    rcases hswitch with rfl | ⟨hcur, rfl⟩
    · obtain ⟨hin, hcurrent, hstays⟩ :=
        switched_vcpuDoSwitch h.current ((hstanding ch.vcpu).trans hch)
      refine ⟨hsame.trans hin, ?_, hcurrent, fun hprev v => ?_⟩
      · rw [sched_vcpuDoSwitch]
        exact hbefore.cur
      · rw [hstays (fun c hc => (hstanding c).trans (hprev c hc)), hstanding]
    · exact ⟨hsame, hbefore.cur, hbefore.current.trans hcur, fun _ => hstanding⟩
  obtain ⟨hsame', hcur, hcurrent, hstays⟩ := hg'
  exact ⟨hsame'.trans hafter.same, hafter.cur.trans hcur, hafter.current.trans hcurrent,
    fun hprev v => (hafter.standing v).trans (hstays hprev v)⟩

/-! ## The events and the table -/

/-- Before it chooses, an event leaves the table alone. -/
theorem enter_spec (h : Hyp) (event : Event) : SameSlots h (event.enter h) ∧
    (event.enter h).sched.cur = h.sched.cur ∧ (event.enter h).current = h.current ∧
    ∀ v, standing (event.enter h) v = standing h v := by
  cases event with
  | timer => exact ⟨.refl h, rfl, rfl, fun _ => rfl⟩
  | wfi =>
    have hpast := sameSlots_modifyCurrent h (f := fun vc => vc.setElr (vc.regs.elrEl2 + 4))
      fun _ => rfl
    have hsched : (h.modifyCurrent fun vc => vc.setElr (vc.regs.elrEl2 + 4)).sched = h.sched := by
      unfold Hyp.modifyCurrent
      split <;> rfl
    refine ⟨⟨?_, hpast.vms, hpast.owners⟩, ?_, current_modifyCurrent h _,
      standing_modifyCurrent h fun _ => rfl⟩
    · exact (modifyStats_table _ _ _).1.trans (by rw [hsched])
    · exact (modifyStats_table _ _ _).2.trans (by rw [hsched])

theorem choiceAt_eq_some {k : ℕ} (hch : choiceAt h k = some ch) :
    ch.slot = k ∧ slotVcpu h k = some ch.vcpu := by
  obtain ⟨v, hv, hch⟩ := Option.bind_eq_some_iff.mp hch
  obtain ⟨sl, -, rfl⟩ := Option.map_eq_some_iff.mp hch
  exact ⟨rfl, hv⟩

variable {event : Event}

/-- A choice is a slot that may run. -/
theorem slotVcpu_of_choice (hch : event.choice h = some ch) :
    slotVcpu h ch.slot = some ch.vcpu := by
  have hnext : ∀ {g}, findNextRr g = some ch → slotVcpu g ch.slot = some ch.vcpu := by
    intro g hg
    obtain ⟨k, -, hk⟩ := List.exists_of_findSome?_eq_some hg
    obtain ⟨rfl, hv⟩ := choiceAt_eq_some hk
    exact hv
  cases event with
  | timer => exact hnext hch
  | wfi =>
    obtain ⟨hsame, -, -, hstanding⟩ := enter_spec h .wfi
    rw [← slotVcpu_congr hsame hstanding]
    rcases Option.or_eq_some_iff.mp hch with hother | ⟨-, hfound⟩
    · obtain ⟨k, -, hk⟩ := List.exists_of_findSome?_eq_some hother
      split at hk
      · cases hk
      · obtain ⟨rfl, hv⟩ := choiceAt_eq_some hk
        exact hv
    · exact hnext hfound

/-- **An event that chooses a slot switches to it.** -/
theorem switched_run (hch : event.choice h = some ch) :
    Switched h (event.run h) ch := by
  obtain ⟨hsame, -, hcurrent, hstanding⟩ := enter_spec h event
  have hstands := (hstanding ch.vcpu).trans (standing_of_slotVcpu (slotVcpu_of_choice hch))
  obtain ⟨hsame', hcur, hcurrent', hstanding'⟩ :=
    switched_switchTo (decide (event = .timer)) hstands
  rw [Event.run_eq, hch]
  refine ⟨hsame.trans hsame', hcur, hcurrent', fun hprev v => ?_⟩
  refine (hstanding' (fun c hc => ?_) v).trans (hstanding v)
  rw [hstanding]
  exact hprev c (hcurrent.symm.trans hc)

/-- An event that chooses none leaves the table as it is. -/
theorem idle_run (hch : event.choice h = none) : SameSlots h (event.run h) ∧
    (event.run h).sched.cur = h.sched.cur ∧ (event.run h).current = h.current ∧
    ∀ v, standing (event.run h) v = standing h v := by
  obtain ⟨hsame, hcur, hcurrent, hstanding⟩ := enter_spec h event
  rw [Event.run_eq, hch]
  exact ⟨⟨hsame.slots, hsame.vms, hsame.owners⟩, hcur, hcurrent, hstanding⟩

theorem sameSlots_run (h : Hyp) (event : Event) : SameSlots h (event.run h) := by
  cases hch : event.choice h with
  | none => exact (idle_run hch).1
  | some ch => exact (switched_run hch).same

end Sched

end HypervisorBase
