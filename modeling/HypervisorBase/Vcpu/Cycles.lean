import HypervisorBase.Sched.Events
import HypervisorBase.Vcpu.Registers
/-!
# The virtual cycle counter

A vCPU's cycles are kept in two places: the context has those of the past
stretches, and the hardware those since the vCPU was switched in. An `MRS`
reads the first alone and `pmu_query` the sum of both, but a write of the
guest reaches the first alone. `cycle_counter_iff` says when they show
what a counter of the vCPU's own would: both never while the hardware has
counted anything, and the query as long as the guest sets its counter only
while the hardware's is at zero. A switch clears the hardware's counter,
the launch does not, so it must be at zero then.
-/

namespace HypervisorBase

namespace Pmu

/-! ## Counting beside the hypervisor -/

/-- **The hypervisor, with a record of every vCPU** that is not the
program's: the value it last wrote to its cycle counter, and the cycles
that were counted while it was current since then. -/
structure Metered where
  hyp : Hyp
  written : ℕ → U64
  counted : ℕ → ℕ

namespace Metered

/-- At the launch. -/
def start (h : Hyp) : Metered := ⟨h, fun _ => 0, fun _ => 0⟩

/-- What a counter of the vCPU's own would show. -/
def expected (s : Metered) (c : ℕ) : U64 := s.written c + BitVec.ofNat 64 (s.counted c)

/-- A write of the vCPU on the CPU is recorded. -/
def noteWrite (s : Metered) (v : Option U64) : Metered :=
  match s.hyp.current, v with
  | some c, some v => { s with
      written := Function.update s.written c v
      counted := Function.update s.counted c 0 }
  | _, _ => s

/-- Cycles are recorded for the vCPU on the CPU. -/
def noteCount (s : Metered) (n : ℕ) : Metered :=
  match s.hyp.current with
  | some c => { s with counted := Function.update s.counted c (s.counted c + n) }
  | none => s

end Metered

/-- An access of the current vCPU to a register of the monitor, the
hardware counting, with whatever else it counts, or a switch. -/
inductive CycleEvent
  | access (a : Access)
  | count (cycles : ℕ) (pmevcntr : Fin 4 → U64) (overflows : U64)
  | switch (next : ℕ)

/-- The value the architecture gives the cycle counter at an access: the
one written, or zero at a reset. -/
def cycleWrite (a : Access) : Option U64 :=
  if a.isRead then none
  else
    match a.reg with
    | .pmccntr => some a.val
    | .pmcr => if a.val &&& 4 ≠ 0 then some 0 else none
    | _ => none

/-- The access on the hypervisor's state. -/
def accessCurrent (h : Hyp) (a : Access) : Hyp :=
  h.modifyCurrent fun vc =>
    { vc.setX (perform vc.pmu a.x a.sys).2 with pmu := (perform vc.pmu a.x a.sys).1 }

/-- The hardware counts. -/
def countHw (h : Hyp) (n : ℕ) (pmevcntr : Fin 4 → U64) (overflows : U64) : Hyp :=
  { h with pmu := { h.pmu with
      pmccntrEl0 := h.pmu.pmccntrEl0 + BitVec.ofNat 64 n
      pmevcntr := pmevcntr
      pmovsrEl0 := h.pmu.pmovsrEl0 ||| overflows } }

def meterStep (s : Metered) : CycleEvent → Option Metered
  | .access a => some (Metered.noteWrite { s with hyp := accessCurrent s.hyp a } (cycleWrite a))
  | .count n pmevcntr overflows =>
    some (Metered.noteCount { s with hyp := countHw s.hyp n pmevcntr overflows } n)
  | .switch next =>
    if next < s.hyp.vcpus.length then
      some { s with hyp := if s.hyp.current = some next then s.hyp
        else Sched.vcpuDoSwitch s.hyp s.hyp.current next }
    else none

/-! ## What is shown -/

/-- **`pmu_query` reports the cycles of the vCPU on the CPU.** -/
def QueryExact (s : Metered) : Prop :=
  ∀ c vc, s.hyp.current = some c → s.hyp.vcpus[c]? = some vc →
    (pmuQuery (some vc.pmu) s.hyp.pmu).1.cycles = s.expected c

/-- **An `MRS` reads them, and `pmu_query` reports them.** -/
def CyclesExact (s : Metered) : Prop :=
  (∀ c vc, s.hyp.current = some c → s.hyp.vcpus[c]? = some vc → ∀ (x : ℕ → U64) (rt : ℕ),
    (perform vc.pmu x ⟨rt, true, Reg.enc .pmccntr⟩).2 = putReg x rt (s.expected c)) ∧
  QueryExact s

/-! ## The two places -/

/-- The cycles in the context of a vCPU: the accumulator. -/
def saved (h : Hyp) (c : ℕ) : U64 := ((h.vcpus[c]?).map fun vc => vc.pmu.pmccntrEl0).getD 0

/-- **Nothing is counted**, and a write to `PMCR` sets both reset bits or
none, unless the accumulator is at zero. -/
def Still (s : Metered) : CycleEvent → Prop
  | .access a => ∀ c, s.hyp.current = some c → a.isRead = false → a.reg = .pmcr →
      (a.val &&& 2 = 0 ↔ a.val &&& 4 = 0) ∨ saved s.hyp c = 0
  | .count n _ _ => BitVec.ofNat 64 n = 0
  | .switch _ => True

/-- **The counter is set while the hardware's is at zero**: by a write, or
by a write to `PMCR` with both reset bits. With the bit of the cycle counter
alone, which resets nothing, accumulator and hardware together must be at
zero already; with the other alone, which resets the accumulator, it must
be. -/
def SetAtZero (s : Metered) : CycleEvent → Prop
  | .access a => ∀ c, s.hyp.current = some c → a.isRead = false →
      (a.reg = .pmccntr → s.hyp.pmu.pmccntrEl0 = 0) ∧
      (a.reg = .pmcr →
        (a.val &&& 4 ≠ 0 → a.val &&& 2 ≠ 0 → s.hyp.pmu.pmccntrEl0 = 0) ∧
        (a.val &&& 4 ≠ 0 → a.val &&& 2 = 0 → saved s.hyp c + s.hyp.pmu.pmccntrEl0 = 0) ∧
        (a.val &&& 4 = 0 → a.val &&& 2 ≠ 0 → saved s.hyp c = 0))
  | _ => True

/-- A vCPU of the pool is on the CPU. -/
def Aboard (h : Hyp) : Prop := ∃ c, h.current = some c ∧ c < h.vcpus.length

theorem saved_of_vcpu {h : Hyp} {c : ℕ} {vc : Vcpu} (hvc : h.vcpus[c]? = some vc) :
    saved h c = vc.pmu.pmccntrEl0 := by
  rw [saved, hvc]
  rfl

/-- What an access makes of the cycles in a context. -/
def cyclesAfter (a : Access) (v : U64) : U64 :=
  if a.isRead then v
  else
    match a.reg with
    | .pmccntr => a.val
    | .pmcr => if a.val &&& 2 ≠ 0 then 0 else v
    | _ => v

/-- An access writes the counter, resets it or leaves it. -/
theorem pmccntr_perform (ctx : PmuCtx) (a : Access) :
    (perform ctx a.x a.sys).1.pmccntrEl0 = cyclesAfter a ctx.pmccntrEl0 := by
  unfold cyclesAfter
  cases hdir : a.isRead with
  | true =>
    rw [Access.sys, hdir, perform_read]
    rfl
  | false =>
    obtain ⟨hpmcr, hother⟩ := perform_write ctx a hdir
    by_cases hreg : a.reg = .pmcr
    · rw [hpmcr hreg, hreg]
      rfl
    · have hview := congrArg Arch.ccntr (hother hreg).1
      refine hview.trans ?_
      cases hr : a.reg with
      | pmcr => exact absurd hr hreg
      | _ => rfl

theorem pmccntr_pmuRestore (ctx : PmuCtx) (hw : PmuRegs) : (pmuRestore ctx hw).pmccntrEl0 = 0 := by
  unfold pmuRestore
  dsimp only
  cases ctx.enabled with
  | false => rfl
  | true => exact ite_self _

variable {h : Hyp} {c next : ℕ}

theorem vcpus_accessCurrent (hcur : h.current = some c) (a : Access) :
    (accessCurrent h a).vcpus = h.vcpus.modify c fun vc =>
      { vc.setX (perform vc.pmu a.x a.sys).2 with pmu := (perform vc.pmu a.x a.sys).1 } := by
  unfold accessCurrent Hyp.modifyCurrent
  rw [hcur]

theorem accessCurrent_rest (h : Hyp) (a : Access) :
    (accessCurrent h a).current = h.current ∧ (accessCurrent h a).pmu = h.pmu ∧
      (accessCurrent h a).vcpus.length = h.vcpus.length := by
  unfold accessCurrent Hyp.modifyCurrent
  cases hcur : h.current with
  | none => exact ⟨hcur, rfl, rfl⟩
  | some c => exact ⟨rfl, rfl, List.length_modify ..⟩

/-- **An access** reaches the context of the current vCPU alone. -/
theorem saved_accessCurrent (hcur : h.current = some c) (hlt : c < h.vcpus.length) (a : Access)
    (d : ℕ) :
    saved (accessCurrent h a) d = if d = c then cyclesAfter a (saved h c) else saved h d := by
  unfold saved
  rw [vcpus_accessCurrent hcur, List.getElem?_modify]
  by_cases hd : d = c
  · rw [if_pos hd, hd, List.getElem?_eq_getElem hlt]
    simp only [if_true, Option.map_some, Option.getD_some]
    exact pmccntr_perform _ a
  · have hcd : c ≠ d := Ne.symm hd
    simp only [hcd, if_false, if_neg hd, Option.map_eq_map, Option.map_id']

/-- **A switch** adds the hardware's cycles to the context that leaves, and
starts the hardware again at zero. -/
theorem vcpuDoSwitch_cycles (hon : Aboard h) (hlt : next < h.vcpus.length) :
    (Sched.vcpuDoSwitch h h.current next).current = some next ∧
    (Sched.vcpuDoSwitch h h.current next).pmu.pmccntrEl0 = 0 ∧
    (Sched.vcpuDoSwitch h h.current next).vcpus.length = h.vcpus.length ∧
    ∀ d, saved (Sched.vcpuDoSwitch h h.current next) d =
      if h.current = some d then saved h d + h.pmu.pmccntrEl0 else saved h d := by
  obtain ⟨g, hg, hlen, hsaved⟩ : ∃ g, Sched.vcpuDoSwitch h h.current next = Sched.switchIn g next ∧
      g.vcpus.length = h.vcpus.length ∧
      ∀ d, saved g d = if h.current = some d then saved h d + h.pmu.pmccntrEl0 else saved h d := by
    obtain ⟨p, hcur, hp⟩ := hon
    rw [hcur]
    refine ⟨Sched.switchOut h p, rfl, ?_⟩
    unfold Sched.switchOut saved
    rw [List.getElem?_eq_getElem hp]
    refine ⟨List.length_set .., fun d => ?_⟩
    by_cases hd : p = d
    · rw [if_pos (congrArg some hd), ← hd, List.getElem?_set_self hp,
        List.getElem?_eq_getElem hp]
      rfl
    · rw [if_neg fun heq => hd (Option.some.inj heq), List.getElem?_set_ne hd]
  have hin : next < g.vcpus.length := by omega
  rw [hg]
  unfold Sched.switchIn
  rw [List.getElem?_eq_getElem hin]
  refine ⟨rfl, pmccntr_pmuRestore _ _, (List.length_set ..).trans hlen, fun d => ?_⟩
  rw [← hsaved d]
  unfold saved
  by_cases hd : next = d
  · rw [← hd, List.getElem?_set_self hin, List.getElem?_eq_getElem hin]
    rfl
  · rw [List.getElem?_set_ne hd]

/-! ## What an event does -/

/-- A state by the vCPU on the CPU, the hardware's cycles, those in the
contexts and those that should be shown. -/
structure Ledger (s : Metered) (c : ℕ) (hw : U64) (sv ex : ℕ → U64) : Prop where
  current : s.hyp.current = some c
  aboard : c < s.hyp.vcpus.length
  cycles : s.hyp.pmu.pmccntrEl0 = hw
  saved : ∀ d, saved s.hyp d = sv d
  expected : ∀ d, s.expected d = ex d

variable {s s' : Metered} {hw : U64} {sv ex : ℕ → U64}

/-- An access to the monitor. -/
theorem Ledger.access (hl : Ledger s c hw sv ex) {a : Access}
    (hstep : meterStep s (.access a) = some s') :
    Ledger s' c hw (fun d => if d = c then cyclesAfter a (sv c) else sv d)
      (fun d => if d = c then (cycleWrite a).getD (ex c) else ex d) := by
  obtain ⟨hcurrent, hpmu, hlen⟩ := accessCurrent_rest s.hyp a
  have hsaved : ∀ d, Pmu.saved (accessCurrent s.hyp a) d =
      if d = c then cyclesAfter a (sv c) else sv d := by
    intro d
    rw [saved_accessCurrent hl.current hl.aboard a, hl.saved, hl.saved]
  have hcur := hcurrent.trans hl.current
  have hcycles : (accessCurrent s.hyp a).pmu.pmccntrEl0 = hw := by rw [hpmu, hl.cycles]
  obtain rfl := Option.some.inj hstep
  unfold Metered.noteWrite
  dsimp only
  rw [hcur]
  cases hwrite : cycleWrite a with
  | none =>
    refine ⟨hcur, hlen ▸ hl.aboard, hcycles, hsaved, fun d => ?_⟩
    by_cases hd : d = c
    · rw [if_pos hd, hd]
      exact hl.expected c
    · rw [if_neg hd]
      exact hl.expected d
  | some v =>
    refine ⟨hcur, hlen ▸ hl.aboard, hcycles, hsaved, fun d => ?_⟩
    unfold Metered.expected
    dsimp only
    by_cases hd : d = c
    · rw [if_pos hd, hd, Function.update_self, Function.update_self]
      exact BitVec.add_zero v
    · rw [if_neg hd, Function.update_of_ne hd, Function.update_of_ne hd]
      exact hl.expected d

/-- The hardware counts for the vCPU on the CPU. -/
theorem Ledger.count (hl : Ledger s c hw sv ex) {n : ℕ} {pmevcntr : Fin 4 → U64} {overflows : U64}
    (hstep : meterStep s (.count n pmevcntr overflows) = some s') :
    Ledger s' c (hw + BitVec.ofNat 64 n) sv
      (fun d => if c = d then ex d + BitVec.ofNat 64 n else ex d) := by
  have hcurrent : (countHw s.hyp n pmevcntr overflows).current = some c := hl.current
  obtain rfl := Option.some.inj hstep
  unfold Metered.noteCount
  dsimp only
  rw [hcurrent]
  refine ⟨hl.current, hl.aboard, congrArg (· + BitVec.ofNat 64 n) hl.cycles, hl.saved, fun d => ?_⟩
  unfold Metered.expected
  dsimp only
  by_cases hd : c = d
  · rw [if_pos hd, hd, Function.update_self, BitVec.ofNat_add, ← BitVec.add_assoc, ← hl.expected]
    rfl
  · rw [if_neg hd, Function.update_of_ne (Ne.symm hd)]
    exact hl.expected d

/-- A switch to another vCPU; to the current one, it does nothing. -/
theorem Ledger.switch (hl : Ledger s c hw sv ex) (hstep : meterStep s (.switch next) = some s') :
    s' = s ∨ Ledger s' next 0 (fun d => if c = d then sv d + hw else sv d) ex := by
  simp only [meterStep] at hstep
  split at hstep
  · rename_i hlt
    obtain rfl := Option.some.inj hstep
    by_cases hsame : s.hyp.current = some next
    · left
      rw [if_pos hsame]
    · right
      obtain ⟨hcurrent, hcycles, hlen, hsaved⟩ :=
        vcpuDoSwitch_cycles ⟨c, hl.current, hl.aboard⟩ hlt
      simp only [if_neg hsame]
      refine ⟨hcurrent, hlen.symm ▸ hlt, hcycles, fun d => ?_, hl.expected⟩
      rw [hsaved, hl.current, hl.saved, hl.cycles]
      simp only [Option.some_inj]
  · cases hstep

/-! ## Both readings -/

theorem Ledger.vcpu (hl : Ledger s c hw sv ex) :
    ∃ vc, s.hyp.vcpus[c]? = some vc ∧ vc.pmu.pmccntrEl0 = sv c := by
  have hvc := List.getElem?_eq_getElem hl.aboard
  exact ⟨_, hvc, by rw [← hl.saved, saved_of_vcpu hvc]⟩

/-- The query shows the sum of both places. -/
theorem Ledger.queryExact_iff (hl : Ledger s c hw sv ex) : QueryExact s ↔ sv c + hw = ex c := by
  obtain ⟨vc, hvc, hsv⟩ := hl.vcpu
  have hcycles : (pmuQuery (some vc.pmu) s.hyp.pmu).1.cycles = sv c + hw := by
    rw [← hsv, ← hl.cycles]
    rfl
  constructor
  · intro hquery
    rw [← hcycles, ← hl.expected]
    exact hquery c vc hl.current hvc
  · intro hsum d vd hcur hvd
    obtain rfl := Option.some.inj (hcur.symm.trans hl.current)
    obtain rfl := Option.some.inj (hvd.symm.trans hvc)
    rw [hcycles, hsum, hl.expected]

/-- With an `MRS` too, the context must have all and the hardware none. -/
theorem Ledger.cyclesExact_iff (hl : Ledger s c hw sv ex) :
    CyclesExact s ↔ sv c = ex c ∧ hw = 0 := by
  have hsum : ∀ {a b e : U64}, a = e → (a + b = e ↔ b = 0) := by
    rintro a b e rfl
    exact ⟨fun h => (BitVec.add_right_inj a).mp (h.trans (BitVec.add_zero a).symm),
      fun h => by rw [h]; exact BitVec.add_zero a⟩
  obtain ⟨vc, hvc, hsv⟩ := hl.vcpu
  unfold CyclesExact
  rw [hl.queryExact_iff]
  constructor
  · rintro ⟨hmrs, hquery⟩
    have hread := hmrs c vc hl.current hvc (fun _ => 0) 0
    rw [perform_read] at hread
    have hview : (view vc.pmu).read .pmccntr = s.expected c := by
      simpa [putReg] using congrFun hread 0
    have hvalue : sv c = ex c := hsv.symm.trans (hview.trans (hl.expected c))
    exact ⟨hvalue, (hsum hvalue).mp hquery⟩
  · rintro ⟨hvalue, hzero⟩
    refine ⟨fun d vd hcur hvd x rt => ?_, (hsum hvalue).mpr hzero⟩
    obtain rfl := Option.some.inj (hcur.symm.trans hl.current)
    obtain rfl := Option.some.inj (hvd.symm.trans hvc)
    rw [perform_read, hl.expected, ← hvalue, ← hsv]
    rfl

/-- **The contexts have all the cycles**, and the hardware none. -/
def Settled (s : Metered) : Prop := ∃ c ex, Ledger s c 0 ex ex

/-- An access makes of the right value the right value, unless it is a
write to `PMCR` that resets one kind of counter. -/
theorem cyclesAfter_eq_iff (a : Access) (v : U64) :
    cyclesAfter a v = (cycleWrite a).getD v ↔
      (a.isRead = false → a.reg = .pmcr → (a.val &&& 2 = 0 ↔ a.val &&& 4 = 0) ∨ v = 0) := by
  unfold cyclesAfter cycleWrite
  cases a.isRead with
  | true => simp
  | false =>
    cases a.reg with
    | pmcr =>
      simp only [Bool.false_eq_true, if_false, forall_const, ne_eq, ite_not]
      by_cases htwo : a.val &&& 2 = 0
      · by_cases hfour : a.val &&& 4 = 0
        · simp only [htwo, hfour, if_true, Option.getD_none, true_or]
        · simp only [htwo, hfour, if_true, if_false, Option.getD_some, iff_false,
            not_true_eq_false, false_or]
      · by_cases hfour : a.val &&& 4 = 0
        · simp only [htwo, hfour, if_true, if_false, Option.getD_none, iff_true, false_or]
          exact eq_comm
        · simp only [htwo, hfour, if_false, Option.getD_some, true_or]
    | _ => simp

/-- What `Still` says of an access, on the ledger. -/
theorem Ledger.still_iff (hl : Ledger s c hw sv ex) (a : Access) :
    Still s (.access a) ↔ cyclesAfter a (sv c) = (cycleWrite a).getD (sv c) := by
  rw [cyclesAfter_eq_iff, ← hl.saved]
  constructor
  · exact fun hstill => hstill c hl.current
  · intro hone d hcur
    obtain rfl := Option.some.inj (hcur.symm.trans hl.current)
    exact hone

/-- **A step that is still** keeps the meter settled. -/
theorem settled_step {event : CycleEvent} (hs : Settled s) (hstill : Still s event)
    (hstep : meterStep s event = some s') : Settled s' := by
  obtain ⟨c, ex, hl⟩ := hs
  cases event with
  | access a =>
    have hnext := hl.access hstep
    rw [(hl.still_iff a).mp hstill] at hnext
    exact ⟨c, _, hnext⟩
  | count n pmevcntr overflows =>
    refine ⟨c, ex, ?_⟩
    have hzero : ∀ v : U64, v + BitVec.ofNat 64 n = v := by
      intro v
      rw [hstill]
      exact BitVec.add_zero v
    have hnext := hl.count hstep
    simp only [hzero, ite_self] at hnext
    exact hnext
  | switch next =>
    rcases hl.switch hstep with rfl | hnext
    · exact ⟨c, ex, hl⟩
    · have hzero : ∀ v : U64, v + 0 = v := BitVec.add_zero
      simp only [hzero, ite_self] at hnext
      exact ⟨next, ex, hnext⟩

/-- **Any other step** makes the count wrong at once. -/
theorem unsettled_step {event : CycleEvent} (hs : Settled s) (hmoved : ¬ Still s event) :
    ∃ s', meterStep s event = some s' ∧ ¬ CyclesExact s' := by
  obtain ⟨c, ex, hl⟩ := hs
  cases event with
  | access a =>
    obtain ⟨s', hstep⟩ : ∃ s', meterStep s (.access a) = some s' := ⟨_, rfl⟩
    refine ⟨s', hstep, fun hexact => hmoved ((hl.still_iff a).mpr ?_)⟩
    have hread := ((hl.access hstep).cyclesExact_iff.mp hexact).1
    rwa [if_pos rfl, if_pos rfl] at hread
  | count n pmevcntr overflows =>
    obtain ⟨s', hstep⟩ : ∃ s', meterStep s (.count n pmevcntr overflows) = some s' := ⟨_, rfl⟩
    refine ⟨s', hstep, fun hexact => hmoved ?_⟩
    have hread := ((hl.count hstep).cyclesExact_iff.mp hexact).1
    rw [if_pos rfl] at hread
    exact (BitVec.add_right_inj (ex c)).mp (hread.symm.trans (BitVec.add_zero _).symm)
  | switch next => exact absurd trivial hmoved

/-! ## The query alone -/

/-- **Context and hardware together have the cycles.** -/
def Balanced (s : Metered) : Prop :=
  ∃ c hw sv ex, Ledger s c hw sv ex ∧ ∀ d, sv d + (if c = d then hw else 0) = ex d

/-- An access keeps the sum right exactly if what it sets is set while the
hardware has no cycles. -/
theorem cyclesAfter_add_iff (a : Access) (v hw : U64) :
    cyclesAfter a v + hw = (cycleWrite a).getD (v + hw) ↔
      (a.isRead = false →
        (a.reg = .pmccntr → hw = 0) ∧
        (a.reg = .pmcr →
          (a.val &&& 4 ≠ 0 → a.val &&& 2 ≠ 0 → hw = 0) ∧
          (a.val &&& 4 ≠ 0 → a.val &&& 2 = 0 → v + hw = 0) ∧
          (a.val &&& 4 = 0 → a.val &&& 2 ≠ 0 → v = 0))) := by
  unfold cyclesAfter cycleWrite
  cases a.isRead with
  | true => simp
  | false =>
    cases a.reg with
    | pmccntr => simp
    | pmcr =>
      simp only [Bool.false_eq_true, if_false, forall_const, ne_eq, ite_not, reduceCtorEq,
        IsEmpty.forall_iff, true_and]
      by_cases htwo : a.val &&& 2 = 0
      · by_cases hfour : a.val &&& 4 = 0
        · simp only [htwo, hfour, if_true, Option.getD_none, not_true_eq_false, IsEmpty.forall_iff,
            implies_true, and_self]
        · simp only [htwo, hfour, if_true, if_false, Option.getD_some, not_true_eq_false,
            not_false_eq_true, IsEmpty.forall_iff, forall_const, and_true, true_and]
      · by_cases hfour : a.val &&& 4 = 0
        · simp only [htwo, hfour, if_true, if_false, Option.getD_none, not_true_eq_false,
            not_false_eq_true, IsEmpty.forall_iff, forall_const, true_and]
          rw [eq_comm]
          exact BitVec.add_left_inj hw
        · simp only [htwo, hfour, if_false, Option.getD_some, not_false_eq_true,
            IsEmpty.forall_iff, forall_const, and_true]
          exact iff_of_eq (congrArg (· = 0) (BitVec.zero_add hw))
    | _ => simp

/-- What `SetAtZero` says of an access, on the ledger. -/
theorem Ledger.setAtZero_iff (hl : Ledger s c hw sv ex) (a : Access) :
    SetAtZero s (.access a) ↔ cyclesAfter a (sv c) + hw = (cycleWrite a).getD (sv c + hw) := by
  rw [cyclesAfter_add_iff, ← hl.saved, ← hl.cycles]
  constructor
  · exact fun hset => hset c hl.current
  · intro hone d hcur
    obtain rfl := Option.some.inj (hcur.symm.trans hl.current)
    exact hone

/-- **A counter set at zero** keeps the balance. -/
theorem balanced_step {event : CycleEvent} (hb : Balanced s) (hset : SetAtZero s event)
    (hstep : meterStep s event = some s') : Balanced s' := by
  obtain ⟨c, hw, sv, ex, hl, hsum⟩ := hb
  have hself : sv c + hw = ex c := by
    have hc := hsum c
    rwa [if_pos rfl] at hc
  cases event with
  | access a =>
    refine ⟨c, hw, _, _, hl.access hstep, fun d => ?_⟩
    by_cases hd : d = c
    · rw [if_pos hd, if_pos hd.symm, if_pos hd, ← hself]
      exact (hl.setAtZero_iff a).mp hset
    · rw [if_neg hd, if_neg hd]
      exact hsum d
  | count n pmevcntr overflows =>
    refine ⟨c, _, sv, _, hl.count hstep, fun d => ?_⟩
    rw [← hsum d]
    split
    · rw [BitVec.add_assoc]
    · rfl
  | switch next =>
    rcases hl.switch hstep with rfl | hnext
    · exact ⟨c, hw, sv, ex, hl, hsum⟩
    · refine ⟨next, 0, _, ex, hnext, fun d => ?_⟩
      rw [← hsum d, ite_self]
      split
      · exact BitVec.add_zero _
      · rfl

/-- **One set elsewhere** makes the answer wrong at once. -/
theorem unbalanced_step {event : CycleEvent} (hb : Balanced s) (hset : ¬ SetAtZero s event) :
    ∃ s', meterStep s event = some s' ∧ ¬ QueryExact s' := by
  obtain ⟨c, hw, sv, ex, hl, hsum⟩ := hb
  cases event with
  | access a =>
    obtain ⟨s', hstep⟩ : ∃ s', meterStep s (.access a) = some s' := ⟨_, rfl⟩
    refine ⟨s', hstep, fun hexact => hset ((hl.setAtZero_iff a).mpr ?_)⟩
    have hquery := (hl.access hstep).queryExact_iff.mp hexact
    have hself := hsum c
    rw [if_pos rfl] at hself
    rwa [if_pos rfl, if_pos rfl, ← hself] at hquery
  | count n pmevcntr overflows => exact absurd trivial hset
  | switch next => exact absurd trivial hset

/-! ## Runs -/

/-- **What the launch leaves**: the first vCPU on the CPU, the contexts as
they were, and the hardware's counter too, since only a switch clears it. -/
theorem ledger_launch {h₀ h : Hyp} (hnew : ∀ vc ∈ h₀.vcpus, vc.pmu.pmccntrEl0 = 0)
    (hlaunch : Sched.schedRun h₀ = some h) :
    ∃ c, Ledger (.start h) c h₀.pmu.pmccntrEl0 (fun _ => 0) fun _ => 0 := by
  obtain ⟨ch, vc, -, hvc, rfl⟩ := Sched.schedRun_cases hlaunch
  rw [Sched.startReady_rest] at hvc ⊢
  dsimp only at hvc ⊢
  have hlt : ch.vcpu < h₀.vcpus.length := (List.getElem?_eq_some_iff.mp hvc).1
  refine ⟨ch.vcpu, rfl, ?_, rfl, fun d => ?_, fun _ => rfl⟩
  · change ch.vcpu < (h₀.vcpus.set ch.vcpu { vc with state := .running }).length
    rwa [List.length_set]
  · change (((h₀.vcpus.set ch.vcpu { vc with state := .running })[d]?).map
      fun vc => vc.pmu.pmccntrEl0).getD 0 = 0
    by_cases hd : ch.vcpu = d
    · rw [← hd, List.getElem?_set_self hlt]
      exact hnew vc (List.mem_of_getElem? hvc)
    · rw [List.getElem?_set_ne hd]
      cases hother : h₀.vcpus[d]? with
      | none => rfl
      | some w => exact hnew w (List.mem_of_getElem? hother)

/-- **The virtual cycle counter.** From the launch of the first guest on,
with new contexts, for every schedule, with any accesses of the guests and
any counting of the hardware in between: an `MRS` and `pmu_query` both
show, at every moment, the value last written plus the cycles counted while
the vCPU was current since then, if and only if the hardware's counter is
at zero at the launch, nothing is counted, and no write to `PMCR` resets
the wrong counter; and `pmu_query` alone does if and only if it is at zero
at the launch, and the counter is set only while the hardware's is. -/
theorem cycle_counter_iff {h₀ h : Hyp} (hnew : ∀ vc ∈ h₀.vcpus, vc.pmu.pmccntrEl0 = 0)
    (hlaunch : Sched.schedRun h₀ = some h) (events : List CycleEvent) :
    (Throughout meterStep CyclesExact (.start h) events ↔
      h₀.pmu.pmccntrEl0 = 0 ∧ Guarded meterStep Still (.start h) events) ∧
    (Throughout meterStep QueryExact (.start h) events ↔
      h₀.pmu.pmccntrEl0 = 0 ∧ Guarded meterStep SetAtZero (.start h) events) := by
  obtain ⟨c, hl⟩ := ledger_launch hnew hlaunch
  have hboth : h₀.pmu.pmccntrEl0 = 0 → (Throughout meterStep CyclesExact (.start h) events ↔
      Guarded meterStep Still (.start h) events) := by
    intro hzero
    rw [hzero] at hl
    refine throughout_iff_guarded ?_
      (fun _ _ _ hs hstill hstep => settled_step hs hstill hstep)
      (fun _ _ hs hmoved => unsettled_step hs hmoved) ⟨c, _, hl⟩
    rintro s ⟨c, ex, hs⟩
    exact hs.cyclesExact_iff.mpr ⟨rfl, rfl⟩
  have hquery : h₀.pmu.pmccntrEl0 = 0 → (Throughout meterStep QueryExact (.start h) events ↔
      Guarded meterStep SetAtZero (.start h) events) := by
    intro hzero
    rw [hzero] at hl
    refine throughout_iff_guarded ?_
      (fun _ _ _ hb hset hstep => balanced_step hb hset hstep)
      (fun _ _ hb hset => unbalanced_step hb hset) ⟨c, 0, _, _, hl, fun d => ?_⟩
    · rintro s ⟨c, hw, sv, ex, hs, hsum⟩
      have hself := hsum c
      rw [if_pos rfl] at hself
      exact hs.queryExact_iff.mpr hself
    · rw [ite_self]
      exact BitVec.add_zero _
  refine ⟨⟨fun hall => ?_, fun ⟨hzero, hg⟩ => (hboth hzero).mpr hg⟩,
    fun hall => ?_, fun ⟨hzero, hg⟩ => (hquery hzero).mpr hg⟩
  · have hzero := (hl.cyclesExact_iff.mp hall.head).2
    exact ⟨hzero, (hboth hzero).mp hall⟩
  · have hzero := (BitVec.zero_add _).symm.trans (hl.queryExact_iff.mp hall.head)
    exact ⟨hzero, (hquery hzero).mp hall⟩

/-- A machine with the real-time VM and its two vCPUs, before the launch. -/
def twoVcpus : Hyp :=
  let vm : Vm := { vmInit 1 .rtos with state := .running, vcpus := [0, 1] }
  { Hyp.blank with
    vms := [vm]
    vcpus := [vcpuInit 0 vm 0, vcpuInit 0 vm 1]
    sched := { Hyp.blank.sched with
      slots := [⟨1, 0, 1000⟩, ⟨1, 1, 1000⟩] } }

theorem new_twoVcpus : ∀ vc ∈ twoVcpus.vcpus, vc.pmu.pmccntrEl0 = 0 := by
  intro vc hvc
  rcases List.mem_cons.mp hvc with rfl | hvc
  · rfl
  · obtain rfl := List.mem_singleton.mp hvc
    rfl

/-- The first sets its counter to 5 and comes back to it; with the query
alone, the hardware may count after that. -/
theorem cycle_counter_twoVcpus : ∃ h, Sched.schedRun twoVcpus = some h ∧
    Throughout meterStep CyclesExact (.start h)
      [.access ⟨.pmccntr, false, 0, fun _ => 5⟩, .switch 1, .switch 0] ∧
    Throughout meterStep QueryExact (.start h)
      [.access ⟨.pmccntr, false, 0, fun _ => 5⟩, .count 100 (fun _ => 0) 0, .switch 1] := by
  refine ⟨_, rfl, ?_, ?_⟩
  · refine (cycle_counter_iff new_twoVcpus rfl _).1.mpr ⟨rfl, fun _ _ _ hreg => ?_, fun _ _ =>
      ⟨trivial, fun _ _ => ⟨trivial, fun _ _ => trivial⟩⟩⟩
    cases hreg
  · refine (cycle_counter_iff new_twoVcpus rfl _).2.mpr ⟨rfl, fun _ _ _ => ⟨fun _ => rfl,
      fun hreg => ?_⟩, fun _ _ => ⟨trivial, fun _ _ => ⟨trivial, fun _ _ => trivial⟩⟩⟩
    cases hreg

/-- A hundred cycles are counted: an `MRS` reads none of them. The guest
sets its counter to 5: the query reports 105. -/
theorem cycle_counter_wrong :
    ∃ h s s' vc, Sched.schedRun twoVcpus = some h ∧
      exec meterStep (.start h) [.count 100 (fun _ => 0) 0] = some s ∧
      s.hyp.vcpus[0]? = some vc ∧ s.expected 0 = 100 ∧
      (perform vc.pmu (fun _ => 0) ⟨0, true, Reg.enc .pmccntr⟩).2 0 = 0 ∧
      meterStep s (.access ⟨.pmccntr, false, 0, fun _ => 5⟩) = some s' ∧ s'.expected 0 = 5 ∧
      (s'.hyp.vcpus[0]?).map (fun vc => (pmuQuery (some vc.pmu) s'.hyp.pmu).1.cycles) = some 105 :=
  ⟨_, _, _, _, rfl, rfl, rfl, rfl, rfl, rfl, rfl, rfl⟩

end Pmu

end HypervisorBase
