import HypervisorBase.Common.Run
import HypervisorBase.Sched.Switch
import Mathlib.Data.Option.Basic
/-!
# The performance monitor as a guest sees it

A guest's accesses to the performance monitor are trapped and performed on
a context in memory, and a switch saves the hardware's registers into that
context and loads them from it. The two do not fit together: the save puts
whatever the hardware holds over what the guest has written, and the load
sets and clears bits where it should write them and ends with a reset of
the counters it has just loaded. `pmu_private_iff` says which switches do
no harm: those at which the hardware already agrees with the context of
the vCPU that leaves, and the one that comes back left with all its event
counters at zero.
-/

namespace HypervisorBase

namespace Pmu

/-! ## What a guest reads back -/

/-- The registers a guest can read back: `PMCR`, `PMCNTENSET`, `PMOVSR`,
`PMINTENSET` and each `PMEVTYPERn`, by the names the emulation gives
them. -/
inductive Visible : U32 → Prop
  | pmcr : Visible (sysRegEnc 3 3 9 12 0)
  | pmcntenset : Visible (sysRegEnc 3 3 9 12 1)
  | pmovsr : Visible (sysRegEnc 3 3 9 12 3)
  | pmintenset : Visible (sysRegEnc 3 0 9 14 1)
  | pmevtyper (i : Fin 4) : Visible (evtyperEnc i)

/-- **Every one of them reads the same** from two contexts. -/
def ReadsAs (a b : PmuCtx) : Prop :=
  ∀ enc, Visible enc → ∀ val, (emulated a enc val).map Prod.fst = (emulated b enc val).map Prod.fst

/-- The fields behind them are the same. -/
structure SameView (a b : PmuCtx) : Prop where
  pmcr : a.pmcrEl0 = b.pmcrEl0
  pmcntenset : a.pmcntensetEl0 = b.pmcntensetEl0
  pmovsr : a.pmovsrEl0 = b.pmovsrEl0
  pmintenset : a.pmintensetEl1 = b.pmintensetEl1
  pmevtyper : a.pmevtyper = b.pmevtyper

theorem emulated_evtyper (ctx : PmuCtx) (i : Fin 4) (val : U64) :
    (emulated ctx (evtyperEnc i) val).map Prod.fst = some (ctx.pmevtyper i) :=
  match i with
  | 0 | 1 | 2 | 3 => rfl

variable {a b : PmuCtx}

/-- Contexts that read alike agree on what can be read. -/
theorem readsAs_iff : ReadsAs a b ↔ SameView a b := by
  constructor
  · intro hreads
    refine ⟨Option.some.inj (hreads _ .pmcr 0), Option.some.inj (hreads _ .pmcntenset 0),
      Option.some.inj (hreads _ .pmovsr 0), Option.some.inj (hreads _ .pmintenset 0), ?_⟩
    funext i
    have hread := hreads _ (.pmevtyper i) 0
    rw [emulated_evtyper, emulated_evtyper] at hread
    exact Option.some.inj hread
  · intro hsame enc henc val
    cases henc with
    | pmcr => exact congrArg some hsame.pmcr
    | pmcntenset => exact congrArg some hsame.pmcntenset
    | pmovsr => exact congrArg some hsame.pmovsr
    | pmintenset => exact congrArg some hsame.pmintenset
    | pmevtyper i => rw [emulated_evtyper, emulated_evtyper, hsame.pmevtyper]

/-! ## Accesses -/

/-- What an access leaves in two contexts that read the same. -/
abbrev Alike : Option (U64 × PmuCtx) → Option (U64 × PmuCtx) → Prop :=
  Option.Rel fun p q => SameView p.2 q.2

theorem Alike.ite {c : Prop} [Decidable c] {o o' p p' : Option (U64 × PmuCtx)} (ho : Alike o o')
    (hp : Alike p p') : Alike (if c then o else p) (if c then o' else p') := by
  split
  · exact ho
  · exact hp

theorem Alike.findSome? {f g : Fin 4 → Option (U64 × PmuCtx)} (hfg : ∀ i, Alike (f i) (g i))
    (l : List (Fin 4)) : Alike (l.findSome? f) (l.findSome? g) := by
  induction l with
  | nil => exact .none
  | cons i l ih =>
    rw [List.findSome?_cons, List.findSome?_cons]
    have hi := hfg i
    generalize f i = o, g i = o' at hi
    cases hi with
    | none => exact ih
    | some hafter => exact .some hafter

/-- An access gives the same in both contexts. -/
theorem alike_emulated (hs : SameView a b) (enc : U32) (val : U64) :
    Alike (emulated a enc val) (emulated b enc val) := by
  obtain ⟨hcr, hset, hovs, hint, hty⟩ := hs
  unfold emulated
  refine .ite (.some ⟨rfl, hset, hovs, hint, hty⟩) ?_
  refine .ite (.some ⟨hcr, congrArg (· ||| val) hset, hovs, hint, hty⟩) ?_
  refine .ite (.some ⟨hcr, congrArg (· &&& ~~~val) hset, hovs, hint, hty⟩) ?_
  refine .ite (.some ⟨hcr, hset, congrArg (· &&& ~~~val) hovs, hint, hty⟩) ?_
  refine .ite (.some ⟨hcr, hset, hovs, hint, hty⟩) ?_
  refine .ite (.some ⟨hcr, hset, hovs, hint, hty⟩) ?_
  refine .ite (.some ⟨hcr, hset, hovs, congrArg (· ||| val) hint, hty⟩) ?_
  refine .ite (.some ⟨hcr, hset, hovs, congrArg (· &&& ~~~val) hint, hty⟩) ?_
  refine .findSome? (fun i => ?_) _
  refine .ite (.some ⟨hcr, hset, hovs, hint, hty⟩) ?_
  exact .ite (.some ⟨hcr, hset, hovs, hint, congrArg (Function.update · i val) hty⟩) .none

/-- **An access keeps two contexts alike.** -/
theorem sameView_pmuHandleTrap (hs : SameView a b) (x : ℕ → U64) (esr : U64) :
    SameView (pmuHandleTrap a x esr).1 (pmuHandleTrap b x esr).1 := by
  have halike := alike_emulated hs (sysAccess esr).enc (sysOperand x (sysAccess esr).rt)
  unfold pmuHandleTrap
  dsimp only
  generalize emulated a (sysAccess esr).enc (sysOperand x (sysAccess esr).rt) = o at halike ⊢
  generalize emulated b (sysAccess esr).enc (sysOperand x (sysAccess esr).rt) = o' at halike ⊢
  cases halike with
  | none => exact hs
  | some hafter =>
    cases (sysAccess esr).isRead with
    | true => exact hs
    | false => exact hafter

/-! ## Several vCPUs -/

/-- **The contexts of all vCPUs and the hardware they share**, with two
records that are not the program's: what each context would be had its
vCPU run alone, and the event counters it was last switched out with. -/
structure Shared where
  ctx : ℕ → PmuCtx
  hw : PmuRegs
  cur : ℕ
  alone : ℕ → PmuCtx
  out : ℕ → Option (Fin 4 → U64)

/-- Before the first event. -/
def Shared.start (ctx : ℕ → PmuCtx) (hw : PmuRegs) (cur : ℕ) : Shared := ⟨ctx, hw, cur, ctx, fun _ => none⟩

/-- An access of the current vCPU, a switch, or the hardware counting in
between, with whatever overflows. -/
inductive Event
  | access (x : ℕ → U64) (esr : U64)
  | switch (next : ℕ)
  | count (pmevcntr : Fin 4 → U64) (pmccntr overflows : U64)

def Shared.step (s : Shared) : Event → Option Shared
  | .access x esr => some { s with
      ctx := Function.update s.ctx s.cur (pmuHandleTrap (s.ctx s.cur) x esr).1
      alone := Function.update s.alone s.cur (pmuHandleTrap (s.alone s.cur) x esr).1 }
  | .switch next => some (
      if next = s.cur then s
      else
        let saved := pmuSave (s.ctx s.cur) s.hw
        { s with
          ctx := Function.update s.ctx s.cur saved.1
          hw := pmuRestore (s.ctx next) saved.2
          cur := next
          out := Function.update s.out s.cur (some saved.1.pmevcntr) })
  | .count pmevcntr pmccntr overflows => some { s with hw := { s.hw with
      pmevcntr := pmevcntr, pmccntrEl0 := pmccntr, pmovsrEl0 := s.hw.pmovsrEl0 ||| overflows } }

/-- **Each vCPU reads back what it would alone.** -/
def Private (s : Shared) : Prop := ∀ v, ReadsAs (s.ctx v) (s.alone v)

/-- **A vCPU that comes back finds its event counters** in the hardware. -/
def CountersBack (s : Shared) : Event → Prop
  | .switch next => next ≠ s.cur → ∀ counters, s.out next = some counters →
      ∀ s', s.step (.switch next) = some s' → s'.hw.pmevcntr = counters
  | _ => True

/-- A switch that does no harm: the hardware holds what the context that
is saved to holds, and what comes back has only zeros to load. -/
def Harmless (s : Shared) : Event → Prop
  | .switch next => next ≠ s.cur →
      (s.hw.pmcrEl0 = (s.ctx s.cur).pmcrEl0 ∧
        s.hw.pmcntensetEl0 = (s.ctx s.cur).pmcntensetEl0 ∧
        s.hw.pmovsrEl0 = (s.ctx s.cur).pmovsrEl0 ∧
        s.hw.pmevtyper = (s.ctx s.cur).pmevtyper) ∧
      ∀ counters, s.out next = some counters → counters = fun _ => 0
  | _ => True

/-! ## One switch -/

/-- What a save leaves for the guest to read back is the hardware's. -/
theorem sameView_pmuSave_iff (ctx : PmuCtx) (hw : PmuRegs) :
    SameView (pmuSave ctx hw).1 ctx ↔
      hw.pmcrEl0 = ctx.pmcrEl0 ∧ hw.pmcntensetEl0 = ctx.pmcntensetEl0 ∧
        hw.pmovsrEl0 = ctx.pmovsrEl0 ∧ hw.pmevtyper = ctx.pmevtyper :=
  ⟨fun hs => ⟨hs.pmcr, hs.pmcntenset, hs.pmovsr, hs.pmevtyper⟩,
    fun ⟨hcr, hset, hovs, hty⟩ => ⟨hcr, hset, hovs, rfl, hty⟩⟩

/-- A load ends with all event counters at zero, whatever was loaded. -/
theorem pmevcntr_pmuRestore (ctx : PmuCtx) (hw : PmuRegs) :
    (pmuRestore ctx hw).pmevcntr = fun _ => 0 := by
  have hzero : ∀ (r : PmuRegs) (v : U64), r.pmevcntr = (fun _ => 0) →
      (writePmcr r v).pmevcntr = fun _ => 0 := by
    intro r v hr
    unfold writePmcr
    dsimp only
    split
    · rfl
    · exact hr
  unfold pmuRestore
  dsimp only
  cases ctx.enabled with
  | false => rfl
  | true => exact hzero _ _ rfl

theorem SameView.trans {c : PmuCtx} (hab : SameView a b) (hbc : SameView b c) : SameView a c :=
  ⟨hab.pmcr.trans hbc.pmcr, hab.pmcntenset.trans hbc.pmcntenset, hab.pmovsr.trans hbc.pmovsr,
    hab.pmintenset.trans hbc.pmintenset, hab.pmevtyper.trans hbc.pmevtyper⟩

theorem SameView.symm (hab : SameView a b) : SameView b a :=
  ⟨hab.pmcr.symm, hab.pmcntenset.symm, hab.pmovsr.symm, hab.pmintenset.symm, hab.pmevtyper.symm⟩

theorem countersBack_switch_iff (s : Shared) (next : ℕ) :
    CountersBack s (.switch next) ↔
      (next ≠ s.cur → ∀ counters, s.out next = some counters → counters = fun _ => 0) := by
  have hstep : ∀ hne : next ≠ s.cur, ∃ s', s.step (.switch next) = some s' ∧
      s'.hw.pmevcntr = fun _ => 0 := by
    intro hne
    refine ⟨_, rfl, ?_⟩
    rw [if_neg hne]
    exact pmevcntr_pmuRestore _ _
  constructor
  · intro hback hne counters hout
    obtain ⟨s', hs', hzero⟩ := hstep hne
    rw [← hback hne counters hout s' hs', hzero]
  · intro hzero hne counters hout s' hs'
    obtain ⟨s'', hs'', hz⟩ := hstep hne
    rw [hs'] at hs''
    rw [Option.some.inj hs'', hz, hzero hne counters hout]

variable {next : ℕ} {s : Shared}

/-- After a switch the guests read back the same exactly if the hardware
agreed with the context it was saved to. -/
theorem private_switch_iff {s' : Shared} (hs : Private s) (hne : next ≠ s.cur)
    (hstep : s.step (.switch next) = some s') :
    Private s' ↔
      s.hw.pmcrEl0 = (s.ctx s.cur).pmcrEl0 ∧ s.hw.pmcntensetEl0 = (s.ctx s.cur).pmcntensetEl0 ∧
        s.hw.pmovsrEl0 = (s.ctx s.cur).pmovsrEl0 ∧ s.hw.pmevtyper = (s.ctx s.cur).pmevtyper := by
  have halone := readsAs_iff.mp (hs s.cur)
  rw [← sameView_pmuSave_iff]
  obtain rfl := Option.some.inj hstep
  rw [if_neg hne]
  constructor
  · intro hp
    have hcur := readsAs_iff.mp (hp s.cur)
    dsimp only at hcur
    rw [Function.update_self] at hcur
    exact hcur.trans halone.symm
  · intro hsaved v
    refine readsAs_iff.mpr ?_
    dsimp only
    by_cases hv : v = s.cur
    · rw [hv, Function.update_self]
      exact hsaved.trans halone
    · rw [Function.update_of_ne hv]
      exact readsAs_iff.mp (hs v)

/-- **A harmless step** keeps the counters private. -/
theorem private_step {s' : Shared} {event : Event} (hs : Private s) (hharm : Harmless s event)
    (hstep : s.step event = some s') : Private s' := by
  cases event with
  | access x esr =>
    obtain rfl := Option.some.inj hstep
    intro v
    refine readsAs_iff.mpr ?_
    dsimp only
    by_cases hv : v = s.cur
    · rw [hv, Function.update_self, Function.update_self]
      exact sameView_pmuHandleTrap (readsAs_iff.mp (hs s.cur)) x esr
    · rw [Function.update_of_ne hv, Function.update_of_ne hv]
      exact readsAs_iff.mp (hs v)
  | switch next =>
    by_cases hne : next = s.cur
    · have hsame : s' = s := by
        obtain rfl := Option.some.inj hstep
        exact if_pos hne
      rw [hsame]
      exact hs
    · exact (private_switch_iff hs hne hstep).mpr (hharm hne).1
  | count pmevcntr pmccntr overflows =>
    obtain rfl := Option.some.inj hstep
    exact hs

/-- **Any other** shows a guest what another counted. -/
theorem harmful_step {event : Event} (hs : Private s) (hharm : ¬ Harmless s event)
    (hback : CountersBack s event) : ∃ s', s.step event = some s' ∧ ¬ Private s' := by
  cases event with
  | access x esr => exact absurd trivial hharm
  | count pmevcntr pmccntr overflows => exact absurd trivial hharm
  | switch next =>
    have hzero := (countersBack_switch_iff s next).mp hback
    refine ⟨_, rfl, fun hp => hharm fun hne => ⟨?_, hzero hne⟩⟩
    exact (private_switch_iff hs hne rfl).mp hp

/-- **The performance monitor is private and loses no write**: from any
contexts and any state of the hardware, in every interleaving of accesses,
counting and switches, each vCPU reads back what it would alone and finds
its event counters again if and only if every switch is harmless. -/
theorem pmu_private_iff (ctx : ℕ → PmuCtx) (hw : PmuRegs) (cur : ℕ) (events : List Event) :
    (Throughout Shared.step Private (.start ctx hw cur) events ∧
      Guarded Shared.step CountersBack (.start ctx hw cur) events) ↔
    Guarded Shared.step Harmless (.start ctx hw cur) events := by
  refine safe_iff_guarded (fun _ hs => hs) (fun _ _ _ hs hharm hstep => private_step hs hharm hstep)
    (fun s event _ hharm => ?_) (fun _ _ hs hharm hback => harmful_step hs hharm hback)
    fun v enc _ val => rfl
  cases event with
  | access x esr => trivial
  | count pmevcntr pmccntr overflows => trivial
  | switch next => exact (countersBack_switch_iff s next).mpr fun hne => (hharm hne).2

/-- Everything at zero. -/
def zeroCtx : PmuCtx := ⟨0, 0, 0, 0, fun _ => 0, fun _ => 0, 0, 0, false⟩

def zeroHw : PmuRegs := ⟨0, 0, 0, 0, 0, fun _ => 0, fun _ => 0⟩

/-- A guest selects an event, is switched out, and reads back that it has
selected none. -/
theorem event_type_lost :
    ¬ Throughout Shared.step Private (.start (fun _ => zeroCtx) zeroHw 0)
      [.access (fun _ => 0x11) 0x6236EC00, .switch 1] := by
  intro hrun
  have hlast := (hrun.2 _ rfl).2 _ rfl
  have hty := (readsAs_iff.mp (hlast 0)).pmevtyper
  exact absurd (congrFun hty 0) (by decide)

/-! ## The switch of the scheduler -/

/-- The contexts and the hardware of the hypervisor are those of the
interleaving. -/
structure Represents (s : Shared) (h : Hyp) : Prop where
  ctx : ∀ (v : ℕ) vc, h.vcpus[v]? = some vc → s.ctx v = vc.pmu
  hw : s.hw = h.pmu
  cur : h.current = some s.cur

variable {h : Hyp} {vc : Vcpu}

theorem represents_switchIn (hr : Represents s h)
    (hvc : h.vcpus[next]? = some vc) :
    Represents { s with hw := pmuRestore vc.pmu s.hw, cur := next } (Sched.switchIn h next) := by
  have hlt : next < h.vcpus.length := (List.getElem?_eq_some_iff.mp hvc).1
  unfold Sched.switchIn
  rw [hvc]
  refine ⟨fun v w hw => ?_, congrArg (pmuRestore vc.pmu) hr.hw, rfl⟩
  dsimp only at hw ⊢
  by_cases hv : next = v
  · rw [← hv, List.getElem?_set_self hlt] at hw
    rw [← hv, ← Option.some.inj hw]
    exact hr.ctx next vc hvc
  · rw [List.getElem?_set_ne hv] at hw
    exact hr.ctx v w hw

theorem represents_switchOut (hr : Represents s h)
    (hvc : h.vcpus[s.cur]? = some vc) (out : ℕ → Option (Fin 4 → U64)) :
    Represents { s with
      ctx := Function.update s.ctx s.cur (pmuSave (s.ctx s.cur) s.hw).1
      hw := (pmuSave (s.ctx s.cur) s.hw).2
      out := out } (Sched.switchOut h s.cur) := by
  have hlt : s.cur < h.vcpus.length := (List.getElem?_eq_some_iff.mp hvc).1
  have hsave : pmuSave (s.ctx s.cur) s.hw = pmuSave vc.pmu h.pmu := by
    rw [hr.ctx s.cur vc hvc, hr.hw]
  unfold Sched.switchOut
  rw [hvc, hsave]
  refine ⟨fun v w hw => ?_, rfl, hr.cur⟩
  dsimp only at hw ⊢
  by_cases hv : s.cur = v
  · rw [← hv, List.getElem?_set_self hlt] at hw
    rw [← hv, Function.update_self, ← Option.some.inj hw]
  · rw [List.getElem?_set_ne hv] at hw
    rw [Function.update_of_ne (Ne.symm hv)]
    exact hr.ctx v w hw

/-- **`vcpu_do_switch` is the switch of the interleaving.** -/
theorem represents_vcpuDoSwitch (hr : Represents s h)
    {vc' : Vcpu} (hne : next ≠ s.cur) (hvc : h.vcpus[s.cur]? = some vc)
    (hvc' : h.vcpus[next]? = some vc') :
    ∃ s', s.step (.switch next) = some s' ∧
      Represents s' (Sched.vcpuDoSwitch h h.current next) := by
  refine ⟨_, rfl, ?_⟩
  rw [if_neg hne, hr.cur]
  have hout := represents_switchOut hr hvc
    (Function.update s.out s.cur (some (pmuSave (s.ctx s.cur) s.hw).1.pmevcntr))
  have hkept : (Sched.switchOut h s.cur).vcpus[next]? = some vc' := by
    unfold Sched.switchOut
    rw [hvc]
    exact (List.getElem?_set_ne (Ne.symm hne)).trans hvc'
  have hin := represents_switchIn hout hkept
  rw [← hr.ctx next vc' hvc'] at hin
  exact hin

end Pmu

end HypervisorBase
