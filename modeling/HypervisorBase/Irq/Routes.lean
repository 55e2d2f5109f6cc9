import HypervisorBase.Common.Run
import HypervisorBase.Irq.Model
/-!
# Routes that are removed

A route is never taken out of the table: `irq_route_remove` marks the
first entry of the interrupt as inactive and leaves it there. Delivery
looks for the first active entry, but the next removal finds the same
first entry again. So the removal of an interrupt works once, if the
interrupt has one route, and `route_removal_iff` says that this is all:
in any history the two agree exactly as long as no interrupt is removed
that has been added twice or removed already.
-/

namespace HypervisorBase

namespace Irq

/-! ## Histories -/

/-- The hypervisor, with the interrupts whose route has been removed and
not added since. -/
structure Routed where
  hyp : Hyp
  removed : U32 → Bool

/-- After `irq_router_init`. -/
def Routed.init (h : Hyp) : Routed := ⟨irqRouterInit h, fun _ => false⟩

inductive RouteOp
  | add (phys vmId virq : U32)
  | remove (phys : U32)

/-- A call; the interrupt counts as added or removed when it returns
`E_OK`. -/
def routeOp (s : Routed) : RouteOp → Routed
  | .add phys vmId virq =>
    let (e, h) := irqRouteAdd s.hyp phys vmId virq
    ⟨h, if e = .ok then Function.update s.removed phys false else s.removed⟩
  | .remove phys =>
    let (e, h) := irqRouteRemove s.hyp phys
    ⟨h, if e = .ok then Function.update s.removed phys true else s.removed⟩

def routeStep (s : Routed) (op : RouteOp) : Option Routed := some (routeOp s op)

/-- **A removal takes effect**: the interrupt has no route, and when it
comes nothing is injected and it is reported. -/
def RemovalHolds (s : Routed) : Prop :=
  ∀ phys, s.removed phys = true → routeOf s.hyp phys = none ∧
    irqRouteToVm s.hyp phys = Vse.fdetectIrqUnrouted s.hyp

/-- **A removal returns `E_OK`** if and only if there is an active route. -/
def AnswersRight (s : Routed) : RouteOp → Prop
  | .add _ _ _ => True
  | .remove phys => (irqRouteRemove s.hyp phys).1 = .ok ↔ routeOf s.hyp phys ≠ none

/-! ## The entries of an interrupt -/

/-- The entries of an interrupt, in their order. -/
def entriesOf (h : Hyp) (phys : U32) : List Route := h.routes.filter fun r => r.phys = phys

/-- **An interrupt that may be removed**: it has no entry, or a single
one, which is active. -/
def SingleRoute (s : Routed) : RouteOp → Prop
  | .add _ _ _ => True
  | .remove phys => entriesOf s.hyp phys = [] ∨ ∃ r, entriesOf s.hyp phys = [r] ∧ r.active = true

/-- What a removal does to an entry. -/
def Route.off (r : Route) : Route := { r with active := false }

variable {h : Hyp} {phys vmId virq q : U32} {s : Routed}

/-- An interrupt has no route if each of its entries is off. -/
theorem routeOf_eq_none_iff : routeOf h phys = none ↔ ∀ r ∈ entriesOf h phys, r.active = false := by
  unfold routeOf entriesOf
  rw [List.find?_eq_none]
  constructor
  · intro hnone r hr
    obtain ⟨hmem, hphys⟩ := List.mem_filter.mp hr
    have hnot := hnone r hmem
    rw [hphys, Bool.and_true] at hnot
    exact Bool.not_eq_true _ ▸ hnot
  · intro hall r hr hboth
    obtain ⟨hactive, hphys⟩ := (Bool.and_eq_true _ _).mp hboth
    have hoff := hall r (List.mem_filter.mpr ⟨hr, hphys⟩)
    exact Bool.noConfusion (hactive.symm.trans hoff)

/-- **The first entry is switched off**, and no other interrupt's. -/
theorem filter_modify_findIdx (l : List Route) (phys q : U32) :
    ∀ i, (l.findIdx? fun r => r.phys = phys) = some i →
      (l.modify i Route.off).filter (fun r => r.phys = q) =
        if q = phys then (l.filter fun r => r.phys = q).modifyHead Route.off
        else l.filter fun r => r.phys = q := by
  induction l with
  | nil =>
    intro i hi
    cases hi
  | cons r l ih =>
    intro i hi
    rw [List.findIdx?_cons] at hi
    by_cases hr : r.phys = phys
    · rw [if_pos (decide_eq_true hr)] at hi
      obtain rfl := Option.some.inj hi
      by_cases hq : q = phys
      · simp [hq, hr, Route.off]
      · have hne : ¬ r.phys = q := fun heq => hq (heq.symm.trans hr)
        simp [hq, hne, Route.off]
    · rw [if_neg (by simpa using hr)] at hi
      obtain ⟨j, hj, rfl⟩ := Option.map_eq_some_iff.mp hi
      have hrest := ih j hj
      by_cases hq : r.phys = q
      · have hqp : ¬ q = phys := fun heq => hr (hq.trans heq)
        simpa [hq, hqp] using hrest
      · simpa [hq] using hrest

/-- **Removal** turns off the first entry. -/
theorem irqRouteRemove_spec (h : Hyp) (phys : U32) :
    ((irqRouteRemove h phys).1 = .ok ↔ entriesOf h phys ≠ []) ∧
    ∀ q, entriesOf (irqRouteRemove h phys).2 q =
      if q = phys then (entriesOf h q).modifyHead Route.off else entriesOf h q := by
  unfold irqRouteRemove
  cases hfind : h.routes.findIdx? fun r => r.phys = phys with
  | none =>
    have hnone : entriesOf h phys = [] := by
      unfold entriesOf
      rw [List.filter_eq_nil_iff]
      intro r hr
      exact Bool.not_eq_true _ ▸ List.findIdx?_eq_none_iff.mp hfind r hr
    dsimp only
    refine ⟨⟨?_, fun hne => absurd hnone hne⟩, fun q => ?_⟩
    · intro herr
      cases herr
    · split
      · rename_i hq
        rw [hq, hnone]
        rfl
      · rfl
  | some i =>
    refine ⟨⟨fun _ hnil => ?_, fun _ => rfl⟩, fun q => filter_modify_findIdx h.routes phys q i hfind⟩
    obtain ⟨hlt, hat, -⟩ := List.findIdx?_eq_some_iff_getElem.mp hfind
    have hmem : h.routes[i] ∈ entriesOf h phys := List.mem_filter.mpr ⟨List.getElem_mem hlt, hat⟩
    rw [hnil] at hmem
    cases hmem

/-- **Adding** appends an entry, or is refused. -/
theorem irqRouteAdd_spec (h : Hyp) (phys vmId virq : U32) :
    (irqRouteAdd h phys vmId virq).2 = h ∧ (irqRouteAdd h phys vmId virq).1 ≠ .ok ∨
    (irqRouteAdd h phys vmId virq).1 = .ok ∧
      ∀ q, entriesOf (irqRouteAdd h phys vmId virq).2 q =
        if q = phys then entriesOf h q ++ [⟨phys, vmId, virq, true⟩] else entriesOf h q := by
  unfold irqRouteAdd
  split
  · exact .inl ⟨rfl, fun hok => by cases hok⟩
  · refine .inr ⟨rfl, fun q => ?_⟩
    unfold entriesOf
    dsimp only
    rw [List.filter_append]
    by_cases hq : q = phys
    · simp [hq]
    · have hne : ¬ phys = q := fun heq => hq heq.symm
      simp [hq, hne]

/-! ## The invariant -/

/-- **Only the first entry of an interrupt can be inactive**, and it is
the only one after a removal. -/
structure Ordered (s : Routed) : Prop where
  later : ∀ phys, ∀ r ∈ (entriesOf s.hyp phys).tail, r.active = true
  removed : ∀ phys, s.removed phys = true → routeOf s.hyp phys = none

theorem Ordered.removalHolds (hs : Ordered s) : RemovalHolds s := by
  intro phys hremoved
  have hnone := hs.removed phys hremoved
  refine ⟨hnone, ?_⟩
  unfold irqRouteToVm
  rw [hnone]

theorem ordered_init (h : Hyp) : Ordered (.init h) where
  later := by
    intro phys r hr
    cases hr
  removed := by
    intro phys hremoved
    cases hremoved

/-- What has no active entry keeps that when the first is switched off. -/
theorem inactive_modifyHead {l : List Route} (htail : ∀ r ∈ l.tail, r.active = false) :
    ∀ r ∈ l.modifyHead Route.off, r.active = false := by
  cases l with
  | nil =>
    intro r hr
    cases hr
  | cons r₀ l =>
    intro r hr
    rcases List.mem_cons.mp hr with rfl | hr
    · rfl
    · exact htail r hr

theorem tail_modifyHead_off (l : List Route) : (l.modifyHead Route.off).tail = l.tail := by
  cases l <;> rfl

theorem tail_append_active {l : List Route} {r : Route} (hr : r.active = true)
    (hl : ∀ r ∈ l.tail, r.active = true) : ∀ r' ∈ (l ++ [r]).tail, r'.active = true := by
  cases l with
  | nil =>
    intro r' hr'
    cases hr'
  | cons r₀ l =>
    intro r' hr'
    rcases List.mem_append.mp hr' with hold | hnew
    · exact hl r' hold
    · rw [List.mem_singleton.mp hnew]
      exact hr

/-- **An added route keeps the order.** -/
theorem Ordered.add (hs : Ordered s) (phys vmId virq : U32) : Ordered (routeOp s (.add phys vmId virq)) := by
  unfold routeOp
  dsimp only
  rcases irqRouteAdd_spec s.hyp phys vmId virq with ⟨hsame, hbad⟩ | ⟨hok, hentries⟩
  · rw [hsame, if_neg hbad]
    exact hs
  · rw [if_pos hok]
    refine ⟨fun q => ?_, fun q hremoved => ?_⟩
    · dsimp only
      rw [hentries]
      split
      · exact tail_append_active rfl (hs.later q)
      · exact hs.later q
    · -- the interrupt itself no longer counts as removed
      dsimp only at hremoved
      have hne : q ≠ phys := by
        intro heq
        rw [heq, Function.update_self] at hremoved
        cases hremoved
      rw [Function.update_of_ne hne] at hremoved
      rw [routeOf_eq_none_iff]
      dsimp only
      rw [hentries, if_neg hne]
      exact routeOf_eq_none_iff.mp (hs.removed q hremoved)

/-- **A removal keeps it** where the interrupt has a single route. -/
theorem Ordered.remove (hs : Ordered s) (hsingle : SingleRoute s (.remove phys)) :
    Ordered (routeOp s (.remove phys)) := by
  obtain ⟨-, hentries⟩ := irqRouteRemove_spec s.hyp phys
  unfold routeOp
  dsimp only
  refine ⟨fun q => ?_, fun q hremoved => ?_⟩
  · dsimp only
    rw [hentries]
    split
    · rw [tail_modifyHead_off]
      exact hs.later q
    · exact hs.later q
  · rw [routeOf_eq_none_iff]
    dsimp only
    rw [hentries]
    by_cases hq : q = phys
    · rw [if_pos hq, hq]
      refine inactive_modifyHead ?_
      intro r hr
      rcases hsingle with hnil | ⟨r₀, hone, -⟩
      · rw [hnil] at hr
        cases hr
      · rw [hone] at hr
        cases hr
    · rw [if_neg hq]
      have hbefore : s.removed q = true := by
        dsimp only at hremoved
        split at hremoved
        · rwa [Function.update_of_ne hq] at hremoved
        · exact hremoved
      exact routeOf_eq_none_iff.mp (hs.removed q hbefore)

theorem answersRight_iff (phys : U32) : AnswersRight s (.remove phys) ↔
    (entriesOf s.hyp phys ≠ [] ↔ ∃ r ∈ entriesOf s.hyp phys, r.active = true) := by
  unfold AnswersRight
  dsimp only
  rw [(irqRouteRemove_spec s.hyp phys).1, Ne, Ne, routeOf_eq_none_iff]
  simp

/-- **A removal of any other interrupt is wrong**: it returns `E_OK` and
there was no route, or there still is one. -/
theorem remove_wrong (hs : Ordered s) (hnot : ¬ SingleRoute s (.remove phys))
    (hanswer : AnswersRight s (.remove phys)) : ¬ RemovalHolds (routeOp s (.remove phys)) := by
  obtain ⟨hok, hentries⟩ := irqRouteRemove_spec s.hyp phys
  rw [answersRight_iff] at hanswer
  unfold SingleRoute at hnot
  rw [not_or] at hnot
  obtain ⟨r, hr, hactive⟩ := hanswer.mp hnot.1
  have hlater := hs.later phys
  cases hlist : entriesOf s.hyp phys with
  | nil => exact absurd hlist hnot.1
  | cons r₀ l =>
    cases l with
    | nil =>
      rw [hlist, List.mem_singleton] at hr
      exact absurd ⟨r₀, hlist, hr ▸ hactive⟩ hnot.2
    | cons r₁ l =>
      -- the second entry is active before and after
      intro hholds
      have hremoved : (routeOp s (.remove phys)).removed phys = true := by
        unfold routeOp
        dsimp only
        rw [if_pos (hok.mpr hnot.1), Function.update_self]
      have hnone := routeOf_eq_none_iff.mp (hholds phys hremoved).1 r₁
      have hmem : r₁ ∈ entriesOf (routeOp s (.remove phys)).hyp phys := by
        change r₁ ∈ entriesOf (irqRouteRemove s.hyp phys).2 phys
        rw [hentries, if_pos rfl, hlist]
        simp
      rw [hlist] at hlater
      exact Bool.noConfusion ((hlater r₁ List.mem_cons_self).symm.trans (hnone hmem))

theorem answersRight_of_single (hsingle : SingleRoute s (.remove phys)) :
    AnswersRight s (.remove phys) := by
  rw [answersRight_iff]
  rcases hsingle with hnil | ⟨r, hone, hactive⟩
  · simp [hnil]
  · simp [hone, hactive]

/-- **Removals hold along every history** of added and removed routes
after `irq_router_init`, and each answers right, if and only if no
interrupt is removed that has an entry other than a single active one. -/
theorem route_removal_iff (h : Hyp) (ops : List RouteOp) :
    (Throughout routeStep RemovalHolds (.init h) ops ∧ Guarded routeStep AnswersRight (.init h) ops) ↔
      Guarded routeStep SingleRoute (.init h) ops := by
  refine safe_iff_guarded (fun s (hs : Ordered s) => hs.removalHolds) ?_ ?_ ?_ (ordered_init h)
  · intro s op s' hs hsingle hstep
    obtain rfl := Option.some.inj hstep
    cases op with
    | add phys vmId virq => exact hs.add phys vmId virq
    | remove phys => exact hs.remove hsingle
  · intro s op _ hsingle
    cases op with
    | add phys vmId virq => trivial
    | remove phys => exact answersRight_of_single hsingle
  · intro s op hs hnot hanswer
    cases op with
    | add phys vmId virq => exact absurd trivial hnot
    | remove phys => exact ⟨_, rfl, remove_wrong hs hnot hanswer⟩

/-- Interrupt 40 is routed to two VMs and removed: it still goes to the
second. It is routed once and removed twice: the second removal returns
`E_OK` too. -/
theorem removed_route_delivers :
    (∃ s, exec routeStep (.init Hyp.blank)
        [.add 40 1 40, .add 40 2 41, .remove 40] = some s ∧
      s.removed 40 = true ∧ routeOf s.hyp 40 = some ⟨40, 2, 41, true⟩) ∧
    ∃ s, exec routeStep (.init Hyp.blank)
        [.add 40 1 40, .remove 40] = some s ∧
      routeOf s.hyp 40 = none ∧ (irqRouteRemove s.hyp 40).1 = .ok :=
  ⟨⟨_, rfl, rfl, rfl⟩, _, rfl, rfl, rfl⟩

end Irq

end HypervisorBase
