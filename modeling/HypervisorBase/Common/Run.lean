import Mathlib.Tactic.Common
/-!
# Runs of a partial step function

A step of a system either returns a state or never returns (`none`). A
run is a list of labels; `Throughout` says a predicate holds in every
state the run passes through, and `Guarded` that a relation holds at
every step it takes. `exec_invariant` and `throughout_of_guarded` reduce
safety of a run to one step, and `safe_iff_guarded` gives the exact form:
where every guarded step is safe and every unguarded one is not, a run is
safe precisely when all of its steps are guarded.
-/

namespace HypervisorBase

variable {S L : Type*}

/-- The state a run ends in, if every step of it returns. -/
def exec (step : S → L → Option S) : S → List L → Option S
  | s, [] => some s
  | s, l :: ls => (step s l).bind fun s' => exec step s' ls

/-- A predicate of every state a run passes through. -/
def Throughout (step : S → L → Option S) (P : S → Prop) : S → List L → Prop
  | s, [] => P s
  | s, l :: ls => P s ∧ ∀ s', step s l = some s' → Throughout step P s' ls

/-- A relation of every state a run passes through with the label taken
there. -/
def Guarded (step : S → L → Option S) (G : S → L → Prop) : S → List L → Prop
  | _, [] => True
  | s, l :: ls => G s l ∧ ∀ s', step s l = some s' → Guarded step G s' ls

variable {step : S → L → Option S} {P Inv : S → Prop} {G Q : S → L → Prop}

@[simp] theorem exec_nil (s : S) : exec step s [] = some s := rfl

@[simp] theorem exec_cons (s : S) (l : L) (ls : List L) :
    exec step s (l :: ls) = (step s l).bind fun s' => exec step s' ls := rfl

theorem exec_append (s : S) (ls ls' : List L) :
    exec step s (ls ++ ls') = (exec step s ls).bind fun s' => exec step s' ls' := by
  induction ls generalizing s with
  | nil => rfl
  | cons l ls ih =>
    simp only [List.cons_append, exec_cons, Option.bind_assoc]
    exact congrArg _ (funext ih)

variable {ls : List L} {s : S}

theorem Throughout.head (h : Throughout step P s ls) : P s := by
  cases ls with
  | nil => exact h
  | cons l ls => exact h.1

/-- **What a step preserves, a run preserves.** -/
theorem exec_invariant (hstep : ∀ s l s', Inv s → step s l = some s' → Inv s')
    {s' : S} (hs : Inv s) (h : exec step s ls = some s') : Inv s' := by
  induction ls generalizing s with
  | nil => rw [← Option.some.inj h]; exact hs
  | cons l ls ih =>
    obtain ⟨t, ht, h⟩ := Option.bind_eq_some_iff.mp h
    exact ih (hstep s l t hs ht) h

/-- The states a run passes through are those its initial segments end
in. -/
theorem throughout_iff : Throughout step P s ls ↔
    ∀ pre suf s', ls = pre ++ suf → exec step s pre = some s' → P s' := by
  induction ls generalizing s with
  | nil =>
    constructor
    · intro h pre suf s' hsplit hexec
      rw [(List.append_eq_nil_iff.mp hsplit.symm).1] at hexec
      rw [← Option.some.inj hexec]; exact h
    · intro h; exact h [] [] s rfl rfl
  | cons l ls ih =>
    constructor
    · rintro ⟨hP, hrest⟩ pre suf s' hsplit hexec
      cases pre with
      | nil => rw [← Option.some.inj hexec]; exact hP
      | cons l' pre =>
        obtain ⟨rfl, hls⟩ := List.cons.inj hsplit
        obtain ⟨t, ht, hexec⟩ := Option.bind_eq_some_iff.mp hexec
        exact ih.1 (hrest t ht) pre suf s' hls hexec
    · intro h
      refine ⟨h [] (l :: ls) s rfl rfl, fun t ht => ih.2 fun pre suf s' hls hexec => ?_⟩
      exact h (l :: pre) suf s' (by rw [hls]; rfl) (by rw [exec_cons, ht]; exact hexec)

/-- A run all of whose steps are guarded keeps what guarded steps
preserve. -/
theorem throughout_of_guarded
    (hstep : ∀ s l s', Inv s → G s l → step s l = some s' → Inv s') (hP : ∀ s, Inv s → P s)
     (hs : Inv s) (h : Guarded step G s ls) : Throughout step P s ls := by
  induction ls generalizing s with
  | nil => exact hP s hs
  | cons l ls ih => exact ⟨hP s hs, fun s' hs' => ih (hstep s l s' hs h.1 hs') (h.2 s' hs')⟩

/-- And each of its steps is what guarded steps are. -/
theorem guarded_of_guarded
    (hstep : ∀ s l s', Inv s → G s l → step s l = some s' → Inv s')
    (hgood : ∀ s l, Inv s → G s l → Q s l)
     (hs : Inv s) (h : Guarded step G s ls) : Guarded step Q s ls := by
  induction ls generalizing s with
  | nil => trivial
  | cons l ls ih =>
    exact ⟨hgood s l hs h.1, fun s' hs' => ih (hstep s l s' hs h.1 hs') (h.2 s' hs')⟩

/-- What is left of a guarded run is guarded. -/
theorem Guarded.rest {s' : S} {pre suf : List L} (h : Guarded step G s (pre ++ suf))
    (hexec : exec step s pre = some s') : Guarded step G s' suf := by
  induction pre generalizing s with
  | nil =>
    rw [← Option.some.inj hexec]
    exact h
  | cons l pre ih =>
    obtain ⟨t, ht, hexec⟩ := Option.bind_eq_some_iff.mp hexec
    exact ih (h.2 t ht) hexec

/-- **The exact form.** Guarded steps keep the invariant and are good
themselves; a step that is not guarded is bad itself or ends in a bad
state. Then a run is good, in its states and in its steps, precisely
when all of its steps are guarded. -/
theorem safe_iff_guarded (hP : ∀ s, Inv s → P s)
    (hstep : ∀ s l s', Inv s → G s l → step s l = some s' → Inv s')
    (hgood : ∀ s l, Inv s → G s l → Q s l)
    (hbad : ∀ s l, Inv s → ¬ G s l → Q s l → ∃ s', step s l = some s' ∧ ¬ P s')
     (hs : Inv s) :
    (Throughout step P s ls ∧ Guarded step Q s ls) ↔ Guarded step G s ls := by
  constructor
  · rintro ⟨hT, hQ⟩
    induction ls generalizing s with
    | nil => trivial
    | cons l ls ih =>
      have hG : G s l := by
        by_contra hG
        obtain ⟨s', hs', hPs'⟩ := hbad s l hs hG hQ.1
        exact hPs' (hT.2 s' hs').head
      exact ⟨hG, fun s' hs' =>
        ih (hstep s l s' hs hG hs') (hT.2 s' hs') (hQ.2 s' hs')⟩
  · intro h
    exact ⟨throughout_of_guarded hstep hP hs h, guarded_of_guarded hstep hgood hs h⟩

theorem guarded_of_forall (hQ : ∀ s l, Q s l) (s : S) (ls : List L) : Guarded step Q s ls := by
  induction ls generalizing s with
  | nil => trivial
  | cons l ls ih => exact ⟨hQ s l, fun s' _ => ih s'⟩

theorem guarded_of_mem {p : L → Prop} (h : ∀ l ∈ ls, p l) (s : S) :
    Guarded step (fun _ l => p l) s ls := by
  induction ls generalizing s with
  | nil => trivial
  | cons l ls ih =>
    exact ⟨h l List.mem_cons_self, fun s' _ => ih (fun l' hl' => h l' (List.mem_cons_of_mem l hl')) s'⟩

/-- The exact form where only states can be bad. -/
theorem throughout_iff_guarded (hP : ∀ s, Inv s → P s)
    (hstep : ∀ s l s', Inv s → G s l → step s l = some s' → Inv s')
    (hbad : ∀ s l, Inv s → ¬ G s l → ∃ s', step s l = some s' ∧ ¬ P s')
     (hs : Inv s) : Throughout step P s ls ↔ Guarded step G s ls := by
  have hsafe : (Throughout step P s ls ∧ Guarded step (fun _ _ => True) s ls) ↔
      Guarded step G s ls :=
    safe_iff_guarded hP hstep (fun _ _ _ _ => trivial) (fun s l hs hG _ => hbad s l hs hG) hs
  refine Iff.trans ?_ hsafe
  exact ⟨fun h => ⟨h, guarded_of_forall (fun _ _ => trivial) s ls⟩, And.left⟩

end HypervisorBase
