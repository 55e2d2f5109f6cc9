import HypervisorBase.Common.Run
import HypervisorBase.Irq.Delivery
/-!
# The list registers of one vCPU

The registers are a small table of virtual interrupts, each of them
pending, active, or both. There are two ways in. `gic_inject_virq_lr`
takes the first free register and looks neither for the interrupt in the
others nor at what it overwrites when there is none. `gic_inject_virq`
always takes register 0. `list_registers_iff` says which injections keep
the table in order: nothing is lost while there is room, and no interrupt
stands in two registers.
-/

namespace HypervisorBase

namespace Irq

/-! ## The table -/

/-- Neither pending nor active. -/
def IsFree (e : U64) : Prop := e >>> 62 = 0

instance (e : U64) : Decidable (IsFree e) := inferInstanceAs (Decidable (_ = _))

/-- The virtual interrupt in a register. -/
def virqOf (e : U64) : U32 := e.setWidth 32

/-- **No interrupt occupies two registers.** -/
def Unique (h : Hyp) : Prop :=
  ∀ m < h.numLrs, ∀ n < h.numLrs, ¬ IsFree (h.lr m) → ¬ IsFree (h.lr n) →
    virqOf (h.lr m) = virqOf (h.lr n) → m = n

/-- **There is room.** -/
def HasRoom (h : Hyp) : Prop := ∃ n < h.numLrs, IsFree (h.lr n)

/-- The second entry is of the same interrupt, which is pending there if
it is in the first, and active if it is. -/
def Covers (e e' : U64) : Prop := virqOf e' = virqOf e ∧ (e >>> 62) &&& (e' >>> 62) = e >>> 62

/-- **Nothing is discarded**: whatever is pending or active still is. -/
def LosesNothing (h h' : Hyp) : Prop :=
  ∀ n < h.numLrs, ¬ IsFree (h.lr n) → ∃ m < h'.numLrs, Covers (h.lr n) (h'.lr m)

/-! ## The two ways in -/

/-- An injection: by the timer's path, or into the first free register. -/
inductive Injection
  | timer (virq : U32) (prio : U8)
  | list (virq : U32) (prio : U8)

def inject (h : Hyp) : Injection → Hyp
  | .timer virq prio => gicInjectVirq h virq prio
  | .list virq prio => Ipc.gicInjectVirqLr h virq prio

def injectStep (h : Hyp) (i : Injection) : Option Hyp := some (inject h i)

/-- The priority an interrupt is injected with, if the distributor and the
mask of the current vCPU let it through. -/
def admitted (h : Hyp) (virq : U32) (prio : U8) : Option U8 :=
  match h.current.bind fun c => h.vcpus[c]? with
  | none => some prio
  | some vc =>
    match h.vms[vc.vm]? with
    | none => some prio
    | some vm =>
      if !Ipc.vgicIsEnabled vm.vgic virq then none
      else if Ipc.vgicIsMasked vc.vgicCpu (Ipc.vgicGetPriority vm.vgic virq) then none
      else some (Ipc.vgicGetPriority vm.vgic virq)

/-- An entry is put into a register. -/
def put (h : Hyp) (k : ℕ) (e : U64) : Hyp := { h with lr := Function.update h.lr k e }

theorem gicInjectVirqLr_admitted (h : Hyp) (virq : U32) (prio : U8) :
    Ipc.gicInjectVirqLr h virq prio =
      match admitted h virq prio with
      | none => h
      | some p => put h (target h) (Ipc.lrValue virq p) := by
  unfold Ipc.gicInjectVirqLr admitted
  cases h.current.bind fun c => h.vcpus[c]? with
  | none => rfl
  | some vc =>
    dsimp only
    cases h.vms[vc.vm]? with
    | none => rfl
    | some vm =>
      dsimp only
      by_cases hoff : (!Ipc.vgicIsEnabled vm.vgic virq) = true
      · rw [if_pos hoff, if_pos hoff]
      · rw [if_neg hoff, if_neg hoff]
        split <;> rfl

/-- **The injections that keep the table in order.** The interrupt is in
no other register than the one that is written; and the timer's path,
while there is room, finds register 0 free, or its own interrupt there,
still pending and not active. -/
def InOrder (h : Hyp) : Injection → Prop
  | .timer virq _ =>
    (∀ n < h.numLrs, n ≠ 0 → ¬ IsFree (h.lr n) → virqOf (h.lr n) ≠ virq) ∧
    (HasRoom h → IsFree (h.lr 0) ∨ IsPending (h.lr 0) virq)
  | .list virq prio =>
    (admitted h virq prio).isSome →
      ∀ n < h.numLrs, n ≠ target h → ¬ IsFree (h.lr n) → virqOf (h.lr n) ≠ virq

/-! ## One entry is written -/

variable {h : Hyp} {k : ℕ} {e : U64} {virq : U32}

theorem not_isFree_of_isPending (he : IsPending e virq) : ¬ IsFree e := by
  intro hfree
  exact absurd (he.1.symm.trans hfree) (by decide)

/-- A new entry is unique if its number stands nowhere else. -/
theorem unique_put_iff (hu : Unique h) (hk : 0 < h.numLrs → k < h.numLrs) (he : IsPending e virq) :
    Unique (put h k e) ↔
      ∀ n < h.numLrs, n ≠ k → ¬ IsFree (h.lr n) → virqOf (h.lr n) ≠ virq := by
  have hself : (put h k e).lr k = e := Function.update_self ..
  have hother : ∀ n, n ≠ k → (put h k e).lr n = h.lr n := fun n hn => Function.update_of_ne hn ..
  constructor
  · intro hu' n hn hne hbusy heq
    refine hne (hu' n hn k (hk (by omega)) ?_ ?_ ?_)
    · rw [hother n hne]
      exact hbusy
    · rw [hself]
      exact not_isFree_of_isPending he
    · rw [hother n hne, hself, heq]
      exact he.2.symm
  · intro hnone m hm n hn hbusy hbusy' heq
    by_cases hmk : m = k
    · by_cases hnk : n = k
      · rw [hmk, hnk]
      · rw [hmk, hself, hother n hnk] at heq
        rw [hother n hnk] at hbusy'
        exact absurd (heq.symm.trans he.2) (hnone n hn hnk hbusy')
    · rw [hother m hmk] at hbusy heq
      by_cases hnk : n = k
      · rw [hnk, hself] at heq
        exact absurd (heq.trans he.2) (hnone m hm hmk hbusy)
      · rw [hother n hnk] at hbusy' heq
        exact hu m hm n hn hbusy hbusy' heq

theorem covers_self (e : U64) : Covers e e := ⟨rfl, BitVec.and_self⟩

theorem Covers.not_isFree {e e' : U64} (hc : Covers e e') (he : ¬ IsFree e) : ¬ IsFree e' := by
  intro hfree
  have hstate := hc.2
  rw [hfree] at hstate
  exact he (hstate.symm.trans BitVec.and_zero)

/-- A pending entry covers what is pending and no more. -/
theorem covers_pending_iff {e' : U64} (he' : IsPending e' virq) (he : ¬ IsFree e) :
    Covers e e' ↔ IsPending e virq := by
  unfold Covers virqOf
  rw [he'.1, he'.2]
  constructor
  · rintro ⟨hvirq, hstate⟩
    refine ⟨?_, hvirq.symm⟩
    have hbit : (e >>> 62).toNat % 2 = (e >>> 62).toNat := by
      have hnat := congrArg BitVec.toNat hstate
      rwa [BitVec.toNat_and, show (1 : U64).toNat = 1 from rfl, Nat.and_one_is_mod] at hnat
    have hzero : (e >>> 62).toNat ≠ 0 := by
      intro h0
      exact he (BitVec.eq_of_toNat_eq h0)
    apply BitVec.eq_of_toNat_eq
    change (e >>> 62).toNat = 1
    omega
  · intro hp
    exact ⟨hp.2.symm, by rw [hp.1]; rfl⟩

/-- A new entry loses nothing if it replaces nothing that is due. -/
theorem losesNothing_put_iff (hu : Unique h) (hk : 0 < h.numLrs → k < h.numLrs)
    (he : IsPending e virq) :
    LosesNothing h (put h k e) ↔ (0 < h.numLrs → IsFree (h.lr k) ∨ IsPending (h.lr k) virq) := by
  have hself : (put h k e).lr k = e := Function.update_self ..
  have hother : ∀ n, n ≠ k → (put h k e).lr n = h.lr n := fun n hn => Function.update_of_ne hn ..
  constructor
  · intro hkept hpos
    by_contra hboth
    rw [not_or] at hboth
    obtain ⟨m, hm, hc⟩ := hkept k (hk hpos) hboth.1
    by_cases hmk : m = k
    · rw [hmk, hself, covers_pending_iff he hboth.1] at hc
      exact hboth.2 hc
    · -- another register with the same interrupt would be a second one
      rw [hother m hmk] at hc
      exact hmk (hu m hm k (hk hpos) (hc.not_isFree hboth.1) hboth.1 hc.1)
  · intro hlost n hn hbusy
    by_cases hnk : n = k
    · subst hnk
      rcases hlost (by omega) with hfree | hpending
      · exact absurd hfree hbusy
      · refine ⟨n, hn, ?_⟩
        rw [hself]
        exact (covers_pending_iff he hbusy).mpr hpending
    · refine ⟨n, hn, ?_⟩
      rw [hother n hnk]
      exact covers_self _

/-! ## An injection -/

/-- The first free register is free, if there is one. -/
theorem isFree_target (hroom : HasRoom h) : IsFree (h.lr (target h)) := by
  obtain ⟨n, hn, hfree⟩ := hroom
  rw [target, Ipc.freeLr]
  cases hfind : (List.range h.numLrs).find? fun i => h.lr i >>> 62 = 0 with
  | none =>
    have hnone := List.find?_eq_none.mp hfind n (List.mem_range.mpr hn)
    exact absurd (decide_eq_true hfree) hnone
  | some i =>
    have hfirst := List.find?_some hfind
    exact of_decide_eq_true hfirst

/-- **What an injection does** to a table in which no interrupt stands
twice: it keeps that, and loses nothing while there is room, exactly if it
is one of those that keep the table in order. -/
theorem inject_iff (hu : Unique h) (i : Injection) :
    (Unique (inject h i) ∧ (HasRoom h → LosesNothing h (inject h i))) ↔ InOrder h i := by
  have hpos : HasRoom h → 0 < h.numLrs := fun ⟨n, hn, _⟩ => by omega
  cases i with
  | timer virq prio =>
    have hp := isPending_lrValue virq prio
    have hkept := losesNothing_put_iff hu (k := 0) id hp
    change (Unique (put h 0 (Ipc.lrValue virq prio)) ∧
      (HasRoom h → LosesNothing h (put h 0 (Ipc.lrValue virq prio)))) ↔ _
    rw [unique_put_iff hu id hp, hkept]
    refine and_congr_right fun _ => forall_congr' fun hroom => ?_
    exact ⟨fun hall => hall (hpos hroom), fun hall _ => hall⟩
  | list virq prio =>
    change (Unique (Ipc.gicInjectVirqLr h virq prio) ∧
      (HasRoom h → LosesNothing h (Ipc.gicInjectVirqLr h virq prio))) ↔
        ((admitted h virq prio).isSome = true → ∀ n < h.numLrs, n ≠ target h →
          ¬ IsFree (h.lr n) → virqOf (h.lr n) ≠ virq)
    rw [gicInjectVirqLr_admitted]
    cases admitted h virq prio with
    | none =>
      constructor
      · intro _ hnone
        cases hnone
      · intro _
        exact ⟨hu, fun _ n hn _ => ⟨n, hn, covers_self _⟩⟩
    | some p =>
      have hp := isPending_lrValue virq p
      dsimp only
      rw [unique_put_iff hu target_lt hp, losesNothing_put_iff hu target_lt hp]
      -- the register is free whenever one is
      exact ⟨fun hboth _ => hboth.1, fun hnone =>
        ⟨hnone rfl, fun hroom _ => .inl (isFree_target hroom)⟩⟩

/-- **The list registers are in order along a run of injections**, from
any state of them: no interrupt ever stands in two of them, and nothing is
discarded while one is free, if and only if no interrupt stands twice at
first and every injection finds the table as it must be. -/
theorem list_registers_iff (h : Hyp) (injections : List Injection) :
    (Throughout injectStep Unique h injections ∧
      Guarded injectStep (fun g i => HasRoom g → LosesNothing g (inject g i)) h injections) ↔
    Unique h ∧ Guarded injectStep InOrder h injections := by
  have hexact : ∀ {g : Hyp}, Unique g →
      ((Throughout injectStep Unique g injections ∧
        Guarded injectStep (fun g i => HasRoom g → LosesNothing g (inject g i)) g injections) ↔
      Guarded injectStep InOrder g injections) := by
    intro g hu
    refine safe_iff_guarded (fun s (hs : Unique s) => hs) ?_ ?_ ?_ hu
    · intro s i s' hs hi hstep
      obtain rfl := Option.some.inj hstep
      exact ((inject_iff hs i).mpr hi).1
    · intro s i hs hi
      exact ((inject_iff hs i).mpr hi).2
    · intro s i hs hi hkept
      exact ⟨inject s i, rfl, fun hu' => hi ((inject_iff hs i).mp ⟨hu', hkept⟩)⟩
  constructor
  · intro hrun
    exact ⟨hrun.1.head, (hexact hrun.1.head).mp hrun⟩
  · rintro ⟨hu, hi⟩
    exact (hexact hu).mpr hi

/-- Interrupt 34 is injected for the RTOS, with two list registers. If it
comes once more before it is handled, it is in both of them. If the timer
comes, it is discarded although the second register is free. -/
theorem pending_discarded :
    Unique rtosOnCpu ∧
    ¬ Unique (inject (inject rtosOnCpu (.list 34 0x80)) (.list 34 0x80)) ∧
    HasRoom (inject rtosOnCpu (.list 34 0x80)) ∧
    ¬ LosesNothing (inject rtosOnCpu (.list 34 0x80))
      (inject (inject rtosOnCpu (.list 34 0x80)) (.timer 27 0x80)) := by
  refine ⟨?_, ?_, ⟨1, by decide, by decide⟩, ?_⟩
  · intro m _ n _ hbusy
    have hfree : IsFree 0 := rfl
    exact absurd hfree hbusy
  · intro hu
    exact absurd (hu 0 (by decide) 1 (by decide) (by decide) (by decide) (by decide)) (by decide)
  · intro hkept
    obtain ⟨m, hm, hvirq, -⟩ := hkept 0 (by decide) (by decide)
    have hcases : m = 0 ∨ m = 1 := by
      change m < 2 at hm
      omega
    rcases hcases with rfl | rfl
    · exact absurd hvirq (by decide)
    · exact absurd hvirq (by decide)

end Irq

end HypervisorBase
