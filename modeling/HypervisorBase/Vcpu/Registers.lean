import HypervisorBase.Vcpu.Privacy
/-!
# The emulated registers and the architecture's

What a guest would find on a processor of its own (`Arch`) beside what
`pmu_handle_trap` gives it, once the handler knows which register is
meant. The set and clear registers, the overflow flags and the counters
agree with the architecture. The control register does not: its reset
bits are stored, read back, and reset the other kind of counter, and
clearing its enable bit has no effect. `pmu_architectural_iff` says that
the two agree along a sequence of accesses exactly while no guest uses
them.
-/

namespace HypervisorBase

namespace Pmu

/-! ## The architecture -/

/-- The registers a guest can name. -/
inductive Reg
  | pmcr
  | pmcntenset
  | pmcntenclr
  | pmovsclr
  | pmccntr
  | pmccfiltr
  | pmintenset
  | pmintenclr
  | pmevcntr (i : Fin 4)
  | pmevtyper (i : Fin 4)
  deriving DecidableEq, Repr

/-- The name the handler gives each. -/
def Reg.enc : Reg → U32
  | .pmcr => sysRegEnc 3 3 9 12 0
  | .pmcntenset => sysRegEnc 3 3 9 12 1
  | .pmcntenclr => sysRegEnc 3 3 9 12 2
  | .pmovsclr => sysRegEnc 3 3 9 12 3
  | .pmccntr => sysRegEnc 3 3 9 13 0
  | .pmccfiltr => sysRegEnc 3 3 14 15 7
  | .pmintenset => sysRegEnc 3 0 9 14 1
  | .pmintenclr => sysRegEnc 3 0 9 14 2
  | .pmevcntr i => evcntrEnc i
  | .pmevtyper i => evtyperEnc i

/-- **The registers of the architecture**: one mask behind each pair of a
set and a clear register. -/
@[ext]
structure Arch where
  pmcr : U64
  cnten : U64
  inten : U64
  ovs : U64
  ccntr : U64
  ccfiltr : U64
  evcntr : Fin 4 → U64
  evtyper : Fin 4 → U64

namespace Arch

def read (s : Arch) : Reg → U64
  | .pmcr => s.pmcr
  | .pmcntenset | .pmcntenclr => s.cnten
  | .pmintenset | .pmintenclr => s.inten
  | .pmovsclr => s.ovs
  | .pmccntr => s.ccntr
  | .pmccfiltr => s.ccfiltr
  | .pmevcntr i => s.evcntr i
  | .pmevtyper i => s.evtyper i

/-- A write. `PMCR.P` and `PMCR.C` reset the event counters and the cycle
counter and are not stored. -/
def write (s : Arch) (v : U64) : Reg → Arch
  | .pmcr => { s with
      pmcr := v &&& ~~~(6 : U64)
      evcntr := if v &&& 2 ≠ 0 then fun _ => 0 else s.evcntr
      ccntr := if v &&& 4 ≠ 0 then 0 else s.ccntr }
  | .pmcntenset => { s with cnten := s.cnten ||| v }
  | .pmcntenclr => { s with cnten := s.cnten &&& ~~~v }
  | .pmintenset => { s with inten := s.inten ||| v }
  | .pmintenclr => { s with inten := s.inten &&& ~~~v }
  | .pmovsclr => { s with ovs := s.ovs &&& ~~~v }
  | .pmccntr => { s with ccntr := v }
  | .pmccfiltr => { s with ccfiltr := v }
  | .pmevcntr i => { s with evcntr := Function.update s.evcntr i v }
  | .pmevtyper i => { s with evtyper := Function.update s.evtyper i v }

/-- `PMCR.E`. -/
def enabled (s : Arch) : Bool := s.pmcr &&& 1 ≠ 0

end Arch

/-! ## Accesses -/

/-- `pmu_handle_trap` from where it has decoded the access. -/
def perform (ctx : PmuCtx) (x : ℕ → U64) (a : SysAccess) : PmuCtx × (ℕ → U64) :=
  match emulated ctx a.enc (sysOperand x a.rt) with
  | some (v, ctx') => if a.isRead then (ctx, putReg x a.rt v) else (ctx', x)
  | none => (ctx, if a.isRead then putReg x a.rt 0 else x)

theorem pmuHandleTrap_eq (ctx : PmuCtx) (x : ℕ → U64) (esr : U64) :
    pmuHandleTrap ctx x esr = perform ctx x (sysAccess esr) := rfl

/-- **An access of a guest**: an `MRS` to or an `MSR` from the register
`rt` of those it has at that moment. -/
structure Access where
  reg : Reg
  isRead : Bool
  rt : ℕ
  x : ℕ → U64

namespace Access

/-- The access, correctly identified. -/
def sys (a : Access) : SysAccess := ⟨a.rt, a.isRead, a.reg.enc⟩

/-- The value a write writes. -/
def val (a : Access) : U64 := sysOperand a.x a.rt

end Access

/-- A context as a guest sees it. -/
def view (ctx : PmuCtx) : Arch where
  pmcr := ctx.pmcrEl0
  cnten := ctx.pmcntensetEl0
  inten := ctx.pmintensetEl1
  ovs := ctx.pmovsrEl0
  ccntr := ctx.pmccntrEl0
  ccfiltr := ctx.pmccfiltrEl0
  evcntr := ctx.pmevcntr
  evtyper := ctx.pmevtyper

/-- **What the emulation makes of a register**: it reads as the context
has it, and a write to any but `PMCR` is the architecture's. -/
theorem emulated_enc (ctx : PmuCtx) (reg : Reg) (v : U64) :
    ∃ ctx', emulated ctx reg.enc v = some ((view ctx).read reg, ctx') ∧
      (reg = .pmcr → ctx' = emulatePmcr ctx v) ∧
      (reg ≠ .pmcr → view ctx' = (view ctx).write v reg ∧ ctx'.enabled = ctx.enabled) := by
  cases reg with
  | pmcr => exact ⟨_, rfl, fun _ => rfl, fun hne => absurd rfl hne⟩
  | pmevcntr i =>
    match i with
    | 0 | 1 | 2 | 3 => exact ⟨_, rfl, fun heq => (by cases heq), fun _ => ⟨rfl, rfl⟩⟩
  | pmevtyper i =>
    match i with
    | 0 | 1 | 2 | 3 => exact ⟨_, rfl, fun heq => (by cases heq), fun _ => ⟨rfl, rfl⟩⟩
  | _ => exact ⟨_, rfl, fun heq => (by cases heq), fun _ => ⟨rfl, rfl⟩⟩

/-- A read. -/
theorem perform_read (ctx : PmuCtx) (x : ℕ → U64) (reg : Reg) (rt : ℕ) :
    perform ctx x ⟨rt, true, reg.enc⟩ = (ctx, putReg x rt ((view ctx).read reg)) := by
  obtain ⟨ctx', hemu, -⟩ := emulated_enc ctx reg (sysOperand x rt)
  unfold perform
  rw [hemu]
  rfl

/-- A write. -/
theorem perform_write (ctx : PmuCtx) (a : Access) (hwrite : a.isRead = false) :
    (a.reg = .pmcr → (perform ctx a.x a.sys).1 = emulatePmcr ctx a.val) ∧
    (a.reg ≠ .pmcr → view (perform ctx a.x a.sys).1 = (view ctx).write a.val a.reg ∧
      (perform ctx a.x a.sys).1.enabled = ctx.enabled) := by
  obtain ⟨ctx', hemu, hspec⟩ := emulated_enc ctx a.reg a.val
  have hafter : (perform ctx a.x a.sys).1 = ctx' := by
    unfold perform Access.sys
    dsimp only
    rw [show sysOperand a.x a.rt = a.val from rfl, hemu, hwrite]
    rfl
  rw [hafter]
  exact hspec

/-! ## Agreement -/

/-- **A context follows the architecture**: every register reads as it
should, and the counters are enabled as `PMCR.E` says. -/
structure Follows (ctx : PmuCtx) (s : Arch) : Prop where
  reads : ∀ (reg : Reg) (x : ℕ → U64) (rt : ℕ),
    (perform ctx x ⟨rt, true, reg.enc⟩).2 = putReg x rt (s.read reg)
  enabled : ctx.enabled = s.enabled

theorem follows_iff {ctx : PmuCtx} {s : Arch} :
    Follows ctx s ↔ view ctx = s ∧ ctx.enabled = s.enabled := by
  constructor
  · rintro ⟨hreads, henabled⟩
    have hread : ∀ reg, (view ctx).read reg = s.read reg := by
      intro reg
      have hzero := hreads reg (fun _ => 0) 0
      rw [perform_read] at hzero
      have hvalue := congrFun hzero 0
      simpa [putReg] using hvalue
    refine ⟨Arch.ext (hread .pmcr) (hread .pmcntenset) (hread .pmintenset) (hread .pmovsclr)
      (hread .pmccntr) (hread .pmccfiltr) ?_ ?_, henabled⟩
    · exact funext fun i => hread (.pmevcntr i)
    · exact funext fun i => hread (.pmevtyper i)
  · rintro ⟨rfl, henabled⟩
    refine ⟨fun reg x rt => ?_, henabled⟩
    rw [perform_read]

/-- The context of a vCPU beside the architecture's registers. -/
def accessStep (st : PmuCtx × Arch) (a : Access) : Option (PmuCtx × Arch) :=
  some ((perform st.1 a.x a.sys).1, if a.isRead then st.2 else st.2.write a.val a.reg)

/-- **The accesses that make no difference**: `PMCR` is written without a
reset, and not to stop counters that have been enabled. -/
def Plain (st : PmuCtx × Arch) (a : Access) : Prop :=
  a.isRead = false → a.reg = .pmcr → a.val &&& 6 = 0 ∧ (a.val &&& 1 = 0 → st.1.enabled = false)

theorem and_eq_zero_of_and_six {v : U64} (h : v &&& 6 = 0) : v &&& 2 = 0 ∧ v &&& 4 = 0 := by
  constructor
  · rw [show (2 : U64) = 6 &&& 2 from rfl, ← BitVec.and_assoc, h]
    rfl
  · rw [show (4 : U64) = 6 &&& 4 from rfl, ← BitVec.and_assoc, h]
    rfl

/-- A word without the two bits is the word itself if it has neither. -/
theorem and_not_six_eq_iff {v : U64} : v &&& ~~~(6 : U64) = v ↔ v &&& 6 = 0 := by
  constructor
  · intro h
    rw [← h, BitVec.and_assoc]
    exact BitVec.and_zero
  · intro h
    calc v &&& ~~~(6 : U64) = (v &&& ~~~(6 : U64)) ||| (v &&& 6) := by
          rw [h]
          exact BitVec.or_zero.symm
      _ = v &&& (~~~(6 : U64) ||| 6) := BitVec.and_or_distrib_left.symm
      _ = v := BitVec.and_allOnes

/-- **A write to `PMCR`** is the architecture's exactly if it resets
nothing. -/
theorem view_emulatePmcr_iff (ctx : PmuCtx) (v : U64) :
    view (emulatePmcr ctx v) = (view ctx).write v .pmcr ↔ v &&& 6 = 0 := by
  rw [← and_not_six_eq_iff]
  constructor
  · intro hview
    exact (congrArg Arch.pmcr hview).symm
  · intro hplain
    obtain ⟨htwo, hfour⟩ := and_eq_zero_of_and_six (and_not_six_eq_iff.mp hplain)
    unfold emulatePmcr Arch.write view
    simp only [htwo, hfour, hplain, ne_eq, not_true_eq_false, if_false]

theorem enabled_emulatePmcr_iff (ctx : PmuCtx) (s : Arch) (v : U64) :
    (emulatePmcr ctx v).enabled = (s.write v .pmcr).enabled ↔ (v &&& 1 = 0 → ctx.enabled = false) := by
  have hbit : (v &&& ~~~(6 : U64)) &&& 1 = v &&& 1 := by
    rw [BitVec.and_assoc]
    rfl
  unfold emulatePmcr Arch.write Arch.enabled
  dsimp only
  rw [hbit]
  by_cases hzero : v &&& 1 = 0
  · rw [if_neg (not_not.mpr hzero), decide_eq_false (not_not.mpr hzero)]
    exact ⟨fun hoff _ => hoff, fun hoff => hoff hzero⟩
  · rw [if_pos hzero, decide_eq_true hzero]
    exact ⟨fun _ heq => absurd heq hzero, fun _ => rfl⟩

/-- **One access** keeps a context with the architecture exactly if it is
plain. -/
theorem follows_accessStep_iff {st st' : PmuCtx × Arch} {a : Access} (hf : Follows st.1 st.2)
    (hstep : accessStep st a = some st') : Follows st'.1 st'.2 ↔ Plain st a := by
  obtain ⟨ctx, s⟩ := st
  obtain ⟨hview, henabled⟩ := follows_iff.mp hf
  obtain rfl := Option.some.inj hstep
  dsimp only at hview henabled ⊢
  cases hdir : a.isRead with
  | true =>
    have hread : (perform ctx a.x a.sys).1 = ctx := by
      rw [Access.sys, hdir, perform_read]
    rw [hread, if_pos rfl]
    exact ⟨fun _ hwrite => absurd (hdir.symm.trans hwrite) (by decide), fun _ => hf⟩
  | false =>
    obtain ⟨hpmcr, hother⟩ := perform_write ctx a hdir
    rw [if_neg (by decide), follows_iff]
    by_cases hreg : a.reg = .pmcr
    · rw [hpmcr hreg, hreg, ← hview, view_emulatePmcr_iff, enabled_emulatePmcr_iff]
      exact ⟨fun hplain _ _ => hplain, fun hplain => hplain hdir hreg⟩
    · obtain ⟨hafter, hsame⟩ := hother hreg
      have hkept : (s.write a.val a.reg).enabled = s.enabled := by
        cases hr : a.reg with
        | pmcr => exact absurd hr hreg
        | _ => rfl
      rw [hafter, hview, hsame, hkept, henabled]
      exact ⟨fun _ _ heq => absurd heq hreg, fun _ => ⟨rfl, rfl⟩⟩

/-- **The performance monitor follows the architecture.** From any context
that does, and for any sequence of reads and writes of its registers
without a switch in between: every register reads as the architecture
says and the counters are enabled as `PMCR.E` says, in every state, if and
only if no write to `PMCR` sets `P` or `C`, or clears `E` after it was
set. -/
theorem pmu_architectural_iff {ctx : PmuCtx} {s : Arch} (hstart : Follows ctx s)
    (accesses : List Access) :
    Throughout accessStep (fun st => Follows st.1 st.2) (ctx, s) accesses ↔
      Guarded accessStep Plain (ctx, s) accesses := by
  refine throughout_iff_guarded (fun (st : PmuCtx × Arch) (hf : Follows st.1 st.2) => hf)
    (fun st a st' hf hplain hstep => (follows_accessStep_iff hf hstep).mpr hplain)
    (fun st a hf hharm => ?_) (s := (ctx, s)) hstart
  refine ⟨_, rfl, fun hafter => hharm ?_⟩
  exact (follows_accessStep_iff hf rfl).mp hafter

/-- The registers of `zeroCtx`. -/
def zeroArch : Arch := ⟨0, 0, 0, 0, 0, 0, fun _ => 0, fun _ => 0⟩

theorem follows_zero : Follows zeroCtx zeroArch := follows_iff.mpr ⟨rfl, rfl⟩

/-- A new vCPU enables two counters and the monitor, stops one of them and
reads the mask back. -/
theorem pmu_architectural_enables :
    Throughout accessStep (fun st => Follows st.1 st.2) (zeroCtx, zeroArch)
      [⟨.pmcntenset, false, 0, fun _ => 3⟩, ⟨.pmcr, false, 0, fun _ => 1⟩,
        ⟨.pmcntenclr, false, 0, fun _ => 1⟩, ⟨.pmcntenset, true, 0, fun _ => 0⟩] := by
  refine (pmu_architectural_iff follows_zero _).mpr ⟨?_, fun _ h₁ => ⟨?_, fun _ h₂ => ⟨?_, fun _ h₃ =>
    ⟨?_, fun _ _ => trivial⟩⟩⟩⟩
  · exact fun _ hreg => by cases hreg
  · exact fun _ _ => ⟨rfl, fun hzero => absurd hzero (by decide)⟩
  · exact fun _ hreg => by cases hreg
  · exact fun hwrite => by cases hwrite

/-- Event counter 0 is set to 5 and the cycle counter to 7, and `PMCR` is
written with `E` and `P`: it is the cycle counter that is reset, and
`PMCR` reads with `P`. Then `E` is cleared, and the counters stay
enabled. -/
theorem pmcr_resets_cycles :
    ∃ ctx s ctx' s', exec accessStep (zeroCtx, zeroArch)
        [⟨.pmevcntr 0, false, 0, fun _ => 5⟩, ⟨.pmccntr, false, 0, fun _ => 7⟩,
          ⟨.pmcr, false, 0, fun _ => 3⟩] = some (ctx, s) ∧
      (perform ctx (fun _ => 0) ⟨0, true, Reg.enc (.pmevcntr 0)⟩).2 0 = 5 ∧ s.read (.pmevcntr 0) = 0 ∧
      (perform ctx (fun _ => 0) ⟨0, true, Reg.enc .pmccntr⟩).2 0 = 0 ∧ s.read .pmccntr = 7 ∧
      (perform ctx (fun _ => 0) ⟨0, true, Reg.enc .pmcr⟩).2 0 = 3 ∧ s.read .pmcr = 1 ∧
      exec accessStep (ctx, s) [⟨.pmcr, false, 0, fun _ => 0⟩] = some (ctx', s') ∧
      ctx'.enabled = true ∧ s'.enabled = false :=
  ⟨_, _, _, _, rfl, rfl, rfl, rfl, rfl, rfl, rfl, rfl, rfl, rfl⟩

end Pmu

end HypervisorBase
