import HypervisorBase.Stage2.Queries
import HypervisorBase.Trap.Model
/-!
# The decoding of trapped system registers

The two handlers of a trapped `MSR` or `MRS` take the register's name out
of the syndrome with the fields in an order that is not the
architecture's: what they read as `Op1` is `Op2`, what they read as `CRn`
and `CRm` straddles `Op1`, `CRn` and `Rt`, and what they read as `Op2` is
part of `Rt`. `sysreg_decode_iff` says what follows. No access to an
emulated register is ever recognised, so that it is right only where
doing nothing is; and some accesses to other registers are taken for one
of an emulated register.
-/

namespace HypervisorBase

namespace Trap

/-! ## Names of registers -/

/-- The five numbers that name a system register. -/
structure SysRegName where
  op0 : ℕ
  op1 : ℕ
  crn : ℕ
  crm : ℕ
  op2 : ℕ
  deriving DecidableEq, Repr

/-- The registers the two handlers emulate. -/
inductive EmuReg
  | pmcr
  | pmcntenset
  | pmcntenclr
  | pmovsr
  | pmccntr
  | pmccfiltr
  | pmintenset
  | pmintenclr
  | pmevcntr (i : Fin 4)
  | pmevtyper (i : Fin 4)
  | iccPmr
  | iccBpr0
  | iccGrpen1
  deriving DecidableEq, Repr

/-- The name of each, as the source's comments and macros give it. -/
def EmuReg.name : EmuReg → SysRegName
  | .pmcr => ⟨3, 3, 9, 12, 0⟩
  | .pmcntenset => ⟨3, 3, 9, 12, 1⟩
  | .pmcntenclr => ⟨3, 3, 9, 12, 2⟩
  | .pmovsr => ⟨3, 3, 9, 12, 3⟩
  | .pmccntr => ⟨3, 3, 9, 13, 0⟩
  | .pmccfiltr => ⟨3, 3, 14, 15, 7⟩
  | .pmintenset => ⟨3, 0, 9, 14, 1⟩
  | .pmintenclr => ⟨3, 0, 9, 14, 2⟩
  | .pmevcntr i => ⟨3, 3, 14, 8, i.val⟩
  | .pmevtyper i => ⟨3, 3, 14, 12, i.val⟩
  | .iccPmr => ⟨3, 0, 4, 6, 0⟩
  | .iccBpr0 => ⟨3, 0, 12, 8, 3⟩
  | .iccGrpen1 => ⟨3, 0, 12, 12, 7⟩

/-- What a read of the register returns. -/
def EmuReg.read (vc : Vcpu) : EmuReg → U64
  | .pmcr => vc.pmu.pmcrEl0
  | .pmcntenset => vc.pmu.pmcntensetEl0
  | .pmcntenclr => vc.pmu.pmcntensetEl0
  | .pmovsr => vc.pmu.pmovsrEl0
  | .pmccntr => vc.pmu.pmccntrEl0
  | .pmccfiltr => vc.pmu.pmccfiltrEl0
  | .pmintenset => vc.pmu.pmintensetEl1
  | .pmintenclr => vc.pmu.pmintensetEl1
  | .pmevcntr i => vc.pmu.pmevcntr i
  | .pmevtyper i => vc.pmu.pmevtyper i
  | .iccPmr => vc.vgicCpu.iccPmr.setWidth 64
  | .iccBpr0 => vc.vgicCpu.iccBpr0.setWidth 64
  | .iccGrpen1 => vc.vgicCpu.iccGrpen1.setWidth 64

/-- What a write to the register leaves: the set and clear registers set
and clear bits, and the fields of the CPU interface are narrower than the
operand. -/
def EmuReg.write (vc : Vcpu) (v : U64) : EmuReg → Vcpu
  | .pmcr => { vc with pmu := Pmu.emulatePmcr vc.pmu v }
  | .pmcntenset => { vc with pmu := { vc.pmu with pmcntensetEl0 := vc.pmu.pmcntensetEl0 ||| v } }
  | .pmcntenclr => { vc with pmu := { vc.pmu with pmcntensetEl0 := vc.pmu.pmcntensetEl0 &&& ~~~v } }
  | .pmovsr => { vc with pmu := { vc.pmu with pmovsrEl0 := vc.pmu.pmovsrEl0 &&& ~~~v } }
  | .pmccntr => { vc with pmu := { vc.pmu with pmccntrEl0 := v } }
  | .pmccfiltr => { vc with pmu := { vc.pmu with pmccfiltrEl0 := v } }
  | .pmintenset => { vc with pmu := { vc.pmu with pmintensetEl1 := vc.pmu.pmintensetEl1 ||| v } }
  | .pmintenclr => { vc with pmu := { vc.pmu with pmintensetEl1 := vc.pmu.pmintensetEl1 &&& ~~~v } }
  | .pmevcntr i => { vc with pmu := { vc.pmu with pmevcntr := Function.update vc.pmu.pmevcntr i v } }
  | .pmevtyper i => { vc with pmu := { vc.pmu with pmevtyper := Function.update vc.pmu.pmevtyper i v } }
  | .iccPmr => { vc with vgicCpu := { vc.vgicCpu with iccPmr := v.setWidth 8 } }
  | .iccBpr0 => { vc with vgicCpu := { vc.vgicCpu with iccBpr0 := (v &&& 0x7).setWidth 8 } }
  | .iccGrpen1 => { vc with vgicCpu := { vc.vgicCpu with iccGrpen1 := (v &&& 1).setWidth 32 } }

/-- An access of the guest: to an emulated register, or to another one,
which reads as zero and ignores writes. -/
def access (vc : Vcpu) (reg : Option EmuReg) (rt : ℕ) (isRead : Bool) : Vcpu :=
  match reg with
  | some reg =>
    if isRead then vc.setX (putReg vc.regs.x rt (reg.read vc))
    else reg.write vc (sysOperand vc.regs.x rt)
  | none => if isRead then vc.setX (putReg vc.regs.x rt 0) else vc

/-! ## The syndrome -/

/-- A field of the syndrome. -/
def issField (esr : U64) (lo width : ℕ) : ℕ := esr.toNat / 2 ^ lo % 2 ^ width

/-- The register a trapped access names: `Op0[21:20]`, `Op2[19:17]`,
`Op1[16:14]`, `CRn[13:10]` and `CRm[4:1]`. -/
def archName (esr : U64) : SysRegName :=
  { op0 := issField esr 20 2
    op1 := issField esr 14 3
    crn := issField esr 10 4
    crm := issField esr 1 4
    op2 := issField esr 17 3 }

/-- `Rt[9:5]`. -/
def archRt (esr : U64) : ℕ := issField esr 5 5

/-- `Direction[0]`. -/
def archIsRead (esr : U64) : Bool := issField esr 0 1 = 1

/-- The access, read as the handlers read it, has the name of this
register. -/
def TakenFor (esr : U64) (reg : EmuReg) : Prop :=
  (archName esr).op0 = reg.name.op0 ∧
  (archName esr).op2 = reg.name.op1 ∧
  4 * ((archName esr).op1 % 4) + (archName esr).crn / 4 = reg.name.crn ∧
  4 * ((archName esr).crn % 4) + archRt esr / 8 = reg.name.crm ∧
  archRt esr % 8 = reg.name.op2

instance (esr : U64) (reg : EmuReg) : Decidable (TakenFor esr reg) := by
  unfold TakenFor
  infer_instance

/-! ## What the handlers make of it -/

/-- The name the handlers give an emulated register. -/
def EmuReg.enc : EmuReg → U32
  | .pmcr => sysRegEnc 3 3 9 12 0
  | .pmcntenset => sysRegEnc 3 3 9 12 1
  | .pmcntenclr => sysRegEnc 3 3 9 12 2
  | .pmovsr => sysRegEnc 3 3 9 12 3
  | .pmccntr => sysRegEnc 3 3 9 13 0
  | .pmccfiltr => sysRegEnc 3 3 14 15 7
  | .pmintenset => sysRegEnc 3 0 9 14 1
  | .pmintenclr => sysRegEnc 3 0 9 14 2
  | .pmevcntr i => Pmu.evcntrEnc i
  | .pmevtyper i => Pmu.evtyperEnc i
  | .iccPmr => sysRegEnc 3 0 4 6 0
  | .iccBpr0 => sysRegEnc 3 0 12 8 3
  | .iccGrpen1 => sysRegEnc 3 0 12 12 7

/-- A register that is recognised is read and written by the handler that
knows it. -/
theorem handlers_of_enc (vc : Vcpu) (val : U64) (reg : EmuReg) :
    (Irq.iccEmulated vc.vgicCpu reg.enc val = some (reg.read vc, (reg.write vc val).vgicCpu) ∧
      reg.write vc val = { vc with vgicCpu := (reg.write vc val).vgicCpu }) ∨
    (Irq.iccEmulated vc.vgicCpu reg.enc val = none ∧
      Pmu.emulated vc.pmu reg.enc val = some (reg.read vc, (reg.write vc val).pmu) ∧
      reg.write vc val = { vc with pmu := (reg.write vc val).pmu }) := by
  cases reg with
  | iccPmr => exact .inl ⟨rfl, rfl⟩
  | iccBpr0 => exact .inl ⟨rfl, rfl⟩
  | iccGrpen1 => exact .inl ⟨rfl, rfl⟩
  | pmevcntr i =>
    right
    match i with
    | 0 => exact ⟨rfl, rfl, rfl⟩
    | 1 => exact ⟨rfl, rfl, rfl⟩
    | 2 => exact ⟨rfl, rfl, rfl⟩
    | 3 => exact ⟨rfl, rfl, rfl⟩
  | pmevtyper i =>
    right
    match i with
    | 0 => exact ⟨rfl, rfl, rfl⟩
    | 1 => exact ⟨rfl, rfl, rfl⟩
    | 2 => exact ⟨rfl, rfl, rfl⟩
    | 3 => exact ⟨rfl, rfl, rfl⟩
  | _ => exact .inr ⟨rfl, rfl, rfl⟩

theorem iccEmulated_eq_none (cpu : VgicCpu) {enc : U32} (val : U64)
    (hne : ∀ reg : EmuReg, enc ≠ reg.enc) : Irq.iccEmulated cpu enc val = none := by
  refine (if_neg (hne .iccPmr)).trans ?_
  refine (if_neg (hne .iccBpr0)).trans ?_
  exact if_neg (hne .iccGrpen1)

theorem emulated_eq_none (ctx : PmuCtx) {enc : U32} (val : U64)
    (hne : ∀ reg : EmuReg, enc ≠ reg.enc) : Pmu.emulated ctx enc val = none := by
  refine (if_neg (hne .pmcr)).trans ?_
  refine (if_neg (hne .pmcntenset)).trans ?_
  refine (if_neg (hne .pmcntenclr)).trans ?_
  refine (if_neg (hne .pmovsr)).trans ?_
  refine (if_neg (hne .pmccntr)).trans ?_
  refine (if_neg (hne .pmccfiltr)).trans ?_
  refine (if_neg (hne .pmintenset)).trans ?_
  refine (if_neg (hne .pmintenclr)).trans (List.findSome?_eq_none_iff.mpr fun i _ => ?_)
  exact (if_neg (hne (.pmevcntr i))).trans (if_neg (hne (.pmevtyper i)))

/-- **The handlers perform an access** to the register whose name they
read out of the syndrome. -/
theorem sysRegTrap_of_enc (vc : Vcpu) {esr : U64} {reg : EmuReg}
    (henc : (sysAccess esr).enc = reg.enc) :
    sysRegTrap vc esr =
      (access vc (some reg) (sysAccess esr).rt (sysAccess esr).isRead).setElr
        (vc.regs.elrEl2 + 4) := by
  unfold sysRegTrap Irq.vgicIccTrap Pmu.pmuHandleTrap access
  dsimp only
  rw [henc]
  rcases handlers_of_enc vc (sysOperand vc.regs.x (sysAccess esr).rt) reg with
    ⟨hicc, hwrite⟩ | ⟨hicc, hpmu, hwrite⟩
  · rw [hicc, hwrite]
    cases (sysAccess esr).isRead <;> rfl
  · rw [hicc, Option.map_none, hpmu, hwrite]
    cases (sysAccess esr).isRead <;> rfl

/-- Another register reads as zero and ignores writes. -/
theorem sysRegTrap_of_ne_enc (vc : Vcpu) {esr : U64}
    (hne : ∀ reg : EmuReg, (sysAccess esr).enc ≠ reg.enc) :
    sysRegTrap vc esr =
      (access vc none (sysAccess esr).rt (sysAccess esr).isRead).setElr (vc.regs.elrEl2 + 4) := by
  unfold sysRegTrap Irq.vgicIccTrap Pmu.pmuHandleTrap access
  dsimp only
  rw [iccEmulated_eq_none _ _ hne, Option.map_none, emulated_eq_none _ _ hne]
  cases (sysAccess esr).isRead <;> rfl

/-! ## The fields -/

/-- The packed name, as a number. -/
theorem toNat_sysRegEnc {op0 op1 crn crm op2 : U32} (h0 : op0.toNat < 4) (h1 : op1.toNat < 8)
    (hn : crn.toNat < 16) (hm : crm.toNat < 16) (h2 : op2.toNat < 8) :
    (sysRegEnc op0 op1 crn crm op2).toNat =
      op0.toNat * 16384 + op1.toNat * 2048 + crn.toNat * 128 + crm.toNat * 8 + op2.toNat := by
  have hor : ∀ (a b i : ℕ), b < 2 ^ i → a * 2 ^ i ||| b = a * 2 ^ i + b := by
    intro a b i hb
    rw [← Nat.shiftLeft_eq, Nat.shiftLeft_add_eq_or_of_lt hb]
  unfold sysRegEnc
  simp only [BitVec.toNat_or, BitVec.toNat_shiftLeft, Nat.shiftLeft_eq]
  rw [Nat.mod_eq_of_lt (by omega), Nat.mod_eq_of_lt (by omega), Nat.mod_eq_of_lt (by omega),
    Nat.mod_eq_of_lt (by omega)]
  rw [hor _ _ 14 (by omega)]
  rw [show op0.toNat * 2 ^ 14 + op1.toNat * 2 ^ 11 = (op0.toNat * 8 + op1.toNat) * 2 ^ 11 by omega,
    hor _ _ 11 (by omega)]
  rw [show (op0.toNat * 8 + op1.toNat) * 2 ^ 11 + crn.toNat * 2 ^ 7 =
      (op0.toNat * 128 + op1.toNat * 16 + crn.toNat) * 2 ^ 7 by omega, hor _ _ 7 (by omega)]
  rw [show (op0.toNat * 128 + op1.toNat * 16 + crn.toNat) * 2 ^ 7 + crm.toNat * 2 ^ 3 =
      (op0.toNat * 2048 + op1.toNat * 256 + crn.toNat * 16 + crm.toNat) * 2 ^ 3 by omega]
  exact (hor _ _ 3 (by omega)).trans (by omega)

/-- A slice of the syndrome, as the handlers take it. -/
theorem toNat_slice (esr : U64) (lo k : ℕ) (hk : lo + k ≤ 25) :
    ((((esr &&& 0x1FFFFFF).setWidth 32 : U32) >>> lo) &&& BitVec.ofNat 32 (2 ^ k - 1)).toNat =
      issField esr lo k := by
  have hpow : (2 : ℕ) ^ k ≤ 2 ^ 25 := Nat.pow_le_pow_right (by decide) (by omega)
  have hsplit : (2 : ℕ) ^ 25 = 2 ^ lo * 2 ^ (25 - lo) := by
    rw [← Nat.pow_add, Nat.add_sub_cancel' (by omega)]
  have hiss : ((esr &&& 0x1FFFFFF).setWidth 32 : U32).toNat = esr.toNat % 2 ^ 25 := by
    rw [BitVec.toNat_setWidth, BitVec.toNat_and]
    change (esr.toNat &&& (2 ^ 25 - 1)) % 2 ^ 32 = _
    rw [Nat.and_two_pow_sub_one_eq_mod]
    omega
  have hmask : (BitVec.ofNat 32 (2 ^ k - 1)).toNat = 2 ^ k - 1 := by
    rw [BitVec.toNat_ofNat]
    exact Nat.mod_eq_of_lt (by omega)
  rw [BitVec.toNat_and, BitVec.toNat_ushiftRight, hiss, hmask, Nat.and_two_pow_sub_one_eq_mod,
    Nat.shiftRight_eq_div_pow, hsplit, Nat.mod_mul_right_div_self,
    Nat.mod_mod_of_dvd _ (Nat.pow_dvd_pow 2 (by omega))]
  rfl

theorem issField_lt (esr : U64) (lo width : ℕ) : issField esr lo width < 2 ^ width :=
  Nat.mod_lt _ (Nat.two_pow_pos width)

theorem sysAccess_rt (esr : U64) : (sysAccess esr).rt = archRt esr := toNat_slice esr 5 5 (by decide)

/-- The direction is the one of the architecture. -/
theorem sysAccess_isRead (esr : U64) : (sysAccess esr).isRead = archIsRead esr := by
  have hbit : (((esr &&& 0x1FFFFFF).setWidth 32 : U32) &&& 1).toNat = issField esr 0 1 := by
    have hslice := toNat_slice esr 0 1 (by decide)
    rwa [BitVec.ushiftRight_zero] at hslice
  have hlt := issField_lt esr 0 1
  have hiff : ((esr &&& 0x1FFFFFF).setWidth 32 : U32) &&& 1 ≠ 0 ↔ issField esr 0 1 = 1 := by
    rw [ne_eq, ← BitVec.toNat_inj, hbit]
    exact ⟨fun hne => by change ¬ issField esr 0 1 = 0 at hne; omega, fun hone => by rw [hone]; decide⟩
  exact decide_eq_decide.mpr hiff

/-- The name the handlers read, by the fields it comes from. -/
theorem toNat_sysAccess_enc (esr : U64) :
    (sysAccess esr).enc.toNat =
      issField esr 20 2 * 16384 + issField esr 17 3 * 2048 + issField esr 12 4 * 128 +
        issField esr 8 4 * 8 + issField esr 5 3 := by
  have h0 := toNat_slice esr 20 2 (by decide)
  have h1 := toNat_slice esr 17 3 (by decide)
  have hn := toNat_slice esr 12 4 (by decide)
  have hm := toNat_slice esr 8 4 (by decide)
  have h2 := toNat_slice esr 5 3 (by decide)
  rw [← h0, ← h1, ← hn, ← hm, ← h2]
  refine toNat_sysRegEnc ?_ ?_ ?_ ?_ ?_
  · exact h0 ▸ issField_lt esr 20 2
  · exact h1 ▸ issField_lt esr 17 3
  · exact hn ▸ issField_lt esr 12 4
  · exact hm ▸ issField_lt esr 8 4
  · exact h2 ▸ issField_lt esr 5 3

theorem EmuReg.toNat_enc (reg : EmuReg) :
    reg.enc.toNat = reg.name.op0 * 16384 + reg.name.op1 * 2048 + reg.name.crn * 128 +
      reg.name.crm * 8 + reg.name.op2 := by
  cases reg with
  | pmevcntr i =>
    match i with
    | 0 | 1 | 2 | 3 => rfl
  | pmevtyper i =>
    match i with
    | 0 | 1 | 2 | 3 => rfl
  | _ => rfl

/-- What the names of the emulated registers have in common. -/
theorem EmuReg.name_bounds (reg : EmuReg) :
    reg.name.op0 = 3 ∧ (reg.name.op1 = 0 ∨ reg.name.op1 = 3 ∧ (reg.name.crn = 9 ∨ reg.name.crn = 14)) ∧
      4 ≤ reg.name.crn ∧ reg.name.crn ≤ 14 ∧ reg.name.crm < 16 ∧ reg.name.op2 < 8 ∧
      (reg.name.crn = 14 → 8 ≤ reg.name.crm) := by
  cases reg with
  | pmevcntr i =>
    revert i
    decide
  | pmevtyper i =>
    revert i
    decide
  | _ => decide

/-- **The handlers recognise a register** where the fields they read spell
its name. -/
theorem enc_eq_iff_takenFor (esr : U64) (reg : EmuReg) :
    (sysAccess esr).enc = reg.enc ↔ TakenFor esr reg := by
  rw [← BitVec.toNat_inj, toNat_sysAccess_enc, reg.toNat_enc]
  obtain ⟨-, hop1, -, hcrn, hcrm, hop2, -⟩ := reg.name_bounds
  have hn : issField esr 12 4 = 4 * (issField esr 14 3 % 4) + issField esr 10 4 / 4 := by
    simp only [issField]
    omega
  have hm : issField esr 8 4 = 4 * (issField esr 10 4 % 4) + issField esr 5 5 / 8 := by
    simp only [issField]
    omega
  have h2 : issField esr 5 3 = issField esr 5 5 % 8 := by
    simp only [issField]
    omega
  have hn' := issField_lt esr 12 4
  have hm' := issField_lt esr 8 4
  have h2' := issField_lt esr 5 3
  have h1' := issField_lt esr 17 3
  simp only [TakenFor, archName, archRt]
  rw [← hn, ← hm, ← h2]
  clear hn hm h2
  -- two numbers are equal if their digits are
  omega

/-- And the name of an emulated register is never among these. -/
theorem not_takenFor_of_named {esr : U64} {reg : EmuReg} (hname : archName esr = reg.name)
    (reg' : EmuReg) : ¬ TakenFor esr reg' := by
  rintro ⟨-, -, hcrn, hcrm, -⟩
  rw [hname] at hcrn hcrm
  have hrt : archRt esr < 2 ^ 5 := issField_lt esr 5 5
  obtain ⟨-, hop1, hlo, hhi, -⟩ := reg.name_bounds
  obtain ⟨-, -, hlo', hhi', -, -, hcrm'⟩ := reg'.name_bounds
  omega

/-! ## What is performed -/

/-- Two vCPUs with the same registers and contexts. -/
structure SameContext (vc vc' : Vcpu) : Prop where
  x : vc'.regs.x = vc.regs.x
  pmu : vc'.pmu = vc.pmu
  vgicCpu : vc'.vgicCpu = vc.vgicCpu

/-- **The access the syndrome names has been performed**, and no other. -/
structure Performed (vc vc' : Vcpu) (esr : U64) : Prop where
  named : ∀ reg : EmuReg, archName esr = reg.name →
    SameContext (access vc (some reg) (archRt esr) (archIsRead esr)) vc'
  other : (∀ reg : EmuReg, archName esr ≠ reg.name) →
    SameContext (access vc none (archRt esr) (archIsRead esr)) vc'

/-- An access that leaves nothing: a read of zero or into the zero
register, or a write of what is there. -/
def Silent (vc : Vcpu) (reg : EmuReg) (rt : ℕ) (isRead : Bool) : Prop :=
  if isRead then 31 ≤ rt ∨ reg.read vc = 0 else reg.write vc (sysOperand vc.regs.x rt) = vc

theorem SameContext.symm {vc vc' : Vcpu} (hs : SameContext vc vc') : SameContext vc' vc :=
  ⟨hs.x.symm, hs.pmu.symm, hs.vgicCpu.symm⟩

theorem SameContext.trans {vc vc' vc'' : Vcpu} (hs : SameContext vc vc')
    (hs' : SameContext vc' vc'') : SameContext vc vc'' :=
  ⟨hs'.x.trans hs.x, hs'.pmu.trans hs.pmu, hs'.vgicCpu.trans hs.vgicCpu⟩

/-- A write touches only the two contexts. -/
theorem EmuReg.write_eq (reg : EmuReg) (vc : Vcpu) (v : U64) :
    reg.write vc v =
      { vc with pmu := (reg.write vc v).pmu, vgicCpu := (reg.write vc v).vgicCpu } := by
  cases reg <;> rfl

/-- An access that leaves nothing is one that can be ignored. -/
theorem sameContext_access_iff (vc : Vcpu) (reg : EmuReg) (rt : ℕ) (isRead : Bool) :
    SameContext (access vc (some reg) rt isRead) (access vc none rt isRead) ↔
      Silent vc reg rt isRead := by
  cases isRead with
  | true =>
    have hput : putReg vc.regs.x rt 0 = putReg vc.regs.x rt (reg.read vc) ↔
        31 ≤ rt ∨ reg.read vc = 0 := by
      unfold putReg
      by_cases hrt : rt < 31
      · rw [if_pos hrt, if_pos hrt]
        refine ⟨fun heq => .inr ?_, fun hor => by rw [hor.resolve_left (by omega)]⟩
        have hat := congrFun heq rt
        rw [Function.update_self, Function.update_self] at hat
        exact hat.symm
      · rw [if_neg hrt, if_neg hrt]
        exact ⟨fun _ => .inl (by omega), fun _ => rfl⟩
    exact ⟨fun hs => hput.mp hs.x, fun hsilent => ⟨hput.mpr hsilent, rfl, rfl⟩⟩
  | false =>
    refine ⟨fun hs => ?_, fun hsilent => ?_⟩
    · have hpmu : (reg.write vc (sysOperand vc.regs.x rt)).pmu = vc.pmu := hs.pmu.symm
      have hicc : (reg.write vc (sysOperand vc.regs.x rt)).vgicCpu = vc.vgicCpu := hs.vgicCpu.symm
      have hwrite := reg.write_eq vc (sysOperand vc.regs.x rt)
      rwa [hpmu, hicc] at hwrite
    · have hwrite : reg.write vc (sysOperand vc.regs.x rt) = vc := hsilent
      have heq : access vc (some reg) rt false = vc := hwrite
      rw [heq]
      exact ⟨rfl, rfl, rfl⟩

section

variable (vc : Vcpu) {esr : U64}

/-- An access that is not recognised is ignored. -/
theorem sysRegTrap_of_not_taken (hne : ∀ reg : EmuReg, ¬ TakenFor esr reg) :
    SameContext (access vc none (archRt esr) (archIsRead esr)) (sysRegTrap vc esr) := by
  rw [sysRegTrap_of_ne_enc vc fun reg henc => hne reg ((enc_eq_iff_takenFor esr reg).mp henc),
    sysAccess_rt, sysAccess_isRead]
  exact ⟨rfl, rfl, rfl⟩

/-- An access to an emulated register is never recognised. -/
theorem performed_iff_of_named {reg : EmuReg} (hreg : archName esr = reg.name) :
    Performed vc (sysRegTrap vc esr) esr ↔
      ∀ reg : EmuReg, archName esr = reg.name → Silent vc reg (archRt esr) (archIsRead esr) := by
  have hignored := sysRegTrap_of_not_taken vc (not_takenFor_of_named hreg)
  refine ⟨fun hp reg' hreg' => ?_, fun hsilent => ⟨fun reg' hreg' => ?_, fun hnone => ?_⟩⟩
  · exact (sameContext_access_iff ..).mp ((hp.named reg' hreg').trans hignored.symm)
  · exact ((sameContext_access_iff ..).mpr (hsilent reg' hreg')).trans hignored
  · exact absurd hreg (hnone reg)

/-- An access to another register that is recognised is performed on the
wrong one. -/
theorem performed_iff_of_taken (hother : ∀ reg : EmuReg, archName esr ≠ reg.name) {reg : EmuReg}
    (hreg : TakenFor esr reg) :
    Performed vc (sysRegTrap vc esr) esr ↔ Silent vc reg (archRt esr) (archIsRead esr) := by
  have hdone : SameContext (access vc (some reg) (archRt esr) (archIsRead esr))
      (sysRegTrap vc esr) := by
    rw [sysRegTrap_of_enc vc ((enc_eq_iff_takenFor esr reg).mpr hreg), sysAccess_rt,
      sysAccess_isRead]
    exact ⟨rfl, rfl, rfl⟩
  rw [← sameContext_access_iff]
  refine ⟨fun hp => hdone.trans (hp.other hother).symm,
    fun hsame => ⟨fun reg' hreg' => absurd hreg' (hother reg'), fun _ => hsame.symm.trans hdone⟩⟩

/-- **When a trapped access is performed**: where the register it names is
an emulated one, or is taken for one, exactly when the access to that one
leaves nothing. -/
theorem performed_iff :
    Performed vc (sysRegTrap vc esr) esr ↔
      ∀ reg : EmuReg, archName esr = reg.name ∨ TakenFor esr reg →
        Silent vc reg (archRt esr) (archIsRead esr) := by
  by_cases hnamed : ∃ reg : EmuReg, archName esr = reg.name
  · obtain ⟨reg, hreg⟩ := hnamed
    refine ⟨fun hp reg' hor => ?_, fun hsilent => ?_⟩
    · exact (performed_iff_of_named vc hreg).mp hp reg'
        (hor.resolve_right (not_takenFor_of_named hreg reg'))
    · exact (performed_iff_of_named vc hreg).mpr fun reg' hreg' => hsilent reg' (.inl hreg')
  · have hother : ∀ reg : EmuReg, archName esr ≠ reg.name := fun reg hreg => hnamed ⟨reg, hreg⟩
    refine ⟨fun hp reg hor => ?_, fun hsilent => ?_⟩
    · exact (performed_iff_of_taken vc hother (hor.resolve_left (hother reg))).mp hp
    · by_cases htaken : ∃ reg : EmuReg, TakenFor esr reg
      · obtain ⟨reg, hreg⟩ := htaken
        exact (performed_iff_of_taken vc hother hreg).mpr (hsilent reg (.inr hreg))
      · have hnone : ∀ reg : EmuReg, ¬ TakenFor esr reg := fun reg hreg => htaken ⟨reg, hreg⟩
        exact ⟨fun reg hreg => absurd hreg (hother reg), fun _ => sysRegTrap_of_not_taken vc hnone⟩

end

/-! ## The trap -/

section Tables

variable [P : PtPool]

/-- **The trap of a register access**, through the handler. -/
theorem hypSyncHandler_sysReg {h : Hyp} (cpu : CurrentVcpu h) {esr : U64}
    (hclass : Class.ofEsr esr = .sysReg) (far hpfar : U64) :
    hypSyncHandler h cpu.c cpu.vc.regs esr far hpfar =
      some (h.modifyCurrent fun vc => sysRegTrap vc esr) := by
  unfold hypSyncHandler
  rw [hclass]

/-- **Trapped accesses to system registers.** For every state, every
syndrome of a trapped `MSR` or `MRS` and every vCPU it is trapped from, the
handler performs the access the syndrome names, and takes no other for one
of an emulated register, if and only if the access leaves nothing: to the
emulated register it names, or to the one it is taken for. -/
theorem sysreg_decode_iff {h : Hyp} (cpu : CurrentVcpu h) (esr far hpfar : U64)
    (hclass : Class.ofEsr esr = .sysReg) :
    (∃ h' vc', hypSyncHandler h cpu.c cpu.vc.regs esr far hpfar = some h' ∧
      h'.vcpus[cpu.c]? = some vc' ∧ Performed cpu.vc vc' esr) ↔
    ∀ reg : EmuReg, archName esr = reg.name ∨ TakenFor esr reg →
      Silent cpu.vc reg (archRt esr) (archIsRead esr) := by
  rw [← performed_iff, hypSyncHandler_sysReg cpu hclass]
  constructor
  · rintro ⟨h', vc', hrun, hvc', hp⟩
    rw [← Option.some.inj hrun, cpu.getElem?_modify, Option.some_inj] at hvc'
    rw [hvc']
    exact hp
  · intro hp
    exact ⟨_, _, rfl, cpu.getElem?_modify _, hp⟩

end Tables

/-- A guest whose monitor is enabled. -/
def monitoredGuest : Hyp :=
  let vm : Vm := { vmInit 1 .linux with state := .running, vcpus := [0] }
  let vc := vcpuInit 0 vm 0
  { Hyp.blank with
    vms := [vm]
    vcpus := [{ vc with pmu := { vc.pmu with pmcrEl0 := 0x41, enabled := true } }]
    current := some 0 }

def monitoredCpu : CurrentVcpu monitoredGuest := ⟨0, _, rfl, rfl⟩

/-- The syndrome of `mrs x0, pmcr_el0`. -/
def mrsPmcr : U64 := 0x6230E419

/-- The syndrome of `mrs xzr, pmcr_el0`. -/
def mrsPmcrZero : U64 := 0x6230E7F9

/-- A read of an emulated register into the zero register: what it would
read is lost either way. -/
theorem sysreg_decode_zero_register :
    letI := Stage2.poolAt2M
    Class.ofEsr mrsPmcrZero = .sysReg ∧ archName mrsPmcrZero = EmuReg.pmcr.name ∧
      ∃ h' vc', hypSyncHandler monitoredGuest 0 monitoredCpu.vc.regs mrsPmcrZero 0 0 = some h' ∧
        h'.vcpus[0]? = some vc' ∧ Performed monitoredCpu.vc vc' mrsPmcrZero :=
  letI := Stage2.poolAt2M
  ⟨by decide, by decide, (sysreg_decode_iff monitoredCpu mrsPmcrZero 0 0 (by decide)).mpr
    fun _ _ => .inl (by decide)⟩

/-- The guest reads zero where its own setting is 0x41. -/
theorem pmcr_reads_zero :
    letI := Stage2.poolAt2M
    ¬ ∃ h' vc', hypSyncHandler monitoredGuest 0 monitoredCpu.vc.regs mrsPmcr 0 0 = some h' ∧
      h'.vcpus[0]? = some vc' ∧ Performed monitoredCpu.vc vc' mrsPmcr := by
  let _ := Stage2.poolAt2M
  rintro ⟨h', vc', hrun, hvc', hp⟩
  rw [show (0 : ℕ) = monitoredCpu.c from rfl] at hrun hvc'
  rw [hypSyncHandler_sysReg monitoredCpu (by decide)] at hrun
  rw [← Option.some.inj hrun, monitoredCpu.getElem?_modify, Option.some_inj] at hvc'
  rw [← hvc', performed_iff_of_named _ (show archName mrsPmcr = EmuReg.pmcr.name by decide)] at hp
  have hsilent := hp .pmcr (by decide)
  rcases hsilent with hrt | hzero
  · exact absurd hrt (by decide)
  · exact absurd hzero (by decide)

end Trap

end HypervisorBase
