import HypervisorBase.Common.Word
/-!
# Stage 1 translation with one privilege level

The walk a 64-bit Arm CPU makes at EL2 with the 4 KB granule: where it
starts follows from the size of the address space, a descriptor that is a
block or a page ends it, one that is a table continues it one level down,
and the attributes of the tables on the way restrict those of the leaf.

`descend_block` and `descend_table` are the two ways a level of the walk
can go, with what they ask of the descriptor.
-/

namespace HypervisorBase

namespace Stage1

/-- The registers a translation reads. -/
structure Regime where
  /-- `SCTLR`: bit 0 turns translation on, bit 19 makes what is writable
  not executable. -/
  sctlr : U64
  /-- `TCR`: bits 5..0 are 64 minus the size of the address space. -/
  tcr : U64
  /-- `TTBR0`. -/
  ttbr : U64

/-- What a translation yields. -/
structure Mapping where
  pa : U64
  readOnly : Bool
  executeNever : Bool
  /-- The index into the memory attributes. -/
  attr : U64
  deriving DecidableEq, Repr

/-- The lowest address bit a level resolves. -/
def levelShift (level : ℕ) : ℕ := 39 - 9 * level

/-- Bits 47..12 of a descriptor or of `TTBR0`. -/
def tableBase (d : U64) : U64 := d &&& 0x0000FFFFFFFFF000

/-- The entry of a table that an address selects. -/
def entry (level : ℕ) (base va : U64) : U64 :=
  base + BitVec.ofNat 64 (8 * (va.toNat / 2 ^ levelShift level % 512))

/-- The mapping a block or page descriptor gives. `ro` and `xn` are what
the tables on the way have taken away. -/
def leaf (R : Regime) (level : ℕ) (ro xn : Bool) (d va : U64) : Option Mapping :=
  -- without the access flag the access faults
  if d.getLsbD 10 then
    let readOnly := d.getLsbD 7 || ro
    let size := 2 ^ levelShift level
    some {
      pa := BitVec.ofNat 64 ((tableBase d).toNat / size * size + va.toNat % size)
      readOnly := readOnly
      executeNever := d.getLsbD 54 || xn || (R.sctlr.getLsbD 19 && !readOnly)
      attr := (d >>> 2) &&& 7 }
  else none

/-- The walk from a table of some level, with the levels left as fuel. -/
def descend (R : Regime) (mem : U64 → U64) : ℕ → ℕ → Bool → Bool → U64 → U64 → Option Mapping
  | 0, _, _, _, _, _ => none
  | fuel + 1, level, ro, xn, base, va =>
    let d := mem (entry level base va)
    if ¬ d.getLsbD 0 then none
    else if d.getLsbD 1 then
      if level = 3 then leaf R level ro xn d va
      else descend R mem fuel (level + 1) (ro || d.getLsbD 62) (xn || d.getLsbD 60)
        (tableBase d) va
    else if level = 1 ∨ level = 2 then leaf R level ro xn d va
    else none

/-- The size of the address space, in bits. -/
def addressBits (R : Regime) : ℕ := 64 - R.tcr.toNat % 64

/-- The level the walk starts at. -/
def startLevel (R : Regime) : ℕ := 3 - (addressBits R - 12 - 1) / 9

/-- **The translation of an address.** -/
def translate (R : Regime) (mem : U64 → U64) (va : U64) : Option Mapping :=
  if ¬ R.sctlr.getLsbD 0 then
    some { pa := va, readOnly := false, executeNever := false, attr := 0 }
  else if 2 ^ addressBits R ≤ va.toNat then none
  else descend R mem 4 (startLevel R) false false (tableBase R.ttbr) va

variable {R : Regime} {mem : U64 → U64} {fuel level : ℕ} {ro xn : Bool} {base va : U64}

/-- **A block at level 1 or 2 ends the walk.** -/
theorem descend_block (hlevel : level = 1 ∨ level = 2)
    (hvalid : (mem (entry level base va)).getLsbD 0 = true)
    (hblock : (mem (entry level base va)).getLsbD 1 = false) :
    descend R mem (fuel + 1) level ro xn base va =
      leaf R level ro xn (mem (entry level base va)) va := by
  rw [descend]
  simp only [hvalid, hblock, not_true_eq_false, if_false, Bool.false_eq_true, if_pos hlevel]

/-- **A table continues it.** -/
theorem descend_table (hlevel : level ≠ 3)
    (hvalid : (mem (entry level base va)).getLsbD 0 = true)
    (htable : (mem (entry level base va)).getLsbD 1 = true) :
    descend R mem (fuel + 1) level ro xn base va =
      descend R mem fuel (level + 1) (ro || (mem (entry level base va)).getLsbD 62)
        (xn || (mem (entry level base va)).getLsbD 60)
        (tableBase (mem (entry level base va))) va := by
  rw [descend]
  simp only [hvalid, htable, not_true_eq_false, if_false, if_true, if_neg hlevel]

/-- What the mask keeps, as a number. -/
theorem toNat_tableBase (d : U64) :
    (tableBase d).toNat = d.toNat % 2 ^ 48 / 2 ^ 12 * 2 ^ 12 := by
  have hmask : (0x0000FFFFFFFFF000 : U64) =
      BitVec.ofNat 64 (2 ^ 48 - 1) &&& ~~~BitVec.ofNat 64 (2 ^ 12 - 1) := by decide
  rw [tableBase, hmask, ← BitVec.and_assoc, Word.toNat_clearLow _ (by decide),
    Word.toNat_and_lowMask _ (by decide)]

/-- A base below 2^48 on a page boundary is kept whole. -/
theorem tableBase_eq_self {d : U64} (hd : d.toNat < 2 ^ 48) (halign : d.toNat % 4096 = 0) :
    tableBase d = d := by
  apply BitVec.eq_of_toNat_eq
  rw [toNat_tableBase]
  omega

/-- A bit, as a number. -/
theorem getLsbD_eq_decide (d : U64) (i : ℕ) : d.getLsbD i = decide (d.toNat / 2 ^ i % 2 = 1) := by
  rw [← BitVec.testBit_toNat, Nat.testBit_eq_decide_div_mod_eq]

end Stage1

end HypervisorBase
