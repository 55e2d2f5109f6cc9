import HypervisorBase.Dtb.Linux
/-!
# What the Linux blob says

The blob of `dtb_build_linux`, read by the rules of version 17, against the
arguments (`linux_dtb_iff`). The UART is where the caller asked. The two
addresses of the initial file system are cut to 32 bits, the memory nodes
are the same for every caller, and the UART's `compatible` has lost the
zero of its second string.
-/

namespace HypervisorBase

namespace Dtb

open Cells Fdt

/-! ## Values in a decoded tree -/

/-- The `k`-th address of a `reg` value, where addresses and sizes have two
cells, as the root says. -/
def regAddress (reg : List U8) (k : ℕ) : ℕ := number ((reg.drop (16 * k)).take 8)

def regSize (reg : List U8) (k : ℕ) : ℕ := number ((reg.drop (16 * k + 8)).take 8)

/-- The `k`-th cell of a value. -/
def cell (value : List U8) (k : ℕ) : ℕ := number ((value.drop (4 * k)).take 4)

def InReg (reg : List U8) (a : ℕ) : Prop :=
  ∃ k, 16 * (k + 1) ≤ reg.length ∧ regAddress reg k ≤ a ∧ a < regAddress reg k + regSize reg k

/-- The `reg` values of the memory nodes. -/
def memoryRegs (t : DeviceTree (List U8)) : List (List U8) :=
  t.sub.siblings.filterMap fun props =>
    if lookup (text "device_type") props = some (text "memory" ++ [0]) then
      lookup (text "reg") props
    else none

def IsMemory (t : DeviceTree (List U8)) (a : ℕ) : Prop := ∃ reg ∈ memoryRegs t, InReg reg a

/-- The memory nodes cover a range. -/
def Covers (t : DeviceTree (List U8)) (base size : ℕ) : Prop :=
  ∀ a, base ≤ a → a < base + size → IsMemory t a

/-- The properties that are strings or lists of strings. -/
def stringNames : List (List U8) :=
  [text "compatible", text "model", text "serial0", text "bootargs", text "stdout-path",
    text "device_type", text "clock-names", text "method", text "enable-method"]

def stringProps (t : DeviceTree (List U8)) : List (Property (List U8)) :=
  t.properties.filter fun p => stringNames.contains p.name

/-- A value that the function for strings or the one for lists of strings
emits. -/
def Value.isString : Value → Bool
  | str _ => true
  | stringlist _ _ => true
  | _ => false

def uartNode : List U8 := text "pl011@9000000"

/-- The UART's `compatible`: the zero of the second string is not there. -/
def uartCompatible : List U8 := text "arm,pl011" ++ [0] ++ text "arm,primecell"

theorem inReg_pair {address size : U64} {a : ℕ} : InReg (bytes64 address ++ bytes64 size) a ↔
    address.toNat ≤ a ∧ a < address.toNat + size.toNat := by
  have haddress : regAddress (bytes64 address ++ bytes64 size) 0 = address.toNat :=
    number_bytes64 address
  have hsize : regSize (bytes64 address ++ bytes64 size) 0 = size.toNat := number_bytes64 size
  constructor
  · rintro ⟨k, hk, hin⟩
    rw [List.length_append, length_bytes64, length_bytes64] at hk
    obtain rfl : k = 0 := by omega
    rwa [haddress, hsize] at hin
  · intro hin
    refine ⟨0, Nat.le_refl 16, ?_⟩
    rwa [haddress, hsize]

/-- An address in one cell is the caller's if it has no more than 32 bits. -/
theorem number_cell_iff {v : U64} :
    (some (bytes32 (v.setWidth 32))).map number = some v.toNat ↔ v.toNat < 2 ^ 32 := by
  rw [Option.map_some, Option.some_inj, number_bytes32, BitVec.toNat_setWidth]
  omega

section Arguments

variable (uartBase : U64) (uartIrq : U32) (initrdStartIpa initrdEndIpa : U64)

/-! ## The values of the blob -/

theorem memoryRegs_linuxBlob :
    memoryRegs (linuxBlob uartBase uartIrq initrdStartIpa initrdEndIpa) =
      [bytes64 0 ++ bytes64 0x08000000, bytes64 0x10000000 ++ bytes64 0x40000000] := rfl

/-- The memory that the tree describes, as address ranges. -/
theorem isMemory_iff {a : ℕ} :
    IsMemory (linuxBlob uartBase uartIrq initrdStartIpa initrdEndIpa) a ↔
      a < 0x08000000 ∨ 0x10000000 ≤ a ∧ a < 0x50000000 := by
  have hzero : (0 : U64).toNat = 0 := rfl
  have hlow : (0x08000000 : U64).toNat = 0x08000000 := rfl
  have hhigh : (0x10000000 : U64).toNat = 0x10000000 := rfl
  have hsize : (0x40000000 : U64).toNat = 0x40000000 := rfl
  rw [IsMemory, memoryRegs_linuxBlob, List.exists_mem_cons_iff, List.exists_mem_cons_iff,
    inReg_pair, inReg_pair, hzero, hlow, hhigh, hsize]
  simp only [List.not_mem_nil, false_and, exists_false, or_false]
  omega

/-- **What the memory nodes cover**: a range that lies below the devices or
above them. -/
theorem covers_iff {base size : ℕ} :
    Covers (linuxBlob uartBase uartIrq initrdStartIpa initrdEndIpa) base size ↔
      size = 0 ∨ base + size ≤ 0x08000000 ∨ 0x10000000 ≤ base ∧ base + size ≤ 0x50000000 := by
  simp only [Covers, isMemory_iff]
  constructor
  · intro hcovers
    by_contra hnot
    -- The first address, the last one, and the first that is not memory.
    have hfirst := hcovers base (Nat.le_refl _)
    have hlast := hcovers (base + size - 1)
    have hgap := hcovers 0x08000000
    omega
  · intro hrange a hle hlt
    omega

/-- The properties that are called strings are those that the functions for
strings and lists of strings emit. -/
theorem contains_stringNames : ∀ p ∈
    (linuxTree uartBase uartIrq initrdStartIpa initrdEndIpa).properties,
      stringNames.contains p.name = p.value.isString := by
  have hkinds : (linuxTree uartBase uartIrq initrdStartIpa initrdEndIpa).properties.map
      (Property.map Value.isString) =
        (linuxTree 0 0 0 0).properties.map (Property.map Value.isString) := rfl
  have hall : ((linuxTree 0 0 0 0).properties.map (Property.map Value.isString)).all
      (fun p => stringNames.contains p.name == p.value) = true := by decide +kernel
  intro p hp
  rw [← hkinds] at hall
  exact eq_of_beq (List.all_eq_true.mp hall _ (List.mem_map_of_mem hp))

/-- **Every string ends in a zero but one.** -/
theorem stringProps_linuxBlob :
    ∀ p ∈ stringProps (linuxBlob uartBase uartIrq initrdStartIpa initrdEndIpa),
      p.value.getLast? = some 0 ↔ p.value ≠ uartCompatible := by
  have hfixed : stringProps (linuxBlob uartBase uartIrq initrdStartIpa initrdEndIpa) =
    stringProps (linuxBlob 0 0 0 0) := rfl
  have hall : (stringProps (linuxBlob 0 0 0 0)).all
      (fun p => (p.value.getLast? == some 0) == (p.value != uartCompatible)) = true := by
    decide +kernel
  rw [hfixed]
  intro p hp
  have heq := eq_of_beq (List.all_eq_true.mp hall p hp)
  rw [← beq_iff_eq, heq, bne_iff_ne]

/-- **What the blob for Linux says**: the interrupt and the address of the
UART are the caller's; an address of the initial file system is the
caller's if it has 32 bits; the memory nodes cover the caller's memory if
it lies in one of two fixed ranges; and all strings end in a zero but the
UART's `compatible`. -/
theorem linux_dtb_iff (mem : ℕ → U8) (bufSz ramBase ramSize : U64) (hbuf : 2332 ≤ bufSz.toNat) :
    ∃ mem' t,
      dtbBuildLinux mem bufSz ramBase ramSize uartBase uartIrq initrdStartIpa initrdEndIpa =
        (.ok, some 1764, mem') ∧
      Fdt.read mem' 1764 = some t ∧
      ((t.value? (text "chosen") (text "linux,initrd-start")).map number =
        some initrdStartIpa.toNat ↔ initrdStartIpa.toNat < 2 ^ 32) ∧
      ((t.value? (text "chosen") (text "linux,initrd-end")).map number =
        some initrdEndIpa.toNat ↔ initrdEndIpa.toNat < 2 ^ 32) ∧
      (t.value? uartNode (text "reg")).map (regAddress · 0) = some uartBase.toNat ∧
      (t.value? uartNode (text "interrupts")).map (cell · 1) = some (uartIrq - 32).toNat ∧
      (Covers t ramBase.toNat ramSize.toNat ↔ ramSize.toNat = 0 ∨
        ramBase.toNat + ramSize.toNat ≤ 0x08000000 ∨
        0x10000000 ≤ ramBase.toNat ∧ ramBase.toNat + ramSize.toNat ≤ 0x50000000) ∧
      t.value? uartNode (text "compatible") = some uartCompatible ∧
      ∀ p ∈ stringProps t, p.value.getLast? = some 0 ↔ p.value ≠ uartCompatible := by
  have hbuild := dtbBuildLinux_of_room uartBase uartIrq initrdStartIpa initrdEndIpa mem ramBase
    ramSize hbuf
  refine ⟨_, _, hbuild, read_linuxBlob .., ?_, ?_, ?_, ?_, covers_iff .., rfl,
    stringProps_linuxBlob _ _ _ _⟩
  · exact number_cell_iff
  · exact number_cell_iff
  · exact congrArg some (number_bytes64 uartBase)
  · exact congrArg some (number_bytes32 (uartIrq - 32))

end Arguments

/-- At boot the memory of the first VM lies in the second range. -/
theorem linux_dtb_at_boot : 2332 ≤ (0x10000 : U64).toNat ∧ ∃ mem' t,
    dtbBuildLinux (fun _ => 0) 0x10000 0x41000000 0x08000000 0x09000000 33 0x06000000 0x06200000 =
      (.ok, some 1764, mem') ∧
    Fdt.read mem' 1764 = some t ∧ Covers t 0x41000000 0x08000000 := by
  obtain ⟨mem', t, hbuild, hread, -, -, -, -, hcovers, -⟩ := linux_dtb_iff 0x09000000 33 0x06000000
    0x06200000 (fun _ => 0) 0x10000 0x41000000 0x08000000 (by decide)
  exact ⟨by decide, mem', t, hbuild, hread, hcovers.mpr (by decide)⟩

/-- **An initial file system at `2 ^ 32`** is said to be at zero, memory at
`0x08000000` is not there, and a string has no end. -/
theorem wide_initrd_cut : ∃ mem' t,
    dtbBuildLinux (fun _ => 0) 0x10000 0x08000000 0x1000 0x09000000 33 0x100000000 0x100200000 =
      (.ok, some 1764, mem') ∧
    Fdt.read mem' 1764 = some t ∧
    (t.value? (text "chosen") (text "linux,initrd-start")).map number = some 0 ∧
    ¬ Covers t 0x08000000 0x1000 ∧
    t.value? uartNode (text "compatible") = some uartCompatible ∧
    uartCompatible.getLast? ≠ some 0 := by
  refine ⟨_, _, dtbBuildLinux_of_room 0x09000000 33 0x100000000 0x100200000 (fun _ => 0) 0x08000000
    0x1000 (by decide), read_linuxBlob .., rfl, ?_, rfl, by decide⟩
  rw [covers_iff]
  decide

end Dtb

end HypervisorBase
