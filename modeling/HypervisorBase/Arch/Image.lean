import HypervisorBase.Arch.El2Map
/-!
# Where the linker puts the image

`boot/linker/hypervisor.ld` places the sections; `mmu_el2_init` protects
fixed addresses. The script's assertions keep `.rodata` on a block
boundary and inside one block, but say nothing about which block that is.
`image_protected_iff` settles what follows: the sections are protected for
exactly the images whose code fits in the first block. The routine itself
must lie in that block: it turns on the map it runs under, and a `Routine`
fetches without asking one.
-/

namespace HypervisorBase

namespace Arch

open Routine (Op Returns)

/-- The sizes of the sections, each with the padding its own alignment puts
in front of it. The page tables are those of `mmu.S`. -/
structure Sections where
  entry : ℕ
  vectors : ℕ
  mmu : ℕ
  text : ℕ
  rodata : ℕ
  data : ℕ
  stackArea : ℕ
  bss : ℕ

/-- `ALIGN`. -/
def alignUp (k dot : ℕ) : ℕ := (dot + (k - 1)) / k * k

namespace Sections

variable (S : Sections)

/-- `__text_start`. -/
def textStart : ℕ := 0x40000000

/-- The start of `.text.mmu`. -/
def mmuStart : ℕ := alignUp 0x800 (textStart + S.entry) + S.vectors

/-- The end of `.text.mmu`, which holds `mmu_el2_init` and its constants. -/
def mmuEnd : ℕ := S.mmuStart + S.mmu

/-- `__text_end`. -/
def textEnd : ℕ := S.mmuEnd + S.text

/-- `__rodata_start`. -/
def rodataStart : ℕ := alignUp 0x200000 S.textEnd

/-- `__rodata_end`. -/
def rodataEnd : ℕ := S.rodataStart + S.rodata

/-- The start of `.data`. -/
def dataStart : ℕ := alignUp 0x200000 S.rodataEnd

/-- `__el2_l1_table`. -/
def l1Table : ℕ := alignUp 4096 (S.dataStart + S.data)

/-- `__el2_l2_text_rodata`. -/
def l2Table : ℕ := S.l1Table + 4096

/-- `__hyp_end`. -/
def hypEnd : ℕ :=
  alignUp 4096 (alignUp 8 (alignUp 16 (S.l2Table + 4096) + S.stackArea) + S.bss)

/-- `mmu_el2_init`, linked. -/
def mmuEl2Init : List (Op El2Reg) :=
  Arch.mmuEl2Init (BitVec.ofNat 64 S.l1Table) (BitVec.ofNat 64 S.l2Table)

/-- The assertions of the script. -/
structure Links : Prop where
  rodata_aligned : S.rodataStart % 0x200000 = 0
  rodata_fits : S.rodataEnd ≤ S.rodataStart + 0x200000
  below_guests : S.hypEnd < 0x80000000

end Sections

/-- **The protection the map is for**: code can be run and not written,
constants can be neither, and data cannot be run. -/
structure Protected (translate : U64 → Option Stage1.Mapping) (S : Sections) : Prop where
  text : ∀ a : U64, Sections.textStart ≤ a.toNat → a.toNat < S.textEnd →
    ∃ p, translate a = some p ∧ p.readOnly = true ∧ p.executeNever = false
  rodata : ∀ a : U64, S.rodataStart ≤ a.toNat → a.toNat < S.rodataEnd →
    ∃ p, translate a = some p ∧ p.readOnly = true ∧ p.executeNever = true
  data : ∀ a : U64, S.dataStart ≤ a.toNat → a.toNat < S.hypEnd →
    ∃ p, translate a = some p ∧ p.readOnly = false ∧ p.executeNever = true

/-- Code in a range can be fetched. -/
def Executable (translate : U64 → Option Stage1.Mapping) (first last : ℕ) : Prop :=
  ∀ a : U64, first ≤ a.toNat → a.toNat < last →
    ∃ p, translate a = some p ∧ p.executeNever = false

theorem alignUp_mod {k : ℕ} (dot : ℕ) : alignUp k dot % k = 0 := Nat.mul_mod_left _ _

namespace Sections

variable {S : Sections}

/-- The order of the sections. -/
theorem order (S : Sections) : S.textEnd ≤ S.rodataStart ∧ S.rodataEnd ≤ S.dataStart ∧
    S.dataStart ≤ S.l1Table ∧ S.l2Table + 4096 ≤ S.hypEnd ∧
    textStart + S.entry ≤ S.mmuStart ∧ S.mmuStart ≤ S.textEnd := by
  refine ⟨?_, ?_, ?_, ?_, ?_, ?_⟩
  · rw [rodataStart, alignUp]; omega
  · rw [dataStart, alignUp]; omega
  · rw [l1Table, alignUp]; omega
  · simp only [hypEnd, alignUp]; omega
  · rw [mmuStart, alignUp]; omega
  · rw [textEnd, mmuEnd]; omega

/-- The tables the linker places are where the routine can use them. -/
theorem Links.tables (hS : S.Links) {m : Machine El2Reg} (hm : m.x 20 = 0x09000000) :
    Tables (BitVec.ofNat 64 S.l1Table) (BitVec.ofNat 64 S.l2Table) (m.x 20) := by
  obtain ⟨h1, h2, h3, h4, h5, h6⟩ := S.order
  have hstart : textStart = 0x40000000 := rfl
  have hl2 : S.l2Table = S.l1Table + 4096 := rfl
  have hend := hS.below_guests
  have hpage : S.l1Table % 4096 = 0 := alignUp_mod _
  have hro : S.rodataStart ≤ S.rodataEnd := Nat.le_add_right _ _
  have e1 := BitVec.toNat_ofNat S.l1Table 64
  have e2 := BitVec.toNat_ofNat S.l2Table 64
  have hmarker : (m.x 20).toNat = 0x09000000 := by rw [hm]; rfl
  refine ⟨by omega, by omega, by omega, by omega, fun heq => ?_, by omega, by omega⟩
  have := congrArg BitVec.toNat heq
  omega

end Sections

/-- What the map gives below 4 GiB, where everything is mapped. -/
theorem el2Map_of_lt {a : U64} (ha : a.toNat < 2 ^ 32) : ∃ p, el2Map a = some p ∧
    (p.readOnly = true ↔ 0x40000000 ≤ a.toNat ∧ a.toNat < 0x40400000) ∧
    (p.executeNever = true ↔ 0x40200000 ≤ a.toNat ∧ a.toNat < 0x80000000) := by
  refine ⟨_, if_neg (by omega), ?_, ?_⟩
  · exact decide_eq_true_iff
  · exact decide_eq_true_iff

/-- **The map protects the image for exactly the images whose code ends
inside the first block.** -/
theorem protected_el2Map_iff {S : Sections} (hS : S.Links) (hentry : 0 < S.entry)
    (hrodata : 0 < S.rodata) : Protected el2Map S ↔ S.textEnd ≤ 0x40200000 := by
  obtain ⟨h1, h2, h3, h4, h5, h6⟩ := S.order
  have hstart : Sections.textStart = 0x40000000 := rfl
  have hend := hS.below_guests
  have hfits := hS.rodata_fits
  have hl2 : S.l2Table = S.l1Table + 4096 := rfl
  have hro : S.rodataEnd = S.rodataStart + S.rodata := rfl
  constructor
  · -- code beyond the first block could not be run
    intro h
    by_contra hlong
    obtain ⟨p, hp, -, hxn⟩ := h.text 0x40200000 (by decide) (by change 0x40200000 < _; omega)
    obtain ⟨q, hq, -, hqxn⟩ := el2Map_of_lt (a := 0x40200000) (by decide)
    rw [hp] at hq
    rw [← Option.some.inj hq, hxn] at hqxn
    exact absurd (hqxn.mpr (by decide)) (by decide)
  · intro htext
    have hrostart : S.rodataStart = 0x40200000 := by
      have hdiv : S.rodataStart = (S.textEnd + 0x1FFFFF) / 0x200000 * 0x200000 := rfl
      omega
    have hdata : S.dataStart = 0x40400000 := by
      have hdiv : S.dataStart = (S.rodataEnd + 0x1FFFFF) / 0x200000 * 0x200000 := rfl
      omega
    refine ⟨?_, ?_, ?_⟩
    all_goals
      intro a hlo hhi
      obtain ⟨p, hp, hr, hx⟩ := el2Map_of_lt (a := a) (by omega)
      refine ⟨p, hp, ?_⟩
    · exact ⟨hr.mpr (by omega), Bool.eq_false_iff.mpr fun h => by have := hx.mp h; omega⟩
    · exact ⟨hr.mpr (by omega), hx.mpr (by omega)⟩
    · exact ⟨Bool.eq_false_iff.mpr fun h => by have := hr.mp h; omega, hx.mpr (by omega)⟩

/-- The routine can be fetched under the map it turns on if it lies in the
first block. -/
theorem executable_mmu {S : Sections} (hmmu : S.mmuEnd ≤ 0x40200000) :
    Executable el2Map S.mmuStart S.mmuEnd := by
  intro a hlo hhi
  obtain ⟨p, hp, -, hx⟩ := el2Map_of_lt (a := a) (by omega)
  exact ⟨p, hp, Bool.eq_false_iff.mpr fun h => by have := hx.mp h; omega⟩

/-- **The linked image runs protected exactly when its code fits.** An
image that passes the script's assertions, with `.text.mmu` in the first
block, gets through `mmu_el2_init`, which the map it turns on lets run to
its end. Afterwards the sections are protected if and only if `__text_end`
is at most 0x40200000, which no assertion asks for. -/
theorem image_protected_iff {S : Sections} (hS : S.Links) (hentry : 0 < S.entry)
    (hrodata : 0 < S.rodata) (hmmu : S.mmuEnd ≤ 0x40200000) (m : Machine El2Reg) (z : Bool)
    (hm : m.x 20 = 0x09000000) :
    ∃ m', Returns S.mmuEl2Init m z m' ∧
      Executable (Stage1.translate (regime m') m'.mem) S.mmuStart S.mmuEnd ∧
      (Protected (Stage1.translate (regime m') m'.mem) S ↔ S.textEnd ≤ 0x40200000) := by
  obtain ⟨m', hreturns, hi⟩ := mmuEl2Init_returns (BitVec.ofNat 64 S.l1Table)
    (BitVec.ofNat 64 S.l2Table) m z
  refine ⟨m', hreturns, ?_⟩
  rw [funext (hi.translate (hS.tables hm))]
  exact ⟨executable_mmu hmmu, protected_el2Map_iff hS hentry hrodata⟩

/-- An image with two megabytes and a page of code, which the script
links. -/
def largeText : Sections := ⟨0x100, 0x800, 0x200, 0x200000, 0x9000, 0x1000, 0x8000, 0x500000⟩

/-- It runs without its protection. -/
theorem image_protected_iff_largeText : ∃ m', Returns largeText.mmuEl2Init resetMachine false m' ∧
    Executable (Stage1.translate (regime m') m'.mem) 0x40001000 0x40001200 ∧
    ¬ Protected (Stage1.translate (regime m') m'.mem) largeText := by
  have hlinks : largeText.Links := ⟨by decide, by decide, by decide⟩
  obtain ⟨m', hreturns, hruns, hiff⟩ :=
    image_protected_iff hlinks (by decide) (by decide) (by decide) resetMachine false rfl
  exact ⟨m', hreturns, hruns, fun hp => absurd (hiff.mp hp) (by decide)⟩

end Arch

end HypervisorBase
