import HypervisorBase.Common.Run
import HypervisorBase.Device.Mmio
import Mathlib.Data.Set.Defs
/-!
# Whose configuration space a guest reaches

Every PCIe function has 4 KiB of configuration space in the ECAM window,
and `pcie_assign_vm` gives functions to VMs. `pcie_ecam_emulate` decides
by the function of the first byte and then moves four, so an access that
starts in the last three bytes of a function ends in the next one, or
beyond the window; and nothing keeps a function from being assigned twice.
`config_isolation_iff` says which accesses stay with the functions of the
VM and which assignments keep the VMs apart.
-/

namespace HypervisorBase

namespace Device

/-! ## Functions and assignments -/

/-- Bus, device and function. -/
abbrev Bdf := U8 × U8 × U8

/-- `pcie_decode_addr`. -/
def pcieDecodeAddr (addr : U64) : Bdf × BitVec 16 :=
  let off := addr - pcieEcamBase
  ((((off >>> 20) &&& 0xFF).setWidth 8, ((off >>> 15) &&& 0x1F).setWidth 8,
    ((off >>> 12) &&& 0x07).setWidth 8), (off &&& 0xFFF).setWidth 16)

def bdfOf (addr : U64) : Bdf := (pcieDecodeAddr addr).1

def regOf (addr : U64) : BitVec 16 := (pcieDecodeAddr addr).2

/-- The ECAM window. -/
def InWindow (addr : U64) : Prop := pcieEcamBase ≤ addr ∧ addr < pcieEcamBase + pcieEcamSize

/-- A successful call of `pcie_assign_vm`. -/
def assignStep (h : Hyp) (a : PcieBdf) : Option Hyp :=
  match pcieAssignVm h a.vmId a.bus a.dev a.fn with
  | (.ok, h') => some h'
  | _ => none

/-- **What the calls gave to a VM.** Bus `0xFF` stands for every
function. -/
def AssignedTo (calls : List PcieBdf) (v : U32) (f : Bdf) : Prop :=
  ∃ a ∈ calls, a.vmId = v ∧ (a.bus = 0xFF ∨ (a.bus, a.dev, a.fn) = f)

/-- The configuration bytes of the functions of a VM. -/
def bytesOf (calls : List PcieBdf) (v : U32) : Set U64 :=
  {b | InWindow b ∧ AssignedTo calls v (bdfOf b)}

/-- **An access stays within a set of bytes**: a write changes no other
byte, and what a read returns does not depend on another. -/
structure Confined (h : Hyp) (addr : U64) (S : Set U64) : Prop where
  writes : ∀ val, ∀ b ∉ S, (pcieEcamEmulate h addr true val).2.phys b = h.phys b
  reads : ∀ val p, (∀ b ∈ S, p b = h.phys b) →
    (pcieEcamEmulate { h with phys := p } addr false val).1 = (pcieEcamEmulate h addr false val).1

/-- VM `v` reaches a byte with one of the accesses in `Q`: one that does
not stay within the other bytes. -/
def Reaches (h : Hyp) (Q : U64 → Prop) (v : U32) (b : U64) : Prop :=
  ∃ addr, InWindow addr ∧ Q addr ∧ ¬ Confined (mmioSetCurrentVm h v) addr {b' | b' ≠ b}

/-- No configuration byte is in the reach of two VMs. -/
def Exclusive (h : Hyp) (Q : U64 → Prop) : Prop :=
  ∀ b, InWindow b → ∀ v w, Reaches h Q v b → Reaches h Q w b → v = w

/-- No function is assigned to two VMs. -/
def OneVm (calls : List PcieBdf) : Prop :=
  ∀ a, InWindow a → ∀ v w, AssignedTo calls v (bdfOf a) → AssignedTo calls w (bdfOf a) → v = w

/-- Nor are two functions that follow each other. -/
def Apart (calls : List PcieBdf) : Prop :=
  OneVm calls ∧ ∀ a, InWindow a → InWindow (a + 0x1000) → ∀ v w, AssignedTo calls v (bdfOf a) →
    AssignedTo calls w (bdfOf (a + 0x1000)) → v = w

/-! ## The window -/

theorem inWindow_iff {a : U64} : InWindow a ↔ 0x3F000000 ≤ a.toNat ∧ a.toNat < 0x40000000 := Iff.rfl

/-- The functions of the window, counted. -/
def block (a : U64) : ℕ := (a.toNat - 0x3F000000) / 4096

theorem toNat_offset {a : U64} (ha : InWindow a) :
    (a - pcieEcamBase).toNat = a.toNat - 0x3F000000 := by
  obtain ⟨hlow, -⟩ := inWindow_iff.mp ha
  exact BitVec.toNat_sub_of_le hlow

/-- **A function is 4 KiB.** -/
theorem bdfOf_congr {a b : U64} (ha : InWindow a) (hb : InWindow b) (hab : block a = block b) :
    bdfOf a = bdfOf b := by
  have hfield : ∀ i k, k ≤ 64 → 12 ≤ i →
      ((a - pcieEcamBase) >>> i) &&& BitVec.ofNat 64 (2 ^ k - 1) =
        ((b - pcieEcamBase) >>> i) &&& BitVec.ofNat 64 (2 ^ k - 1) := by
    intro i k hk hi
    apply BitVec.eq_of_toNat_eq
    rw [Word.toNat_field _ i hk, Word.toNat_field _ i hk, toNat_offset ha, toNat_offset hb]
    obtain ⟨j, rfl⟩ := Nat.exists_eq_add_of_le hi
    rw [Nat.pow_add, ← Nat.div_div_eq_div_mul, ← Nat.div_div_eq_div_mul]
    exact congrArg (fun n => n / 2 ^ j % 2 ^ k) hab
  have hbus := hfield 20 8 (by decide) (by decide)
  have hdev := hfield 15 5 (by decide) (by decide)
  have hfn := hfield 12 3 (by decide) (by decide)
  unfold bdfOf pcieDecodeAddr
  exact congrArg₂ Prod.mk (congrArg (BitVec.setWidth 8) hbus)
    (congrArg₂ Prod.mk (congrArg (BitVec.setWidth 8) hdev) (congrArg (BitVec.setWidth 8) hfn))

theorem toNat_regOf {a : U64} (ha : InWindow a) : (regOf a).toNat = a.toNat % 4096 := by
  have hmask : ((a - pcieEcamBase) &&& 0xFFF).toNat = (a - pcieEcamBase).toNat % 2 ^ 12 :=
    Word.toNat_and_lowMask (k := 12) (a - pcieEcamBase) (by decide)
  obtain ⟨hlow, hhigh⟩ := inWindow_iff.mp ha
  unfold regOf pcieDecodeAddr
  dsimp only
  rw [BitVec.toNat_setWidth, hmask, toNat_offset ha]
  omega

/-! ## Four bytes -/

/-- The bytes of a 32-bit access. -/
def span (a : U64) : Set U64 := {b | b = a ∨ b = a + 1 ∨ b = a + 2 ∨ b = a + 3}

/-- The four bytes of a configuration word. -/
theorem mem_span_iff {a b : U64} (ha : InWindow a) :
    b ∈ span a ↔ a.toNat ≤ b.toNat ∧ b.toNat ≤ a.toNat + 3 := by
  obtain ⟨-, hhigh⟩ := inWindow_iff.mp ha
  have hsum : ∀ i < 4, (a + BitVec.ofNat 64 i).toNat = a.toNat + i := by
    intro i hi
    rw [BitVec.toNat_add, BitVec.toNat_ofNat]
    omega
  have h1 : (a + 1).toNat = a.toNat + 1 := hsum 1 (by decide)
  have h2 : (a + 2).toNat = a.toNat + 2 := hsum 2 (by decide)
  have h3 : (a + 3).toNat = a.toNat + 3 := hsum 3 (by decide)
  change (b = a ∨ b = a + 1 ∨ b = a + 2 ∨ b = a + 3) ↔ _
  rw [← BitVec.toNat_inj, ← BitVec.toNat_inj, ← BitVec.toNat_inj, ← BitVec.toNat_inj, h1, h2, h3]
  omega

theorem storeWord_of_notMem (phys : U64 → U8) {a b : U64} (w : U32) (hb : b ∉ span a) :
    Hypercall.storeWord phys a w b = phys b := by
  have hne : ¬ (b = a ∨ b = a + 1 ∨ b = a + 2 ∨ b = a + 3) := hb
  rw [not_or, not_or, not_or] at hne
  obtain ⟨h0, h1, h2, h3⟩ := hne
  unfold Hypercall.storeWord
  rw [Function.update_of_ne h3, Function.update_of_ne h2, Function.update_of_ne h1,
    Function.update_of_ne h0]

/-- A word of four equal bytes. -/
theorem storeWord_of_mem (phys : U64 → U8) {a b : U64} {w : U32} {c : U8} (h0 : w.setWidth 8 = c)
    (h1 : (w >>> 8).setWidth 8 = c) (h2 : (w >>> 16).setWidth 8 = c)
    (h3 : (w >>> 24).setWidth 8 = c) (hb : b ∈ span a) : Hypercall.storeWord phys a w b = c := by
  unfold Hypercall.storeWord
  rw [h0, h1, h2, h3]
  simp only [Function.update_apply]
  rcases hb with hb | hb | hb | hb <;> simp [hb]

/-- Some write shows at each of the four bytes. -/
theorem exists_storeWord_ne (phys : U64 → U8) {a b : U64} (hb : b ∈ span a) :
    ∃ val : U64, Hypercall.storeWord phys a (val.setWidth 32) b ≠ phys b := by
  by_cases hzero : phys b = 0
  · refine ⟨0xFFFFFFFF, ?_⟩
    rw [storeWord_of_mem phys (c := 0xFF) rfl rfl rfl rfl hb, hzero]
    decide
  · refine ⟨0, ?_⟩
    rw [storeWord_of_mem phys (c := 0) rfl rfl rfl rfl hb]
    exact fun h => hzero h.symm

theorem loadWord_congr {p q : U64 → U8} {a : U64} (hpq : ∀ b ∈ span a, p b = q b) :
    loadWord p a = loadWord q a := by
  unfold loadWord
  rw [hpq a (.inl rfl), hpq (a + 1) (.inr (.inl rfl)), hpq (a + 2) (.inr (.inr (.inl rfl))),
    hpq (a + 3) (.inr (.inr (.inr rfl)))]

/-! ## What the emulation does -/

section Emulation

variable {h : Hyp} {addr : U64}

theorem pcieVmOwnsBdf_iff (h : Hyp) (v : U32) (f : Bdf) :
    pcieVmOwnsBdf h v f.1 f.2.1 f.2.2 = true ↔ AssignedTo h.pcie v f := by
  unfold pcieVmOwnsBdf AssignedTo
  simp only [List.any_eq_true, Bool.and_eq_true, Bool.or_eq_true, decide_eq_true_iff, and_assoc,
    Prod.ext_iff]

/-- The range test, then the owner of the first byte. -/
theorem pcieEcamEmulate_eq (hin : InWindow addr) (isWrite : Bool) (val : U64) :
    pcieEcamEmulate h addr isWrite val =
      if !pcieVmOwnsBdf h h.mmio.currentVmId (bdfOf addr).1 (bdfOf addr).2.1 (bdfOf addr).2.2 then
        (if isWrite then val else pcieVendorInvalid, h)
      else if isWrite then
        (val, { h with phys := Hypercall.storeWord h.phys addr (val.setWidth 32) })
      else ((loadWord h.phys addr).setWidth 64, h) := by
  unfold pcieEcamEmulate
  rw [if_neg]
  · rfl
  · rw [not_or, BitVec.not_lt, BitVec.not_le]
    exact hin

/-- **An access to a device of the caller** reaches the hardware. -/
theorem pcieEcamEmulate_of_assigned (hin : InWindow addr)
    (hown : AssignedTo h.pcie h.mmio.currentVmId (bdfOf addr)) (isWrite : Bool) (val : U64) :
    pcieEcamEmulate h addr isWrite val =
      if isWrite then (val, { h with phys := Hypercall.storeWord h.phys addr (val.setWidth 32) })
      else ((loadWord h.phys addr).setWidth 64, h) := by
  rw [pcieEcamEmulate_eq hin, (pcieVmOwnsBdf_iff h _ _).mpr hown]
  rfl

/-- **Any other access** reads as ones and writes nothing. -/
theorem pcieEcamEmulate_of_not_assigned (hin : InWindow addr)
    (hown : ¬ AssignedTo h.pcie h.mmio.currentVmId (bdfOf addr)) (isWrite : Bool) (val : U64) :
    pcieEcamEmulate h addr isWrite val = (if isWrite then val else pcieVendorInvalid, h) := by
  rw [← pcieVmOwnsBdf_iff, Bool.not_eq_true] at hown
  rw [pcieEcamEmulate_eq hin, hown]
  rfl

/-- **An access stays where its four bytes are**, or does nothing. -/
theorem confined_iff (hin : InWindow addr) (S : Set U64) : Confined h addr S ↔
    (AssignedTo h.pcie h.mmio.currentVmId (bdfOf addr) → span addr ⊆ S) := by
  constructor
  · intro hconf hown b hb
    by_contra hout
    obtain ⟨val, hval⟩ := exists_storeWord_ne h.phys hb
    have hkept := hconf.writes val b hout
    rw [pcieEcamEmulate_of_assigned hin hown] at hkept
    exact hval hkept
  · intro hspan
    by_cases hown : AssignedTo h.pcie h.mmio.currentVmId (bdfOf addr)
    · have hsub := hspan hown
      constructor
      · intro val b hb
        rw [pcieEcamEmulate_of_assigned hin hown]
        exact storeWord_of_notMem h.phys _ fun hmem => hb (hsub hmem)
      · intro val p hp
        have hload : loadWord p addr = loadWord h.phys addr :=
          loadWord_congr fun b hb => hp b (hsub hb)
        rw [pcieEcamEmulate_of_assigned (h := { h with phys := p }) hin hown,
          pcieEcamEmulate_of_assigned hin hown]
        exact congrArg (BitVec.setWidth 64) hload
    · constructor
      · intro val b _
        rw [pcieEcamEmulate_of_not_assigned hin hown]
      · intro val p _
        rw [pcieEcamEmulate_of_not_assigned (h := { h with phys := p }) hin hown,
          pcieEcamEmulate_of_not_assigned hin hown]

/-- The bytes that a VM can reach through the window. -/
theorem reaches_iff (h : Hyp) (Q : U64 → Prop) (v : U32) (b : U64) : Reaches h Q v b ↔
    ∃ addr, InWindow addr ∧ Q addr ∧ AssignedTo h.pcie v (bdfOf addr) ∧ b ∈ span addr := by
  refine exists_congr fun addr => and_congr_right fun hin => and_congr_right fun _ => ?_
  rw [confined_iff hin, Classical.not_imp]
  refine and_congr_right fun _ => ?_
  constructor
  · intro hnot
    by_contra hout
    exact hnot fun b' hb' heq => hout (heq ▸ hb')
  · intro hmem hsub
    exact hsub hmem rfl

end Emulation

/-! ## Runs of assignments -/

theorem pcie_assignStep {h h' : Hyp} {a : PcieBdf} (hstep : assignStep h a = some h') :
    h'.pcie = h.pcie ++ [a] := by
  unfold assignStep pcieAssignVm at hstep
  split at hstep
  · rename_i heq
    split at heq
    · cases heq
    · cases heq
      cases hstep
      rfl
  · cases hstep

/-- The table holds the calls, in order. -/
theorem pcie_assigned {calls : List PcieBdf} {h h' : Hyp} (hrun : exec assignStep h calls = some h') :
    h'.pcie = h.pcie ++ calls := by
  induction calls generalizing h with
  | nil =>
    cases hrun
    exact (List.append_nil _).symm
  | cons a calls ih =>
    obtain ⟨h₁, hstep, hrest⟩ := Option.bind_eq_some_iff.mp hrun
    rw [ih hrest, pcie_assignStep hstep, List.append_assoc]
    rfl

/-! ## Isolation -/

section Isolation

variable {calls : List PcieBdf} {v w : U32} {a b : U64}

theorem assignedTo_congr (ha : InWindow a) (hb : InWindow b) (hab : block a = block b) :
    AssignedTo calls v (bdfOf a) ↔ AssignedTo calls v (bdfOf b) := by
  rw [bdfOf_congr ha hb hab]

/-- **The four bytes are the VM's**: they are in one function, or the last
of them is in another of its functions. -/
theorem span_subset_iff (ha : InWindow a) (hown : AssignedTo calls v (bdfOf a)) :
    span a ⊆ bytesOf calls v ↔ (regOf a).toNat ≤ 0xFFC ∨ a + 3 ∈ bytesOf calls v := by
  obtain ⟨hlow, hhigh⟩ := inWindow_iff.mp ha
  rw [toNat_regOf ha]
  have hlast : a + 3 ∈ span a := .inr (.inr (.inr rfl))
  have hsum : (a + 3).toNat = a.toNat + 3 := by
    rw [BitVec.toNat_add]
    change (a.toNat + 3) % 2 ^ 64 = a.toNat + 3
    omega
  constructor
  · intro hsub
    exact .inr (hsub hlast)
  · intro hcase b hb
    obtain ⟨hge, hle⟩ := (mem_span_iff ha).mp hb
    by_cases hsame : block b = block a
    · have hin : InWindow b := inWindow_iff.mpr (by unfold block at hsame; omega)
      exact ⟨hin, (assignedTo_congr hin ha hsame).mpr hown⟩
    · -- the access has left the function, so its last byte has
      unfold block at hsame
      rcases hcase with hreg | ⟨hin, hnext⟩
      · omega
      · obtain ⟨-, hin'⟩ := inWindow_iff.mp hin
        have hinb : InWindow b := inWindow_iff.mpr (by omega)
        refine ⟨hinb, (assignedTo_congr hinb hin ?_).mpr hnext⟩
        unfold block
        omega

/-- A byte is reached from its own function or from the one before. -/
theorem block_of_mem_span (ha : InWindow a) (hb : b ∈ span a) :
    block a = block b ∨ block a + 1 = block b := by
  obtain ⟨hge, hle⟩ := (mem_span_iff ha).mp hb
  obtain ⟨hlow, -⟩ := inWindow_iff.mp ha
  unfold block
  omega

theorem toNat_next (ha : InWindow a) : (a + 0x1000).toNat = a.toNat + 4096 := by
  obtain ⟨-, hhigh⟩ := inWindow_iff.mp ha
  rw [BitVec.toNat_add]
  change (a.toNat + 4096) % 2 ^ 64 = a.toNat + 4096
  omega

theorem inWindow_next (ha : InWindow a) (hb : InWindow b) (hab : block a + 1 = block b) :
    InWindow (a + 0x1000) ∧ block (a + 0x1000) = block b := by
  obtain ⟨hlow, hhigh⟩ := inWindow_iff.mp ha
  obtain ⟨hlow', hhigh'⟩ := inWindow_iff.mp hb
  unfold block at hab ⊢
  rw [inWindow_iff, toNat_next ha]
  omega

/-- Two VMs that own functions next to each other are the same. -/
theorem Apart.eq_of_next (hapart : Apart calls) (ha : InWindow a) (hb : InWindow b)
    (hab : block a + 1 = block b) (hv : AssignedTo calls v (bdfOf a))
    (hw : AssignedTo calls w (bdfOf b)) : v = w := by
  obtain ⟨hin, hblock⟩ := inWindow_next ha hb hab
  exact hapart.2 a ha hin v w hv ((assignedTo_congr hin hb hblock).mpr hw)

theorem OneVm.eq_of_same (hone : OneVm calls) (ha : InWindow a) (hb : InWindow b)
    (hab : block a = block b) (hv : AssignedTo calls v (bdfOf a))
    (hw : AssignedTo calls w (bdfOf b)) : v = w :=
  hone a ha v w hv ((assignedTo_congr ha hb hab).mpr hw)

/-- The first byte of the next function and the access that reaches it
from the last three bytes of this one. -/
theorem exists_spill (ha : InWindow a) (hnext : InWindow (a + 0x1000)) :
    ∃ addr b, InWindow addr ∧ block addr = block a ∧ b ∈ span addr ∧ InWindow b ∧
      block b = block (a + 0x1000) := by
  obtain ⟨hlow, hhigh⟩ := inWindow_iff.mp ha
  rw [inWindow_iff, toNat_next ha] at hnext
  have haddr : (BitVec.ofNat 64 (a.toNat / 4096 * 4096 + 0xFFD)).toNat =
      a.toNat / 4096 * 4096 + 0xFFD := by
    rw [BitVec.toNat_ofNat]
    omega
  have hb : (BitVec.ofNat 64 (a.toNat / 4096 * 4096 + 0x1000)).toNat =
      a.toNat / 4096 * 4096 + 0x1000 := by
    rw [BitVec.toNat_ofNat]
    omega
  have hin : InWindow (BitVec.ofNat 64 (a.toNat / 4096 * 4096 + 0xFFD)) := by
    rw [inWindow_iff, haddr]
    omega
  refine ⟨_, BitVec.ofNat 64 (a.toNat / 4096 * 4096 + 0x1000), hin, ?_, ?_, ?_, ?_⟩
  · unfold block
    rw [haddr]
    omega
  · rw [mem_span_iff hin, haddr, hb]
    omega
  · rw [inWindow_iff, hb]
    omega
  · unfold block
    rw [hb, toNat_next ha]
    omega

/-- **The VMs are kept apart** exactly when their functions are. -/
theorem exclusive_iff (h : Hyp) : Exclusive h (fun _ => True) ↔ Apart h.pcie := by
  constructor
  · intro hex
    have hreach : ∀ {v b}, InWindow b → AssignedTo h.pcie v (bdfOf b) →
        Reaches h (fun _ => True) v b := fun hin hown =>
      (reaches_iff h _ _ _).mpr ⟨_, hin, trivial, hown, .inl rfl⟩
    refine ⟨fun a ha v w hv hw => hex a ha v w (hreach ha hv) (hreach ha hw), ?_⟩
    intro a ha hnext v w hv hw
    obtain ⟨addr, b, hin, hsame, hmem, hinb, hb⟩ := exists_spill ha hnext
    have hv' : Reaches h (fun _ => True) v b := (reaches_iff h _ v b).mpr
      ⟨addr, hin, trivial, (assignedTo_congr hin ha hsame).mpr hv, hmem⟩
    exact hex b hinb v w hv' (hreach hinb ((assignedTo_congr hinb hnext hb).mpr hw))
  · intro hapart b hb v w hv hw
    obtain ⟨a₁, ha₁, -, hv, hb₁⟩ := (reaches_iff h _ v b).mp hv
    obtain ⟨a₂, ha₂, -, hw, hb₂⟩ := (reaches_iff h _ w b).mp hw
    rcases block_of_mem_span ha₁ hb₁ with h₁ | h₁ <;>
      rcases block_of_mem_span ha₂ hb₂ with h₂ | h₂
    · exact hapart.1.eq_of_same ha₁ ha₂ (h₁.trans h₂.symm) hv hw
    · exact (hapart.eq_of_next ha₂ ha₁ (h₂.trans h₁.symm) hw hv).symm
    · exact hapart.eq_of_next ha₁ ha₂ (h₁.trans h₂.symm) hv hw
    · exact hapart.1.eq_of_same ha₁ ha₂ (Nat.succ.inj (h₁.trans h₂.symm)) hv hw

/-- Aligned accesses stay in one function, so it is enough that no
function is assigned twice. -/
theorem exclusive_aligned_iff (h : Hyp) :
    Exclusive h (fun addr => addr.toNat % 4 = 0) ↔ OneVm h.pcie := by
  constructor
  · intro hex a ha v w hv hw
    obtain ⟨hlow, hhigh⟩ := inWindow_iff.mp ha
    have haddr : (BitVec.ofNat 64 (a.toNat / 4 * 4)).toNat = a.toNat / 4 * 4 := by
      rw [BitVec.toNat_ofNat]
      omega
    have hin : InWindow (BitVec.ofNat 64 (a.toNat / 4 * 4)) := by
      rw [inWindow_iff, haddr]
      omega
    have hsame : block (BitVec.ofNat 64 (a.toNat / 4 * 4)) = block a := by
      unfold block
      rw [haddr]
      omega
    have hreach : ∀ v, AssignedTo h.pcie v (bdfOf a) →
        Reaches h (fun addr => addr.toNat % 4 = 0) v (BitVec.ofNat 64 (a.toNat / 4 * 4)) := by
      intro v hown
      refine (reaches_iff h _ v _).mpr ⟨_, hin, ?_, (assignedTo_congr hin ha hsame).mpr hown,
        .inl rfl⟩
      rw [haddr]
      omega
    exact hex _ hin v w (hreach v hv) (hreach w hw)
  · intro hone b hb v w hv hw
    obtain ⟨a₁, ha₁, hq₁, hv, hb₁⟩ := (reaches_iff h _ v b).mp hv
    obtain ⟨a₂, ha₂, hq₂, hw, hb₂⟩ := (reaches_iff h _ w b).mp hw
    refine hone.eq_of_same ha₁ ha₂ ?_ hv hw
    obtain ⟨hge₁, hle₁⟩ := (mem_span_iff ha₁).mp hb₁
    obtain ⟨hge₂, hle₂⟩ := (mem_span_iff ha₂).mp hb₂
    have heq : a₁.toNat = a₂.toNat := by omega
    unfold block
    rw [heq]

/-- **Isolation of configuration space**, after any successful calls of
`pcie_assign_vm`. An access of VM `v` stays with its functions if and only
if it starts in a function that is not its own, or ends in one that is. A
function that is not its own is absent and cannot be written. No byte is
in the reach of two VMs if and only if no function, and no two functions
next to each other, are assigned to two of them; for aligned accesses it
is enough that no function is. -/
theorem config_isolation_iff {h₀ h : Hyp}
    (hrun : exec assignStep { h₀ with pcie := [] } calls = some h) :
    (∀ v addr, InWindow addr →
      (Confined (mmioSetCurrentVm h v) addr (bytesOf calls v) ↔
        (AssignedTo calls v (bdfOf addr) →
          (regOf addr).toNat ≤ 0xFFC ∨ addr + 3 ∈ bytesOf calls v)) ∧
      (¬ AssignedTo calls v (bdfOf addr) → ∀ val,
        pcieEcamEmulate (mmioSetCurrentVm h v) addr false val =
          (0xFFFFFFFF, mmioSetCurrentVm h v) ∧
        pcieEcamEmulate (mmioSetCurrentVm h v) addr true val = (val, mmioSetCurrentVm h v))) ∧
    (Exclusive h (fun _ => True) ↔ Apart calls) ∧
    (Exclusive h (fun addr => addr.toNat % 4 = 0) ↔ OneVm calls) := by
  have hcalls : h.pcie = calls := pcie_assigned hrun
  subst hcalls
  refine ⟨fun v addr hin => ⟨?_, fun hown val => ⟨?_, ?_⟩⟩, exclusive_iff h,
    exclusive_aligned_iff h⟩
  · rw [confined_iff hin]
    exact forall_congr' fun hown => span_subset_iff hin hown
  · exact pcieEcamEmulate_of_not_assigned (h := mmioSetCurrentVm h v) hin hown false val
  · exact pcieEcamEmulate_of_not_assigned (h := mmioSetCurrentVm h v) hin hown true val

end Isolation

/-- A device for each of two VMs. -/
def twoCards : List PcieBdf := [⟨0, 1, 0, 1⟩, ⟨0, 2, 0, 2⟩]

theorem oneVm_twoCards : OneVm twoCards := by
  have hcard : ∀ {v f}, AssignedTo twoCards v f → (v = 1 ∧ f = (0, 1, 0)) ∨ (v = 2 ∧ f = (0, 2, 0)) := by
    rintro v f ⟨a, ha, rfl, hf⟩
    simp only [twoCards, List.mem_cons, List.not_mem_nil, or_false] at ha
    rcases ha with rfl | rfl
    · exact .inl ⟨rfl, (hf.resolve_left (by decide)).symm⟩
    · exact .inr ⟨rfl, (hf.resolve_left (by decide)).symm⟩
  intro a _ v w hv hw
  rcases hcard hv with ⟨rfl, hf⟩ | ⟨rfl, hf⟩ <;> rcases hcard hw with ⟨rfl, hf'⟩ | ⟨rfl, hf'⟩
  · rfl
  · exact absurd (hf.symm.trans hf') (by decide)
  · exact absurd (hf.symm.trans hf') (by decide)
  · rfl

theorem config_isolation_twoCards :
    ∃ h, exec assignStep { Hyp.blank with pcie := [] } twoCards = some h ∧
      Exclusive h (fun addr => addr.toNat % 4 = 0) := by
  obtain ⟨h, hrun⟩ : ∃ h, exec assignStep { Hyp.blank with pcie := [] } twoCards = some h := ⟨_, rfl⟩
  exact ⟨h, hrun, (config_isolation_iff hrun).2.2.mpr oneVm_twoCards⟩

/-- **One device for two VMs**: the second call is not refused, and what VM
2 writes to a base address register is what VM 1 reads. **And the next
function**: VM 1 has function 0 and VM 2 has function 1, and a write of VM
1 at `0xFFD` changes the first byte of function 1. -/
theorem config_space_shared :
    (∃ h, exec assignStep { Hyp.blank with pcie := [] } [⟨0, 1, 0, 1⟩, ⟨0, 1, 0, 2⟩] = some h ∧
      (pcieEcamEmulate (mmioSetCurrentVm h 1) 0x3F008010 false 0).1 = 0 ∧
      (pcieEcamEmulate (mmioSetCurrentVm
        (pcieEcamEmulate (mmioSetCurrentVm h 2) 0x3F008010 true 0xFEE00000).2 1)
        0x3F008010 false 0).1 = 0xFEE00000 ∧
      ¬ Exclusive h (fun addr => addr.toNat % 4 = 0)) ∧
    ∃ h, exec assignStep { Hyp.blank with pcie := [] } [⟨0, 0, 0, 1⟩, ⟨0, 0, 1, 2⟩] = some h ∧
      bdfOf 0x3F001000 = (0, 0, 1) ∧ h.phys 0x3F001000 = 0 ∧
      (pcieEcamEmulate (mmioSetCurrentVm h 1) 0x3F000FFD true 0xFFFFFFFF).2.phys 0x3F001000 = 0xFF ∧
      ¬ Confined (mmioSetCurrentVm h 1) 0x3F000FFD (bytesOf [⟨0, 0, 0, 1⟩, ⟨0, 0, 1, 2⟩] 1) := by
  refine ⟨⟨_, rfl, by decide, by decide, fun hex => ?_⟩, _, rfl, by decide, rfl, by decide, fun hconf => ?_⟩
  · have hone := (exclusive_aligned_iff _).mp hex 0x3F008010 ⟨by decide, by decide⟩ 1 2
      ⟨⟨0, 1, 0, 1⟩, .head _, rfl, .inr (by decide)⟩
      ⟨⟨0, 1, 0, 2⟩, .tail _ (.head _), rfl, .inr (by decide)⟩
    exact absurd hone (by decide)
  · have hkept := hconf.writes 0xFFFFFFFF 0x3F001000 ?_
    · exact absurd hkept (by decide)
    · rintro ⟨-, a, ha, hvm, hf⟩
      simp only [List.mem_cons, List.not_mem_nil, or_false] at ha
      rcases ha with rfl | rfl
      · exact absurd hf (by decide)
      · exact absurd hvm (by decide)

end Device

end HypervisorBase
