import HypervisorBase.Common.Routine
import HypervisorBase.Common.Stage1
/-!
# The hypervisor's own address space

`mmu_el2_init` (`arch/arm64/mmu.S`) fills a level 1 table of four entries
and a level 2 table of 512, the latter in a loop, and turns translation
on. The routine is given instruction by instruction.
-/

namespace HypervisorBase

namespace Arch

open Routine (Op Core Reaches Returns)

/-- The EL2 registers the routine meets. -/
inductive El2Reg
  | mairEl2 | tcrEl2 | ttbr0El2 | sctlrEl2
  deriving DecidableEq, Repr

/-- `mmu_el2_init`, with the addresses the linker gives to `__el2_l1_table`
and `__el2_l2_text_rodata`. -/
def mmuEl2Init (l1 l2 : U64) : List (Op El2Reg) :=
  [.mov 0 0xFF, .plain (.msr .mairEl2 0),
   .mov 0 0x80823520, .plain (.msr .tcrEl2 0), .plain .barrier,
   .plain (.adr 1 l1), .plain (.adr 2 l2),
   -- L1[0]: device memory
   .mov 3 0x401, .orrImm 3 3 (1 <<< 10), .plain (.str 3 (.x 1) 0),
   -- L1[1]: the L2 table
   .orrImm 3 2 3, .plain (.str 3 (.x 1) 8),
   -- L1[2] and L1[3]
   .mov 3 0x80000701, .orrImm 3 3 (1 <<< 10), .plain (.str 3 (.x 1) 16),
   .mov 3 0xC0000701, .orrImm 3 3 (1 <<< 10), .plain (.str 3 (.x 1) 24),
   -- L2[0]: .text
   .mov 3 0x40000781, .plain (.str 3 (.x 2) 0),
   -- L2[1]: .rodata
   .mov 3 0x0040000040200781, .plain (.str 3 (.x 2) 8),
   -- L2[2..511]
   .mov 3 0x0040000040400701, .mov 4 0x200000, .mov 5 510, .addImm 6 2 16,
   -- .L_l2_fill, at 26
   .strPost 3 6 8, .add 3 3 4, .subs 5 5 1, .bne 26,
   .plain (.msr .ttbr0El2 1), .plain .barrier,
   -- the marker for the console takes the register SCTLR was read into
   .plain (.mrs 0 .sctlrEl2), .mov 0 0x4D, .strb 0 20,
   .mov 1 0x100D, .orr 0 0 1, .plain (.msr .sctlrEl2 0), .plain .barrier,
   .ret]

/-- The registers translation reads. -/
def regime (m : Machine El2Reg) : Stage1.Regime :=
  ⟨m.sys .sctlrEl2, m.sys .tcrEl2, m.sys .ttbr0El2⟩

/-- The tables, as the linker places them: on pages of their own, and not
where the routine writes its marker. -/
structure Tables (l1 l2 marker : U64) : Prop where
  l1_page : l1.toNat % 4096 = 0
  l2_page : l2.toNat % 4096 = 0
  l1_lt : l1.toNat < 2 ^ 48
  l2_lt : l2.toNat < 2 ^ 48
  ne : l1 ≠ l2
  marker_l1 : marker.toNat / 4096 ≠ l1.toNat / 4096
  marker_l2 : marker.toNat / 4096 ≠ l2.toNat / 4096

/-! ### The routine in three blocks -/

/-- The registers and tables before the loop. -/
def prologue (l1 l2 : U64) (m : Machine El2Reg) : Machine El2Reg :=
  { m with
    x := setAll m.x [(0, 0xFF), (0, 0x80823520), (1, l1), (2, l2), (3, 0x401),
      (3, 0x401 ||| 1 <<< 10), (3, l2 ||| 3), (3, 0x80000701), (3, 0x80000701 ||| 1 <<< 10),
      (3, 0xC0000701), (3, 0xC0000701 ||| 1 <<< 10), (3, 0x40000781), (3, 0x0040000040200781),
      (3, 0x0040000040400701), (4, 0x200000), (5, 510), (6, l2 + 16)]
    sys := setAll m.sys [(.mairEl2, 0xFF), (.tcrEl2, 0x80823520)]
    mem := setAll m.mem [(l1 + 0, 0x401 ||| 1 <<< 10), (l1 + 8, l2 ||| 3),
      (l1 + 16, 0x80000701 ||| 1 <<< 10), (l1 + 24, 0xC0000701 ||| 1 <<< 10),
      (l2 + 0, 0x40000781), (l2 + 8, 0x0040000040200781)] }

theorem run_prologue (l1 l2 : U64) (m : Machine El2Reg) (z : Bool) :
    Routine.run (mmuEl2Init l1 l2) 26 ⟨m, z, 0⟩ = some ⟨prologue l1 l2 m, z, 26⟩ := rfl

/-- What the loop has written after so many turns: descriptors from `d` on
at doublewords from `p` on. -/
def filled (p d : U64) (n : ℕ) : List (U64 × U64) :=
  (List.range n).map fun i => (p + BitVec.ofNat 64 (8 * i), d + BitVec.ofNat 64 i * 0x200000)

/-- The core with `k` turns of the loop to go, when it was entered with the
machine `m`. -/
structure Filling (p d : U64) (m : Machine El2Reg) (k : ℕ) (c : Core El2Reg) : Prop where
  le : k ≤ 510
  pc : c.pc = if k = 0 then 30 else 26
  sys : c.cpu.sys = m.sys
  mem : c.cpu.mem = setAll m.mem (filled p d (510 - k))
  desc : c.cpu.x 3 = d + BitVec.ofNat 64 (510 - k) * 0x200000
  stride : c.cpu.x 4 = 0x200000
  count : c.cpu.x 5 = BitVec.ofNat 64 k
  cursor : c.cpu.x 6 = p + BitVec.ofNat 64 (8 * (510 - k))
  others : ∀ r, r ≠ 3 → r ≠ 5 → r ≠ 6 → c.cpu.x r = m.x r

theorem filled_succ (p d : U64) (n : ℕ) : filled p d (n + 1) = filled p d n ++
    [(p + BitVec.ofNat 64 (8 * n), d + BitVec.ofNat 64 n * 0x200000)] := by
  rw [filled, List.range_succ, List.map_append]
  rfl

/-- One turn of the loop. -/
theorem run_turn (l1 l2 : U64) (m : Machine El2Reg) (z : Bool) :
    Routine.run (mmuEl2Init l1 l2) 4 ⟨m, z, 26⟩ = some
      { cpu := { m with
          x := setAll m.x [(6, m.x 6 + 8), (3, m.x 3 + m.x 4), (5, m.x 5 - 1)]
          mem := Function.update m.mem (m.x 6) (m.x 3) }
        z := decide (m.x 5 - 1 = 0)
        pc := if decide (m.x 5 - 1 = 0) then 30 else 26 } := rfl

/-- A count above zero, less one. -/
theorem count_sub_one {k : ℕ} (hk : k ≤ 509) :
    BitVec.ofNat 64 (k + 1) - 1 = BitVec.ofNat 64 k ∧ (BitVec.ofNat 64 k = 0 ↔ k = 0) := by
  refine ⟨by bv_omega, fun h => ?_, fun h => by rw [h]; rfl⟩
  bv_omega

/-- **A turn of the loop writes the next entry and counts down.** -/
theorem Filling.turn {l1 l2 p d : U64} {m : Machine El2Reg} {k : ℕ} {c : Core El2Reg}
    (h : Filling p d m (k + 1) c) :
    ∃ c', Reaches (mmuEl2Init l1 l2) c c' ∧ Filling p d m k c' := by
  obtain ⟨cpu, z, pc⟩ := c
  have hpc : pc = 26 := h.pc
  have hk : k ≤ 509 := by have := h.le; omega
  have hdone : 510 - k = 510 - (k + 1) + 1 := by omega
  subst hpc
  refine ⟨_, Routine.reaches_of_run (run_turn l1 l2 cpu z), ?_⟩
  obtain ⟨hcount, hzero⟩ := count_sub_one hk
  have h5 : cpu.x 5 - 1 = BitVec.ofNat 64 k := by rw [h.count, hcount]
  refine ⟨by omega, ?_, h.sys, ?_, ?_, h.stride, h5, ?_, ?_⟩
  · simp only [h5, hzero, decide_eq_true_eq]
  · change Function.update cpu.mem (cpu.x 6) (cpu.x 3) = _
    rw [h.mem, h.cursor, h.desc, hdone, filled_succ, setAll_append]
    rfl
  · change cpu.x 3 + cpu.x 4 = _
    rw [h.desc, h.stride, hdone, BitVec.ofNat_add, BitVec.add_mul, BitVec.add_assoc]
    rfl
  · change cpu.x 6 + 8 = _
    rw [h.cursor, hdone, Nat.mul_add, BitVec.ofNat_add, BitVec.add_assoc]
    rfl
  · intro r h3 h5 h6
    refine (setAll_of_notMem ?_ cpu.x).trans (h.others r h3 h5 h6)
    simp [h3.symm, h5.symm, h6.symm]

/-- The state after the loop. -/
def epilogue (m : Machine El2Reg) : Machine El2Reg :=
  let a := m.x 20
  { m with
    x := setAll m.x [(0, m.sys .sctlrEl2), (0, 0x4D), (1, 0x100D), (0, 0x4D ||| 0x100D)]
    sys := setAll m.sys [(.ttbr0El2, m.x 1), (.sctlrEl2, 0x4D ||| 0x100D)]
    mem := Function.update m.mem (Routine.cell a)
      (Routine.putByte (m.mem (Routine.cell a)) (a.toNat % 8) 0x4D) }

theorem run_epilogue (l1 l2 : U64) (m : Machine El2Reg) (z : Bool) :
    Routine.run (mmuEl2Init l1 l2) 10 ⟨m, z, 30⟩ = some ⟨epilogue m, z, 40⟩ := rfl

/-- The entries of the first table. -/
def l1Entry (l2 : U64) : ℕ → U64
  | 0 => 0x401
  | 1 => l2 ||| 3
  | 2 => 0x80000701
  | _ => 0xC0000701

/-- The entries of the second. -/
def l2Entry : ℕ → U64
  | 0 => 0x40000781
  | 1 => 0x0040000040200781
  | k + 2 => 0x0040000040400701 + BitVec.ofNat 64 k * 0x200000

/-- The entries with their places. -/
def entries (l1 l2 : U64) : List (U64 × U64) :=
  (List.range 4).map (fun i => (l1 + BitVec.ofNat 64 (8 * i), l1Entry l2 i)) ++
    (List.range 512).map fun k => (l2 + BitVec.ofNat 64 (8 * k), l2Entry k)

/-- What the routine writes are the entries, in order. -/
theorem entries_eq (l1 l2 : U64) : entries l1 l2 =
    [(l1 + 0, 0x401), (l1 + 8, l2 ||| 3), (l1 + 16, 0x80000701), (l1 + 24, 0xC0000701),
      (l2 + 0, 0x40000781), (l2 + 8, 0x0040000040200781)] ++
      filled (l2 + 16) 0x0040000040400701 510 := by
  have hrange : List.range 512 = [0, 1] ++ (List.range 510).map (2 + ·) :=
    List.range_add (n := 2) (m := 510)
  have hfill : ((List.range 510).map (2 + ·)).map
      (fun k => (l2 + BitVec.ofNat 64 (8 * k), l2Entry k)) =
      filled (l2 + 16) 0x0040000040400701 510 := by
    rw [filled, List.map_map]
    refine List.map_congr_left fun i _ => ?_
    rw [Function.comp_apply, Nat.mul_add, BitVec.ofNat_add, ← BitVec.add_assoc, Nat.add_comm 2 i]
    rfl
  rw [entries, hrange, List.map_append, hfill]
  rfl

/-- **What the routine leaves behind.** -/
structure Initialised (l1 l2 : U64) (m m' : Machine El2Reg) : Prop where
  tcr : m'.sys .tcrEl2 = 0x80823520
  ttbr : m'.sys .ttbr0El2 = l1
  sctlr : m'.sys .sctlrEl2 = 0x104D
  mem : ∀ a, a ≠ Routine.cell (m.x 20) → m'.mem a = setAll m.mem (entries l1 l2) a

/-- **The routine returns**, its loop included. -/
theorem mmuEl2Init_returns (l1 l2 : U64) (m : Machine El2Reg) (z : Bool) :
    ∃ m', Returns (mmuEl2Init l1 l2) m z m' ∧ Initialised l1 l2 m m' := by
  have hstart : Filling (l2 + 16) 0x0040000040400701 (prologue l1 l2 m) 510
      ⟨prologue l1 l2 m, z, 26⟩ :=
    ⟨Nat.le_refl _, rfl, rfl, rfl, rfl, rfl, rfl, (BitVec.add_zero _).symm, fun _ _ _ _ => rfl⟩
  obtain ⟨⟨f, z', pc⟩, hloop, hf⟩ :=
    Routine.reaches_countdown (fun k c => @Filling.turn l1 l2 _ _ _ k c) hstart
  have hpc : pc = 30 := hf.pc
  subst hpc
  have h20 : f.x 20 = m.x 20 := hf.others 20 (by decide) (by decide) (by decide)
  have h1 : f.x 1 = l1 := hf.others 1 (by decide) (by decide) (by decide)
  refine ⟨epilogue f, ⟨z', ?_⟩, ?_, h1, rfl, ?_⟩
  · refine (Routine.reaches_of_run (run_prologue l1 l2 m z)).trans (hloop.trans ?_)
    exact Routine.reaches_of_run (run_epilogue l1 l2 f z')
  · change f.sys .tcrEl2 = _
    rw [show f.sys = (prologue l1 l2 m).sys from hf.sys]
    rfl
  · intro a ha
    have hmem : f.mem = setAll (prologue l1 l2 m).mem (filled (l2 + 16) 0x0040000040400701 510) :=
      hf.mem
    rw [entries_eq, setAll_append]
    change Function.update f.mem (Routine.cell (f.x 20)) _ a = _
    rw [Function.update_of_ne (h20 ▸ ha), hmem]
    rfl

/-! ### The tables it leaves -/

theorem toNat_add_of_page {b : U64} (hb : b.toNat % 4096 = 0) {o : ℕ} (ho : o < 4096) :
    (b + BitVec.ofNat 64 o).toNat = b.toNat + o := by
  have hlt := b.isLt
  rw [BitVec.toNat_add, BitVec.toNat_ofNat]
  omega

section Entries

variable {l1 l2 marker : U64}

/-- The places of a table, as numbers. -/
theorem toNat_places {b : U64} (hb : b.toNat % 4096 = 0) {n : ℕ} (hn : n ≤ 512) (f : ℕ → U64) :
    (((List.range n).map fun i => (b + BitVec.ofNat 64 (8 * i), f i)).map Prod.fst).map
      BitVec.toNat = (List.range n).map (b.toNat + 8 * ·) := by
  rw [List.map_map, List.map_map]
  refine List.map_congr_left fun i hi => toNat_add_of_page hb ?_
  have := List.mem_range.mp hi
  omega

/-- No place is written twice. -/
theorem nodup_places (h : Tables l1 l2 marker) : ((entries l1 l2).map Prod.fst).Nodup := by
  have hnum : ((entries l1 l2).map Prod.fst).map BitVec.toNat =
      (List.range 4).map (l1.toNat + 8 * ·) ++ (List.range 512).map (l2.toNat + 8 * ·) := by
    rw [entries, List.map_append, List.map_append, toNat_places h.l1_page (by decide),
      toNat_places h.l2_page (by decide)]
  refine List.Nodup.of_map BitVec.toNat (hnum ▸ List.Nodup.append ?_ ?_ ?_)
  · exact List.nodup_range.map fun i j hij => by omega
  · exact List.nodup_range.map fun i j hij => by omega
  · -- the two tables are different pages
    intro a ha hb
    obtain ⟨i, hi, rfl⟩ := List.mem_map.mp ha
    obtain ⟨k, hk, hik⟩ := List.mem_map.mp hb
    have hi := List.mem_range.mp hi
    have hk := List.mem_range.mp hk
    have hne : l1.toNat ≠ l2.toNat := fun heq => h.ne (BitVec.eq_of_toNat_eq heq)
    have h1 := h.l1_page
    have h2 := h.l2_page
    change l2.toNat + 8 * k = l1.toNat + 8 * i at hik
    omega

/-- A place in a table is not where the marker goes. -/
theorem ne_cell {b : U64} (hb : b.toNat % 4096 = 0) (hm : marker.toNat / 4096 ≠ b.toNat / 4096)
    {o : ℕ} (ho : o < 4096) : b + BitVec.ofNat 64 o ≠ Routine.cell marker := by
  intro heq
  have hval := congrArg BitVec.toNat heq
  have hcell : (Routine.cell marker).toNat = marker.toNat / 8 * 8 :=
    Word.toNat_clearLow marker (k := 3) (by decide)
  rw [toNat_add_of_page hb ho, hcell] at hval
  omega

variable {m m' : Machine El2Reg}

theorem Initialised.l1_entry (hi : Initialised l1 l2 m m') (h : Tables l1 l2 (m.x 20)) {i : ℕ}
    (hlt : i < 4) : m'.mem (l1 + BitVec.ofNat 64 (8 * i)) = l1Entry l2 i := by
  rw [hi.mem _ (ne_cell h.l1_page h.marker_l1 (by omega))]
  refine setAll_of_mem (nodup_places h) (List.mem_append_left _ ?_) _
  exact List.mem_map.mpr ⟨i, List.mem_range.mpr hlt, rfl⟩

theorem Initialised.l2_entry (hi : Initialised l1 l2 m m') (h : Tables l1 l2 (m.x 20)) {k : ℕ}
    (hlt : k < 512) : m'.mem (l2 + BitVec.ofNat 64 (8 * k)) = l2Entry k := by
  rw [hi.mem _ (ne_cell h.l2_page h.marker_l2 (by omega))]
  refine setAll_of_mem (nodup_places h) (List.mem_append_right _ ?_) _
  exact List.mem_map.mpr ⟨k, List.mem_range.mpr hlt, rfl⟩

end Entries

/-! ### The map -/

/-- **The hypervisor's address space**: the first four gigabytes onto
themselves, with the first two blocks of the hypervisor's gigabyte read
only and all of it but the first block not executable. -/
def el2Map (va : U64) : Option Stage1.Mapping :=
  if 2 ^ 32 ≤ va.toNat then none
  else some {
    pa := va
    readOnly := decide (0x40000000 ≤ va.toNat ∧ va.toNat < 0x40400000)
    executeNever := decide (0x40200000 ≤ va.toNat ∧ va.toNat < 0x80000000)
    attr := 0 }

/-- **A block ends the walk** as `el2Map` says, if its descriptor does,
read off as a number. -/
theorem descend_eq_el2Map {R : Stage1.Regime} {mem : U64 → U64} {fuel level : ℕ}
    {base va d : U64} (s : ℕ) (hR : R.sctlr.getLsbD 19 = false) (hlevel : level = 1 ∨ level = 2)
    (hs : Stage1.levelShift level = s) (hd : mem (Stage1.entry level base va) = d)
    (hva : va.toNat < 2 ^ 32) (hvalid : d.toNat % 4 = 1)
    (hflags : d.toNat / 2 ^ 10 % 2 = 1 ∧ d.toNat / 2 ^ 2 % 2 ^ 3 = 0)
    (hro : d.toNat / 2 ^ 7 % 2 = 1 ↔ 0x40000000 ≤ va.toNat ∧ va.toNat < 0x40400000)
    (hxn : d.toNat / 2 ^ 54 % 2 = 1 ↔ 0x40200000 ≤ va.toNat ∧ va.toNat < 0x80000000)
    (hpa : d.toNat % 2 ^ 48 / 2 ^ 12 * 2 ^ 12 / 2 ^ s * 2 ^ s + va.toNat % 2 ^ s = va.toNat) :
    Stage1.descend R mem (fuel + 1) level false false base va = el2Map va := by
  have hbit := Stage1.getLsbD_eq_decide d
  have h0 : d.getLsbD 0 = true := (hbit 0).trans (decide_eq_true (by omega))
  have h1 : d.getLsbD 1 = false := (hbit 1).trans (decide_eq_false (by omega))
  have hattr : (d >>> 2) &&& 7 = 0 := by
    apply BitVec.eq_of_toNat_eq
    exact (Word.toNat_field d 2 (k := 3) (by decide)).trans hflags.2
  have hself : BitVec.ofNat 64 va.toNat = va := by rw [BitVec.ofNat_toNat, BitVec.setWidth_eq]
  rw [Stage1.descend_block hlevel (hd ▸ h0) (hd ▸ h1), hd, el2Map, if_neg (by omega)]
  simp only [Stage1.leaf, hbit, hflags.1, hR, hattr, hs, Stage1.toNat_tableBase, hpa, hself, hro,
    hxn, decide_true, if_true, Bool.or_false, Bool.false_and]

/-- The blocks of the second table as numbers: their address, the fixed
low bits, and the two protection bits. -/
theorem toNat_l2Entry {k : ℕ} (hk : k < 512) : ∃ ro xn,
    (l2Entry k).toNat = 0x40000000 + k * 0x200000 + 0x701 + ro * 2 ^ 7 + xn * 2 ^ 54 ∧
      (ro = 1 ∧ k < 2 ∨ ro = 0 ∧ 2 ≤ k) ∧ (xn = 0 ∧ k = 0 ∨ xn = 1 ∧ 0 < k) := by
  match k with
  | 0 => exact ⟨1, 0, by decide⟩
  | 1 => exact ⟨1, 1, by decide⟩
  | k + 2 =>
    refine ⟨0, 1, ?_, by omega, by omega⟩
    have hmul : (BitVec.ofNat 64 k * 0x200000 : U64).toNat = k * 0x200000 := by
      rw [BitVec.toNat_mul, BitVec.toNat_ofNat]
      change k % 2 ^ 64 * 0x200000 % 2 ^ 64 = _
      omega
    rw [l2Entry, BitVec.toNat_add, hmul]
    change (0x0040000040400701 + k * 0x200000) % 2 ^ 64 = _
    omega

/-- The blocks of the first. -/
theorem toNat_l1Entry (l2 : U64) {q : ℕ} (hq : q < 4) (hne : q ≠ 1) :
    (l1Entry l2 q).toNat = q * 2 ^ 30 + 0x401 + min q 1 * 0x300 := by
  match q with
  | 0 => rfl
  | 1 => exact absurd rfl hne
  | 2 => rfl
  | 3 => rfl

section Map

variable {l1 l2 : U64} {m m' : Machine El2Reg}

/-- The level 2 table, as the descriptor points to it. -/
theorem table_descriptor (h2 : l2.toNat % 4096 = 0) (hlt : l2.toNat < 2 ^ 48) :
    (l2 ||| 3).getLsbD 0 = true ∧ (l2 ||| 3).getLsbD 1 = true ∧ (l2 ||| 3).getLsbD 62 = false ∧
      (l2 ||| 3).getLsbD 60 = false ∧ Stage1.tableBase (l2 ||| 3) = l2 := by
  have hnat : (l2 ||| 3).toNat = l2.toNat + 3 :=
    Word.toNat_or_of_lt (i := 12) (by omega) (by decide)
  have hbase : Stage1.tableBase (l2 ||| 3) = l2 := by
    apply BitVec.eq_of_toNat_eq
    rw [Stage1.toNat_tableBase, hnat]
    omega
  simp only [Stage1.getLsbD_eq_decide, hnat, hbase, decide_eq_true_eq, decide_eq_false_iff_not,
    and_true]
  omega

/-- **The tables map the address space as `el2Map` says.** -/
theorem Initialised.translate (hi : Initialised l1 l2 m m') (h : Tables l1 l2 (m.x 20)) (va : U64) :
    Stage1.translate (regime m') m'.mem va = el2Map va := by
  have hsctlr : (regime m').sctlr = 0x104D := hi.sctlr
  have hwxn : (regime m').sctlr.getLsbD 19 = false := by rw [hsctlr]; rfl
  have hbits : Stage1.addressBits (regime m') = 32 := by
    rw [Stage1.addressBits, show (regime m').tcr = 0x80823520 from hi.tcr]
    rfl
  have hstart : Stage1.startLevel (regime m') = 1 := by rw [Stage1.startLevel, hbits]
  have hbase : Stage1.tableBase (regime m').ttbr = l1 := by
    rw [show (regime m').ttbr = l1 from hi.ttbr]
    exact Stage1.tableBase_eq_self h.l1_lt h.l1_page
  rw [Stage1.translate, if_neg (by rw [hsctlr]; decide), hbits, hstart, hbase]
  by_cases hlarge : 2 ^ 32 ≤ va.toNat
  · rw [if_pos hlarge, el2Map, if_pos hlarge]
  · rw [if_neg hlarge]
    have hq : va.toNat / 2 ^ 30 < 4 := by omega
    have hmem : m'.mem (Stage1.entry 1 l1 va) = l1Entry l2 (va.toNat / 2 ^ 30) := by
      rw [← hi.l1_entry h hq]
      change m'.mem (l1 + BitVec.ofNat 64 (8 * (va.toNat / 2 ^ 30 % 512))) = _
      rw [Nat.mod_eq_of_lt (by omega)]
    by_cases hone : va.toNat / 2 ^ 30 = 1
    · -- the hypervisor's gigabyte goes on to the second table
      rw [hone] at hmem
      obtain ⟨b0, b1, b62, b60, hnext⟩ := table_descriptor h.l2_page h.l2_lt
      have hmem : m'.mem (Stage1.entry 1 l1 va) = l2 ||| 3 := hmem
      rw [Stage1.descend_table (by decide) (by rw [hmem, b0]) (by rw [hmem, b1]), hmem, b62, b60,
        hnext]
      have hk : va.toNat / 2 ^ 21 % 512 < 512 := Nat.mod_lt _ (by decide)
      have hmem2 : m'.mem (Stage1.entry 2 l2 va) = l2Entry (va.toNat / 2 ^ 21 % 512) :=
        hi.l2_entry h hk
      obtain ⟨ro, xn, hd, hro, hxn⟩ := toNat_l2Entry hk
      generalize l2Entry (va.toNat / 2 ^ 21 % 512) = d at hmem2 hd
      exact descend_eq_el2Map 21 hwxn (.inr rfl) rfl hmem2 (by omega) (by omega) (by omega)
        (by omega) (by omega) (by omega)
    · have hd := toNat_l1Entry l2 hq hone
      generalize l1Entry l2 (va.toNat / 2 ^ 30) = d at hmem hd
      exact descend_eq_el2Map 30 hwxn (.inl rfl) rfl hmem (by omega) (by omega) (by omega)
        (by omega) (by omega) (by omega)

/-- **`mmu_el2_init` sets up the hypervisor's address space.** From every
state it returns, and then every address translates as `el2Map` says. -/
theorem el2_map_established (m : Machine El2Reg) (z : Bool) (h : Tables l1 l2 (m.x 20)) :
    ∃ m', Returns (mmuEl2Init l1 l2) m z m' ∧
      ∀ va, Stage1.translate (regime m') m'.mem va = el2Map va := by
  obtain ⟨m', hreturns, hi⟩ := mmuEl2Init_returns l1 l2 m z
  exact ⟨m', hreturns, hi.translate h⟩

/-- A machine at reset, with the console's data register in `x20`. -/
def resetMachine : Machine El2Reg :=
  ⟨Function.update (fun _ => 0) 20 0x09000000, 0, fun _ => 0, fun _ => 0⟩

theorem el2_map_established_reset :
    ∃ m', Returns (mmuEl2Init 0x40400000 0x40401000) resetMachine false m' ∧
      ∀ va, Stage1.translate (regime m') m'.mem va = el2Map va :=
  el2_map_established resetMachine false
    ⟨by decide, by decide, by decide, by decide, by decide, by decide, by decide⟩

end Map

end Arch

end HypervisorBase
