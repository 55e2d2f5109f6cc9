import Mathlib.Logic.Function.Basic
import Mathlib.Data.List.Nodup
import HypervisorBase.Common.Word
import HypervisorBase.Common.Run
/-!
# Straight-line code of a load-store machine

General registers, a stack pointer, system registers of some type `R`,
and a memory of doublewords. Every access is to an aligned doubleword, so
the memory is a function of the address and two accesses meet only where
their addresses agree. Code is a list of instructions; its one branch goes
to a loop that never ends, and a run that takes it has no result.

Code that moves a register file to memory and back is a table of
registers and offsets in disguise. `run_storeCode`, `run_loadCode`,
`run_saveCode` and `run_restoreCode` give the effect of such code as one
bulk assignment, and the lemmas on `spill` and `fill` read it cell by
cell.
-/

namespace HypervisorBase

/-! ### Bulk assignment -/

section Bulk

variable {ι β : Type*} [DecidableEq ι]

/-- The assignments of a list, made in order. -/
def setAll (f : ι → β) : List (ι × β) → ι → β
  | [] => f
  | p :: l => setAll (Function.update f p.1 p.2) l

@[simp] theorem setAll_nil (f : ι → β) : setAll f [] = f := rfl

@[simp] theorem setAll_cons (f : ι → β) (p : ι × β) (l : List (ι × β)) :
    setAll f (p :: l) = setAll (Function.update f p.1 p.2) l := rfl

theorem setAll_append (f : ι → β) (l l' : List (ι × β)) :
    setAll f (l ++ l') = setAll (setAll f l) l' := by
  induction l generalizing f with
  | nil => rfl
  | cons p l ih => exact ih _

/-- **What no assignment names is kept.** -/
theorem setAll_of_notMem {i : ι} {l : List (ι × β)} (h : ∀ p ∈ l, p.1 ≠ i) (f : ι → β) :
    setAll f l i = f i := by
  induction l generalizing f with
  | nil => rfl
  | cons p l ih =>
    rw [setAll_cons, ih (fun q hq => h q (List.mem_cons_of_mem p hq))]
    exact Function.update_of_ne (h p List.mem_cons_self).symm _ _

/-- **Where every key is assigned once, each gets its value.** -/
theorem setAll_of_mem {i : ι} {v : β} {l : List (ι × β)} (hnd : (l.map Prod.fst).Nodup)
    (h : (i, v) ∈ l) (f : ι → β) : setAll f l i = v := by
  induction l generalizing f with
  | nil => exact absurd h List.not_mem_nil
  | cons p l ih =>
    obtain ⟨hp, hnd⟩ := List.nodup_cons.mp hnd
    rcases List.mem_cons.mp h with rfl | h
    · rw [setAll_cons, setAll_of_notMem, Function.update_self]
      -- the key does not come again, so its first assignment stays
      intro q hq heq
      exact hp (List.mem_map.mpr ⟨q, hq, heq⟩)
    · exact ih hnd h _

end Bulk

/-! ### The machine -/

/-- The registers and the memory. -/
structure Machine (R : Type*) where
  /-- The general registers. -/
  x : ℕ → U64
  /-- The stack pointer. -/
  sp : U64
  /-- The system registers. -/
  sys : R → U64
  /-- The doubleword at each aligned address. -/
  mem : U64 → U64

/-- The base of an address. -/
inductive Base
  | x (n : ℕ)
  | sp
  deriving DecidableEq, Repr

/-- The instructions. A pair access is two single ones. -/
inductive Instr (R : Type*)
  /-- Read a system register into a general one. -/
  | mrs (t : ℕ) (r : R)
  /-- Write a system register from a general one. -/
  | msr (r : R) (t : ℕ)
  | ldr (t : ℕ) (b : Base) (off : U64)
  | str (t : ℕ) (b : Base) (off : U64)
  | subSp (k : U64)
  | addSp (k : U64)
  /-- Load the address of a symbol. -/
  | adr (t : ℕ) (a : U64)
  /-- Branch to a loop that never ends, if the register is zero. -/
  | cbz (t : ℕ)
  /-- A barrier, which changes no register and no memory. -/
  | barrier
  deriving DecidableEq, Repr

/-- A pair stored at two doublewords in a row. -/
def Instr.stp {R : Type*} (t t' : ℕ) (b : Base) (off : U64) : List (Instr R) :=
  [.str t b off, .str t' b (off + 8)]

/-- A pair loaded from two doublewords in a row. The base is never among
the targets. -/
def Instr.ldp {R : Type*} (t t' : ℕ) (b : Base) (off : U64) : List (Instr R) :=
  [.ldr t b off, .ldr t' b (off + 8)]

namespace Machine

variable {R : Type*}

/-- Assign one general register. -/
def setX (m : Machine R) (t : ℕ) (v : U64) : Machine R := { m with x := Function.update m.x t v }

@[simp] theorem setX_x (m : Machine R) (t : ℕ) (v : U64) : (m.setX t v).x t = v := by
  simp [setX]

@[simp] theorem setX_sp (m : Machine R) (t : ℕ) (v : U64) : (m.setX t v).sp = m.sp := rfl

@[simp] theorem setX_sys (m : Machine R) (t : ℕ) (v : U64) : (m.setX t v).sys = m.sys := rfl

@[simp] theorem setX_mem (m : Machine R) (t : ℕ) (v : U64) : (m.setX t v).mem = m.mem := rfl

/-- The value of a base. -/
def base (m : Machine R) : Base → U64
  | .x n => m.x n
  | .sp => m.sp

variable [DecidableEq R]

/-- One instruction. -/
def step (m : Machine R) : Instr R → Option (Machine R)
  | .mrs t r => some (m.setX t (m.sys r))
  | .msr r t => some { m with sys := Function.update m.sys r (m.x t) }
  | .ldr t b off => some (m.setX t (m.mem (m.base b + off)))
  | .str t b off => some { m with mem := Function.update m.mem (m.base b + off) (m.x t) }
  | .subSp k => some { m with sp := m.sp - k }
  | .addSp k => some { m with sp := m.sp + k }
  | .adr t a => some (m.setX t a)
  | .cbz t => if m.x t = 0 then none else some m
  | .barrier => some m

/-- Run a list of instructions. -/
def run (m : Machine R) (code : List (Instr R)) : Option (Machine R) := exec step m code

@[simp] theorem run_nil (m : Machine R) : m.run [] = some m := rfl

@[simp] theorem run_cons (m : Machine R) (i : Instr R) (code : List (Instr R)) :
    m.run (i :: code) = (m.step i).bind fun m' => m'.run code := rfl

theorem run_append (m : Machine R) (code code' : List (Instr R)) :
    m.run (code ++ code') = (m.run code).bind fun m' => m'.run code' :=
  exec_append m code code'

/-- Barriers can be left out of a run. -/
theorem run_filter_barrier (m : Machine R) (code : List (Instr R)) :
    m.run (code.filter (· ≠ .barrier)) = m.run code := by
  induction code generalizing m with
  | nil => rfl
  | cons i code ih =>
    by_cases hi : i = .barrier
    · subst hi
      exact ih m
    · rw [List.filter_cons_of_pos (by simpa using hi), run_cons, run_cons]
      exact congrArg _ (funext ih)

/-! ### Code that follows a table -/

/-- Store the general registers of a table. -/
def storeCode (n : ℕ) (table : List (ℕ × U64)) : List (Instr R) :=
  table.map fun p => .str p.1 (.x n) p.2

/-- Load the general registers of a table. -/
def loadCode (n : ℕ) (table : List (ℕ × U64)) : List (Instr R) :=
  table.map fun p => .ldr p.1 (.x n) p.2

/-- Store the system registers of a table through a scratch register. -/
def saveCode (n s : ℕ) (table : List (R × U64)) : List (Instr R) :=
  table.flatMap fun p => [.mrs s p.1, .str s (.x n) p.2]

/-- Load the system registers of a table through a scratch register. -/
def restoreCode (n s : ℕ) (table : List (R × U64)) : List (Instr R) :=
  table.flatMap fun p => [.ldr s (.x n) p.2, .msr p.1 s]

/-- The assignments to memory that put a register file at the offsets of
a table. -/
def spill {ι : Type*} (b : U64) (f : ι → U64) (table : List (ι × U64)) : List (U64 × U64) :=
  table.map fun p => (b + p.2, f p.1)

/-- The assignments to a register file that take it from the offsets of a
table. -/
def fill {ι : Type*} (b : U64) (mem : U64 → U64) (table : List (ι × U64)) : List (ι × U64) :=
  table.map fun p => (p.1, mem (b + p.2))

section Reading

variable {ι : Type*} {b : U64} {table : List (ι × U64)} {p : ι × U64}

theorem spill_congr {f g : ι → U64} (h : ∀ p ∈ table, f p.1 = g p.1) :
    spill b f table = spill b g table :=
  List.map_congr_left fun p hp => by rw [h p hp]

/-- A spilled register is found in memory. -/
theorem setAll_spill (hnd : (table.map Prod.snd).Nodup) (hp : p ∈ table) (f : ι → U64)
    (mem : U64 → U64) : setAll mem (spill b f table) (b + p.2) = f p.1 := by
  have hmem : (b + p.2, f p.1) ∈ spill b f table := List.mem_map.mpr ⟨p, hp, rfl⟩
  refine setAll_of_mem ?_ hmem mem
  have hkeys : (spill b f table).map Prod.fst = (table.map Prod.snd).map (b + ·) := by
    simp [spill, Function.comp_def]
  rw [hkeys]
  exact hnd.map fun o o' h => (BitVec.add_right_inj b).mp h

theorem setAll_spill_of_ne {a : U64} (h : ∀ p ∈ table, b + p.2 ≠ a) (f : ι → U64)
    (mem : U64 → U64) : setAll mem (spill b f table) a = mem a := by
  refine setAll_of_notMem (fun q hq => ?_) mem
  obtain ⟨p, hp, rfl⟩ := List.mem_map.mp hq
  exact h p hp

theorem setAll_fill [DecidableEq ι] (hnd : (table.map Prod.fst).Nodup) (hp : p ∈ table)
    (mem : U64 → U64) (f : ι → U64) : setAll f (fill b mem table) p.1 = mem (b + p.2) := by
  have hmem : (p.1, mem (b + p.2)) ∈ fill b mem table := List.mem_map.mpr ⟨p, hp, rfl⟩
  refine setAll_of_mem ?_ hmem f
  have hkeys : (fill b mem table).map Prod.fst = table.map Prod.fst := by
    simp [fill, Function.comp_def]
  rwa [hkeys]

theorem setAll_fill_of_ne [DecidableEq ι] {i : ι} (h : ∀ p ∈ table, p.1 ≠ i)
    (mem : U64 → U64) (f : ι → U64) : setAll f (fill b mem table) i = f i := by
  refine setAll_of_notMem (fun q hq => ?_) f
  obtain ⟨p, hp, rfl⟩ := List.mem_map.mp hq
  exact h p hp

end Reading

/-- A block of stores is the writes of its table. -/
theorem run_storeCode (m : Machine R) (n : ℕ) (table : List (ℕ × U64)) :
    m.run (storeCode n table) =
      some { m with mem := setAll m.mem (spill (m.x n) m.x table) } := by
  induction table generalizing m with
  | nil => rfl
  | cons p table ih => exact ih { m with mem := Function.update m.mem (m.x n + p.2) (m.x p.1) }

/-- **Loads through a base they do not overwrite are one bulk
assignment.** -/
theorem run_loadCode (m : Machine R) {n : ℕ} {table : List (ℕ × U64)}
    (hn : ∀ p ∈ table, p.1 ≠ n) :
    m.run (loadCode n table) = some { m with x := setAll m.x (fill (m.x n) m.mem table) } := by
  induction table generalizing m with
  | nil => rfl
  | cons p table ih =>
    have hbase : (m.setX p.1 (m.mem (m.x n + p.2))).x n = m.x n :=
      Function.update_of_ne (hn p List.mem_cons_self).symm _ _
    have h := ih (m.setX p.1 (m.mem (m.x n + p.2))) (fun q hq => hn q (List.mem_cons_of_mem p hq))
    rw [hbase] at h
    exact h

/-- **Saving system registers writes the table and spoils the scratch
register.** -/
theorem run_saveCode (m : Machine R) {n s : ℕ} (hs : s ≠ n) (table : List (R × U64)) :
    ∃ x', m.run (saveCode n s table) =
        some { m with x := x', mem := setAll m.mem (spill (m.x n) m.sys table) } ∧
      ∀ k ≠ s, x' k = m.x k := by
  induction table generalizing m with
  | nil => exact ⟨m.x, rfl, fun _ _ => rfl⟩
  | cons p table ih =>
    let x₁ := Function.update m.x s (m.sys p.1)
    have hbase : x₁ n = m.x n := Function.update_of_ne hs.symm _ _
    have hval : x₁ s = m.sys p.1 := Function.update_self ..
    let m₁ : Machine R := { m with x := x₁, mem := Function.update m.mem (x₁ n + p.2) (x₁ s) }
    have hstep : m.run (saveCode n s (p :: table)) = m₁.run (saveCode n s table) := rfl
    obtain ⟨x', hrun, hx'⟩ := ih m₁
    refine ⟨x', ?_, fun k hk => (hx' k hk).trans (Function.update_of_ne hk _ _)⟩
    rw [hstep, hrun]
    simp only [m₁, hbase, hval]
    rfl

/-- **Restoring system registers assigns the table and spoils the scratch
register.** -/
theorem run_restoreCode (m : Machine R) {n s : ℕ} (hs : s ≠ n) (table : List (R × U64)) :
    ∃ x', m.run (restoreCode n s table) =
        some { m with x := x', sys := setAll m.sys (fill (m.x n) m.mem table) } ∧
      ∀ k ≠ s, x' k = m.x k := by
  induction table generalizing m with
  | nil => exact ⟨m.x, rfl, fun _ _ => rfl⟩
  | cons p table ih =>
    let x₁ := Function.update m.x s (m.mem (m.x n + p.2))
    have hbase : x₁ n = m.x n := Function.update_of_ne hs.symm _ _
    have hval : x₁ s = m.mem (m.x n + p.2) := Function.update_self ..
    let m₁ : Machine R := { m with x := x₁, sys := Function.update m.sys p.1 (x₁ s) }
    have hstep : m.run (restoreCode n s (p :: table)) = m₁.run (restoreCode n s table) := rfl
    obtain ⟨x', hrun, hx'⟩ := ih m₁
    refine ⟨x', ?_, fun k hk => (hx' k hk).trans (Function.update_of_ne hk _ _)⟩
    rw [hstep, hrun]
    simp only [m₁, hbase, hval]
    rfl

end Machine

end HypervisorBase
