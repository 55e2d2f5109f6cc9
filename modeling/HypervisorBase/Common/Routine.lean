import Mathlib.Logic.Relation
import HypervisorBase.Common.Machine
/-!
# Routines of a load-store machine, with loops

The straight-line instructions of `Machine` together with arithmetic, a
zero flag and a conditional branch. Code is a list and the next
instruction an index into it, so a loop is a branch to a smaller index;
returning leaves the code at its end. An instruction is fetched without a
check of its address: that the code may run where it lies is for the user
to say.

`reaches_of_run` turns the evaluation of a block into a step of an
argument about the whole routine, and `reaches_countdown` is the rule for
a loop that counts down: what one turn does to the invariant, the loop
does to all of them.
-/

namespace HypervisorBase

namespace Routine

/-- The instructions. -/
inductive Op (R : Type*)
  /-- A straight-line instruction of the machine. -/
  | plain (i : Instr R)
  /-- Load a constant. -/
  | mov (t : ℕ) (v : U64)
  | orr (t n m : ℕ)
  | orrImm (t n : ℕ) (v : U64)
  | add (t n m : ℕ)
  | addImm (t n : ℕ) (v : U64)
  /-- Store a doubleword, then move the base. -/
  | strPost (t n : ℕ) (k : U64)
  /-- Store the low byte. -/
  | strb (t n : ℕ)
  /-- Subtract and set the zero flag. -/
  | subs (t n : ℕ) (v : U64)
  /-- Branch unless the zero flag is set. -/
  | bne (target : ℕ)
  | ret
  deriving DecidableEq, Repr

/-- The machine, its zero flag, and the index of the next instruction. -/
structure Core (R : Type*) where
  cpu : Machine R
  z : Bool
  pc : ℕ

/-- A byte put in its place in a doubleword. -/
def putByte (w : U64) (lane : ℕ) (b : U64) : U64 :=
  (w &&& ~~~((0xFF : U64) <<< (8 * lane))) ||| ((b &&& 0xFF) <<< (8 * lane))

/-- The aligned doubleword an address lies in. -/
def cell (a : U64) : U64 := a &&& ~~~7

section Step

variable {R : Type*} [DecidableEq R]

/-- What one instruction does to the core. -/
def Op.apply (length : ℕ) (c : Core R) : Op R → Option (Core R)
  | .plain i => (c.cpu.step i).map fun m => { c with cpu := m, pc := c.pc + 1 }
  | .mov t v => some { c with cpu := c.cpu.setX t v, pc := c.pc + 1 }
  | .orr t n m => some { c with cpu := c.cpu.setX t (c.cpu.x n ||| c.cpu.x m), pc := c.pc + 1 }
  | .orrImm t n v => some { c with cpu := c.cpu.setX t (c.cpu.x n ||| v), pc := c.pc + 1 }
  | .add t n m => some { c with cpu := c.cpu.setX t (c.cpu.x n + c.cpu.x m), pc := c.pc + 1 }
  | .addImm t n v => some { c with cpu := c.cpu.setX t (c.cpu.x n + v), pc := c.pc + 1 }
  | .strPost t n k =>
    let m := { c.cpu with mem := Function.update c.cpu.mem (c.cpu.x n) (c.cpu.x t) }
    some { c with cpu := m.setX n (c.cpu.x n + k), pc := c.pc + 1 }
  | .strb t n =>
    let a := c.cpu.x n
    let w := putByte (c.cpu.mem (cell a)) (a.toNat % 8) (c.cpu.x t)
    some { c with
      cpu := { c.cpu with mem := Function.update c.cpu.mem (cell a) w }
      pc := c.pc + 1 }
  | .subs t n v =>
    some { cpu := c.cpu.setX t (c.cpu.x n - v), z := c.cpu.x n - v = 0, pc := c.pc + 1 }
  | .bne target => some { c with pc := if c.z then c.pc + 1 else target }
  | .ret => some { c with pc := length }

/-- One step of a routine; past its end there is none. -/
def next (code : List (Op R)) (c : Core R) : Option (Core R) :=
  (code[c.pc]?).bind (Op.apply code.length c)

/-- The steps of a routine. -/
def Reaches (code : List (Op R)) : Core R → Core R → Prop :=
  Relation.ReflTransGen fun c c' => next code c = some c'

/-- **A routine entered with one machine returns with another.** -/
def Returns (code : List (Op R)) (m : Machine R) (z : Bool) (m' : Machine R) : Prop :=
  ∃ z', Reaches code ⟨m, z, 0⟩ ⟨m', z', code.length⟩

/-- So many steps. -/
def run (code : List (Op R)) : ℕ → Core R → Option (Core R)
  | 0, c => some c
  | n + 1, c => (next code c).bind (run code n)

variable {code : List (Op R)} {c c' : Core R}

theorem reaches_of_run {n : ℕ} (h : run code n c = some c') : Reaches code c c' := by
  induction n generalizing c with
  | zero =>
    rw [← Option.some.inj h]
    exact .refl
  | succ n ih =>
    obtain ⟨d, hd, hrun⟩ := Option.bind_eq_some_iff.mp h
    exact .head hd (ih hrun)

/-- **A loop that counts down.** If one turn takes `Inv (k + 1)` to
`Inv k`, the loop takes `Inv n` to `Inv 0`. -/
theorem reaches_countdown {Inv : ℕ → Core R → Prop}
    (hturn : ∀ k c, Inv (k + 1) c → ∃ c', Reaches code c c' ∧ Inv k c') {n : ℕ}
    (hc : Inv n c) : ∃ c', Reaches code c c' ∧ Inv 0 c' := by
  induction n generalizing c with
  | zero => exact ⟨c, .refl, hc⟩
  | succ n ih =>
    obtain ⟨d, hreach, hd⟩ := hturn n c hc
    obtain ⟨e, hrest, he⟩ := ih hd
    exact ⟨e, hreach.trans hrest, he⟩

end Step

end Routine

end HypervisorBase
