import Mathlib.Data.List.Induction
import HypervisorBase.Arch.Model
/-!
# What a switch keeps of the vCPU it leaves

Each of the four pieces of assembly follows a table, so its effect is one
bulk assignment. Together they give `Switched`, which says all a switch
does: the old vCPU's registers are in its context, every other context is
as it was, and the new vCPU's registers come out of its own.

While a vCPU is away its context is in memory and nobody writes there,
which is carried along the chain by `Away`. What it gets back is then a
matter of comparing the save table with the restore table. Every register
with a field is in both, at one offset, except three: `ESR_EL1` and
`FAR_EL1` are stored and never loaded, and `PAR_EL1` is neither. Those
three come back as the last vCPU left them.
-/

namespace HypervisorBase

namespace Arch

open Machine

/-! ### The tables -/

/-- A register of either kind. -/
def file (m : Cpu) : ℕ ⊕ SysReg → U64 := Sum.elim m.x m.sys

/-- The general registers at their places in `guest_regs_t`. -/
def xTable (first count : ℕ) : List (ℕ × U64) :=
  (List.range' first count).map fun n => (n, BitVec.ofNat 64 (8 * n))

/-- The registers `SAVE_GUEST_REGS` stores through its scratch register. -/
def savedState : List (SysReg × U64) := [(.spEl1, 248), (.elrEl2, 256), (.spsrEl2, 264)]

/-- The fields of `guest_regs_t`. -/
def guestRegs : List ((ℕ ⊕ SysReg) × U64) :=
  (xTable 0 31).map (Prod.map .inl id) ++ savedState.map (Prod.map .inr id)

/-- The registers `RESTORE_GUEST_REGS` loads through its scratch register. -/
def returnState : List (SysReg × U64) := [(.elrEl2, 256), (.spsrEl2, 264), (.spEl1, 248)]

/-- The registers `vcpu_save_sysregs` stores. -/
def savedSysregs : List (SysReg × U64) := el1Sysregs.filter fun p => p.1 ≠ .parEl1

/-- The registers `vcpu_restore_sysregs` loads. -/
def restoredSysregs : List (SysReg × U64) :=
  [(.mairEl1, 0x20), (.amairEl1, 0x28), (.tcrEl1, 0x18), (.ttbr0El1, 0x08), (.ttbr1El1, 0x10),
   (.vbarEl1, 0x30), (.spEl1, 0x38), (.elrEl1, 0x40), (.spsrEl1, 0x48), (.tpidrEl0, 0x60),
   (.tpidrEl1, 0x68), (.tpidrroEl0, 0x70), (.cpacrEl1, 0x78), (.cntkctlEl1, 0x80),
   (.contextidrEl1, 0x88), (.cntvCtlEl0, 0x98), (.cntvCvalEl0, 0xA0), (.ichLr0, 0xA8),
   (.sctlrEl1, 0x00)]

theorem vcpuSaveSysregs_eq :
    vcpuSaveSysregs.filter (· ≠ .barrier) = saveCode 0 1 savedSysregs := by
  decide +kernel

theorem vcpuRestoreSysregs_eq :
    vcpuRestoreSysregs.filter (· ≠ .barrier) = restoreCode 0 1 restoredSysregs := by
  decide +kernel

/-- The pair popped from the stack into its place. -/
def popGuestPair : List (Instr SysReg) :=
  [.ldr 14 .sp 0, .ldr 15 .sp 8, .str 14 (.x 16) 128, .str 15 (.x 16) 136, .addSp 16]

theorem storeGuestRegs_eq : storeGuestRegs =
    storeCode 16 (xTable 0 16) ++
      (popGuestPair ++ (storeCode 16 (xTable 18 13) ++ saveCode 16 17 savedState)) := by
  decide +kernel

theorem loadGuestRegs_eq : loadGuestRegs =
    loadCode 16 (xTable 0 16 ++ xTable 18 13) ++
      (restoreCode 16 17 returnState ++ [.ldr 17 (.x 16) 136, .ldr 16 (.x 16) 128]) := by
  decide +kernel

/-! ### The four pieces -/

theorem run_vcpuSaveSysregs (m : Cpu) : ∃ x', m.run vcpuSaveSysregs =
    some { m with x := x', mem := setAll m.mem (spill (m.x 0) m.sys savedSysregs) } := by
  obtain ⟨x', hrun, -⟩ := run_saveCode m (n := 0) (s := 1) (by decide) savedSysregs
  rw [← vcpuSaveSysregs_eq, run_filter_barrier] at hrun
  exact ⟨x', hrun⟩

theorem run_vcpuRestoreSysregs (m : Cpu) : ∃ x', m.run vcpuRestoreSysregs =
    some { m with x := x', sys := setAll m.sys (fill (m.x 0) m.mem restoredSysregs) } := by
  obtain ⟨x', hrun, -⟩ := run_restoreCode m (n := 0) (s := 1) (by decide) restoredSysregs
  rw [← vcpuRestoreSysregs_eq, run_filter_barrier] at hrun
  exact ⟨x', hrun⟩

theorem run_loadCurrentVcpu {m : Cpu} {current b : U64} (hb : m.mem current = b) (hb0 : b ≠ 0) :
    m.run (loadCurrentVcpu current) = some (m.setX 16 b) := by
  simpa [loadCurrentVcpu, step, setX, base, hb] using hb0

theorem run_pushGuestPair (m : Cpu) : m.run pushGuestPair = some { m with
    sp := m.sp - 16
    mem := Function.update (Function.update m.mem (m.sp - 16) (m.x 16)) (m.sp - 16 + 8)
      (m.x 17) } := by
  simp [pushGuestPair, Instr.stp, step, base]

theorem run_popGuestPair (m : Cpu) : m.run popGuestPair = some { m with
    x := Function.update (Function.update m.x 14 (m.mem m.sp)) 15 (m.mem (m.sp + 8))
    sp := m.sp + 16
    mem := Function.update (Function.update m.mem (m.x 16 + 128) (m.mem m.sp)) (m.x 16 + 136)
      (m.mem (m.sp + 8)) } := by
  simp [popGuestPair, step, setX, base]

/-- The words a full save writes, part by part. -/
theorem spill_guestRegs (b : U64) (m : Cpu) : spill b (file m) guestRegs =
    spill b m.x (xTable 0 16) ++ ([(b + 128, m.x 16), (b + 136, m.x 17)] ++
      (spill b m.x (xTable 18 13) ++ spill b m.sys savedState)) := by
  have htable : xTable 0 31 = xTable 0 16 ++ ([(16, 128), (17, 136)] ++ xTable 18 13) := by
    decide +kernel
  simp [guestRegs, htable, spill, file, Function.comp_def]

/-- **The stores of the entry code put a guest's registers in their
places**, where the guest's `x16` and `x17` are on the stack and all its
others still in the CPU. -/
theorem run_storeGuestRegs {m g : Cpu} (hx : ∀ n ≠ 16, m.x n = g.x n) (hsys : m.sys = g.sys)
    (h16 : m.mem m.sp = g.x 16) (h17 : m.mem (m.sp + 8) = g.x 17)
    (hsp : ∀ p ∈ xTable 0 16, m.x 16 + p.2 ≠ m.sp ∧ m.x 16 + p.2 ≠ m.sp + 8) :
    ∃ x', m.run storeGuestRegs = some { m with
      x := x', sp := m.sp + 16, mem := setAll m.mem (spill (m.x 16) (file g) guestRegs) } := by
  have hlow : spill (m.x 16) m.x (xTable 0 16) = spill (m.x 16) g.x (xTable 0 16) :=
    spill_congr fun p hp => hx p.1 (by revert p; decide)
  -- the first stores miss the stack, so the pair is still there
  have hpop16 : setAll m.mem (spill (m.x 16) g.x (xTable 0 16)) m.sp = g.x 16 :=
    (setAll_spill_of_ne (fun p hp => (hsp p hp).1) _ _).trans h16
  have hpop17 : setAll m.mem (spill (m.x 16) g.x (xTable 0 16)) (m.sp + 8) = g.x 17 :=
    (setAll_spill_of_ne (fun p hp => (hsp p hp).2) _ _).trans h17
  let x₁ := Function.update (Function.update m.x 14 (g.x 16)) 15 (g.x 17)
  have hx₁ : ∀ n, n ≠ 14 → n ≠ 15 → x₁ n = m.x n := fun n h14 h15 =>
    (Function.update_of_ne h15 _ _).trans (Function.update_of_ne h14 _ _)
  have hbase : x₁ 16 = m.x 16 := hx₁ 16 (by decide) (by decide)
  have hhigh : spill (m.x 16) x₁ (xTable 18 13) = spill (m.x 16) g.x (xTable 18 13) := by
    refine spill_congr fun p hp => ?_
    have hp : p.1 ≠ 14 ∧ p.1 ≠ 15 ∧ p.1 ≠ 16 := by revert p; decide
    rw [hx₁ _ hp.1 hp.2.1, hx _ hp.2.2]
  let mem₁ := setAll (setAll (setAll m.mem (spill (m.x 16) g.x (xTable 0 16)))
    [(m.x 16 + 128, g.x 16), (m.x 16 + 136, g.x 17)]) (spill (x₁ 16) x₁ (xTable 18 13))
  have hmem₁ : setAll mem₁ (spill (x₁ 16) m.sys savedState) =
      setAll m.mem (spill (m.x 16) (file g) guestRegs) := by
    simp only [mem₁]
    rw [hbase, hhigh, hsys, spill_guestRegs, setAll_append, setAll_append, setAll_append]
  obtain ⟨x', hrun, -⟩ := run_saveCode (Machine.mk x₁ (m.sp + 16) m.sys mem₁)
    (n := 16) (s := 17) (by decide) savedState
  refine ⟨x', ?_⟩
  rw [storeGuestRegs_eq, run_append, run_storeCode, Option.bind_some, run_append,
    run_popGuestPair, Option.bind_some, run_append, run_storeCode, Option.bind_some]
  simp only [hlow, hpop16, hpop17]
  rw [← hmem₁]
  exact hrun

/-- **The loads of the exit code take every general register from its
place**, `x16` and `x17` last. -/
theorem run_loadGuestRegs (m : Cpu) : ∃ x', m.run loadGuestRegs = some { m with
      x := x', sys := setAll m.sys (fill (m.x 16) m.mem returnState) } ∧
    ∀ p ∈ xTable 0 31, x' p.1 = m.mem (m.x 16 + p.2) := by
  have hnd : ((xTable 0 16 ++ xTable 18 13).map Prod.fst).Nodup := by decide
  have hbase : ∀ p ∈ xTable 0 16 ++ xTable 18 13, p.1 ≠ 16 := by decide
  have hsplit : ∀ p ∈ xTable 0 31, p ∈ xTable 0 16 ++ xTable 18 13 ∧ p.1 ≠ 16 ∧ p.1 ≠ 17 ∨
      p = (16, 128) ∨ p = (17, 136) := by decide +kernel
  let x₁ := setAll m.x (fill (m.x 16) m.mem (xTable 0 16 ++ xTable 18 13))
  have hx₁ : x₁ 16 = m.x 16 := setAll_fill_of_ne hbase _ _
  obtain ⟨x₂, hrun, hx₂⟩ := run_restoreCode (Machine.mk x₁ m.sp m.sys m.mem)
    (n := 16) (s := 17) (by decide) returnState
  have hx₂16 : x₂ 16 = m.x 16 := (hx₂ 16 (by decide)).trans hx₁
  refine ⟨Function.update (Function.update x₂ 17 (m.mem (m.x 16 + 136))) 16
    (m.mem (m.x 16 + 128)), ?_, ?_⟩
  · rw [loadGuestRegs_eq, run_append, run_loadCode m hbase, Option.bind_some, run_append, hrun,
      Option.bind_some]
    simp [step, setX, base, hx₂16, hx₁]
  · intro p hp
    rcases hsplit p hp with ⟨hmem, h16, h17⟩ | rfl | rfl
    · rw [Function.update_of_ne h16, Function.update_of_ne h17, hx₂ _ h17]
      exact setAll_fill hnd hmem _ _
    · exact Function.update_self ..
    · rw [Function.update_of_ne (by decide)]
      exact Function.update_self ..

/-! ### A whole switch -/

section Switch

variable {V : Type*} {L : Layout V} {v w : V} {m m' : Cpu}

/-- The context of a vCPU in memory is the register file of `g`. -/
structure Saved (L : Layout V) (v : V) (mem : U64 → U64) (g : Cpu) : Prop where
  guest : ∀ p ∈ guestRegs, mem (L.vcpu v + p.2) = file g p.1
  sysregs : ∀ p ∈ savedSysregs, mem (L.vcpu v + (sysregsOffset + p.2)) = g.sys p.1

/-- Two memories agree on the context of a vCPU. -/
def SameAt (L : Layout V) (v : V) (mem mem' : U64 → U64) : Prop :=
  ∀ o < contextSize, mem' (L.vcpu v + o) = mem (L.vcpu v + o)

theorem guestRegs_nodup : (guestRegs.map Prod.snd).Nodup := by decide

theorem guestRegs_lt : ∀ p ∈ guestRegs, p.2 < contextSize := by decide

theorem savedSysregs_lt : ∀ p ∈ savedSysregs, sysregsOffset + p.2 < contextSize := by decide

theorem Saved.of_sameAt {mem mem' : U64 → U64} (h : Saved L v mem m) (hsame : SameAt L v mem mem') :
    Saved L v mem' m where
  guest p hp := (hsame _ (guestRegs_lt p hp)).trans (h.guest p hp)
  sysregs p hp := (hsame _ (savedSysregs_lt p hp)).trans (h.sysregs p hp)

/-- What `SAVE_GUEST_REGS` does for the vCPU that trapped. -/
structure Entered (L : Layout V) (v : V) (m m' : Cpu) : Prop where
  trapped : Trapped L v m'
  sys : m'.sys = m.sys
  guest : ∀ p ∈ guestRegs, m'.mem (L.vcpu v + p.2) = file m p.1
  others : ∀ u ≠ v, SameAt L u m.mem m'.mem

/-- **Entry**: the interrupted context is saved whole. -/
theorem saveGuestRegs_entered (h : Trapped L v m) :
    ∃ m', m.run (saveGuestRegs L.current) = some m' ∧ Entered L v m m' := by
  have hslot : L.stack - 16 + 8 = L.stack - 8 := by bv_omega
  have hslots : L.stack - 16 ≠ L.stack - 8 := by bv_omega
  let mem₁ := Function.update (Function.update m.mem (L.stack - 16) (m.x 16)) (L.stack - 8) (m.x 17)
  have hmem₁ : ∀ a, a ≠ L.stack - 16 → a ≠ L.stack - 8 → mem₁ a = m.mem a := fun a h16 h8 =>
    (Function.update_of_ne h8 _ _).trans (Function.update_of_ne h16 _ _)
  have hcur : mem₁ L.current = L.vcpu v :=
    (hmem₁ _ L.stack_current.1.symm L.stack_current.2.symm).trans h.current
  let m₁ : Cpu := ⟨Function.update m.x 16 (L.vcpu v), L.stack - 16, m.sys, mem₁⟩
  have hbase : m₁.x 16 = L.vcpu v := by simp [m₁]
  have hlow : ∀ p ∈ xTable 0 16, p.2 < contextSize := by decide
  obtain ⟨x', hrun⟩ := run_storeGuestRegs (m := m₁) (g := m)
    (fun n hn => Function.update_of_ne hn _ _) rfl
    ((Function.update_of_ne hslots _ _).trans (Function.update_self ..))
    ((congrArg mem₁ hslot).trans (Function.update_self ..))
    (fun p hp => by rw [hbase, show m₁.sp + 8 = L.stack - 8 from hslot]
                    exact L.stack_apart v (hlow p hp))
  have hsp : L.stack - 16 + 16 = L.stack := by bv_omega
  rw [hbase] at hrun
  refine ⟨⟨x', L.stack - 16 + 16, m.sys, setAll mem₁ (spill (L.vcpu v) (file m) guestRegs)⟩, ?_,
    ⟨?_, hsp⟩, rfl, fun p hp => ?_, fun u hu o ho => ?_⟩
  · rw [saveGuestRegs, run_append, run_pushGuestPair, Option.bind_some, run_append, h.stack, hslot,
      run_loadCurrentVcpu hcur (L.vcpu_ne_zero v), Option.bind_some]
    exact hrun
  · have hmiss : ∀ p ∈ guestRegs, L.vcpu v + p.2 ≠ L.current := fun p hp =>
      L.current_apart v (guestRegs_lt p hp)
    exact (setAll_spill_of_ne hmiss (file m) mem₁).trans hcur
  · exact setAll_spill guestRegs_nodup hp (file m) mem₁
  · have hmiss : ∀ p ∈ guestRegs, L.vcpu v + p.2 ≠ L.vcpu u + o := fun p hp =>
      L.vcpu_apart hu.symm (guestRegs_lt p hp) ho
    exact (setAll_spill_of_ne hmiss (file m) mem₁).trans
      (hmem₁ _ (L.stack_apart u ho).1 (L.stack_apart u ho).2)

/-- What `vcpu_do_switch` does to the contexts and the system registers. -/
structure Exchanged (L : Layout V) (v w : V) (m m' : Cpu) : Prop where
  trapped : m.sp = L.stack → Trapped L w m'
  saved : ∀ p ∈ savedSysregs, m'.mem (L.vcpu v + (sysregsOffset + p.2)) = m.sys p.1
  guest : ∀ p ∈ guestRegs, m'.mem (L.vcpu v + p.2) = m.mem (L.vcpu v + p.2)
  others : ∀ u ≠ v, SameAt L u m.mem m'.mem
  loaded : ∀ p ∈ restoredSysregs, m'.sys p.1 = m'.mem (L.vcpu w + (sysregsOffset + p.2))
  rest : ∀ r, (∀ p ∈ restoredSysregs, p.1 ≠ r) → r ≠ .vttbrEl2 → m'.sys r = m.sys r

theorem restoredSysregs_lt : ∀ p ∈ restoredSysregs, sysregsOffset + p.2 < contextSize := by decide

/-- **The switch** saves one system state and loads the other. -/
theorem vcpuDoSwitch_exchanged (j : Scratch) (v w : V) (m : Cpu) :
    ∃ m', vcpuDoSwitch L j (some v) (some w) m = some m' ∧ Exchanged L v w m m' := by
  have hapart : ∀ p ∈ guestRegs, ∀ q ∈ savedSysregs, sysregsOffset + q.2 ≠ p.2 := by decide
  have hvttbr : ∀ p ∈ restoredSysregs, p.1 ≠ .vttbrEl2 := by decide
  have hsaved : (savedSysregs.map Prod.snd).Nodup := by decide
  have hrestored : (restoredSysregs.map Prod.fst).Nodup := by decide
  let mem₁ := setAll m.mem (spill (L.vcpu v + sysregsOffset) m.sys savedSysregs)
  let sys₁ := setAll m.sys (fill (L.vcpu w + sysregsOffset) mem₁ restoredSysregs)
  obtain ⟨x₁, hsave⟩ : ∃ x₁, (m.setX 0 (L.vcpu v + sysregsOffset)).run vcpuSaveSysregs =
      some ⟨x₁, m.sp, m.sys, mem₁⟩ := run_vcpuSaveSysregs _
  obtain ⟨x₂, hrestore⟩ : ∃ x₂, Machine.run
      ((Machine.mk j.between m.sp m.sys mem₁).setX 0 (L.vcpu w + sysregsOffset))
      vcpuRestoreSysregs = some ⟨x₂, m.sp, sys₁, mem₁⟩ := run_vcpuRestoreSysregs _
  let m' : Cpu := ⟨x₂, m.sp, Function.update sys₁ .vttbrEl2 (mem₁ (L.vcpu w + vttbrOffset)),
    Function.update mem₁ L.current (L.vcpu w)⟩
  have hmem' : ∀ u, SameAt L u mem₁ m'.mem := fun u o ho =>
    Function.update_of_ne (L.current_apart u ho) _ _
  have hsys' : ∀ r, r ≠ .vttbrEl2 → m'.sys r = sys₁ r := fun r hr => Function.update_of_ne hr _ _
  refine ⟨m', ?_, fun hsp => ⟨Function.update_self _ _ mem₁, hsp⟩, fun p hp => ?_, fun p hp => ?_,
    fun u hu o ho => ?_, fun p hp => ?_, fun r hr hrv => ?_⟩
  · simp only [vcpuDoSwitch, hsave, hrestore, Option.bind_eq_bind, Option.bind_some]
    rfl
  · rw [hmem' v _ (savedSysregs_lt p hp), ← BitVec.add_assoc]
    exact setAll_spill hsaved hp m.sys m.mem
  · rw [hmem' v _ (guestRegs_lt p hp)]
    refine setAll_spill_of_ne (fun q hq heq => hapart p hp q hq ?_) _ _
    rw [BitVec.add_assoc] at heq
    exact (BitVec.add_right_inj _).mp heq
  · rw [hmem' u _ ho]
    refine setAll_spill_of_ne (fun q hq => ?_) _ _
    rw [BitVec.add_assoc]
    exact L.vcpu_apart hu.symm (savedSysregs_lt q hq) ho
  · rw [hsys' _ (hvttbr p hp), hmem' w _ (restoredSysregs_lt p hp), ← BitVec.add_assoc]
    exact setAll_fill hrestored hp mem₁ m.sys
  · rw [hsys' r hrv]
    exact setAll_fill_of_ne hr _ _

/-- `RESTORE_GUEST_REGS` loads from the current vCPU. -/
theorem run_restoreGuestRegs (h : Trapped L w m) : ∃ x', m.run (restoreGuestRegs L.current) =
      some { m with x := x', sys := setAll m.sys (fill (L.vcpu w) m.mem returnState) } ∧
    ∀ p ∈ xTable 0 31, x' p.1 = m.mem (L.vcpu w + p.2) := by
  obtain ⟨x', hrun, hx'⟩ := run_loadGuestRegs (m.setX 16 (L.vcpu w))
  simp only [setX_x, setX_sp, setX_sys, setX_mem] at hrun hx'
  refine ⟨x', ?_, hx'⟩
  rw [restoreGuestRegs, run_append, run_loadCurrentVcpu h.current (L.vcpu_ne_zero w),
    Option.bind_some, hrun]

/-- **All that a switch does.** -/
structure Switched (L : Layout V) (v w : V) (m m' : Cpu) : Prop where
  trapped : Trapped L w m'
  saved : Saved L v m'.mem m
  others : ∀ u ≠ v, SameAt L u m.mem m'.mem
  x : ∀ p ∈ xTable 0 31, m'.x p.1 = m'.mem (L.vcpu w + p.2)
  state : ∀ p ∈ returnState, m'.sys p.1 = m'.mem (L.vcpu w + p.2)
  sysregs : ∀ p ∈ restoredSysregs, p.1 ≠ .spEl1 →
    m'.sys p.1 = m'.mem (L.vcpu w + (sysregsOffset + p.2))
  rest : ∀ r, (∀ p ∈ returnState, p.1 ≠ r) → (∀ p ∈ restoredSysregs, p.1 ≠ r) →
    r ≠ .vttbrEl2 → m'.sys r = m.sys r

/-- **A whole switch**, from the trap of one guest to the return to the
other. -/
theorem switchTo_switched (h : Trapped L v m) (j : Scratch) (w : V) :
    ∃ m', switchTo L j v w m = some m' ∧ Switched L v w m m' := by
  have hstate : ∀ p ∈ restoredSysregs, p.1 ≠ .spEl1 → ∀ q ∈ returnState, q.1 ≠ p.1 := by decide
  have hnd : (returnState.map Prod.fst).Nodup := by decide
  obtain ⟨m₁, hrun₁, h₁⟩ := saveGuestRegs_entered h
  obtain ⟨m₂, hrun₂, h₂⟩ := vcpuDoSwitch_exchanged (L := L) j v w { m₁ with x := j.handler }
  have htrap₂ := h₂.trapped h₁.trapped.stack
  obtain ⟨x', hrun₃, hx'⟩ := run_restoreGuestRegs (m := { m₂ with x := j.back })
    ⟨htrap₂.current, htrap₂.stack⟩
  refine ⟨⟨x', m₂.sp, setAll m₂.sys (fill (L.vcpu w) m₂.mem returnState), m₂.mem⟩, ?_,
    ⟨htrap₂.current, htrap₂.stack⟩, ⟨fun p hp => ?_, fun p hp => ?_⟩, fun u hu o ho => ?_, hx',
    fun p hp => ?_, fun p hp hsp => ?_, fun r hr hr' hv => ?_⟩
  · rw [switchTo, hrun₁, Option.bind_eq_bind, Option.bind_some, hrun₂, Option.bind_some,
      hrun₃]
  · exact (h₂.guest p hp).trans (h₁.guest p hp)
  · exact (h₂.saved p hp).trans (congrFun h₁.sys p.1)
  · exact (h₂.others u hu o ho).trans (h₁.others u hu o ho)
  · exact setAll_fill hnd hp m₂.mem m₂.sys
  · exact (setAll_fill_of_ne (hstate p hp hsp) m₂.mem m₂.sys).trans (h₂.loaded p hp)
  · exact (setAll_fill_of_ne hr m₂.mem m₂.sys).trans
      ((h₂.rest r hr' hv).trans (congrFun h₁.sys r))

/-! ### A vCPU that is away -/

/-- A vCPU is away: another is in the CPU, and its own registers are in its
context. -/
structure Away (L : Layout V) (a : V) (g : Cpu) (s : V × Cpu) : Prop where
  ne : s.1 ≠ a
  trapped : Trapped L s.1 s.2
  saved : Saved L a s.2.mem g

variable {a : V} {g : Cpu} {s : V × Cpu} {t : Turn V}

/-- A turn keeps the registers the next vCPU leaves. -/
theorem turn_eq (hrun : switchTo L t.scratch s.1 t.next s.2 = some m) :
    turn L s t = some (t.next, { m with x := t.x, sys := t.sys }) := by
  rw [turn, hrun, Option.map_some]

theorem turn_leaves (h : Trapped L a m) (hne : t.next ≠ a) :
    ∃ s', turn L (a, m) t = some s' ∧ Away L a m s' ∧ s'.2.sys = t.sys := by
  obtain ⟨m', hrun, hsw⟩ := switchTo_switched h t.scratch t.next
  exact ⟨_, turn_eq hrun, ⟨hne, ⟨hsw.trapped.current, hsw.trapped.stack⟩,
    hsw.saved⟩, rfl⟩

/-- **A turn of the others does not reach the context of a vCPU that is
away.** -/
theorem turn_away (h : Away L a g s) (hne : t.next ≠ a) :
    ∃ s', turn L s t = some s' ∧ Away L a g s' ∧ s'.2.sys = t.sys := by
  obtain ⟨m', hrun, hsw⟩ := switchTo_switched h.trapped t.scratch t.next
  exact ⟨_, turn_eq hrun, ⟨hne, ⟨hsw.trapped.current, hsw.trapped.stack⟩,
    h.saved.of_sameAt (hsw.others a h.ne.symm)⟩, rfl⟩

/-- **Nor does any chain of them**, and the system registers are those the
last of them left. -/
theorem chain_away (h : Trapped L a m) (ts : List (Turn V)) (hts : ts ≠ [])
    (hne : ∀ u ∈ ts, u.next ≠ a) : ∃ s', exec (turn L) (a, m) ts = some s' ∧ Away L a m s' ∧
      s'.2.sys = (ts.getLast hts).sys := by
  -- induction from the right: the last turn decides the registers
  induction ts using List.reverseRecOn with
  | nil => exact absurd rfl hts
  | append_singleton ts t ih =>
    have hlast : t.next ≠ a := hne t (by simp)
    rw [List.getLast_append_singleton]
    by_cases hnil : ts = []
    · subst hnil
      obtain ⟨s', hrun, haway⟩ := turn_leaves h hlast
      refine ⟨s', ?_, haway⟩
      rw [List.nil_append, exec_cons, hrun, Option.bind_some, exec_nil]
    · obtain ⟨s₁, hrun₁, haway, -⟩ := ih hnil fun u hu => hne u (List.mem_append_left _ hu)
      obtain ⟨s', hrun, haway'⟩ := turn_away haway hlast
      refine ⟨s', ?_, haway'⟩
      rw [exec_append, hrun₁, Option.bind_some, exec_cons, hrun, Option.bind_some, exec_nil]

/-! ### Coming back -/

/-- The registers with a field that `vcpu_restore_sysregs` does not load. -/
def unrestored : List SysReg := [.esrEl1, .farEl1, .parEl1]

/-- **A vCPU gets back its whole context if and only if the three registers
that are not loaded happen to hold it.** -/
theorem sameContext_iff {m' : Cpu} (h : Away L a g s) (hsw : Switched L s.1 a s.2 m') :
    SameContext g m' ↔ ∀ r ∈ unrestored, s.2.sys r = g.sys r := by
  have hback : Saved L a m'.mem g := h.saved.of_sameAt (hsw.others a h.ne.symm)
  have hkept : ∀ r ∈ unrestored, m'.sys r = s.2.sys r := fun r hr =>
    hsw.rest r (by revert r; decide) (by revert r; decide) (by revert r; decide)
  constructor
  · intro hsame r hr
    have hfield : ∀ r ∈ unrestored, ∃ p ∈ el1Sysregs, p.1 = r := by decide
    obtain ⟨p, hp, rfl⟩ := hfield r hr
    rw [← hkept _ hr]
    exact hsame.sysregs p hp
  · intro hlost
    have hstate : ∀ p ∈ returnState, m'.sys p.1 = g.sys p.1 := by
      intro p hp
      have hstored : ∀ p ∈ returnState, p ∈ savedState := by decide
      exact (hsw.state p hp).trans (hback.guest (.inr p.1, p.2)
        (List.mem_append_right _ (List.mem_map.mpr ⟨p, hstored p hp, rfl⟩)))
    refine ⟨fun n hn => ?_, hstate (.spEl1, 248) (by decide), hstate (.elrEl2, 256) (by decide),
      hstate (.spsrEl2, 264) (by decide), fun p hp => ?_⟩
    · have hx : (n, BitVec.ofNat 64 (8 * n)) ∈ xTable 0 31 :=
        List.mem_map.mpr ⟨n, List.mem_range'_1.mpr ⟨by omega, by omega⟩, rfl⟩
      exact (hsw.x _ hx).trans (hback.guest (.inl n, _)
        (List.mem_append_left _ (List.mem_map.mpr ⟨_, hx, rfl⟩)))
    · -- a field is loaded from where it was stored, or is one of the three
      have hfields : ∀ p ∈ el1Sysregs, p.1 = .spEl1 ∨ p.1 ∈ unrestored ∨
          p ∈ restoredSysregs ∧ p.1 ≠ .spEl1 ∧ p ∈ savedSysregs := by decide +kernel
      rcases hfields p hp with hsp | hlost' | ⟨hrest, hsp, hsaved⟩
      · rw [hsp]
        exact hstate (.spEl1, 248) (by decide)
      · exact (hkept _ hlost').trans (hlost _ hlost')
      · exact (hsw.sysregs p hrest hsp).trans (hback.sysregs p hsaved)

/-- **A chain of switches away from a vCPU and back gives it its context
if and only if the last vCPU of the chain left `ESR_EL1`, `FAR_EL1` and
`PAR_EL1` as they were.** All the others may do to their registers is
arbitrary. -/
theorem context_returns_iff (h : Trapped L a m) (ts : List (Turn V)) (hts : ts ≠ [])
    (hne : ∀ u ∈ ts, u.next ≠ a) (j : Scratch) :
    ∃ b mb m', exec (turn L) (a, m) ts = some (b, mb) ∧ switchTo L j b a mb = some m' ∧
      (SameContext m m' ↔ ∀ r ∈ unrestored, (ts.getLast hts).sys r = m.sys r) := by
  obtain ⟨⟨b, mb⟩, hchain, haway, hsys⟩ := chain_away h ts hts hne
  obtain ⟨m', hrun, hsw⟩ := switchTo_switched haway.trapped j a
  refine ⟨b, mb, m', hchain, hrun, ?_⟩
  rw [← hsys]
  exact sameContext_iff haway hsw

end Switch

/-! ### Two vCPUs -/

/-- Two `vcpu_t` a page apart. -/
def pairVcpu : Bool → U64
  | false => 0x40200000
  | true => 0x40201000

/-- Two contexts, a pointer and a stack in the hypervisor's image. -/
def pairLayout : Layout Bool where
  vcpu := pairVcpu
  current := 0x40210000
  stack := 0x40220000
  vcpu_ne_zero v := by cases v <;> decide
  vcpu_apart {v w o o'} hne ho ho' := by
    simp only [contextSize] at ho ho'
    cases v <;> cases w <;> simp only [pairVcpu] <;> first | exact absurd rfl hne | bv_omega
  current_apart v o ho := by
    simp only [contextSize] at ho
    cases v <;> simp only [pairVcpu] <;> bv_omega
  stack_apart v o ho := by
    simp only [contextSize] at ho
    cases v <;> simp only [pairVcpu] <;> constructor <;> bv_omega
  stack_current := by decide

/-- The first vCPU has trapped with every register zero. -/
def trappedCpu : Cpu where
  x _ := 0
  sp := pairLayout.stack
  sys _ := 0
  mem a := if a = pairLayout.current then pairLayout.vcpu false else 0

theorem trapped_trappedCpu : Trapped pairLayout false trappedCpu := ⟨rfl, rfl⟩

/-- C code that leaves zeros. -/
def zeroScratch : Scratch := ⟨fun _ => 0, fun _ => 0, fun _ => 0⟩

/-- The second vCPU runs and rewrites the registers. -/
def otherTurn (sys : SysReg → U64) : Turn Bool := ⟨true, zeroScratch, fun _ => 7, sys⟩

theorem context_returns_iff_pair : ∃ b mb m',
    exec (turn pairLayout) (false, trappedCpu)
      [otherTurn fun r => if r ∈ unrestored then 0 else 5] = some (b, mb) ∧
    switchTo pairLayout zeroScratch b false mb = some m' ∧ SameContext trappedCpu m' := by
  obtain ⟨b, mb, m', hchain, hrun, hiff⟩ := context_returns_iff trapped_trappedCpu
    [otherTurn fun r => if r ∈ unrestored then 0 else 5] (by simp) (by simp [otherTurn]) zeroScratch
  refine ⟨b, mb, m', hchain, hrun, hiff.mpr fun r hr => ?_⟩
  exact if_pos hr

/-- **A fault of the other vCPU shows in the first one's `ESR_EL1`.** -/
theorem fault_syndrome_leaks : ∃ b mb m',
    exec (turn pairLayout) (false, trappedCpu)
      [otherTurn fun r => if r = .esrEl1 then 0x96000045 else 0] = some (b, mb) ∧
    switchTo pairLayout zeroScratch b false mb = some m' ∧
    m'.sys .esrEl1 = 0x96000045 ∧ ¬ SameContext trappedCpu m' := by
  obtain ⟨⟨b, mb⟩, hchain, haway, hsys⟩ := chain_away trapped_trappedCpu
    [otherTurn fun r => if r = .esrEl1 then 0x96000045 else 0] (by simp) (by simp [otherTurn])
  obtain ⟨m', hrun, hsw⟩ := switchTo_switched haway.trapped zeroScratch false
  have hesr : mb.sys .esrEl1 = 0x96000045 := congrFun hsys .esrEl1
  have hback : m'.sys .esrEl1 = 0x96000045 :=
    (hsw.rest .esrEl1 (by decide) (by decide) (by decide)).trans hesr
  refine ⟨b, mb, m', hchain, hrun, hback, fun hsame => ?_⟩
  have hzero : m'.sys .esrEl1 = 0 := hsame.sysregs (.esrEl1, 0x50) (by decide)
  exact absurd (hback.symm.trans hzero) (by decide)

end Arch

end HypervisorBase
