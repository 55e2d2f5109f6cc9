import HypervisorBase.Irq.Model
/-!
# The virtual distributor as a table of interrupts

A guest sees the distributor as three files of registers: a bit for each
interrupt to enable it, a bit to disable it, and a byte for its priority.
Behind them stands one table, with an entry for each interrupt.
`vgic_dist_write` and `vgic_dist_read` keep the table in words of 32 bits
and in bytes; here they are shown to be that table.
-/

namespace HypervisorBase

namespace Irq

/-! ## The table -/

/-- **The table**: an entry for each of the `VGIC_MAX_IRQS` interrupts. -/
structure IrqTable where
  enabled : Fin Ipc.vgicMaxIrqs → Bool
  priority : Fin Ipc.vgicMaxIrqs → U8

/-- The software generated interrupts, which cannot be disabled. -/
def IsSgi (n : ℕ) : Prop := n < 16

instance (n : ℕ) : Decidable (IsSgi n) := inferInstanceAs (Decidable (n < 16))

/-- **What a guest may write.** The word of an enable register holds the
interrupts from `32 * word` on, that of a priority register the four from
`first` on. -/
inductive DistWrite where
  | setEnable (word : ℕ) (mask : U32)
  | clearEnable (word : ℕ) (mask : U32)
  | setPriority (first : ℕ) (bytes : U32)
  | other

namespace IrqTable

/-- The table after reset. -/
def reset : IrqTable where
  enabled := fun i => decide (IsSgi i.val)
  priority := fun _ => 0xA0

/-- Whether a mask written to a word names an interrupt. -/
def Named (word : ℕ) (mask : U32) (n : ℕ) : Prop := n / 32 = word ∧ mask.getLsbD (n % 32) = true

instance (word : ℕ) (mask : U32) (n : ℕ) : Decidable (Named word mask n) :=
  inferInstanceAs (Decidable (_ ∧ _))

/-- **A write to the table**: exactly the interrupts it names. -/
def write (t : IrqTable) : DistWrite → IrqTable
  | .setEnable word mask =>
    { t with enabled := fun i => if Named word mask i.val then true else t.enabled i }
  | .clearEnable word mask =>
    { t with enabled := fun i =>
        if Named word mask i.val ∧ ¬ IsSgi i.val then false else t.enabled i }
  | .setPriority first bytes =>
    { t with priority := fun i =>
        if first ≤ i.val ∧ i.val < first + 4 then bytes.extractLsb' (8 * (i.val - first)) 8
        else t.priority i }
  | .other => t

/-- The entry of any number; there is no interrupt beyond the table. -/
def enabledAt (t : IrqTable) (n : ℕ) : Bool :=
  if hn : n < Ipc.vgicMaxIrqs then t.enabled ⟨n, hn⟩ else false

def priorityAt (t : IrqTable) (n : ℕ) : U8 :=
  if hn : n < Ipc.vgicMaxIrqs then t.priority ⟨n, hn⟩ else 0

end IrqTable

/-! ## The register files -/

/-- `GICD_ISENABLER`, `GICD_ICENABLER` and `GICD_IPRIORITYR` as the GIC
lays them out: 32 words of enable bits, twice, and 256 words of
priorities. -/
def DistWrite.at (offset val : U32) : DistWrite :=
  let off := offset.toNat
  if 0x100 ≤ off ∧ off < 0x180 then .setEnable ((off - 0x100) / 4) val
  else if 0x180 ≤ off ∧ off < 0x200 then .clearEnable ((off - 0x180) / 4) val
  else if 0x400 ≤ off ∧ off < 0x800 then .setPriority (off - 0x400) val
  else .other

/-- A write of a guest: the offset, which is a multiple of 4, and the value. -/
structure GuestWrite where
  offset : U32
  val : U32
  aligned : offset.toNat % 4 = 0

def distStep (d : VgicDist) (w : GuestWrite) : VgicDist := (vgicDistWrite d w.offset w.val).2

def tableStep (t : IrqTable) (w : GuestWrite) : IrqTable := t.write (.at w.offset w.val)

/-- **The distributor shows the table** to the rest of the hypervisor and,
in all three register files, to the guest. -/
structure Shows (d : VgicDist) (t : IrqTable) : Prop where
  isEnabled : ∀ irq : U32, irq.toNat < Ipc.vgicMaxIrqs →
    Ipc.vgicIsEnabled d irq = t.enabledAt irq.toNat
  getPriority : ∀ irq : U32, irq.toNat < Ipc.vgicMaxIrqs →
    Ipc.vgicGetPriority d irq = t.priorityAt irq.toNat
  readIsenabler : ∀ offset : U32,
    gicdOffIsenablerBase ≤ offset.toNat → offset.toNat ≤ gicdOffIsenablerEnd → ∀ k < 32,
    (vgicDistRead d offset).getLsbD k = t.enabledAt (32 * ((offset.toNat - 0x100) / 4) + k)
  readIcenabler : ∀ offset : U32,
    gicdOffIcenablerBase ≤ offset.toNat → offset.toNat ≤ gicdOffIcenablerEnd → ∀ k < 32,
    (vgicDistRead d offset).getLsbD k = t.enabledAt (32 * ((offset.toNat - 0x180) / 4) + k)
  readIpriorityr : ∀ offset : U32,
    gicdOffIpriorityBase ≤ offset.toNat → offset.toNat ≤ gicdOffIpriorityEnd → ∀ k < 4,
    (vgicDistRead d offset).extractLsb' (8 * k) 8 = t.priorityAt (offset.toNat - 0x400 + k)

/-! ## The words and the entries -/

/-- **The simulation**: bit `n % 32` of word `n / 32` is the entry of
interrupt `n`, and so is byte `n`. -/
structure Holds (d : VgicDist) (t : IrqTable) : Prop where
  ready : d.initialised = true
  bits : ∀ i : Fin Ipc.vgicMaxIrqs, (d.enable (i.val / 32)).getLsbD (i.val % 32) = t.enabled i
  bytes : ∀ i : Fin Ipc.vgicMaxIrqs, d.priority i.val = t.priority i
  sgis : ∀ i : Fin Ipc.vgicMaxIrqs, IsSgi i.val → t.enabled i = true

variable {d : VgicDist} {t : IrqTable}

theorem Holds.enabledAt (hd : Holds d t) {n : ℕ} (hn : n < Ipc.vgicMaxIrqs) :
    t.enabledAt n = (d.enable (n / 32)).getLsbD (n % 32) := by
  rw [IrqTable.enabledAt, dif_pos hn]
  exact (hd.bits ⟨n, hn⟩).symm

theorem Holds.priorityAt (hd : Holds d t) {n : ℕ} (hn : n < Ipc.vgicMaxIrqs) :
    t.priorityAt n = d.priority n := by
  rw [IrqTable.priorityAt, dif_pos hn]
  exact (hd.bytes ⟨n, hn⟩).symm

/-- The word that is or-ed in after a write to `GICD_ICENABLER`. -/
theorem getLsbD_sgis {k : ℕ} : (0x0000FFFF : U32).getLsbD k = decide (IsSgi k) := by
  have hones : (0x0000FFFF : U32) = BitVec.ofNat 32 (2 ^ 16 - 1) := rfl
  rw [hones, BitVec.getLsbD_ofNat, Nat.testBit_two_pow_sub_one]
  by_cases hk : k < 16
  · have h32 : k < 32 := by omega
    simp [IsSgi, hk, h32]
  · simp [IsSgi, hk]

theorem holds_vgicDistInit : Holds vgicDistInit .reset where
  ready := rfl
  bits := by
    intro i
    have hi : i.val < 256 := i.isLt
    by_cases hw : i.val / 32 = 0
    · have hmod : i.val % 32 = i.val := by omega
      simp only [vgicDistInit, hw, if_true, hmod]
      exact getLsbD_sgis
    · have hsgi : ¬ IsSgi i.val := by
        unfold IsSgi
        omega
      simp [vgicDistInit, IrqTable.reset, hw, hsgi]
  bytes := by
    intro i
    exact if_pos i.isLt
  sgis := by
    intro i hi
    exact decide_eq_true hi

/-! ## What is read -/

/-- **A word of enable bits**, as either register file returns it. -/
theorem getLsbD_enable (hd : Holds d t) (word k : ℕ) (hk : k < 32) :
    (if word < vgicNumWords then d.enable word else 0).getLsbD k = t.enabledAt (32 * word + k) := by
  by_cases hw : word < vgicNumWords
  · have hn : 32 * word + k < Ipc.vgicMaxIrqs := by
      unfold vgicNumWords at hw
      unfold Ipc.vgicMaxIrqs
      omega
    have hdiv : (32 * word + k) / 32 = word := by omega
    have hmod : (32 * word + k) % 32 = k := by omega
    rw [if_pos hw, hd.enabledAt hn, hdiv, hmod]
  · have hn : ¬ 32 * word + k < Ipc.vgicMaxIrqs := by
      unfold vgicNumWords at hw
      unfold Ipc.vgicMaxIrqs
      omega
    rw [if_neg hw, IrqTable.enabledAt, dif_neg hn]
    exact BitVec.getLsbD_zero

/-- The bits a read of `GICD_IPRIORITYR` has put together after `n` bytes. -/
theorem getLsbD_foldl_getPriority (d : VgicDist) (base n j : ℕ) (hj : j < 32) :
    ((List.range n).foldl (getPriority d base) 0).getLsbD j =
      (decide (j / 8 < n ∧ base + j / 8 < Ipc.vgicMaxIrqs) &&
        (d.priority (base + j / 8)).getLsbD (j % 8)) := by
  induction n with
  | zero => simp
  | succ n ih =>
    rw [List.range_succ, List.foldl_append, List.foldl_cons, List.foldl_nil, getPriority]
    split
    case isTrue hb =>
      rw [BitVec.getLsbD_or, ih, BitVec.getLsbD_shiftLeft, BitVec.getLsbD_setWidth]
      rcases Nat.lt_trichotomy (j / 8) n with hlt | heq | hgt
      · have hbelow : j < n * 8 := by omega
        have hsucc : j / 8 < n + 1 := by omega
        simp [hbelow, hlt, hsucc]
      · have habove : ¬ j < n * 8 := by omega
        have hmod : j - n * 8 = j % 8 := by omega
        have hb' : base + j / 8 < Ipc.vgicMaxIrqs := by omega
        simp [heq, habove, hmod, hj, hb, show j % 8 < 32 by omega]
      · have hbeyond : 8 ≤ j - n * 8 := by omega
        rw [BitVec.getLsbD_of_ge _ _ hbeyond]
        simp [show ¬ j / 8 < n by omega, show ¬ j / 8 < n + 1 by omega]
    case isFalse hb =>
      rw [ih]
      by_cases heq : j / 8 = n
      · simp [heq, hb]
      · have hiff : j / 8 < n ↔ j / 8 < n + 1 := by omega
        simp only [hiff]

/-- **A word of priorities.** -/
theorem extractLsb'_getPriority (hd : Holds d t) (base k : ℕ) (hk : k < 4) :
    ((List.range 4).foldl (getPriority d base) 0).extractLsb' (8 * k) 8 = t.priorityAt (base + k) := by
  apply BitVec.eq_of_getLsbD_eq
  intro i hi
  have hdiv : (8 * k + i) / 8 = k := by omega
  have hmod : (8 * k + i) % 8 = i := by omega
  rw [BitVec.getLsbD_extractLsb', getLsbD_foldl_getPriority d base 4 _ (by omega), hdiv, hmod]
  by_cases hn : base + k < Ipc.vgicMaxIrqs
  · simp [hi, hk, hn, hd.priorityAt hn]
  · simp [hn, IrqTable.priorityAt]

/-- **The simulation shows the table.** -/
theorem Holds.shows (hd : Holds d t) : Shows d t where
  isEnabled := by
    intro irq hirq
    simp [Ipc.vgicIsEnabled, hd.ready, Nat.not_le.mpr hirq, hd.enabledAt hirq]
  getPriority := by
    intro irq hirq
    simp [Ipc.vgicGetPriority, hd.ready, Nat.not_le.mpr hirq, hd.priorityAt hirq]
  readIsenabler := by
    intro offset hlo hhi k hk
    simp only [vgicDistRead, hd.ready, Bool.not_true, Bool.false_eq_true, if_false,
      if_pos (And.intro hlo hhi)]
    exact getLsbD_enable hd _ k hk
  readIcenabler := by
    intro offset hlo hhi k hk
    have hnot : ¬ offset.toNat ≤ gicdOffIsenablerEnd := by
      unfold gicdOffIcenablerBase at hlo
      unfold gicdOffIsenablerEnd
      omega
    simp only [vgicDistRead, hd.ready, Bool.not_true, Bool.false_eq_true, if_false, hnot, and_false,
      if_pos (And.intro hlo hhi)]
    exact getLsbD_enable hd _ k hk
  readIpriorityr := by
    intro offset hlo hhi k hk
    have hnot : ¬ offset.toNat ≤ gicdOffIsenablerEnd ∧ ¬ offset.toNat ≤ gicdOffIcenablerEnd := by
      unfold gicdOffIpriorityBase at hlo
      unfold gicdOffIsenablerEnd gicdOffIcenablerEnd
      omega
    simp only [vgicDistRead, hd.ready, Bool.not_true, Bool.false_eq_true, if_false, hnot, and_false,
      if_pos (And.intro hlo hhi)]
    exact extractLsb'_getPriority hd _ k hk

/-! ## What is written -/

/-- A write to an enable register is a write to the table. -/
theorem Holds.setEnable (hd : Holds d t) (word : ℕ) (mask : U32) :
    Holds { d with enable := Function.update d.enable word (d.enable word ||| mask) }
      (t.write (.setEnable word mask)) where
  ready := hd.ready
  bits := by
    intro i
    by_cases hw : i.val / 32 = word
    · simp [IrqTable.write, IrqTable.Named, hw, ← hd.bits i, Bool.or_comm]
    · simp [IrqTable.write, IrqTable.Named, hw, hd.bits i]
  bytes := hd.bytes
  sgis := by
    intro i hi
    simp [IrqTable.write, hd.sgis i hi]

/-- **Clearing keeps the SGIs**: the mask that is or-ed in gives back
exactly the bits of word 0 that the table has kept. -/
theorem Holds.clearEnable (hd : Holds d t) (word : ℕ) (mask : U32) :
    Holds
      (let d := { d with enable := Function.update d.enable word (d.enable word &&& ~~~mask) }
       { d with enable := Function.update d.enable 0 (d.enable 0 ||| 0x0000FFFF) })
      (t.write (.clearEnable word mask)) where
  ready := hd.ready
  bits := by
    intro i
    have hi : i.val < 256 := i.isLt
    have hmod : i.val % 32 < 32 := Nat.mod_lt _ (by omega)
    have hcleared : (Function.update d.enable word (d.enable word &&& ~~~mask)
        (i.val / 32)).getLsbD (i.val % 32) =
          if IrqTable.Named word mask i.val then false else t.enabled i := by
      by_cases hw : i.val / 32 = word
      · simp [IrqTable.Named, hw, ← hd.bits i, hmod, Bool.and_comm]
      · simp [IrqTable.Named, hw, hd.bits i]
    by_cases h0 : i.val / 32 = 0
    · have hself : i.val % 32 = i.val := by omega
      rw [h0, hself] at hcleared
      simp only [IrqTable.write, h0, Function.update_self, BitVec.getLsbD_or, hcleared, getLsbD_sgis, hself]
      by_cases hs : IsSgi i.val
      · simp [hs, hd.sgis i hs]
      · simp [hs]
    · have hs : ¬ IsSgi i.val := by
        unfold IsSgi
        omega
      simp only [IrqTable.write, Function.update_of_ne h0, hcleared, hs, not_false_eq_true, and_true]
  bytes := hd.bytes
  sgis := by
    intro i hi
    simp [IrqTable.write, hi, hd.sgis i hi]

/-- The fields a write of priorities leaves alone. -/
theorem foldl_putPriority_frame (val : U32) (base : ℕ) (bs : List ℕ) (d : VgicDist) :
    (bs.foldl (putPriority val base) d).enable = d.enable ∧
      (bs.foldl (putPriority val base) d).initialised = d.initialised := by
  induction bs generalizing d with
  | nil => exact ⟨rfl, rfl⟩
  | cons b bs ih =>
    have hb : (putPriority val base d b).enable = d.enable ∧
        (putPriority val base d b).initialised = d.initialised := by
      unfold putPriority
      split <;> exact ⟨rfl, rfl⟩
    exact ⟨(ih _).1.trans hb.1, (ih _).2.trans hb.2⟩

theorem setWidth_byte (val : U32) (b : ℕ) :
    (val >>> (b * 8)).setWidth 8 = val.extractLsb' (8 * b) 8 := by
  apply BitVec.eq_of_getLsbD_eq
  intro i hi
  rw [BitVec.getLsbD_setWidth, BitVec.getLsbD_ushiftRight, BitVec.getLsbD_extractLsb', Nat.mul_comm b 8]

theorem foldl_putPriority (val : U32) (base n : ℕ) (d : VgicDist) (i : Fin Ipc.vgicMaxIrqs) :
    ((List.range n).foldl (putPriority val base) d).priority i.val =
      if base ≤ i.val ∧ i.val < base + n then val.extractLsb' (8 * (i.val - base)) 8
      else d.priority i.val := by
  induction n with
  | zero =>
    have hnot : ¬ (base ≤ i.val ∧ i.val < base + 0) := by omega
    rw [if_neg hnot]
    rfl
  | succ n ih =>
    have hi := i.isLt
    rw [List.range_succ, List.foldl_append, List.foldl_cons, List.foldl_nil, putPriority]
    by_cases heq : i.val = base + n
    · have hin : base ≤ i.val ∧ i.val < base + (n + 1) := by omega
      have hsub : i.val - base = n := by omega
      rw [if_pos hin, if_pos (heq ▸ hi), hsub, heq]
      exact (Function.update_self ..).trans (setWidth_byte val n)
    · -- any other interrupt is in the range exactly if it was before
      have hiff : (base ≤ i.val ∧ i.val < base + n) ↔ (base ≤ i.val ∧ i.val < base + (n + 1)) := by
        omega
      simp only [hiff] at ih
      split
      · exact (Function.update_of_ne heq ..).trans ih
      · exact ih

/-- A write of four priorities is a write to the table. -/
theorem Holds.setPriority (hd : Holds d t) (first : ℕ) (bytes : U32) :
    Holds ((List.range 4).foldl (putPriority bytes first) d)
      (t.write (.setPriority first bytes)) where
  ready := (foldl_putPriority_frame bytes first _ d).2.trans hd.ready
  bits := by
    intro i
    rw [(foldl_putPriority_frame bytes first _ d).1]
    exact hd.bits i
  bytes := by
    intro i
    rw [foldl_putPriority, hd.bytes i]
    rfl
  sgis := hd.sgis

/-- A register file that holds no interrupt of the table. -/
theorem write_beyond {word : ℕ} (hw : vgicNumWords ≤ word) (mask : U32) :
    t.write (.setEnable word mask) = t ∧ t.write (.clearEnable word mask) = t := by
  have hnot : ∀ i : Fin Ipc.vgicMaxIrqs, ¬ IrqTable.Named word mask i.val := by
    intro i hnamed
    have hi : i.val < 256 := i.isLt
    have hdiv := hnamed.1
    unfold vgicNumWords at hw
    omega
  simp [IrqTable.write, hnot]

theorem write_priority_beyond {first : ℕ} (hf : Ipc.vgicMaxIrqs ≤ first) (bytes : U32) :
    t.write (.setPriority first bytes) = t := by
  have hnot : ∀ i : Fin Ipc.vgicMaxIrqs, ¬ (first ≤ i.val ∧ i.val < first + 4) := by
    intro i hin
    have hi := i.isLt
    omega
  simp only [IrqTable.write, hnot, if_false]

/-- **A write keeps the simulation.** -/
theorem Holds.step (hd : Holds d t) (w : GuestWrite) : Holds (distStep d w) (tableStep t w) := by
  have haligned := w.aligned
  unfold distStep tableStep vgicDistWrite DistWrite.at gicdOffIsenablerBase gicdOffIsenablerEnd
    gicdOffIcenablerBase gicdOffIcenablerEnd gicdOffIpriorityBase gicdOffIpriorityEnd
  have hready : ¬ (!d.initialised) = true := by simp [hd.ready]
  dsimp only
  rw [if_neg hready]
  generalize w.offset.toNat = off at haligned ⊢
  by_cases hset : 0x100 ≤ off ∧ off < 0x180
  · rw [if_pos hset, if_pos (show 256 ≤ off ∧ off ≤ 380 by omega)]
    split
    case isTrue hw => exact hd.setEnable ((off - 0x100) / 4) w.val
    case isFalse hw => exact (write_beyond (Nat.not_lt.mp hw) w.val).1.symm ▸ hd
  rw [if_neg hset, if_neg (show ¬ (256 ≤ off ∧ off ≤ 380) by omega)]
  by_cases hclear : 0x180 ≤ off ∧ off < 0x200
  · rw [if_pos hclear, if_pos (show 384 ≤ off ∧ off ≤ 508 by omega)]
    split
    case isTrue hw => exact hd.clearEnable ((off - 0x180) / 4) w.val
    case isFalse hw => exact (write_beyond (Nat.not_lt.mp hw) w.val).2.symm ▸ hd
  rw [if_neg hclear, if_neg (show ¬ (384 ≤ off ∧ off ≤ 508) by omega)]
  by_cases hprio : 0x400 ≤ off ∧ off < 0x800
  · rw [if_pos hprio]
    split
    case isTrue hin =>
      generalize off - 1024 = first
      exact hd.setPriority first w.val
    case isFalse hin =>
      -- the words beyond 0x4FC are of interrupts from 256 on
      have hbeyond : Ipc.vgicMaxIrqs ≤ off - 0x400 := by
        unfold Ipc.vgicMaxIrqs
        omega
      exact (write_priority_beyond hbeyond w.val).symm ▸ hd
  · rw [if_neg hprio, if_neg (show ¬ (1024 ≤ off ∧ off ≤ 1276) by omega)]
    exact hd

/-- **Every run of writes keeps it.** -/
theorem Holds.run (ws : List GuestWrite) (hd : Holds d t) :
    Holds (ws.foldl distStep d) (ws.foldl tableStep t) := by
  induction ws generalizing d t with
  | nil => exact hd
  | cons w ws ih => exact ih (hd.step w)

/-- **A write elsewhere changes nothing.** -/
theorem distStep_other (d : VgicDist) (w : GuestWrite) (hw : DistWrite.at w.offset w.val = .other) :
    distStep d w = d := by
  unfold DistWrite.at at hw
  simp only at hw
  split at hw
  · exact absurd hw (by simp)
  split at hw
  · exact absurd hw (by simp)
  split at hw
  · exact absurd hw (by simp)
  rename_i hset hclear hprio
  unfold distStep vgicDistWrite gicdOffIsenablerBase gicdOffIsenablerEnd gicdOffIcenablerBase
    gicdOffIcenablerEnd gicdOffIpriorityBase gicdOffIpriorityEnd
  simp only
  split
  · rfl
  · rw [if_neg (by omega), if_neg (by omega), if_neg (by omega)]

/-! ## The refinement -/

/-- **The distributor is the table** after any writes, the SGIs are
enabled in every state of it, and a write outside of the three register
files leaves the distributor as it was. -/
theorem distributor_refines_table (ws : List GuestWrite) :
    Shows (ws.foldl distStep vgicDistInit) (ws.foldl tableStep .reset) ∧
    (∀ irq : U32, IsSgi irq.toNat →
      Ipc.vgicIsEnabled (ws.foldl distStep vgicDistInit) irq = true) ∧
    ∀ w : GuestWrite, DistWrite.at w.offset w.val = .other →
      distStep (ws.foldl distStep vgicDistInit) w = ws.foldl distStep vgicDistInit := by
  have hd := holds_vgicDistInit.run ws
  refine ⟨hd.shows, ?_, fun w => distStep_other _ w⟩
  intro irq hirq
  have hlt : irq.toNat < Ipc.vgicMaxIrqs := Nat.lt_trans hirq (by decide)
  rw [hd.shows.isEnabled irq hlt, IrqTable.enabledAt, dif_pos hlt]
  exact hd.sgis ⟨_, hlt⟩ hirq

end Irq

end HypervisorBase
