import HypervisorBase.State
import Mathlib.Algebra.Group.Nat.Defs
import Mathlib.Data.Nat.Find
/-!
# The detection of the SMMU

The model of `vre/dma/smmu.c`. `smmu_init` enables the SMMU and polls its
acknowledgement, at most 10001 times, with a counter that is decremented
after each poll that found nothing, and then asks whether the counter is
zero. It is zero exactly if the last of these polls was the one that was
acknowledged. If none was, the counter has wrapped, and the SMMU counts as
present: `smmu_detection_iff` says that the answer is right only for an
acknowledgement among the first 10000.

What the hardware answers is an input: the values `SMMU_CR0ACK` reads as,
one after the other.
-/

namespace HypervisorBase

namespace Smmu

/-! ## The driver -/

def maxStreams : ℕ := 256

def smmuCr0 : U32 := 0x020

def smmuStrtabBase : U32 := 0x080

def smmuStrtabBaseCfg : U32 := 0x088

/-- `SMMU_CR0_SMMUEN`. -/
def smmuCr0Smmuen : U32 := 1

/-- The variables of the driver: the stream table by streams and words,
and the registers of the SMMU as it has written them. -/
structure Driver where
  base : U64
  present : Bool
  ste : ℕ → ℕ → U64
  regs : U32 → U32

def smmuPresent (d : Driver) : Bool := d.present

/-- `sr_wr32`. -/
def srWr32 (d : Driver) (offset val : U32) : Driver :=
  { d with regs := Function.update d.regs offset val }

/-- **The poll loop** from the `n`-th read on: what is left in `timeout`,
and how many reads have been made. -/
def pollCr0ack (ack : ℕ → U32) (n : ℕ) (timeout : U32) : U32 × ℕ :=
  if ack n &&& smmuCr0Smmuen ≠ 0 then (timeout, n + 1)
  -- the counter is tested before it is decremented
  else if timeout = 0 then (timeout - 1, n + 1)
  else pollCr0ack ack (n + 1) (timeout - 1)
termination_by timeout.toNat
decreasing_by
  rename_i hne
  have hpos : timeout.toNat ≠ 0 := fun h0 => hne (BitVec.eq_of_toNat_eq h0)
  have hsub : (timeout - 1).toNat = timeout.toNat - 1 := by
    rw [BitVec.toNat_sub_of_le (BitVec.le_def.mpr (by change 1 ≤ _; omega))]
    rfl
  omega

/-- `smmu_init`, with the stream table at this address. -/
def smmuInit (d : Driver) (steTable base : U64) (ack : ℕ → U32) : Err × Driver :=
  if base = 0 then (.ok, { d with present := false })
  else
    let d := { d with base := base, ste := fun _ _ => 0 }
    let tb := steTable &&& ~~~(0x3F : U64)
    let d := srWr32 d smmuStrtabBase (tb.setWidth 32)
    let d := srWr32 d (smmuStrtabBase + 4) ((tb >>> 32).setWidth 32)
    let d := srWr32 d smmuStrtabBaseCfg (1 ||| (8 <<< 6))
    let d := srWr32 d smmuCr0 smmuCr0Smmuen
    let timeout := (pollCr0ack ack 0 10000).1
    if timeout = 0 then (.ok, { d with present := false })
    else (.ok, { d with present := true })

/-- The words `smmu_assign_stream` writes into an entry. -/
def assignedSte (ste : ℕ → U64) (s2Pgd vttbr : U64) : ℕ → U64 :=
  let vmid : U8 := ((vttbr >>> 48) &&& 0xFF).setWidth 8
  let ste := Function.update ste 0 (1 ||| (5 <<< 1) ||| (vmid.setWidth 64 <<< 44))
  let ste := Function.update ste 2 (s2Pgd &&& ~~~(0xFFF : U64))
  Function.update ste 3 (0x18 ||| (0x0 <<< 6) ||| (0x2 <<< 16) ||| (1 <<< 10))

/-- `smmu_assign_stream`. The VM is only logged. -/
def smmuAssignStream (d : Driver) (sid : U32) (s2Pgd vttbr : U64) : Err × Driver :=
  if maxStreams ≤ sid.toNat then (.inval, d)
  else if s2Pgd = 0 then (.inval, d)
  else if !d.present then (.ok, d)
  else (.ok, { d with
    ste := Function.update d.ste sid.toNat (assignedSte (d.ste sid.toNat) s2Pgd vttbr) })

/-- `smmu_remove_stream`. -/
def smmuRemoveStream (d : Driver) (sid : U32) : Err × Driver :=
  if maxStreams ≤ sid.toNat then (.inval, d)
  else if d.present then
    (.ok, { d with ste := Function.update d.ste sid.toNat (Function.update (d.ste sid.toNat) 0 0) })
  else (.ok, d)

/-! ## The poll loop -/

/-- A read that acknowledges. -/
def Acks (v : U32) : Prop := v &&& smmuCr0Smmuen ≠ 0

instance (v : U32) : Decidable (Acks v) := inferInstanceAs (Decidable (_ ≠ _))

variable {ack : ℕ → U32} {d : Driver} {steTable base : U64}

/-- One turn of the loop that finds nothing. -/
theorem pollCr0ack_next {n t : ℕ} (hn : ¬ Acks (ack n)) (ht : t + 1 < 2 ^ 32) :
    pollCr0ack ack n (BitVec.ofNat 32 (t + 1)) = pollCr0ack ack (n + 1) (BitVec.ofNat 32 t) := by
  have hne : BitVec.ofNat 32 (t + 1) ≠ 0 := by
    intro h0
    have hnat := congrArg BitVec.toNat h0
    rw [BitVec.toNat_ofNat, Nat.mod_eq_of_lt ht] at hnat
    cases hnat
  have hsub : BitVec.ofNat 32 (t + 1) - 1 = BitVec.ofNat 32 t := by
    rw [BitVec.ofNat_add]
    exact BitVec.add_sub_cancel ..
  rw [pollCr0ack]
  refine (if_neg hn).trans ?_
  rw [if_neg hne, hsub]

/-- **The first acknowledgement** stops the loop, if it comes in time. -/
theorem pollCr0ack_acked (ack : ℕ → U32) {j n t : ℕ} (ht : t < 2 ^ 32) (hj : j ≤ t)
    (hnone : ∀ i < j, ¬ Acks (ack (n + i))) (hack : Acks (ack (n + j))) :
    pollCr0ack ack n (BitVec.ofNat 32 t) = (BitVec.ofNat 32 (t - j), n + j + 1) := by
  induction j generalizing n t with
  | zero =>
    rw [pollCr0ack]
    exact if_pos hack
  | succ j ih =>
    obtain ⟨t, rfl⟩ : ∃ s, t = s + 1 := ⟨t - 1, by omega⟩
    have hfirst : ¬ Acks (ack n) := hnone 0 (by omega)
    rw [pollCr0ack_next hfirst ht]
    have hshift : ∀ i, n + 1 + i = n + (i + 1) := fun i => by omega
    rw [ih (by omega) (by omega)]
    · rw [hshift, Nat.add_sub_add_right]
    · intro i hi
      rw [hshift]
      exact hnone (i + 1) (by omega)
    · rw [hshift]
      exact hack

/-- **Silence** makes the counter wrap. -/
theorem pollCr0ack_silent (ack : ℕ → U32) {n t : ℕ} (ht : t < 2 ^ 32)
    (hnone : ∀ i ≤ t, ¬ Acks (ack (n + i))) :
    pollCr0ack ack n (BitVec.ofNat 32 t) = (0 - 1, n + t + 1) := by
  induction t generalizing n with
  | zero =>
    have hfirst : ¬ Acks (ack n) := hnone 0 (by omega)
    rw [pollCr0ack]
    exact (if_neg hfirst).trans (if_pos rfl)
  | succ t ih =>
    have hfirst : ¬ Acks (ack n) := hnone 0 (by omega)
    rw [pollCr0ack_next hfirst ht]
    have hshift : ∀ i, n + 1 + i = n + (i + 1) := fun i => by omega
    rw [ih (by omega), hshift]
    intro i hi
    rw [hshift]
    exact hnone (i + 1) (by omega)

/-! ## What counts as present -/

/-- `smmu_init` has read an acknowledgement. -/
def Acknowledged (ack : ℕ → U32) : Prop := ∃ k < (pollCr0ack ack 0 10000).2, Acks (ack k)

/-- The unit is in use if it acknowledged in time. -/
theorem present_smmuInit (hbase : base ≠ 0) :
    smmuPresent (smmuInit d steTable base ack).2 = true ↔ (pollCr0ack ack 0 10000).1 ≠ 0 := by
  unfold smmuInit smmuPresent
  rw [if_neg hbase]
  dsimp only
  split
  case isTrue hzero =>
    constructor
    · intro hpresent
      cases hpresent
    · intro hne
      exact absurd hzero hne
  case isFalse hne => exact ⟨fun _ => hne, fun _ => rfl⟩

/-- **How the polling ends**: at the first acknowledgement, or after
10001 reads without one. -/
theorem pollCr0ack_cases (ack : ℕ → U32) :
    (∃ j ≤ 10000, Acks (ack j) ∧ (∀ i < j, ¬ Acks (ack i)) ∧
      pollCr0ack ack 0 10000 = (BitVec.ofNat 32 (10000 - j), j + 1)) ∨
    ((∀ i ≤ 10000, ¬ Acks (ack i)) ∧ pollCr0ack ack 0 10000 = (0 - 1, 10001)) := by
  have hzero : ∀ i, ack (0 + i) = ack i := fun i => by rw [Nat.zero_add]
  by_cases hack : ∃ k ≤ 10000, Acks (ack k)
  · obtain ⟨k, hk, hkack⟩ := hack
    have hex : ∃ k, Acks (ack k) := ⟨k, hkack⟩
    have hle : Nat.find hex ≤ 10000 := Nat.le_trans (Nat.find_min' hex hkack) hk
    have hfirst : ∀ i < Nat.find hex, ¬ Acks (ack i) := fun i hi => Nat.find_min hex hi
    refine .inl ⟨Nat.find hex, hle, Nat.find_spec hex, hfirst, ?_⟩
    have hpoll := pollCr0ack_acked ack (n := 0) (t := 10000) (by decide) hle
      (fun i hi => hzero i ▸ hfirst i hi) ((hzero (Nat.find hex)).symm ▸ Nat.find_spec hex)
    rwa [Nat.zero_add] at hpoll
  · have hnone : ∀ i ≤ 10000, ¬ Acks (ack i) := fun i hi hi' => hack ⟨i, hi, hi'⟩
    exact .inr ⟨hnone, pollCr0ack_silent ack (n := 0) (t := 10000) (by decide)
      fun i hi => hzero i ▸ hnone i hi⟩

/-- **The answer is right exactly for an acknowledgement among the first
10000 reads.** -/
theorem present_iff_acknowledged (hbase : base ≠ 0) :
    (smmuPresent (smmuInit d steTable base ack).2 = true ↔ Acknowledged ack) ↔
      ∃ k < 10000, Acks (ack k) := by
  rw [present_smmuInit hbase]
  unfold Acknowledged
  rcases pollCr0ack_cases ack with ⟨j, hj, hjack, hfirst, hpoll⟩ | ⟨hnone, hpoll⟩
  · rw [hpoll]
    have hread : ∃ k < j + 1, Acks (ack k) := ⟨j, Nat.lt_succ_self j, hjack⟩
    -- the counter is zero only at the very last read
    have hzero : BitVec.ofNat 32 (10000 - j) = 0 ↔ 10000 ≤ j := by
      rw [← BitVec.toNat_inj, BitVec.toNat_ofNat]
      change (10000 - j) % 2 ^ 32 = 0 ↔ _
      omega
    constructor
    · intro hright
      have hne := hright.mpr hread
      rw [Ne, hzero] at hne
      exact ⟨j, by omega, hjack⟩
    · rintro ⟨k, hk, hkack⟩
      have hjk : ¬ k < j := fun hlt => hfirst k hlt hkack
      refine ⟨fun _ => hread, fun _ => ?_⟩
      rw [Ne, hzero]
      omega
  · rw [hpoll]
    constructor
    · intro hright
      obtain ⟨k, hk, hkack⟩ := hright.mp (by decide)
      exact absurd hkack (hnone k (by omega))
    · rintro ⟨k, hk, hkack⟩
      exact absurd hkack (hnone k (by omega))

/-! ## Streams -/

inductive StreamOp
  | assign (sid : U32) (s2Pgd vttbr : U64)
  | remove (sid : U32)

def streamStep (d : Driver) : StreamOp → Driver
  | .assign sid s2Pgd vttbr => (smmuAssignStream d sid s2Pgd vttbr).2
  | .remove sid => (smmuRemoveStream d sid).2

/-- **Without an SMMU no entry is written.** -/
theorem streamStep_absent (hd : d.present = false) (op : StreamOp) : streamStep d op = d := by
  cases op with
  | assign sid s2Pgd vttbr =>
    unfold streamStep smmuAssignStream
    rw [hd]
    dsimp only
    split
    · rfl
    · split <;> rfl
  | remove sid =>
    unfold streamStep smmuRemoveStream
    rw [hd]
    dsimp only
    split <;> rfl

theorem streams_absent (hd : d.present = false) (ops : List StreamOp) : ops.foldl streamStep d = d := by
  induction ops with
  | nil => rfl
  | cons op ops ih =>
    rw [List.foldl_cons, streamStep_absent hd]
    exact ih

/-- An assigned entry is valid. -/
theorem assignedSte_ne_zero (ste : ℕ → U64) (s2Pgd vttbr : U64) : assignedSte ste s2Pgd vttbr 0 ≠ 0 := by
  intro hzero
  have hvalid : (assignedSte ste s2Pgd vttbr 0).getLsbD 0 = true := by
    unfold assignedSte
    rw [Function.update_of_ne (by decide), Function.update_of_ne (by decide), Function.update_self]
    simp
  rw [hzero] at hvalid
  cases hvalid

/-- **With an SMMU the entry is written.** -/
theorem ste_smmuAssignStream {sid : U32} {s2Pgd : U64} {n : ℕ} (hd : smmuPresent d = true)
    (hsid : sid.toNat = n) (hn : n < maxStreams) (hpgd : s2Pgd ≠ 0) (vttbr : U64) :
    (smmuAssignStream d sid s2Pgd vttbr).2.ste n = assignedSte (d.ste n) s2Pgd vttbr := by
  subst hsid
  have hpresent : ¬ (!d.present) = true := by
    unfold smmuPresent at hd
    rw [hd]
    decide
  unfold smmuAssignStream
  rw [if_neg (by omega), if_neg hpgd, if_neg hpresent]
  exact Function.update_self ..

/-- **The SMMU is detected**: it counts as present if and only if it has
acknowledged, and if it has not, no entry of the stream table is ever
written. -/
structure Detected (d : Driver) (ack : ℕ → U32) : Prop where
  present : smmuPresent d = true ↔ Acknowledged ack
  untrusted : ¬ Acknowledged ack → ∀ ops : List StreamOp, (ops.foldl streamStep d).ste = d.ste

/-- **The SMMU is detected**, for every base and every sequence of values
its acknowledgement may read as, if and only if one of the first 10000
acknowledges. The polling ends in any case. -/
theorem smmu_detection_iff (d : Driver) (steTable : U64) (hbase : base ≠ 0) (ack : ℕ → U32) :
    (pollCr0ack ack 0 10000).2 ≤ 10001 ∧
    (Detected (smmuInit d steTable base ack).2 ack ↔ ∃ k < 10000, Acks (ack k)) := by
  constructor
  · rcases pollCr0ack_cases ack with ⟨j, hj, -, -, hpoll⟩ | ⟨-, hpoll⟩
    · rw [hpoll]
      omega
    · rw [hpoll]
  have hiff : (smmuPresent (smmuInit d steTable base ack).2 = true ↔ Acknowledged ack) ↔
      ∃ k < 10000, Acks (ack k) := present_iff_acknowledged hbase
  rw [← hiff]
  constructor
  · exact Detected.present
  · intro hright
    refine ⟨hright, fun hnot ops => ?_⟩
    have habsent : (smmuInit d steTable base ack).2.present = false :=
      Bool.not_eq_true _ ▸ fun hpresent => hnot (hright.mp hpresent)
    rw [streams_absent habsent]

/-- The driver before `smmu_init`. -/
def atRest : Driver := ⟨0, false, fun _ _ => 0, fun _ => 0⟩

/-- An SMMU that acknowledges at once. -/
theorem smmu_detection_prompt :
    (pollCr0ack (fun _ => 1) 0 10000).2 ≤ 10001 ∧
    (Detected (smmuInit atRest 0x40100000 0x09050000 fun _ => 1).2 (fun _ => 1) ↔
      ∃ k < 10000, Acks ((fun _ => 1 : ℕ → U32) k)) :=
  smmu_detection_iff atRest 0x40100000 (by decide) fun _ => 1

/-- Where there is no SMMU, it counts as present, and the first stream
that is assigned is written into its table. One that acknowledges at the
last read counts as absent. -/
theorem absent_smmu_present :
    smmuPresent (smmuInit atRest 0x40100000 0x09050000 fun _ => 0).2 = true ∧
    (¬ Acknowledged fun _ => 0) ∧
    (smmuAssignStream (smmuInit atRest 0x40100000 0x09050000 fun _ => 0).2 0 0x40200000 0).2.ste 0 0 ≠ 0 ∧
    smmuPresent (smmuInit atRest 0x40100000 0x09050000 fun k => if k = 10000 then 1 else 0).2 = false ∧
    Acknowledged fun k => if k = 10000 then 1 else 0 := by
  have hbase : (0x09050000 : U64) ≠ 0 := by decide
  have hsilent := pollCr0ack_silent (fun _ => 0) (n := 0) (t := 10000) (by decide)
    fun _ _ => show ¬ Acks 0 by decide
  have hlast := pollCr0ack_acked (fun k => if k = 10000 then 1 else 0) (j := 10000) (n := 0) (t := 10000)
    (by decide) (Nat.le_refl _)
    (fun i hi => by rw [Nat.zero_add, if_neg (by omega)]; decide) (by decide)
  have hpresent : smmuPresent (smmuInit atRest 0x40100000 0x09050000 fun _ => 0).2 = true := by
    rw [present_smmuInit hbase]
    change (pollCr0ack (fun _ => 0) 0 (BitVec.ofNat 32 10000)).1 ≠ 0
    rw [hsilent]
    decide
  refine ⟨hpresent, ?_, ?_, ?_, ?_⟩
  · rintro ⟨k, -, hk⟩
    exact absurd hk (show ¬ Acks 0 by decide)
  · have hsid : (0 : U32).toNat = 0 := rfl
    have hpgd : (0x40200000 : U64) ≠ 0 := by decide
    rw [ste_smmuAssignStream hpresent hsid (by decide) hpgd]
    exact assignedSte_ne_zero _ _ _
  · rw [← Bool.not_eq_true, present_smmuInit hbase, not_not]
    change (pollCr0ack (fun k => if k = 10000 then 1 else 0) 0 (BitVec.ofNat 32 10000)).1 = 0
    rw [hlast]
    rfl
  · refine ⟨10000, ?_, by decide⟩
    change 10000 < (pollCr0ack (fun k => if k = 10000 then 1 else 0) 0 (BitVec.ofNat 32 10000)).2
    rw [hlast]
    decide

end Smmu

end HypervisorBase
