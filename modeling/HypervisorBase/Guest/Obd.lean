import HypervisorBase.Guest.Engine
/-!
# What Linux reads of the engine

The hypervisor hands the last fuel update to Linux in three ways: packed
into two registers (`HVC_OBD_READ_ALL`), one value at a time
(`HVC_OBD_READ_PID`) and as a page of words. The sensor voltage among the
packed values is computed in 32 bits and not masked, so that it can reach
into the count of trouble codes next to it (`obd_snapshot_iff`); and only
the packed speed is capped (`obd_paths_iff`).
-/

namespace HypervisorBase

namespace Obd

open Hypercall Rtos

variable {f : FuelState}

/-! ## The stored values -/

/-- **The stored values have 16 bits.** -/
structure Narrow (f : FuelState) : Prop where
  rpm : f.rpm.toNat < 2 ^ 16
  coolantC : f.coolantC.toNat < 2 ^ 16
  throttlePct : f.throttlePct.toNat < 2 ^ 16
  mapKpa : f.mapKpa.toNat < 2 ^ 16
  lambdaX100 : f.lambdaX100.toNat < 2 ^ 16
  faultCode : f.faultCode.toNat < 2 ^ 16
  valid : f.valid = true

theorem toNat_field_lt (x : U64) (lo : ℕ) : (field x lo 0xFFFF).toNat < 2 ^ 16 := by
  rw [toNat_field x lo (k := 16) (by decide) (show (0xFFFF : U64) = _ from rfl),
    toNat_slice x lo (by decide)]
  exact Nat.mod_lt _ (by decide)

/-- What a push stores fits the fields of a report. -/
theorem narrow_decodeFuel (x1 x2 x3 x4 : U64) : Narrow (decodeFuel x1 x2 x3 x4) where
  rpm := toNat_field_lt ..
  coolantC := toNat_field_lt ..
  throttlePct := toNat_field_lt ..
  mapKpa := toNat_field_lt ..
  lambdaX100 := toNat_field_lt ..
  faultCode := toNat_field_lt ..
  valid := rfl

theorem dtcCount_cases (f : FuelState) :
    f.faultCode = 0 ∧ dtcCount f = 0 ∨ f.faultCode ≠ 0 ∧ dtcCount f = 1 := by
  unfold dtcCount
  by_cases hf : f.faultCode = 0
  · exact .inl ⟨hf, if_neg (not_not.mpr hf)⟩
  · exact .inr ⟨hf, if_pos hf⟩

theorem dtcCount_lt (f : FuelState) : (dtcCount f).toNat < 2 ^ 16 := by
  rcases dtcCount_cases f with ⟨-, hd⟩ | ⟨-, hd⟩
  · rw [hd]
    decide
  · rw [hd]
    decide

theorem speedKmh_lt (f : FuelState) : (speedKmh f).toNat < 2 ^ 16 := by
  unfold speedKmh
  split
  · decide
  · omega

/-- **The voltage**, in wrapping 32-bit arithmetic: below a lambda of 0.10
it is negative. -/
theorem toNat_o2Mv (hn : Narrow f) : (o2Mv f).toNat =
    if 100 ≤ f.lambdaX100.toNat then 450 + (f.lambdaX100.toNat - 100) * 3
    else if 10 ≤ f.lambdaX100.toNat then 450 - (100 - f.lambdaX100.toNat) * 5
    else 2 ^ 32 + 450 - (100 - f.lambdaX100.toNat) * 5 := by
  have hl := hn.lambdaX100
  unfold o2Mv
  split
  · bv_omega
  · split <;> bv_omega

/-- **It fits in 16 bits** for lambda from 0.10 to 217.95. -/
theorem o2Mv_lt_iff (hn : Narrow f) :
    (o2Mv f).toNat < 2 ^ 16 ↔ 10 ≤ f.lambdaX100.toNat ∧ f.lambdaX100.toNat ≤ 21795 := by
  have hl := hn.lambdaX100
  rw [toNat_o2Mv hn]
  split_ifs <;> omega

/-! ## The packed words -/

/-- The parts of `x1`. -/
def words1 (hn : Narrow f) : List (Part 64) :=
  [part 0 16 f.rpm hn.rpm, part 16 16 (speedKmh f) (speedKmh_lt f),
    part 32 16 f.coolantC hn.coolantC, part 48 16 f.throttlePct hn.throttlePct]

/-- The parts of `x2`. The voltage reaches into the count of trouble codes. -/
def words2 (hn : Narrow f) : List (Part 64) :=
  [part 0 16 f.mapKpa hn.mapKpa, part 16 32 (o2Mv f) (o2Mv f).isLt,
    part 32 16 (dtcCount f) (dtcCount_lt f), part 48 16 f.faultCode hn.faultCode]

/-- The registers of a report hold its packed words. -/
theorem hvcObdReadAll_eq {h : Hyp} (hn : Narrow h.fuel) (x : Regs) :
    hvcObdReadAll h x 1 = pack (words1 hn) ∧ hvcObdReadAll h x 2 = pack (words2 hn) := by
  unfold hvcObdReadAll
  rw [hn.valid]
  simp only [words1, words2, pack_cons, pack_nil, Part.word, part, BitVec.or_zero, ← BitVec.or_assoc]
  exact ⟨rfl, rfl⟩

/-- What the registers hold at the bit offsets 0, 16, 32 and 48. -/
structure Decodes (f : FuelState) (x : Regs) : Prop where
  rpm : field (x 1) 0 0xFFFF = f.rpm
  speed : field (x 1) 16 0xFFFF = speedKmh f
  coolant : field (x 1) 32 0xFFFF = f.coolantC
  throttle : field (x 1) 48 0xFFFF = f.throttlePct
  map : field (x 2) 0 0xFFFF = f.mapKpa
  o2 : field (x 2) 16 0xFFFF = o2Mv f
  dtc : field (x 2) 32 0xFFFF = dtcCount f
  code : field (x 2) 48 0xFFFF = f.faultCode

/-- The low 16 bits of the voltage arrive. -/
theorem toNat_o2Field (hn : Narrow f) :
    (field (pack (words2 hn)) 16 0xFFFF).toNat = (o2Mv f).toNat % 2 ^ 16 := by
  let voltage : Part 64 := part 16 32 (o2Mv f) (o2Mv f).isLt
  have hone : slice (pack (words2 hn)) 16 16 = slice ((o2Mv f).setWidth 64) 0 16 :=
    slice_pack_one (p := voltage) rfl (show 16 + 16 ≤ 64 by decide)
  refine (toNat_field _ _ (k := 16) (by decide) rfl).trans ?_
  rw [hone, toNat_slice _ _ (by decide), BitVec.toNat_setWidth_of_le (by decide), Nat.pow_zero,
    Nat.div_one]

/-- **The high 16 bits of the voltage arrive in the count of trouble
codes.** -/
theorem dtcField_eq (hn : Narrow f) :
    field (pack (words2 hn)) 32 0xFFFF = dtcCount f ||| o2Mv f >>> 16 := by
  let voltage : Part 64 := part 16 32 (o2Mv f) (o2Mv f).isLt
  let count : Part 64 := part 32 16 (dtcCount f) (dtcCount_lt f)
  have hin : slice voltage.word 32 16 = slice ((o2Mv f).setWidth 64) 16 16 :=
    Part.slice_word (p := voltage) (m := 16) (show 16 + 16 + 16 ≤ 64 by decide)
  have hcount : slice count.word 32 16 = (dtcCount f).setWidth 64 :=
    (Part.slice_word (p := count) (m := 0) (show 32 + 0 + 16 ≤ 64 by decide)).trans
      (slice_eq_self count.fits)
  have hreach : slice (pack (words2 hn)) 32 16 =
      slice ((o2Mv f).setWidth 64) 16 16 ||| (dtcCount f).setWidth 64 := by
    rw [slice_pack_filter, ← hin, ← hcount]
    change slice (pack [voltage, count]) 32 16 = _
    rw [pack_cons, pack_cons, pack_nil, BitVec.or_zero, slice_or]
  have hhigh : (slice ((o2Mv f).setWidth 64) 16 16 : U64).setWidth 32 = o2Mv f >>> 16 := by
    apply BitVec.eq_of_toNat_eq
    have hlt := (o2Mv f).isLt
    rw [BitVec.toNat_setWidth, toNat_slice _ _ (by decide), BitVec.toNat_setWidth_of_le (by decide),
      BitVec.toNat_ushiftRight, Nat.shiftRight_eq_div_pow]
    omega
  refine (field_eq _ _ (k := 16) rfl).trans ?_
  rw [hreach, BitVec.setWidth_or, hhigh, BitVec.or_comm, BitVec.setWidth_setWidth_of_le _ (by decide),
    BitVec.setWidth_eq]

/-- **The words are decoded to the stored values** exactly if the voltage
has 16 bits. -/
theorem decodes_iff {h : Hyp} (hn : Narrow h.fuel) (x : Regs) :
    Decodes h.fuel (hvcObdReadAll h x) ↔ (o2Mv h.fuel).toNat < 2 ^ 16 := by
  obtain ⟨h1, h2⟩ := hvcObdReadAll_eq hn x
  constructor
  · intro hdec
    have ho2 := hdec.o2
    rw [h2] at ho2
    have hnat := toNat_o2Field hn
    rw [ho2] at hnat
    omega
  · intro hfits
    have hzero : o2Mv h.fuel >>> 16 = 0#32 := by
      apply BitVec.eq_of_toNat_eq
      rw [BitVec.toNat_ushiftRight, Nat.shiftRight_eq_div_pow, Nat.div_eq_of_lt hfits]
      rfl
    constructor
    · rw [h1]
      exact field_pack hn.rpm rfl rfl (by decide)
    · rw [h1]
      exact field_pack (speedKmh_lt _) rfl rfl (by decide)
    · rw [h1]
      exact field_pack hn.coolantC rfl rfl (by decide)
    · rw [h1]
      exact field_pack hn.throttlePct rfl rfl (by decide)
    · rw [h2]
      exact field_pack hn.mapKpa rfl rfl (by decide)
    · rw [h2]
      apply BitVec.eq_of_toNat_eq
      rw [toNat_o2Field hn, Nat.mod_eq_of_lt hfits]
    · rw [h2, dtcField_eq hn, hzero, BitVec.or_zero]
    · rw [h2]
      exact field_pack hn.faultCode rfl rfl (by decide)

section Calls

variable [P : PtPool]

theorem hvcDispatch_obdReadAll (h : Hyp) (y : Regs) :
    hvcDispatch h (Function.update y 0 0x0051) =
      some (hvcObdReadAll h (Function.update y 0 0x0051), h) := by
  unfold hvcDispatch Hypercall.hvcCall
  rw [Function.update_self]
  rfl

/-- **The packed snapshot loses nothing**, for every fuel update and every
read after it, exactly if lambda is from 0.10 to 217.95. -/
theorem obd_snapshot_iff (h : Hyp) (x y : Regs) :
    ∃ x' h' y', hvcDispatch h (Function.update x 0 0x0060) = some (x', h') ∧
      hvcDispatch h' (Function.update y 0 0x0051) = some (y', h') ∧
      (Decodes h'.fuel y' ↔
        10 ≤ h'.fuel.lambdaX100.toNat ∧ h'.fuel.lambdaX100.toNat ≤ 21795) := by
  have hupdate := hvcDispatch_fuel h (Function.update_self 0 (0x0060 : U64) x)
  have hn : Narrow (hvcFuelUpdate h (Function.update x 0 0x0060)).2.fuel := narrow_decodeFuel ..
  exact ⟨_, _, _, hupdate, hvcDispatch_obdReadAll _ y, (decodes_iff hn _).trans (o2Mv_lt_iff hn)⟩

end Calls

/-- The state after an update of zeros. -/
def afterZeros : Hyp :=
  (hvcFuelUpdate Hyp.blank fun _ => 0).2

/-- A lambda of zero: the negative voltage fills the count of trouble
codes with ones, where there is no fault. -/
theorem phantom_codes_packed :
    dtcCount afterZeros.fuel = 0 ∧
    field (hvcObdReadAll afterZeros (fun _ => 0) 2) 32 0xFFFF = 0xFFFF ∧
    ¬ Decodes afterZeros.fuel (hvcObdReadAll afterZeros fun _ => 0) := by
  refine ⟨by decide, by decide, fun hdec => ?_⟩
  have hwrong : field (hvcObdReadAll afterZeros (fun _ => 0) 2) 32 0xFFFF ≠ dtcCount afterZeros.fuel := by
    decide
  exact hwrong hdec.dtc

/-! ## The three ways -/

/-- What all three ways give. -/
inductive Quantity
  | rpm
  | speed
  | coolant
  | throttle
  | map
  | dtc

namespace Quantity

/-- Its PID. -/
def pid : Quantity → U64
  | rpm => 0x0C
  | speed => 0x0D
  | coolant => 0x05
  | throttle => 0x11
  | map => 0x0B
  | dtc => 0x01

/-- Its place in the packed registers. -/
def packed (y : Regs) : Quantity → U32
  | rpm => field (y 1) 0 0xFFFF
  | speed => field (y 1) 16 0xFFFF
  | coolant => field (y 1) 32 0xFFFF
  | throttle => field (y 1) 48 0xFFFF
  | map => field (y 2) 0 0xFFFF
  | dtc => field (y 2) 32 0xFFFF

/-- Its word in the page. -/
def word : Quantity → ℕ
  | rpm => 1
  | speed => 2
  | coolant => 3
  | throttle => 4
  | map => 5
  | dtc => 6

/-- Its value, uncapped. -/
def value (f : FuelState) : Quantity → U32
  | rpm => f.rpm
  | speed => f.rpm / 37
  | coolant => f.coolantC
  | throttle => f.throttlePct
  | map => f.mapKpa
  | dtc => dtcCount f

theorem obdPid_pid (hvalid : f.valid = true) (q : Quantity) : obdPid f (q.pid.setWidth 32) = q.value f := by
  unfold obdPid
  rw [hvalid]
  cases q <;> rfl

theorem obdSnapshot_word (f : FuelState) (q : Quantity) : (obdSnapshot f)[q.word]? = some (q.value f) := by
  cases q <;> rfl

end Quantity

/-- A 32-bit load, least significant byte first. -/
def loadWord (phys : U64 → U8) (a : U64) : U32 :=
  (phys a).setWidth 32 ||| (phys (a + 1)).setWidth 32 <<< 8 ||| (phys (a + 2)).setWidth 32 <<< 16 |||
    (phys (a + 3)).setWidth 32 <<< 24

theorem storeWord_frame (phys : U64 → U8) {a b : U64} (w : U32) (hb : 4 ≤ (b - a).toNat) :
    storeWord phys a w b = phys b := by
  unfold storeWord
  rw [Function.update_of_ne (by bv_omega), Function.update_of_ne (by bv_omega),
    Function.update_of_ne (by bv_omega), Function.update_of_ne (by bv_omega)]

/-- A word is read back as it was stored. -/
theorem loadWord_storeWord (phys : U64 → U8) (a : U64) (w : U32) :
    loadWord (storeWord phys a w) a = w := by
  have h3 : storeWord phys a w (a + 3) = (w >>> 24).setWidth 8 := Function.update_self ..
  have h2 : storeWord phys a w (a + 2) = (w >>> 16).setWidth 8 := by
    unfold storeWord
    rw [Function.update_of_ne (by bv_omega), Function.update_self]
  have h1 : storeWord phys a w (a + 1) = (w >>> 8).setWidth 8 := by
    unfold storeWord
    rw [Function.update_of_ne (by bv_omega), Function.update_of_ne (by bv_omega),
      Function.update_self]
  have h0 : storeWord phys a w a = w.setWidth 8 := by
    unfold storeWord
    rw [Function.update_of_ne (by bv_omega), Function.update_of_ne (by bv_omega),
      Function.update_of_ne (by bv_omega), Function.update_self]
  rw [loadWord, h0, h1, h2, h3, Word.of_bytes]

/-- What lies outside the words is not touched. -/
theorem storeWords_frame (ws : List U32) (phys : U64 → U8) {a b : U64}
    (hb : 4 * ws.length ≤ (b - a).toNat) : storeWords phys a ws b = phys b := by
  induction ws generalizing phys a with
  | nil => rfl
  | cons w ws ih =>
    rw [List.length_cons] at hb
    rw [storeWords, ih _ (by bv_omega), storeWord_frame _ _ (by bv_omega)]

theorem loadWord_congr {phys phys' : U64 → U8} {a : U64}
    (heq : ∀ i < 4, phys (a + BitVec.ofNat 64 i) = phys' (a + BitVec.ofNat 64 i)) :
    loadWord phys a = loadWord phys' a := by
  have h0 : phys a = phys' a := by simpa using heq 0 (by decide)
  have h1 : phys (a + 1) = phys' (a + 1) := heq 1 (by decide)
  have h2 : phys (a + 2) = phys' (a + 2) := heq 2 (by decide)
  have h3 : phys (a + 3) = phys' (a + 3) := heq 3 (by decide)
  rw [loadWord, loadWord, h0, h1, h2, h3]

/-- **Every word of the page is read back.** -/
theorem loadWord_storeWords (ws : List U32) (phys : U64 → U8) (a : U64) {i : ℕ} {w : U32}
    (hsmall : 4 * ws.length ≤ 2 ^ 32) (hi : ws[i]? = some w) :
    loadWord (storeWords phys a ws) (a + BitVec.ofNat 64 (4 * i)) = w := by
  induction ws generalizing phys a i with
  | nil => cases hi
  | cons v ws ih =>
    rw [List.length_cons] at hsmall
    cases i with
    | zero =>
      obtain rfl : v = w := Option.some.inj hi
      have hkeep : loadWord (storeWords phys a (v :: ws)) a = loadWord (storeWord phys a v) a := by
        refine loadWord_congr fun i hi => storeWords_frame ws _ ?_
        bv_omega
      rw [Nat.mul_zero, BitVec.add_zero, hkeep, loadWord_storeWord]
    | succ i =>
      have hnext : a + BitVec.ofNat 64 (4 * (i + 1)) = a + 4 + BitVec.ofNat 64 (4 * i) := by
        bv_omega
      rw [hnext]
      exact ih (storeWord phys a v) (a + 4) (by omega) hi

/-! ## Where they agree -/

/-- The speed is exact up to the clamp. -/
theorem speedKmh_eq_iff (hn : Narrow f) : speedKmh f = f.rpm / 37 ↔ f.rpm.toNat ≤ 9286 := by
  have hr := hn.rpm
  have hdiv : (f.rpm / 37).toNat = f.rpm.toNat / 37 := BitVec.toNat_udiv
  unfold speedKmh
  split_ifs with hfast
  · rw [← BitVec.toNat_inj, hdiv]
    change 250 = _ ↔ _
    omega
  · exact iff_of_true rfl (by omega)

/-- **The spilled voltage is unseen** where it is zero, and where it is the
one the count already has. -/
theorem dtcCount_or_iff (f : FuelState) : dtcCount f ||| o2Mv f >>> 16 = dtcCount f ↔
    (o2Mv f).toNat / 2 ^ 16 = 0 ∨ f.faultCode ≠ 0 ∧ (o2Mv f).toNat / 2 ^ 16 = 1 := by
  have hhigh : (o2Mv f >>> 16).toNat = (o2Mv f).toNat / 2 ^ 16 := by
    rw [BitVec.toNat_ushiftRight, Nat.shiftRight_eq_div_pow]
  rw [← BitVec.toNat_inj, BitVec.toNat_or, hhigh]
  generalize (o2Mv f).toNat / 2 ^ 16 = n
  rcases dtcCount_cases f with ⟨hf, hd⟩ | ⟨hf, hd⟩
  · rw [hd]
    change 0 ||| n = 0 ↔ _
    rw [Nat.zero_or]
    exact ⟨.inl, fun hn => hn.resolve_right fun ⟨hne, _⟩ => hne hf⟩
  · rw [hd]
    change 1 ||| n = 1 ↔ _
    constructor
    · intro hor
      have hle : n ≤ 1 ||| n := Nat.right_le_or
      rw [hor] at hle
      exact (Nat.le_one_iff_eq_zero_or_eq_one.mp hle).imp_right fun hone => ⟨hf, hone⟩
    · rintro (rfl | ⟨-, rfl⟩) <;> rfl

theorem o2Mv_high_iff (hn : Narrow f) :
    ((o2Mv f).toNat / 2 ^ 16 = 0 ↔ 10 ≤ f.lambdaX100.toNat ∧ f.lambdaX100.toNat ≤ 21795) ∧
    ((o2Mv f).toNat / 2 ^ 16 = 1 ↔ 21796 ≤ f.lambdaX100.toNat ∧ f.lambdaX100.toNat ≤ 43640) := by
  have hl := hn.lambdaX100
  rw [toNat_o2Mv hn]
  split_ifs <;> omega

/-- **What the registers give is the uncapped value**, by quantity. -/
theorem packed_eq_iff {h : Hyp} (hn : Narrow h.fuel) (x : Regs) (q : Quantity) :
    q.packed (hvcObdReadAll h x) = q.value h.fuel ↔
      (q = .speed → h.fuel.rpm.toNat ≤ 9286) ∧
      (q = .dtc → 10 ≤ h.fuel.lambdaX100.toNat ∧ h.fuel.lambdaX100.toNat ≤ 21795 ∨
        h.fuel.faultCode ≠ 0 ∧ 21796 ≤ h.fuel.lambdaX100.toNat ∧
          h.fuel.lambdaX100.toNat ≤ 43640) := by
  obtain ⟨h1, h2⟩ := hvcObdReadAll_eq hn x
  cases q with
  | rpm =>
    refine iff_of_true ?_ ⟨nofun, nofun⟩
    rw [Quantity.packed, h1]
    exact field_pack hn.rpm rfl rfl (by decide)
  | speed =>
    have hfield : field (pack (words1 hn)) 16 0xFFFF = speedKmh h.fuel :=
      field_pack (speedKmh_lt _) rfl rfl (by decide)
    rw [Quantity.packed, h1, hfield, Quantity.value, speedKmh_eq_iff hn]
    exact ⟨fun hr => ⟨fun _ => hr, nofun⟩, fun hr => hr.1 rfl⟩
  | coolant =>
    refine iff_of_true ?_ ⟨nofun, nofun⟩
    rw [Quantity.packed, h1]
    exact field_pack hn.coolantC rfl rfl (by decide)
  | throttle =>
    refine iff_of_true ?_ ⟨nofun, nofun⟩
    rw [Quantity.packed, h1]
    exact field_pack hn.throttlePct rfl rfl (by decide)
  | map =>
    refine iff_of_true ?_ ⟨nofun, nofun⟩
    rw [Quantity.packed, h2]
    exact field_pack hn.mapKpa rfl rfl (by decide)
  | dtc =>
    obtain ⟨hzero, hone⟩ := o2Mv_high_iff hn
    rw [Quantity.packed, h2, dtcField_eq hn, Quantity.value, dtcCount_or_iff, hzero, hone]
    exact ⟨fun hd => ⟨nofun, fun _ => hd⟩, fun hd => hd.2 rfl⟩

section Paths

variable [P : PtPool]

theorem hvcDispatch_obdReadPid (h : Hyp) (z : Regs) (pid : U64) :
    ∃ z', hvcDispatch h (Function.update (Function.update z 1 pid) 0 0x0050) = some (z', h) ∧
      z' 0 = (obdPid h.fuel (pid.setWidth 32)).setWidth 64 := by
  unfold hvcDispatch Hypercall.hvcCall
  rw [Function.update_self, Function.update_of_ne (by decide), Function.update_self]
  exact ⟨_, rfl, Function.update_self ..⟩

/-- Once the page holds the values, the three ways agree if the registers
do. -/
theorem paths_agree_iff {h : Hyp} (hn : Narrow h.fuel) (y z : Regs)
    (hpage : ∀ q : Quantity,
      loadWord h.phys (obdShmemPa + BitVec.ofNat 64 (4 * q.word)) = q.value h.fuel) :
    (∀ q : Quantity, ∃ z',
        hvcDispatch h (Function.update (Function.update z 1 q.pid) 0 0x0050) = some (z', h) ∧
        z' 0 = (q.packed (hvcObdReadAll h y)).setWidth 64 ∧
        loadWord h.phys (obdShmemPa + BitVec.ofNat 64 (4 * q.word)) =
          q.packed (hvcObdReadAll h y)) ↔
      h.fuel.rpm.toNat ≤ 9286 ∧
        (10 ≤ h.fuel.lambdaX100.toNat ∧ h.fuel.lambdaX100.toNat ≤ 21795 ∨
          h.fuel.faultCode ≠ 0 ∧ 21796 ≤ h.fuel.lambdaX100.toNat ∧
            h.fuel.lambdaX100.toNat ≤ 43640) := by
  constructor
  · intro hall
    have heq : ∀ q : Quantity, q.packed (hvcObdReadAll h y) = q.value h.fuel := by
      intro q
      obtain ⟨z', -, -, hpacked⟩ := hall q
      rw [← hpacked, hpage q]
    exact ⟨((packed_eq_iff hn y _).mp (heq .speed)).1 rfl,
      ((packed_eq_iff hn y _).mp (heq .dtc)).2 rfl⟩
  · rintro ⟨hrpm, hdtc⟩ q
    have heq := (packed_eq_iff hn y q).mpr ⟨fun _ => hrpm, fun _ => hdtc⟩
    obtain ⟨z', hcall, hz⟩ := hvcDispatch_obdReadPid h z q.pid
    rw [Quantity.obdPid_pid hn.valid] at hz
    exact ⟨z', hcall, by rw [hz, heq], by rw [hpage, heq]⟩

/-- **The three ways agree** on every quantity, for every fuel update,
exactly if the speed is not capped and the voltage leaves the count of
trouble codes as it is. -/
theorem obd_paths_iff (h : Hyp) (x y z : Regs) :
    ∃ x' h' y', hvcDispatch h (Function.update x 0 0x0060) = some (x', h') ∧
      hvcDispatch h' (Function.update y 0 0x0051) = some (y', h') ∧
      ((∀ q : Quantity, ∃ z',
          hvcDispatch h' (Function.update (Function.update z 1 q.pid) 0 0x0050) = some (z', h') ∧
          z' 0 = (q.packed y').setWidth 64 ∧
          loadWord h'.phys (obdShmemPa + BitVec.ofNat 64 (4 * q.word)) = q.packed y') ↔
        h'.fuel.rpm.toNat ≤ 9286 ∧
          (10 ≤ h'.fuel.lambdaX100.toNat ∧ h'.fuel.lambdaX100.toNat ≤ 21795 ∨
            h'.fuel.faultCode ≠ 0 ∧ 21796 ≤ h'.fuel.lambdaX100.toNat ∧
              h'.fuel.lambdaX100.toNat ≤ 43640)) := by
  have hupdate := hvcDispatch_fuel h (Function.update_self 0 (0x0060 : U64) x)
  have hn : Narrow (hvcFuelUpdate h (Function.update x 0 0x0060)).2.fuel := narrow_decodeFuel ..
  have hpage : ∀ q : Quantity, loadWord (hvcFuelUpdate h (Function.update x 0 0x0060)).2.phys
      (obdShmemPa + BitVec.ofNat 64 (4 * q.word)) =
        q.value (hvcFuelUpdate h (Function.update x 0 0x0060)).2.fuel := fun q =>
    loadWord_storeWords _ _ _ (show 4 * 11 ≤ 2 ^ 32 by decide) (Quantity.obdSnapshot_word _ q)
  exact ⟨_, _, _, hupdate, hvcDispatch_obdReadAll _ y, paths_agree_iff hn _ z hpage⟩

end Paths

/-- The state after an update with an engine speed of 9287 and a lambda of
one. -/
def afterFast : Hyp :=
  (hvcFuelUpdate Hyp.blank
    fun i => if i = 1 then 9287 else if i = 3 then 100 <<< 32 else 0).2

/-- The registers say 250, the PID and the page 251. -/
theorem capped_speed :
    Quantity.speed.packed (hvcObdReadAll afterFast fun _ => 0) = 250 ∧
    obdPid afterFast.fuel 0x0D = 251 ∧
    loadWord afterFast.phys (obdShmemPa + BitVec.ofNat 64 (4 * Quantity.speed.word)) = 251 := by
  decide

end Obd

end HypervisorBase
