import HypervisorBase.Common.Fields
import HypervisorBase.Hypercall.Dispatch
/-!
# The RTOS engine and its telemetry

The model of the fuel injection part of `guests/rtos/rtos.c`. The RTOS
steps its engine (`update_engine`), moves through a drive cycle
(`update_drive_cycle`) and every fifth slice packs the engine's values
into four registers for `HVC_FUEL_UPDATE` (`fuel_hvc_update`), without
masks. All values stay in a small range on every run (`InRange`), and so
in their fields, except for the injection count: it has 24 bits below the
fault code and is never reset. `telemetry_iff` says that the hypervisor's
fault code is right exactly while the count has not outgrown them, and
`phantom_trouble_code` that the main loop gets past them.
-/

namespace HypervisorBase

namespace Rtos

/-! ## The engine -/

/-- `drive_state_t`. -/
inductive DriveState
  | idle
  | accel
  | cruise
  | decel
  deriving DecidableEq

/-- The engine's static variables. -/
structure Engine where
  rpm : U32
  targetRpm : U32
  coolantC : U32
  throttle : U32
  injCount : U32
  seq : U32
  cylOk : Fin 4 → U8
  drive : DriveState
  driveTick : U32

/-- The cold start. -/
def Engine.start : Engine where
  rpm := 800
  targetRpm := 800
  coolantC := 20
  throttle := 5
  injCount := 0
  seq := 0
  cylOk := fun _ => 1
  drive := .idle
  driveTick := 0

/-- `update_drive_cycle`. -/
def updateDriveCycle (e : Engine) : Engine :=
  let e := { e with driveTick := e.driveTick + 1 }
  if e.driveTick < 5 then e
  else
    let e := { e with driveTick := 0 }
    match e.drive with
    | .idle => { e with drive := .accel, targetRpm := 3200, throttle := 45 }
    | .accel => { e with drive := .cruise, targetRpm := 2800, throttle := 30 }
    | .cruise => { e with drive := .decel, targetRpm := 1200, throttle := 10 }
    | .decel => { e with drive := .idle, targetRpm := 800, throttle := 5 }

/-- The ramping of `update_engine`: 200 a step towards the target. -/
def ramp (rpm target : U32) : U32 :=
  if rpm < target then
    if rpm + 200 > target then target else rpm + 200
  else if rpm > target then
    if rpm - 200 < target then target else rpm - 200
  else rpm

/-- The warm-up of `update_engine`. -/
def warm (coolantC : U32) : U32 := if coolantC < 95 then coolantC + 2 else coolantC

/-- `update_engine`. -/
def updateEngine (e : Engine) : Engine :=
  let e := { e with rpm := ramp e.rpm e.targetRpm }
  let e := { e with coolantC := warm e.coolantC }
  let e := { e with injCount := e.injCount + e.rpm * 8 / 600 }
  { e with cylOk := Function.update e.cylOk 2 (if e.coolantC < 40 ∧ e.rpm > 2000 then 0 else 1) }

/-- `calc_injection_us`. -/
def calcInjectionUs (e : Engine) : U32 :=
  let base := 800 + e.throttle * 68
  if e.coolantC < 60 then base * 120 / 100 else base

/-! ## The report -/

/-- `cyl_bits` of `fuel_hvc_update`. -/
def cylBits (e : Engine) : U64 :=
  (e.cylOk 0).setWidth 64 ||| (e.cylOk 1).setWidth 64 <<< 1 ||| (e.cylOk 2).setWidth 64 <<< 2 |||
    (e.cylOk 3).setWidth 64 <<< 3

/-- `fault` of `fuel_hvc_update`: P0300, a misfire. -/
def fault (e : Engine) : U64 := if e.cylOk 2 = 0 then 0x0300 else 0

/-- `lambda` of `fuel_hvc_update`. -/
def lambda (e : Engine) : U32 := 98 + e.rpm % 6

/-- `map_kpa` of `fuel_hvc_update`. -/
def mapKpa (e : Engine) : U32 := 35 + e.throttle * 65 / 100

/-- The registers of `hvc_call`; the others are as the guest left them. -/
def hvcCall (x : Hypercall.Regs) (id : U32) (a1 a2 a3 a4 : U64) : Hypercall.Regs :=
  let x := Function.update x 0 (id.setWidth 64)
  let x := Function.update x 1 a1
  let x := Function.update x 2 a2
  let x := Function.update x 3 a3
  Function.update x 4 a4

/-- `fuel_hvc_update`: the engine afterwards and the registers of the
hypercall. -/
def fuelHvcUpdate (e : Engine) (injUs : U32) (x : Hypercall.Regs) : Engine × Hypercall.Regs :=
  let x1 := e.rpm.setWidth 64 ||| injUs.setWidth 64 <<< 16 ||| e.coolantC.setWidth 64 <<< 32 |||
    e.throttle.setWidth 64 <<< 48
  let x2 := cylBits e ||| e.injCount.setWidth 64 <<< 8 ||| fault e <<< 32
  let lambda : U64 := (lambda e).setWidth 64
  let e := { e with seq := e.seq + 1 }
  let x3 := e.seq.setWidth 64 ||| lambda <<< 32
  let x4 : U64 := (mapKpa e).setWidth 64
  (e, hvcCall x 0x0060 x1 x2 x3 x4)

/-- What the main loop does with the engine. -/
inductive EngineOp
  | engine
  | driveCycle
  | report
  deriving DecidableEq

def engineStep (e : Engine) : EngineOp → Engine
  | .engine => updateEngine e
  | .driveCycle => updateDriveCycle e
  | .report => (fuelHvcUpdate e (calcInjectionUs e) fun _ => 0).1

/-- One iteration of `rtos_main`: a slice of work, and in every fifth a
step of the drive cycle and a report. -/
def iteration (iter : ℕ) : List EngineOp :=
  if iter % 5 = 0 then [.engine, .driveCycle, .report] else [.engine]

/-- The first `n` iterations of `rtos_main`. -/
def rtosMain (n : ℕ) : List EngineOp := (List.range n).flatMap fun i => iteration (i + 1)

/-! ## What stays in range -/

/-- **The values stay in range.** Only `injCount` and `seq` are free. -/
structure InRange (e : Engine) : Prop where
  rpm_ge : 800 ≤ e.rpm.toNat
  rpm_le : e.rpm.toNat ≤ 3200
  target_ge : 800 ≤ e.targetRpm.toNat
  target_le : e.targetRpm.toNat ≤ 3200
  throttle_le : e.throttle.toNat ≤ 45
  coolant_le : e.coolantC.toNat ≤ 96
  cyl : ∀ i, i ≠ 2 → e.cylOk i = 1
  misfire : e.cylOk 2 = if e.coolantC < 40 ∧ e.rpm > 2000 then 0 else 1

theorem inRange_start : InRange .start where
  rpm_ge := by decide
  rpm_le := by decide
  target_ge := by decide
  target_le := by decide
  throttle_le := by decide
  coolant_le := by decide
  cyl := fun _ _ => rfl
  misfire := by decide

/-- The ramp does not overshoot, upwards or downwards. -/
theorem ramp_range {rpm target : U32} (hge : 800 ≤ rpm.toNat) (hle : rpm.toNat ≤ 3200)
    (hge' : 800 ≤ target.toNat) (hle' : target.toNat ≤ 3200) :
    800 ≤ (ramp rpm target).toNat ∧ (ramp rpm target).toNat ≤ 3200 := by
  unfold ramp
  split_ifs <;> bv_omega

theorem warm_range {coolantC : U32} (hle : coolantC.toNat ≤ 96) :
    min 95 (coolantC.toNat + 2) ≤ (warm coolantC).toNat ∧ (warm coolantC).toNat ≤ 96 := by
  unfold warm
  split_ifs <;> bv_omega

variable {e e' e'' : Engine}

namespace InRange

theorem ramp (hr : InRange e) :
    800 ≤ (updateEngine e).rpm.toNat ∧ (updateEngine e).rpm.toNat ≤ 3200 :=
  ramp_range hr.rpm_ge hr.rpm_le hr.target_ge hr.target_le

/-- **A step of the model stays within its ranges.** -/
theorem updateEngine (hr : InRange e) : InRange (updateEngine e) where
  rpm_ge := hr.ramp.1
  rpm_le := hr.ramp.2
  target_ge := hr.target_ge
  target_le := hr.target_le
  throttle_le := hr.throttle_le
  coolant_le := (warm_range hr.coolant_le).2
  cyl := fun i hi => (Function.update_of_ne hi _ _).trans (hr.cyl i hi)
  misfire := Function.update_self (2 : Fin 4) _ e.cylOk

theorem setPhase (hr : InRange e) {t r : U32} (hge : 800 ≤ t.toNat) (hle : t.toNat ≤ 3200)
    (hthrottle : r.toNat ≤ 45) (d : DriveState) (n : U32) :
    InRange { e with targetRpm := t, throttle := r, drive := d, driveTick := n } :=
  { hr with target_ge := hge, target_le := hle, throttle_le := hthrottle }

theorem updateDriveCycle (hr : InRange e) : InRange (updateDriveCycle e) := by
  unfold Rtos.updateDriveCycle
  dsimp only
  split
  · exact { hr with }
  · cases e.drive with
    | idle => exact hr.setPhase (by decide) (by decide) (by decide) ..
    | accel => exact hr.setPhase (by decide) (by decide) (by decide) ..
    | cruise => exact hr.setPhase (by decide) (by decide) (by decide) ..
    | decel => exact hr.setPhase (by decide) (by decide) (by decide) ..

theorem step (hr : InRange e) (op : EngineOp) : InRange (engineStep e op) := by
  cases op with
  | engine => exact hr.updateEngine
  | driveCycle => exact hr.updateDriveCycle
  | report => exact { hr with }

/-- **Every run stays in range.** -/
theorem run (hr : InRange e) (ops : List EngineOp) : InRange (ops.foldl engineStep e) := by
  induction ops generalizing e with
  | nil => exact hr
  | cons op ops ih => exact ih (hr.step op)

theorem rpm_lt (hr : InRange e) : e.rpm.toNat < 2 ^ 16 := Nat.lt_of_le_of_lt hr.rpm_le (by decide)

theorem coolant_lt (hr : InRange e) : e.coolantC.toNat < 2 ^ 16 :=
  Nat.lt_of_le_of_lt hr.coolant_le (by decide)

theorem throttle_lt (hr : InRange e) : e.throttle.toNat < 2 ^ 16 :=
  Nat.lt_of_le_of_lt hr.throttle_le (by decide)

/-- The injection time fits its field. -/
theorem calcInjectionUs_lt (hr : InRange e) : (calcInjectionUs e).toNat < 2 ^ 16 := by
  have hle := hr.throttle_le
  have hbase : (800 + e.throttle * 68).toNat = 800 + e.throttle.toNat * 68 := by bv_omega
  have hrich : ((800 + e.throttle * 68) * 120).toNat = (800 + e.throttle.toNat * 68) * 120 := by
    bv_omega
  unfold calcInjectionUs
  dsimp only
  split_ifs
  · rw [BitVec.toNat_udiv, hrich]
    change _ / 100 < _
    omega
  · omega

theorem mapKpa_lt (hr : InRange e) : (mapKpa e).toNat < 2 ^ 16 := by
  have hle := hr.throttle_le
  have hscale : (e.throttle * 65).toNat = e.throttle.toNat * 65 := by bv_omega
  have hpart : (e.throttle * 65 / 100).toNat ≤ 29 := by
    rw [BitVec.toNat_udiv, hscale]
    change _ / 100 ≤ _
    omega
  unfold mapKpa
  generalize e.throttle * 65 / 100 = part at hpart
  bv_omega

/-- Only the third cylinder ever misfires. -/
theorem cylBits_lt (hr : InRange e) : (cylBits e).toNat < 2 ^ 4 := by
  unfold cylBits
  rw [hr.cyl 0 (by decide), hr.cyl 1 (by decide), hr.cyl 3 (by decide), hr.misfire]
  split_ifs <;> decide

end InRange

theorem lambda_lt (e : Engine) : (lambda e).toNat < 2 ^ 16 := by
  have hmod : (e.rpm % 6).toNat < 6 := Nat.mod_lt _ (by decide)
  unfold lambda
  bv_omega

theorem fault_cases (e : Engine) : fault e = 0x0300 ∨ fault e = 0 := by
  unfold fault
  split
  · exact .inl rfl
  · exact .inr rfl

theorem fault_lt (e : Engine) : (fault e).toNat < 2 ^ 16 := by
  rcases fault_cases e with hf | hf
  · rw [hf]
    decide
  · rw [hf]
    decide

/-! ## What arrives -/

/-- A 32-bit value in its place. -/
def part (lo width : ℕ) (v : U32) (hv : v.toNat < 2 ^ width) : Part 64 where
  lo := lo
  width := width
  val := v.setWidth 64
  fits := by rwa [BitVec.toNat_setWidth_of_le (by decide)]

/-- The hypervisor's fields are slices. -/
theorem field_eq (x : U64) (lo : ℕ) {k : ℕ} {mask : U64} (hmask : mask = BitVec.ofNat 64 (2 ^ k - 1)) :
    Hypercall.field x lo mask = (slice x lo k).setWidth 32 := by
  rw [hmask]
  rfl

/-- **A value with its place to itself arrives.** -/
theorem field_pack {ps : List (Part 64)} {lo k : ℕ} {mask : U64} {v : U32} (hv : v.toNat < 2 ^ k)
    (hmask : mask = BitVec.ofNat 64 (2 ^ k - 1))
    (hone : (ps.filter fun q => ¬ q.Apart lo k) = [part lo k v hv]) (hw : lo + k ≤ 64) :
    Hypercall.field (pack ps) lo mask = v := by
  have hown : slice (pack ps) lo k = v.setWidth 64 := slice_pack_own (p := part lo k v hv) hone hw
  rw [field_eq _ _ hmask, hown, BitVec.setWidth_setWidth_of_le _ (by decide), BitVec.setWidth_eq]

/-- A field is no wider than the 32 bits it is kept in. -/
theorem toNat_field (x : U64) (lo : ℕ) {k : ℕ} {mask : U64} (hk : k ≤ 32)
    (hmask : mask = BitVec.ofNat 64 (2 ^ k - 1)) :
    (Hypercall.field x lo mask).toNat = (slice x lo k).toNat := by
  have hlt : x.toNat / 2 ^ lo % 2 ^ k < 2 ^ k := Nat.mod_lt _ (Nat.two_pow_pos k)
  have hle : 2 ^ k ≤ 2 ^ 32 := Nat.pow_le_pow_right (by decide) hk
  rw [field_eq _ _ hmask, BitVec.toNat_setWidth, toNat_slice x lo (by omega),
    Nat.mod_eq_of_lt (by omega)]

/-! A report changes nothing of what it reports but the sequence number. -/

section Sent

variable (e : Engine) (injUs : U32) (x : Hypercall.Regs)

theorem cylBits_sent : cylBits (fuelHvcUpdate e injUs x).1 = cylBits e := by
  unfold cylBits
  rfl

theorem fault_sent : fault (fuelHvcUpdate e injUs x).1 = fault e := by
  unfold fault
  rfl

theorem lambda_sent : lambda (fuelHvcUpdate e injUs x).1 = lambda e := by
  unfold lambda
  rfl

theorem mapKpa_sent : mapKpa (fuelHvcUpdate e injUs x).1 = mapKpa e := by
  unfold mapKpa
  rfl

end Sent

/-- The decoded state is the engine's, whose injection time is `injUs`. -/
structure Reports (e : Engine) (injUs : U32) (f : FuelState) : Prop where
  rpm : f.rpm = e.rpm
  injectionUs : f.injectionUs = injUs
  coolantC : f.coolantC = e.coolantC
  throttlePct : f.throttlePct = e.throttle
  cylStatus : f.cylStatus.toNat = (cylBits e).toNat
  faultCode : f.faultCode.toNat = (fault e).toNat
  seq : f.seq = e.seq
  lambdaX100 : f.lambdaX100 = lambda e
  mapKpa : f.mapKpa = mapKpa e
  injCount : f.injCount.toNat = e.injCount.toNat % 2 ^ 24

/-- The state the hypervisor has after a report. -/
def received (e : Engine) (h : Hyp) (x : Hypercall.Regs) : FuelState :=
  (Hypercall.hvcFuelUpdate h (fuelHvcUpdate e (calcInjectionUs e) x).2).2.fuel

/-- The parts of `x1`. -/
def parts1 (hr : InRange e) : List (Part 64) :=
  [part 0 16 e.rpm hr.rpm_lt, part 16 16 (calcInjectionUs e) hr.calcInjectionUs_lt,
    part 32 16 e.coolantC hr.coolant_lt, part 48 16 e.throttle hr.throttle_lt]

/-- The parts of `x2`. The second reaches into the third. -/
def parts2 (hr : InRange e) : List (Part 64) :=
  [⟨0, 4, cylBits e, hr.cylBits_lt⟩, part 8 32 e.injCount e.injCount.isLt, ⟨32, 16, fault e, fault_lt e⟩]

/-- The parts of `x3`. -/
def parts3 (e : Engine) : List (Part 64) :=
  [part 0 32 (e.seq + 1) (e.seq + 1).isLt, part 32 16 (lambda e) (lambda_lt e)]

/-- The parts of `x4`. -/
def parts4 (hr : InRange e) : List (Part 64) := [part 0 16 (mapKpa e) hr.mapKpa_lt]

theorem received_eq (hr : InRange e) (h : Hyp) (x : Hypercall.Regs) : received e h x =
    Hypercall.decodeFuel (pack (parts1 hr)) (pack (parts2 hr)) (pack (parts3 e)) (pack (parts4 hr)) := by
  simp only [parts1, parts2, parts3, parts4, pack_cons, pack_nil, Part.word, part, BitVec.or_zero,
    BitVec.shiftLeft_zero, ← BitVec.or_assoc]
  rfl

/-- **The fault code that arrives** is the engine's plus what the
injection count has above its 24 bits. -/
theorem toNat_faultCode (hr : InRange e) : (Hypercall.field (pack (parts2 hr)) 32 0xFFFF).toNat =
    (fault e).toNat + e.injCount.toNat / 2 ^ 24 := by
  have hcount := e.injCount.isLt
  -- the window of the fault code has two parts in it
  let count : Part 64 := part 8 32 e.injCount e.injCount.isLt
  let code : Part 64 := ⟨32, 16, fault e, fault_lt e⟩
  have hin : slice count.word 32 16 = slice (e.injCount.setWidth 64) 24 16 :=
    Part.slice_word (p := count) (m := 24) (show 8 + 24 + 16 ≤ 64 by decide)
  have hcode : slice code.word 32 16 = fault e :=
    (Part.slice_word (p := code) (m := 0) (show 32 + 0 + 16 ≤ 64 by decide)).trans
      (slice_eq_self (fault_lt e))
  have hreach : slice (pack (parts2 hr)) 32 16 =
      slice (e.injCount.setWidth 64) 24 16 ||| fault e := by
    rw [slice_pack_filter, ← hin]
    change slice (pack [count, code]) 32 16 = _
    rw [pack_cons, pack_cons, pack_nil, BitVec.or_zero, slice_or, hcode]
  have hhigh : (slice (e.injCount.setWidth 64) 24 16 : U64).toNat = e.injCount.toNat / 2 ^ 24 := by
    rw [toNat_slice _ _ (by decide), BitVec.toNat_setWidth_of_le (by decide)]
    omega
  have hlow : (fault e).toNat % 2 ^ 8 = 0 := by
    rcases fault_cases e with hf | hf
    · rw [hf]
      rfl
    · rw [hf]
      rfl
  refine (toNat_field _ _ (k := 16) (by decide) rfl).trans ?_
  rw [hreach, BitVec.or_comm, Word.toNat_or_of_lt hlow, hhigh]
  omega

/-- **The cylinder bits arrive.** -/
theorem toNat_cylStatus (hr : InRange e) :
    (Hypercall.field (pack (parts2 hr)) 0 0xF).toNat = (cylBits e).toNat := by
  let bits : Part 64 := ⟨0, 4, cylBits e, hr.cylBits_lt⟩
  have hown : slice (pack (parts2 hr)) 0 4 = cylBits e :=
    slice_pack_own (p := bits) rfl (show 0 + 4 ≤ 64 by decide)
  refine (toNat_field _ _ (k := 4) (by decide) rfl).trans ?_
  rw [hown]

/-- **The low 24 bits of the injection count arrive.** -/
theorem toNat_injCount (hr : InRange e) :
    (Hypercall.field (pack (parts2 hr)) 8 0xFFFFFF).toNat = e.injCount.toNat % 2 ^ 24 := by
  let count : Part 64 := part 8 32 e.injCount e.injCount.isLt
  have hone : slice (pack (parts2 hr)) 8 24 = slice (e.injCount.setWidth 64) 0 24 :=
    slice_pack_one (p := count) rfl (show 8 + 24 ≤ 64 by decide)
  refine (toNat_field _ _ (k := 24) (by decide) rfl).trans ?_
  rw [hone, toNat_slice _ _ (by decide),
    BitVec.toNat_setWidth_of_le (by decide), Nat.pow_zero, Nat.div_one]

/-- **All but the fault code always arrives**, and the fault code as long
as the injection count fits below it. -/
theorem reports_iff (hr : InRange e) (h : Hyp) (x : Hypercall.Regs) :
    Reports (fuelHvcUpdate e (calcInjectionUs e) x).1 (calcInjectionUs e) (received e h x) ↔
      e.injCount.toNat < 2 ^ 24 := by
  rw [received_eq hr]
  constructor
  · intro hreport
    have hsame := (toNat_faultCode hr).symm.trans hreport.faultCode
    rw [fault_sent] at hsame
    omega
  · intro hfits
    have hnone : (fault e).toNat + e.injCount.toNat / 2 ^ 24 = (fault e).toNat := by omega
    exact {
      rpm := field_pack hr.rpm_lt rfl rfl (by decide)
      injectionUs := field_pack hr.calcInjectionUs_lt rfl rfl (by decide)
      coolantC := field_pack hr.coolant_lt rfl rfl (by decide)
      throttlePct := field_pack hr.throttle_lt rfl rfl (by decide)
      cylStatus := (cylBits_sent e _ x).symm ▸ toNat_cylStatus hr
      faultCode := (fault_sent e _ x).symm ▸ (toNat_faultCode hr).trans hnone
      seq := field_pack (e.seq + 1).isLt rfl rfl (by decide)
      lambdaX100 := (lambda_sent e _ x).symm ▸ field_pack (lambda_lt e) rfl rfl (by decide)
      mapKpa := (mapKpa_sent e _ x).symm ▸ field_pack hr.mapKpa_lt rfl rfl (by decide)
      injCount := toNat_injCount hr }

/-! ## How the count grows -/

/-- **What `k` steps of the engine do**, at least and at most. -/
structure After (k : ℕ) (e e' : Engine) : Prop where
  coolant : min 95 (e.coolantC.toNat + 2 * k) ≤ e'.coolantC.toNat
  count : e.injCount.toNat + 42 * k < 2 ^ 32 →
    e.injCount.toNat + 10 * k ≤ e'.injCount.toNat ∧ e'.injCount.toNat ≤ e.injCount.toNat + 42 * k

namespace After

theorem of_same (hcoolant : e'.coolantC = e.coolantC) (hcount : e'.injCount = e.injCount) :
    After 0 e e' where
  coolant := by
    rw [hcoolant]
    omega
  count := by
    rw [hcount]
    omega

theorem trans {k m : ℕ} (h : After k e e') (h' : After m e' e'') : After (k + m) e e'' where
  coolant := by
    have hk := h.coolant
    have hm := h'.coolant
    omega
  count := by
    intro hfits
    have hk := h.count (by omega)
    have hm := h'.count (by omega)
    omega

/-- Between 800 and 3200 revolutions there are 10 to 42 injections in
100 ms. -/
theorem updateEngine (hr : InRange e) : After 1 e (updateEngine e) where
  coolant := (warm_range hr.coolant_le).1
  count := by
    intro hfits
    obtain ⟨hge, hle⟩ := hr.ramp
    have hmul : ((Rtos.updateEngine e).rpm * 8).toNat = (Rtos.updateEngine e).rpm.toNat * 8 := by bv_omega
    have hinj : ((Rtos.updateEngine e).rpm * 8 / 600).toNat = (Rtos.updateEngine e).rpm.toNat * 8 / 600 := by
      rw [BitVec.toNat_udiv, hmul]
      rfl
    have hsum : (Rtos.updateEngine e).injCount.toNat =
        (e.injCount.toNat + ((Rtos.updateEngine e).rpm * 8 / 600).toNat) % 2 ^ 32 :=
      BitVec.toNat_add ..
    rw [hinj] at hsum
    omega

theorem updateDriveCycle : After 0 e (updateDriveCycle e) := by
  unfold Rtos.updateDriveCycle
  dsimp only
  split
  · exact of_same rfl rfl
  · cases e.drive <;> exact of_same rfl rfl

end After

/-- The steps of the engine in a run. -/
def slices (ops : List EngineOp) : ℕ := ops.count .engine

theorem after_step (hr : InRange e) (op : EngineOp) : After (slices [op]) e (engineStep e op) := by
  cases op with
  | engine => exact .updateEngine hr
  | driveCycle => exact .updateDriveCycle
  | report => exact .of_same rfl rfl

/-- **Over any run**, the engine warms up and the count grows with its steps. -/
theorem after_run (hr : InRange e) (ops : List EngineOp) :
    After (slices ops) e (ops.foldl engineStep e) := by
  induction ops generalizing e with
  | nil => exact .of_same rfl rfl
  | cons op ops ih =>
    have hsplit : slices ([op] ++ ops) = slices [op] + slices ops := List.count_append
    rw [List.cons_append, List.nil_append] at hsplit
    rw [hsplit]
    exact (after_step hr op).trans (ih (hr.step op))

theorem slices_iteration (iter : ℕ) : slices (iteration iter) = 1 := by
  unfold iteration
  split <;> rfl

theorem slices_rtosMain (n : ℕ) : slices (rtosMain n) = n := by
  induction n with
  | zero => rfl
  | succ n ih =>
    have hsplit : rtosMain (n + 1) = rtosMain n ++ iteration (n + 1) := by
      unfold rtosMain
      rw [List.range_succ, List.flatMap_append, List.flatMap_singleton]
    rw [hsplit]
    unfold slices at ih ⊢
    rw [List.count_append, ih]
    exact congrArg _ (slices_iteration (n + 1))

/-! ## The telemetry -/

section Telemetry

variable [P : PtPool]

theorem hvcDispatch_fuel (h : Hyp) {x : Hypercall.Regs} (hx : x 0 = 0x0060) :
    Hypercall.hvcDispatch h x = some (Hypercall.hvcFuelUpdate h x) := by
  unfold Hypercall.hvcDispatch Hypercall.hvcCall
  rw [hx]
  rfl

/-- **Telemetry survives transport**, in every state the RTOS reaches,
exactly as long as the injection count is below `2 ^ 24`. -/
theorem telemetry_iff (h : Hyp) (ops : List EngineOp) (x : Hypercall.Regs) :
    let e := ops.foldl engineStep .start
    let sent := fuelHvcUpdate e (calcInjectionUs e) x
    ∃ x' h', Hypercall.hvcDispatch h sent.2 = some (x', h') ∧
      (Reports sent.1 (calcInjectionUs e) h'.fuel ↔ e.injCount.toNat < 2 ^ 24) := by
  intro e sent
  have hr : InRange e := inRange_start.run ops
  exact ⟨_, _, hvcDispatch_fuel h rfl, reports_iff hr h x⟩

end Telemetry

/-- **A phantom trouble code**: once the count has outgrown its bits, the
hypervisor reports a fault of an engine that runs warm. -/
theorem dtcCount_of_outgrown (hr : InRange e) (hwarm : 40 ≤ e.coolantC.toNat)
    (hcount : 2 ^ 24 ≤ e.injCount.toNat) (h : Hyp) (x : Hypercall.Regs) :
    fault e = 0 ∧ Hypercall.dtcCount (received e h x) = 1 := by
  have hnotCold : ¬ (e.coolantC < 40 ∧ e.rpm > 2000) := by
    rintro ⟨hcold, -⟩
    have hlt : e.coolantC.toNat < 40 := hcold
    omega
  have hfires : e.cylOk 2 = 1 := by rw [hr.misfire, if_neg hnotCold]
  have hfault : fault e = 0 := by
    unfold fault
    rw [hfires]
    rfl
  have hcode : (received e h x).faultCode.toNat = (fault e).toNat + e.injCount.toNat / 2 ^ 24 := by
    rw [received_eq hr]
    exact toNat_faultCode hr
  refine ⟨hfault, if_pos fun hnone => ?_⟩
  rw [hnone, hfault] at hcode
  change 0 = 0 + _ at hcode
  omega

/-- The report of the main loop's iteration 1677725, some two days after
the cold start: no cylinder misfires, and the hypervisor reports a
trouble code. -/
theorem phantom_trouble_code :
    let h := Hyp.blank
    let e := (rtosMain 1677724 ++ [EngineOp.engine, .driveCycle]).foldl engineStep .start
    fault e = 0 ∧ Hypercall.dtcCount (received e h fun _ => 0) = 1 ∧
      ¬ Reports (fuelHvcUpdate e (calcInjectionUs e) fun _ => 0).1 (calcInjectionUs e)
        (received e h fun _ => 0) := by
  intro h e
  have hslices : slices (rtosMain 1677724 ++ [.engine, .driveCycle]) = 1677725 := by
    have hmain := slices_rtosMain 1677724
    unfold slices at hmain ⊢
    rw [List.count_append, hmain]
    rfl
  have hr : InRange e := inRange_start.run _
  have hafter : After (slices (rtosMain 1677724 ++ [.engine, .driveCycle])) .start e :=
    after_run inRange_start _
  rw [hslices] at hafter
  clear_value e
  have hcoolant : Engine.start.coolantC.toNat = 20 := rfl
  have hzero : Engine.start.injCount.toNat = 0 := rfl
  have hwarm := hafter.coolant
  have hcount := hafter.count (by omega)
  obtain ⟨hfault, hdtc⟩ := dtcCount_of_outgrown hr (by omega) (by omega) h fun _ => 0
  refine ⟨hfault, hdtc, fun hreport => ?_⟩
  have hfits := (reports_iff hr h _).mp hreport
  omega

end Rtos

end HypervisorBase
