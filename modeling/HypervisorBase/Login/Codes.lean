import HypervisorBase.Crypto.Hmac
import HypervisorBase.Login.Model
/-!
# One-time codes and the secrets behind them

What the two checks of a login decide, in terms of the standards: the code
of a counter as RFC 4226 defines it (`hotpCode`), the codes that are good
at a given time (`InWindow`), and the password verifier (`IsPassword`).
-/

namespace HypervisorBase

namespace Login

open Crypto (HmacCtx Sha256Ctx hmacSha256 hmacVerify hmacVerify_iff take_eq_iff_getD length_hmac
  hmacVerify_eq_true)

/-! ## Secrets -/

section Device

variable [P : Provisioned]

theorem masterKey_pos : 0 < P.masterKey.length := by
  rw [P.masterKey_length]
  decide

/-- A derived secret is the start of a code of its label. -/
theorem vseDeriveSecret_eq (ctx : HmacCtx) (tmp : Sha256Ctx) (label : List U8) {len : ℕ}
    (hpos : 0 < len) (hle : len ≤ 32) :
    vseDeriveSecret ctx tmp label len = .ok ((Fips.hmac P.masterKey label).take len) := by
  have hguard : ¬(len = 0 ∨ vseMasterKeyLen < len) := by
    rw [vseMasterKeyLen]
    omega
  rw [vseDeriveSecret, if_neg hguard, Crypto.hmacSha256_eq ctx tmp masterKey_pos]
  rfl

/-- The device's pepper. -/
def pepper : List U8 := Fips.hmac P.masterKey loginPepperLabel

/-- The device's secret for one-time codes. -/
def hotpSecret : List U8 := (Fips.hmac P.masterKey hotpSecretLabel).take hotpSecretLen

theorem length_hotpSecret : hotpSecret.length = 20 := by
  rw [hotpSecret, List.length_take, length_hmac]
  rfl

/-- **The provisioned password.** -/
def IsPassword (w : List U8) : Prop := Fips.hmac pepper w = P.pwVerifier

/-- The password check is a comparison with the password. -/
theorem checkPassword_iff (ctx : HmacCtx) (tmp : Sha256Ctx) (pw : List U8) (len : ℕ) :
    checkPassword ctx tmp pw len = true ↔ IsPassword (pw.take len) := by
  have hpepper : vseDeriveSecret ctx tmp loginPepperLabel vseMasterKeyLen = .ok pepper := by
    rw [vseDeriveSecret_eq ctx tmp _ (by decide) (by decide), vseMasterKeyLen,
      List.take_of_length_le (by rw [length_hmac])]
    rfl
  have hkey : 0 < pepper.length := by
    rw [pepper, length_hmac]
    decide
  rw [checkPassword, hpepper]
  dsimp only
  rw [Crypto.hmacSha256_eq ctx tmp hkey]
  dsimp only
  rw [hmacVerify_eq_true P.pwVerifier_length (length_hmac _ _), IsPassword]
  exact eq_comm

end Device

/-! ## Codes (RFC 4226) -/

/-- A number in `n` decimal digits. -/
def decimal (n x : ℕ) : List U8 :=
  (List.range n).map fun i => BitVec.ofNat 8 (0x30 + x / 10 ^ (n - 1 - i) % 10)

/-- Four bytes at an offset as a number. -/
def bytes4 (l : List U8) (off : ℕ) : ℕ :=
  (l.getD off 0).toNat * 2 ^ 24 + (l.getD (off + 1) 0).toNat * 2 ^ 16 +
    (l.getD (off + 2) 0).toNat * 2 ^ 8 + (l.getD (off + 3) 0).toNat

/-- **The six-digit code of a counter value**: the 31 bits at the offset
that the last byte of the HMAC gives, modulo a million. -/
def hotpCode (secret : List U8) (counter : ℕ) : List U8 :=
  let mac := Fips.hmac secret (Fips.bigEndian 8 counter)
  decimal 6 (bytes4 mac ((mac.getD 31 0).toNat % 16) % 2 ^ 31 % 10 ^ 6)

theorem length_hotpCode (secret : List U8) (counter : ℕ) : (hotpCode secret counter).length = 6 := by
  simp [hotpCode, decimal]

/-- A digit of a code, as a character. -/
theorem hotpCode_digit {secret : List U8} {counter : ℕ} {c : U8} (h : c ∈ hotpCode secret counter) :
    0x30 ≤ c.toNat ∧ c.toNat ≤ 0x39 := by
  simp only [hotpCode, decimal, List.mem_map] at h
  obtain ⟨i, _, rfl⟩ := h
  rw [BitVec.toNat_ofNat]
  omega

theorem u64Be_eq (v : U64) : u64Be v = Fips.bigEndian 8 v.toNat := by
  have h := Crypto.putBits_eq v.toNat
  rw [BitVec.ofNat_toNat, BitVec.setWidth_eq] at h
  exact h

theorem pow10_six : (pow10 hotpDigits).toNat = 10 ^ 6 := by decide

/-- Dynamic truncation, as the standard has it. -/
theorem truncate_toNat (mac : List U8) :
    (truncate mac).toNat = bytes4 mac ((mac.getD 31 0).toNat % 16) % 2 ^ 31 := by
  have hoff : (mac.getD 31 0 &&& 0x0f).toNat = (mac.getD 31 0).toNat % 16 := by
    rw [BitVec.toNat_and]
    exact Nat.and_two_pow_sub_one_eq_mod _ 4
  rw [truncate, bytes4, hoff]
  obtain ⟨b₀, hb₀⟩ : ∃ b, b = mac.getD ((mac.getD 31 0).toNat % 16) 0 := ⟨_, rfl⟩
  obtain ⟨b₁, hb₁⟩ : ∃ b, b = mac.getD ((mac.getD 31 0).toNat % 16 + 1) 0 := ⟨_, rfl⟩
  obtain ⟨b₂, hb₂⟩ : ∃ b, b = mac.getD ((mac.getD 31 0).toNat % 16 + 2) 0 := ⟨_, rfl⟩
  obtain ⟨b₃, hb₃⟩ : ∃ b, b = mac.getD ((mac.getD 31 0).toNat % 16 + 3) 0 := ⟨_, rfl⟩
  rw [← hb₀, ← hb₁, ← hb₂, ← hb₃]
  have hmask : ∀ b : U8, b &&& 0xff = b := fun b => BitVec.and_allOnes
  have htop : (b₀ &&& 0x7f).toNat = b₀.toNat % 128 := by
    rw [BitVec.toNat_and]
    exact Nat.and_two_pow_sub_one_eq_mod _ 7
  rw [hmask, hmask, hmask]
  have h₀ := b₀.isLt
  have h₁ := b₁.isLt
  have h₂ := b₂.isLt
  have h₃ := b₃.isLt
  have e₀ := Crypto.toNat_byte_shift (b₀ &&& 0x7f) (show 24 ≤ 24 by decide)
  have e₁ := Crypto.toNat_byte_shift b₁ (show 16 ≤ 24 by decide)
  have e₂ := Crypto.toNat_byte_shift b₂ (show 8 ≤ 24 by decide)
  have e₃ : (b₃.setWidth 32).toNat = b₃.toNat := by
    rw [BitVec.toNat_setWidth]
    omega
  have s₁ := Word.toNat_or_of_lt (x := (b₀ &&& 0x7f).setWidth 32 <<< 24)
    (y := b₁.setWidth 32 <<< 16) (i := 24) (by omega) (by omega)
  have s₂ := Word.toNat_or_of_lt (x := (b₀ &&& 0x7f).setWidth 32 <<< 24 ||| b₁.setWidth 32 <<< 16)
    (y := b₂.setWidth 32 <<< 8) (i := 16) (by omega) (by omega)
  have s₃ := Word.toNat_or_of_lt
    (x := (b₀ &&& 0x7f).setWidth 32 <<< 24 ||| b₁.setWidth 32 <<< 16 ||| b₂.setWidth 32 <<< 8)
    (y := b₃.setWidth 32) (i := 8) (by omega) (by omega)
  rw [s₃, s₂, s₁, e₀, e₁, e₂, e₃, htop]
  omega

/-- The digits loop, by induction on the digits left. -/
theorem putDigits_eq (n : ℕ) (code : U32) : putDigits n code = decimal n code.toNat := by
  induction n generalizing code with
  | zero => rfl
  | succ n ih =>
    have hdiv : (code / 10).toNat = code.toNat / 10 := BitVec.toNat_udiv
    have hmod : (code % 10).toNat = code.toNat % 10 := BitVec.toNat_umod
    have hlast : (0x30 + code % 10).setWidth 8 = BitVec.ofNat 8 (0x30 + code.toNat / 10 ^ 0 % 10) := by
      apply BitVec.eq_of_toNat_eq
      rw [BitVec.toNat_setWidth, BitVec.toNat_add, hmod, BitVec.toNat_ofNat, Nat.pow_zero,
        Nat.div_one, show (0x30 : U32).toNat = 0x30 from rfl]
      omega
    rw [putDigits, ih, hdiv, hlast, decimal, decimal, List.range_succ, List.map_append,
      List.map_singleton]
    congr 1
    · refine List.map_congr_left fun i hi => ?_
      have hi := List.mem_range.mp hi
      have hexp : n + 1 - 1 - i = n - 1 - i + 1 := by omega
      rw [hexp, Nat.pow_succ, Nat.mul_comm, Nat.div_div_eq_div_mul]
    · rw [Nat.add_sub_cancel, Nat.sub_self]

section Device

variable [P : Provisioned]

/-- **The code of a counter** is the one of the standard. -/
theorem hotpCompute_eq (ctx : HmacCtx) (tmp : Sha256Ctx) (counter : U64) :
    hotpCompute ctx tmp counter (hotpDigits + 1) = .ok (hotpCode hotpSecret counter.toNat ++ [0]) := by
  have hkey : 0 < hotpSecret.length := by
    rw [length_hotpSecret]
    decide
  have hsecret : vseDeriveSecret ctx tmp hotpSecretLabel hotpSecretLen = .ok hotpSecret :=
    vseDeriveSecret_eq ctx tmp _ (by decide) (by decide)
  rw [hotpCompute, if_neg (Nat.lt_irrefl _), hsecret]
  dsimp only [bind, Except.bind]
  rw [Crypto.hmacSha256_eq ctx tmp hkey, u64Be_eq]
  dsimp only [pure, Except.pure]
  rw [putDigits_eq, BitVec.toNat_umod, pow10_six, truncate_toNat]
  rfl

/-- **The codes that are good at a time**: those of its step, of the step
before and of the step after. -/
def InWindow (now : ℕ) (code : List U8) : Prop :=
  ∃ step, (step + 1 = now / 30 ∨ step = now / 30 ∨ step = now / 30 + 1) ∧
    code = hotpCode hotpSecret step

theorem InWindow.length {now : ℕ} {code : List U8} (h : InWindow now code) : code.length = 6 := by
  obtain ⟨step, _, rfl⟩ := h
  exact length_hotpCode _ _

omit P in
/-- The steps `totp_verify` tries. -/
theorem mem_totpSteps (now step : U64) :
    step ∈ totpSteps now ↔ step.toNat + 1 = now.toNat / 30 ∨ step.toNat = now.toNat / 30 ∨
      step.toNat = now.toNat / 30 + 1 := by
  have hnow := now.isLt
  have ht : (now / totpStepS).toNat = now.toNat / 30 := BitVec.toNat_udiv
  obtain ⟨t, hteq⟩ : ∃ t, t = now / totpStepS := ⟨_, rfl⟩
  rw [← hteq] at ht
  have hsucc : (t + 1).toNat = t.toNat + 1 := by
    rw [BitVec.toNat_add, show (1 : U64).toNat = 1 from rfl]
    omega
  rw [totpSteps, ← hteq, ← ht]
  by_cases hpos : 0 < t
  · have hpred : (t - 1).toNat = t.toNat - 1 := by bv_omega
    have hposN : 0 < t.toNat := by simpa [BitVec.lt_def] using hpos
    simp only [if_pos hpos, List.cons_append, List.nil_append, List.mem_cons, List.not_mem_nil,
      or_false, ← BitVec.toNat_inj, hpred, hsucc]
    omega
  · have hzero : t.toNat = 0 := by
      have : ¬0 < t.toNat := by simpa [BitVec.lt_def] using hpos
      omega
    simp only [if_neg hpos, List.nil_append, List.mem_cons, List.not_mem_nil, or_false,
      ← BitVec.toNat_inj, hsucc]
    omega

/-- **`totp_verify` compares the first six bytes of its buffer** with each
of the good codes. -/
theorem totpVerify_iff (ctx : HmacCtx) (tmp : Sha256Ctx) {s : TotpState} (hs : s.initialized = true)
    (cntpct : U64) {candidate : List U8} (hlen : 6 ≤ candidate.length) :
    totpVerify ctx tmp s cntpct candidate = .ok ↔
      InWindow (rtcUnixNow s cntpct).toNat (candidate.take 6) := by
  have hstep : ∀ step : U64, hmacVerify (hotpCode hotpSecret step.toNat ++ [0]) candidate hotpDigits
      = true ↔ candidate.take 6 = hotpCode hotpSecret step.toNat := by
    intro step
    have hcode := length_hotpCode hotpSecret step.toNat
    rw [hmacVerify_iff, hotpDigits,
      ← take_eq_iff_getD (by rw [List.length_append]; omega) hlen, ← hcode, List.take_left, hcode]
    exact eq_comm
  rw [totpVerify, hs]
  simp only [Bool.not_true, Bool.false_eq_true, if_false, hotpCompute_eq]
  constructor
  · intro h
    split at h
    · rename_i hany
      obtain ⟨step, hmem, hver⟩ := List.any_eq_true.mp hany
      exact ⟨step.toNat, (mem_totpSteps _ _).mp hmem, (hstep step).mp hver⟩
    · cases h
  · rintro ⟨step, hwin, hcode⟩
    have hnow := (rtcUnixNow s cntpct).isLt
    have hnat : (BitVec.ofNat 64 step).toNat = step := by
      rw [BitVec.toNat_ofNat]
      omega
    rw [if_pos]
    refine List.any_eq_true.mpr ⟨BitVec.ofNat 64 step, (mem_totpSteps _ _).mpr ?_, (hstep _).mpr ?_⟩
    · rw [hnat]
      exact hwin
    · rw [hnat]
      exact hcode

end Device

end Login

end HypervisorBase
