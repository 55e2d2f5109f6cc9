import HypervisorBase.Login.Codes
import Mathlib.Data.Nat.Digits.Lemmas
/-!
# The operator's tool

The model of `scripts/totp_gen.py`, with which an operator computes the
code for a login, and its agreement with the hypervisor: the same secret,
the same code for every counter value, and a code that is accepted in the
step it was computed for and in the two next to it. What the tool takes
from the Python library is `hmac` with SHA-256, the big-endian formats of
`struct`, and the decimal formatting of a number; where these raise an
exception the tool is at `none`. Its numbers are unbounded, and negative
ones are possible.
-/

namespace HypervisorBase

namespace Login

open Crypto (HmacCtx Sha256Ctx hmacSha256 length_hmac)

namespace Tool

/-! ## The tool -/

/-- `DEV_MASTER_KEY`. -/
def devMasterKey : List U8 :=
  [0xa3, 0x7f, 0x2c, 0x91, 0xd4, 0x58, 0xbe, 0x06, 0x1e, 0x82, 0x4a, 0xf3, 0x70, 0xc9, 0x55, 0x3d,
   0x08, 0xb1, 0xe7, 0x6f, 0x29, 0xda, 0x44, 0x9c, 0x87, 0x5e, 0x13, 0xab, 0xfc, 0x60, 0x2b, 0x77]

/-- `HOTP_SECRET_LABEL`. -/
def hotpSecretLabel : List U8 := ascii "vse-hotp-secret-v1"

def deriveSecret (label : List U8) (length : ℕ) (masterKey : List U8) : List U8 :=
  (Fips.hmac masterKey label).take length

/-- `SECRET`. The command line uses it whatever `--master-key` is. -/
def secret : List U8 := deriveSecret hotpSecretLabel 20 devMasterKey

/-- `DIGITS`. -/
def digits : ℕ := 6

/-- `STEP_S`. -/
def stepS : ℤ := 30

/-- `struct.pack(">Q", n)`, which raises for a number out of range. -/
def packQ (n : ℤ) : Option (List U8) :=
  if 0 ≤ n ∧ n < 2 ^ 64 then some (Fips.bigEndian 8 n.toNat) else none

/-- `struct.unpack(">I", b)[0]`, which raises unless there are four bytes. -/
def unpackI : List U8 → Option ℕ
  | [a, b, c, d] => some (a.toNat * 2 ^ 24 + b.toNat * 2 ^ 16 + c.toNat * 2 ^ 8 + d.toNat)
  | _ => none

/-- The character of a digit. -/
def digitChar (d : ℕ) : U8 := BitVec.ofNat 8 (0x30 + d)

/-- A number in decimal, as `format` writes it. -/
def str (n : ℕ) : List U8 :=
  if n = 0 then [digitChar 0] else ((Nat.digits 10 n).map digitChar).reverse

/-- `f"{n:0{width}d}"`. -/
def zeroPadded (width n : ℕ) : List U8 :=
  List.replicate (width - (str n).length) (digitChar 0) ++ str n

def hotp (secret : List U8) (counter : ℤ) : Option (List U8) := do
  let msg ← packQ counter
  let mac := Fips.hmac secret msg
  let last ← mac.getLast?
  let off := (last &&& 0x0f).toNat
  let bincode ← unpackI ((mac.take (off + 4)).drop off)
  pure (zeroPadded digits ((bincode &&& 0x7fffffff) % 10 ^ digits))

def totp (secret : List U8) (unixTime : ℤ) : Option (ℤ × List U8) :=
  let t := unixTime / stepS
  (hotp secret t).map fun code => (t, code)

/-! ## Decimal digits -/

/-- The digits of a number, filled up with zeros, are its remainders. -/
theorem digits_append_zeros {width n : ℕ} (hn : n < 10 ^ width) :
    Nat.digits 10 n ++ List.replicate (width - (Nat.digits 10 n).length) 0 =
      (List.range width).map fun i => n / 10 ^ i % 10 := by
  have hlen : (Nat.digits 10 n).length ≤ width := (Nat.digits_length_le_iff (by decide) n).mpr hn
  apply List.ext_getElem?
  intro i
  have hdigit := Nat.getD_digits n i (show 2 ≤ 10 by decide)
  by_cases hi : i < (Nat.digits 10 n).length
  · rw [List.getElem?_append_left hi, List.getElem?_map, List.getElem?_range (by omega),
      Option.map_some, ← hdigit, List.getD_eq_getElem?_getD, List.getElem?_eq_getElem hi]
    rfl
  · rw [List.getElem?_append_right (by omega)]
    by_cases hw : i < width
    · -- beyond the last digit
      rw [List.getD_eq_default _ _ (by omega)] at hdigit
      rw [List.getElem?_map, List.getElem?_range hw, Option.map_some, ← hdigit,
        List.getElem?_replicate, if_pos (by omega)]
    · rw [List.getElem?_eq_none (by rw [List.length_replicate]; omega),
        List.getElem?_eq_none (by rw [List.length_map, List.length_range]; omega)]

theorem decimal_eq (width n : ℕ) :
    decimal width n = ((List.range width).map fun i => digitChar (n / 10 ^ i % 10)).reverse := by
  apply List.ext_getElem
  · simp [decimal]
  · intro i _ _
    simp [decimal, digitChar]

/-- **The format of the tool is the digits of a code.** -/
theorem zeroPadded_eq {width n : ℕ} (hw : 0 < width) (hn : n < 10 ^ width) :
    zeroPadded width n = decimal width n := by
  have hdigits := congrArg (List.map digitChar) (digits_append_zeros hn)
  rw [List.map_append, List.map_replicate, List.map_map] at hdigits
  have hrev : List.replicate (width - (Nat.digits 10 n).length) (digitChar 0) ++
      ((Nat.digits 10 n).map digitChar).reverse = decimal width n := by
    rw [decimal_eq]
    refine Eq.trans ?_ (congrArg List.reverse hdigits)
    rw [List.reverse_append, List.reverse_replicate]
  rw [← hrev, zeroPadded, str]
  split
  · -- zero has one digit here and none there
    rename_i hzero
    obtain ⟨w, rfl⟩ : ∃ w, width = w + 1 := ⟨width - 1, by omega⟩
    rw [hzero, Nat.digits_zero]
    simp [List.replicate_succ']
  · rw [List.length_reverse, List.length_map]

/-! ## The same code -/

theorem packQ_natCast {n : ℕ} (hn : n < 2 ^ 64) : packQ n = some (Fips.bigEndian 8 n) := by
  unfold packQ
  rw [if_pos (by omega), Int.toNat_natCast]

/-- The last byte gives an index that leaves room for four bytes. -/
theorem truncation_index {mac : List U8} (hmac : mac.length = 32) :
    (mac.getD 31 0 &&& 0x0f).toNat + 3 < mac.length := by
  have hoff : (mac.getD 31 0 &&& 0x0f).toNat = (mac.getD 31 0).toNat % 16 := by
    rw [BitVec.toNat_and]
    exact Nat.and_two_pow_sub_one_eq_mod _ 4
  omega

theorem getLast?_mac {mac : List U8} (hmac : mac.length = 32) : mac.getLast? = some (mac.getD 31 0) := by
  rw [List.getLast?_eq_getElem?, hmac, List.getD_eq_getElem?_getD,
    List.getElem?_eq_getElem (show 31 < mac.length by omega)]
  rfl

/-- **The four bytes** that the tool slices are the ones the hypervisor
adds up. -/
theorem unpackI_slice {l : List U8} {off : ℕ} (hoff : off + 3 < l.length) :
    unpackI ((l.take (off + 4)).drop off) = some (bytes4 l off) := by
  have hget : ∀ k, (hk : k < l.length) → l.getD k 0 = l[k] := by
    intro k hk
    rw [List.getD_eq_getElem?_getD, List.getElem?_eq_getElem hk]
    rfl
  have hslice : (l.take (off + 4)).drop off =
      [l.getD off 0, l.getD (off + 1) 0, l.getD (off + 2) 0, l.getD (off + 3) 0] := by
    rw [List.drop_take, Nat.add_sub_cancel_left, List.drop_eq_getElem_cons (by omega),
      List.drop_eq_getElem_cons (by omega), List.drop_eq_getElem_cons (by omega),
      List.drop_eq_getElem_cons (by omega), hget off (by omega), hget (off + 1) (by omega),
      hget (off + 2) (by omega), hget (off + 3) (by omega)]
    rfl
  rw [hslice]
  rfl

/-- **The tool computes the code of RFC 4226.** -/
theorem hotp_eq (secret : List U8) {counter : ℕ} (hc : counter < 2 ^ 64) :
    hotp secret counter = some (hotpCode secret counter) := by
  have hmac := length_hmac secret (Fips.bigEndian 8 counter)
  have hindex := truncation_index hmac
  have hoff : ((Fips.hmac secret (Fips.bigEndian 8 counter)).getD 31 0 &&& 0x0f).toNat =
      ((Fips.hmac secret (Fips.bigEndian 8 counter)).getD 31 0).toNat % 16 := by
    rw [BitVec.toNat_and]
    exact Nat.and_two_pow_sub_one_eq_mod _ 4
  unfold hotp
  rw [packQ_natCast hc]
  dsimp only [bind, Option.bind]
  rw [getLast?_mac hmac]
  dsimp only
  rw [unpackI_slice hindex]
  dsimp only [pure]
  rw [hoff, show 0x7fffffff = 2 ^ 31 - 1 from rfl, Nat.and_two_pow_sub_one_eq_mod, digits,
    zeroPadded_eq (by decide) (Nat.mod_lt _ (by decide))]
  rfl

theorem totp_eq_some {secret code : List U8} {unixTime t : ℤ}
    (hrun : totp secret unixTime = some (t, code)) :
    ∃ counter : ℕ, (counter : ℤ) = unixTime / 30 ∧ counter < 2 ^ 64 ∧ code = hotpCode secret counter := by
  obtain ⟨code', hhotp, heq⟩ := Option.map_eq_some_iff.mp hrun
  obtain ⟨rfl, rfl⟩ := Prod.mk.inj heq
  have hrange : 0 ≤ unixTime / 30 ∧ unixTime / 30 < 2 ^ 64 := by
    by_contra hout
    have hnone : packQ (unixTime / stepS) = none := if_neg hout
    unfold hotp at hhotp
    rw [hnone] at hhotp
    cases hhotp
  obtain ⟨counter, hcounter⟩ := Int.eq_ofNat_of_zero_le hrange.1
  have hlt : counter < 2 ^ 64 := by omega
  refine ⟨counter, hcounter.symm, hlt, ?_⟩
  change hotp secret (unixTime / 30) = some code' at hhotp
  rw [hcounter, hotp_eq secret hlt] at hhotp
  exact (Option.some.inj hhotp).symm

end Tool

/-! ## The agreement -/

section Device

variable [P : Provisioned]

/-- Any buffer that is large enough gets the same string. -/
theorem hotpCompute_size (ctx : HmacCtx) (tmp : Sha256Ctx) (counter : U64) {outSz : ℕ}
    (hsz : hotpDigits + 1 ≤ outSz) :
    hotpCompute ctx tmp counter outSz = hotpCompute ctx tmp counter (hotpDigits + 1) := by
  unfold hotpCompute
  rw [if_neg (Nat.not_lt.mpr hsz), if_neg (Nat.lt_irrefl _)]

omit P in
/-- An HMAC is 32 bytes; without a key there is none. -/
theorem length_of_hmacSha256 {ctx : HmacCtx} {tmp : Sha256Ctx} {key msg mac : List U8}
    (hrun : hmacSha256 ctx tmp key msg = .ok mac) : mac.length = 32 := by
  by_cases hkey : key.length = 0
  · unfold hmacSha256 Crypto.hmacInit at hrun
    rw [if_pos hkey] at hrun
    cases hrun
  · rw [Crypto.hmacSha256_eq ctx tmp (Nat.pos_of_ne_zero hkey)] at hrun
    obtain rfl := Except.ok.inj hrun
    exact length_hmac key msg

/-- **The tool and the hypervisor derive the same secret.** -/
theorem deriveSecret_eq : Tool.deriveSecret Tool.hotpSecretLabel 20 P.masterKey = hotpSecret := rfl

/-- The tool's command line has the secret of a device with the
development key. -/
theorem secret_eq (hdev : P.masterKey = devMasterKey) : Tool.secret = hotpSecret := by
  rw [← deriveSecret_eq, hdev]
  rfl

/-- **The tool's codes are the hypervisor's**, for every master key. For
every counter value the two compute the same six characters, and the four
bytes they take are within the 32 of the HMAC. At any time, the code of
the tool for a time in the same step or in one next to it is accepted; and
the tool has a code for every such time that is not negative. -/
theorem tool_codes_agree (ctx : HmacCtx) (tmp : Sha256Ctx) :
    (∀ (counter : U64) (outSz : ℕ), hotpDigits + 1 ≤ outSz → ∃ code, code.length = 6 ∧
      Tool.hotp (Tool.deriveSecret Tool.hotpSecretLabel 20 P.masterKey) counter.toNat = some code ∧
      hotpCompute ctx tmp counter outSz = .ok (code ++ [0])) ∧
    (∀ key msg mac, hmacSha256 ctx tmp key msg = .ok mac →
      mac.length = 32 ∧ (mac.getD 31 0 &&& 0x0f).toNat + 3 < mac.length) ∧
    ∀ (s : TotpState) (cntpct : U64) (u : ℤ), s.initialized = true →
      |((rtcUnixNow s cntpct).toNat / 30 : ℤ) - u / 30| ≤ 1 →
      (0 ≤ u → ∃ code,
        Tool.totp (Tool.deriveSecret Tool.hotpSecretLabel 20 P.masterKey) u = some (u / 30, code)) ∧
      ∀ t code, Tool.totp (Tool.deriveSecret Tool.hotpSecretLabel 20 P.masterKey) u = some (t, code) →
        ∀ candidate : List U8, candidate.take 6 = code →
          totpVerify ctx tmp s cntpct candidate = .ok := by
  rw [deriveSecret_eq]
  refine ⟨?_, ?_, ?_⟩
  · intro counter outSz hsz
    refine ⟨hotpCode hotpSecret counter.toNat, length_hotpCode _ _, Tool.hotp_eq _ counter.isLt, ?_⟩
    rw [hotpCompute_size ctx tmp counter hsz, hotpCompute_eq]
  · intro key msg mac hrun
    have hmac : mac.length = 32 := length_of_hmacSha256 hrun
    exact ⟨hmac, Tool.truncation_index hmac⟩
  · intro s cntpct u hs hnear
    have hnow := (rtcUnixNow s cntpct).isLt
    rw [abs_le] at hnear
    constructor
    · intro hu
      obtain ⟨n, hn⟩ := Int.eq_ofNat_of_zero_le (show 0 ≤ u / 30 by omega)
      refine ⟨hotpCode hotpSecret n, ?_⟩
      unfold Tool.totp
      dsimp only [Tool.stepS]
      rw [hn, Tool.hotp_eq hotpSecret (by omega)]
      rfl
    · intro t code hrun candidate hcode
      obtain ⟨counter, hcounter, hlt, rfl⟩ := Tool.totp_eq_some hrun
      have hlen : 6 ≤ candidate.length := by
        have htake := congrArg List.length hcode
        rw [List.length_take, length_hotpCode] at htake
        omega
      rw [totpVerify_iff ctx tmp hs cntpct hlen]
      exact ⟨counter, by omega, hcode⟩

end Device

end Login

end HypervisorBase
