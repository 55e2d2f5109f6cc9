import HypervisorBase.Crypto.Model
/-!
# Operator login

The model of `vse/login.c`, `vse/totp.c`, `vse/hotp.c`, `vse/keystore.c`,
`lib/rtc/rtc.c` and of `uart_getline` of `drivers/uart/uart_pl011.c`. The
console is the list of characters that have been typed: a function that
waits for more of them is at `none`. What is echoed and logged leaves no
trace here.
-/

namespace HypervisorBase

namespace Login

open Crypto (HmacCtx Sha256Ctx hmacSha256 hmacVerify)

/-! ## Secrets -/

/-- `VSE_MASTER_KEY_LEN`. -/
def vseMasterKeyLen : ℕ := 32

/-- **What a device is provisioned with**: the master key that
`vse_get_master_key` returns and the bytes of `VSE_PW_VERIFIER`. -/
class Provisioned where
  masterKey : List U8
  pwVerifier : List U8
  masterKey_length : masterKey.length = vseMasterKeyLen
  pwVerifier_length : pwVerifier.length = Crypto.hmacSize

/-- `_dev_master_key`. -/
def devMasterKey : List U8 :=
  [0xa3, 0x7f, 0x2c, 0x91, 0xd4, 0x58, 0xbe, 0x06, 0x1e, 0x82, 0x4a, 0xf3, 0x70, 0xc9, 0x55, 0x3d,
   0x08, 0xb1, 0xe7, 0x6f, 0x29, 0xda, 0x44, 0x9c, 0x87, 0x5e, 0x13, 0xab, 0xfc, 0x60, 0x2b, 0x77]

/-- A string literal without its terminator. -/
def ascii (s : String) : List U8 := s.toList.map fun c => BitVec.ofNat 8 c.toNat

def loginPepperLabel : List U8 := ascii "vse-login-pepper-v1"

def hotpSecretLabel : List U8 := ascii "vse-hotp-secret-v1"

def hotpSecretLen : ℕ := 20

variable [P : Provisioned]

/-- `vse_derive_secret`: an error, or the bytes it writes. -/
def vseDeriveSecret (ctx : HmacCtx) (tmp : Sha256Ctx) (label : List U8) (len : ℕ) :
    Except Err (List U8) :=
  if len = 0 ∨ vseMasterKeyLen < len then .error .inval
  else do
    let mac ← hmacSha256 ctx tmp P.masterKey label
    pure (mac.take len)

/-! ## One-time codes -/

def hotpDigits : ℕ := 6

def u64Be (v : U64) : List U8 :=
  [(v >>> 56).setWidth 8, (v >>> 48).setWidth 8, (v >>> 40).setWidth 8, (v >>> 32).setWidth 8,
    (v >>> 24).setWidth 8, (v >>> 16).setWidth 8, (v >>> 8).setWidth 8, v.setWidth 8]

def pow10 : ℕ → U32
  | 0 => 1
  | n + 1 => pow10 n * 10

/-- The dynamic truncation of `hotp_compute`. -/
def truncate (mac : List U8) : U32 :=
  let off := (mac.getD 31 0 &&& 0x0f).toNat
  ((mac.getD off 0 &&& 0x7f).setWidth 32 <<< 24) |||
    ((mac.getD (off + 1) 0 &&& 0xff).setWidth 32 <<< 16) |||
    ((mac.getD (off + 2) 0 &&& 0xff).setWidth 32 <<< 8) |||
    (mac.getD (off + 3) 0 &&& 0xff).setWidth 32

/-- The loop that writes the digits, last one first. -/
def putDigits : ℕ → U32 → List U8
  | 0, _ => []
  | n + 1, code => putDigits n (code / 10) ++ [(0x30 + code % 10).setWidth 8]

/-- `hotp_compute`: an error, or the string it writes. The secret is kept
after its first use; it is the same at every use. -/
def hotpCompute (ctx : HmacCtx) (tmp : Sha256Ctx) (counter : U64) (outSz : ℕ) :
    Except Err (List U8) :=
  if outSz < hotpDigits + 1 then .error .inval
  else do
    let secret ← vseDeriveSecret ctx tmp hotpSecretLabel hotpSecretLen
    let mac ← hmacSha256 ctx tmp secret (u64Be counter)
    pure (putDigits hotpDigits (truncate mac % pow10 hotpDigits) ++ [0])

/-- `RTC_PROVISIONED_EPOCH`. -/
def rtcProvisionedEpoch : U64 := 1751328000

/-- The variables of `rtc.c` and `_initialized` of `totp.c`. -/
structure TotpState where
  epochS : U64
  bootCnt : U64
  freq : U64
  initialized : Bool
  deriving DecidableEq, Repr

/-- `totp_init`, with the readings of the counter and of its frequency
that `rtc_init` takes. -/
def totpInit (cntpct cntfrq : U64) : TotpState where
  epochS := rtcProvisionedEpoch
  bootCnt := cntpct
  freq := if cntfrq = 0 then 62500000 else cntfrq
  initialized := true

def rtcUnixNow (s : TotpState) (cntpct : U64) : U64 := s.epochS + (cntpct - s.bootCnt) / s.freq

def totpStepS : U64 := 30

/-- `steps` of `totp_verify`. -/
def totpSteps (now : U64) : List U64 :=
  let t := now / totpStepS
  (if 0 < t then [t - 1] else []) ++ [t, t + 1]

/-- `totp_verify` of the buffer it is given. -/
def totpVerify (ctx : HmacCtx) (tmp : Sha256Ctx) (s : TotpState) (cntpct : U64)
    (candidate : List U8) : Err :=
  if !s.initialized then .denied
  else if (totpSteps (rtcUnixNow s cntpct)).any fun step =>
      match hotpCompute ctx tmp step (hotpDigits + 1) with
      | .ok expect => hmacVerify expect candidate hotpDigits
      | .error _ => false
    then .ok
  else .denied

/-! ## The console -/

/-- The loop of `uart_getline`: the buffer and its length after the line,
and the characters behind it. -/
def getlineLoop (len : ℕ) : List U8 → ℕ → List U8 → Option ((List U8 × ℕ) × List U8)
  | _, _, [] => none
  | buf, i, c :: cs =>
    if c = 0x0d ∨ c = 0x0a then some ((buf.set i 0, i), cs)
    else if c = 0x7f ∨ c = 0x08 then getlineLoop len buf (if 0 < i then i - 1 else i) cs
    else if i < len - 1 then getlineLoop len (buf.set i c) (i + 1) cs
    else getlineLoop len buf i cs

/-- `uart_getline` into a buffer of `len` bytes. -/
def uartGetline (buf : List U8) (len : ℕ) (chars : List U8) :
    Option ((List U8 × ℕ) × List U8) :=
  if len = 0 then some ((buf, 0), chars) else getlineLoop len buf 0 chars

/-! ## Login -/

def loginMaxTries : ℕ := 3

def loginPwMax : ℕ := 64

/-- `sizeof(code)`. -/
def codeSize : ℕ := 16

/-- `_check_password` of the first `len` bytes of a buffer. -/
def checkPassword (ctx : HmacCtx) (tmp : Sha256Ctx) (pw : List U8) (len : ℕ) : Bool :=
  match vseDeriveSecret ctx tmp loginPepperLabel vseMasterKeyLen with
  | .error _ => false
  | .ok pepper =>
    match hmacSha256 ctx tmp pepper (pw.take len) with
    | .error _ => false
    | .ok mac => hmacVerify P.pwVerifier mac Crypto.hmacSize

/-- What the stack holds when `login_authenticate` is entered: nothing in
it has been initialised. -/
structure Stack where
  ctx : HmacCtx
  tmp : Sha256Ctx
  pw : List U8
  code : List U8
  pw_length : pw.length = loginPwMax
  code_length : code.length = codeSize

/-- The loop of `login_authenticate` with `n` attempts left, the first of
them being number `attempt`; `clock` has the counter's reading in each.
Both buffers are cleared after an attempt. -/
def loginLoop (stack : Stack) (s : TotpState) (clock : ℕ → U64) :
    ℕ → ℕ → List U8 → List U8 → List U8 → Option (Err × List U8)
  | 0, _, _, _, chars => some (.denied, chars)
  | n + 1, attempt, pw, code, chars => do
      let ((pw, pwlen), chars) ← uartGetline pw loginPwMax chars
      let ((code, _), chars) ← uartGetline code codeSize chars
      let pwOk := checkPassword stack.ctx stack.tmp pw pwlen
      let otpE := totpVerify stack.ctx stack.tmp s (clock attempt) code
      if pwOk = true ∧ otpE = .ok then some (.ok, chars)
      else
        loginLoop stack s clock n (attempt + 1) (List.replicate loginPwMax 0)
          (List.replicate codeSize 0) chars

/-- `login_authenticate`: its result and the characters it left. -/
def loginAuthenticate (stack : Stack) (s : TotpState) (clock : ℕ → U64) (chars : List U8) :
    Option (Err × List U8) :=
  loginLoop stack s clock loginMaxTries 0 stack.pw stack.code chars

end Login

end HypervisorBase
