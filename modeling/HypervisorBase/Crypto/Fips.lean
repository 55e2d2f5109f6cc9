import Mathlib.Data.Nat.Prime.Basic
import Mathlib.Tactic.IntervalCases
import HypervisorBase.Common.Blocks
import HypervisorBase.Common.Word
/-!
# SHA-256 and HMAC as the standards define them

FIPS 180-4 (SHA-256) and FIPS 198-1 (HMAC), for messages of whole bytes.
Nothing here is taken from the code that is compared with it: the
constants are computed from the primes as the standard introduces them
(`roundConstant`, `initialHash`), the message schedule is its recurrence
and the message is padded as a whole before it is cut into blocks.
-/

namespace HypervisorBase

namespace Fips

/-! ## Constants -/

/-- The greatest `r` with `r ^ k ≤ n` among those that agree with the `r`
given above bit `b`, found bit by bit. -/
def rootBits (k n : ℕ) : ℕ → ℕ → ℕ
  | 0, r => r
  | b + 1, r => rootBits k n b (if (r + 2 ^ b) ^ k ≤ n then r + 2 ^ b else r)

/-- The integer part of the `k`-th root, for roots below `2 ^ 40`. -/
def iroot (k n : ℕ) : ℕ := rootBits k n 40 0

theorem rootBits_spec {k n b r : ℕ} (hlo : r ^ k ≤ n) (hhi : n < (r + 2 ^ b) ^ k) :
    rootBits k n b r ^ k ≤ n ∧ n < (rootBits k n b r + 1) ^ k := by
  induction b generalizing r with
  | zero => exact ⟨hlo, hhi⟩
  | succ b ih =>
    rw [rootBits]
    split
    · rename_i hle
      refine ih hle ?_
      rwa [Nat.add_assoc, ← Nat.two_mul, ← Nat.pow_succ']
    · rename_i hnot
      exact ih hlo (Nat.lt_of_not_le hnot)

/-- **`iroot` is the integer root.** -/
theorem iroot_spec {k n : ℕ} (hk : 0 < k) (hn : n < (2 ^ 40) ^ k) :
    iroot k n ^ k ≤ n ∧ n < (iroot k n + 1) ^ k := by
  refine rootBits_spec ?_ ?_
  · rw [Nat.zero_pow hk]
    exact Nat.zero_le n
  · rwa [Nat.zero_add]

/-- The first 64 primes, by a sieve: below `18 ^ 2` it is enough to divide
by the primes up to 17. -/
def primes : List ℕ :=
  (List.range' 2 310).filter fun p =>
    [2, 3, 5, 7, 11, 13, 17].all fun q => p == q || p % q != 0

theorem mem_primes {p : ℕ} : p ∈ primes ↔ p.Prime ∧ p < 312 := by
  have hsieve : p ∈ primes ↔ (2 ≤ p ∧ p < 312) ∧
      ∀ q ∈ [2, 3, 5, 7, 11, 13, 17], p = q ∨ p % q ≠ 0 := by
    simp only [primes, List.mem_filter, List.mem_range', List.all_eq_true, Bool.or_eq_true,
      beq_iff_eq, bne_iff_ne]
    refine and_congr ⟨?_, fun h => ⟨p - 2, by omega, by omega⟩⟩ Iff.rfl
    rintro ⟨i, hi, rfl⟩
    omega
  rw [hsieve]
  constructor
  · rintro ⟨⟨h2, hlt⟩, hq⟩
    refine ⟨Nat.prime_def_le_sqrt.2 ⟨h2, fun m hm hsqrt hdvd => ?_⟩, hlt⟩
    have hmm : m * m ≤ p := Nat.le_sqrt.1 hsqrt
    have hm18 : m < 18 := by
      by_contra hge
      have : 18 * 18 ≤ m * m := Nat.mul_le_mul (by omega) (by omega)
      omega
    simp only [List.mem_cons, List.not_mem_nil, or_false, forall_eq_or_imp, forall_eq] at hq
    have hmod := Nat.mod_eq_zero_of_dvd hdvd
    interval_cases m <;> omega
  · rintro ⟨hp, hlt⟩
    refine ⟨⟨hp.two_le, hlt⟩, fun q hq => ?_⟩
    by_cases hdvd : p % q = 0
    · have hq1 : q ≠ 1 := by
        rintro rfl
        exact absurd hq (by decide)
      exact .inl ((hp.eq_one_or_self_of_dvd q (Nat.dvd_of_mod_eq_zero hdvd)).resolve_left hq1).symm
    · exact .inr hdvd

/-- `K_t`: the first 32 bits of the fractional part of the cube root of
the `t`-th prime. -/
def roundConstant (t : ℕ) : U32 := BitVec.ofNat 32 (iroot 3 (primes.getD t 0 * 2 ^ 96))

/-- `H_j^(0)`: the same of the square root of the `j`-th prime. -/
def initialWord (j : ℕ) : U32 := BitVec.ofNat 32 (iroot 2 (primes.getD j 0 * 2 ^ 64))

/-! ## Functions (section 4.1.2) -/

def ch (x y z : U32) : U32 := (x &&& y) ^^^ (~~~x &&& z)

def maj (x y z : U32) : U32 := (x &&& y) ^^^ (x &&& z) ^^^ (y &&& z)

def bigSigma0 (x : U32) : U32 := x.rotateRight 2 ^^^ x.rotateRight 13 ^^^ x.rotateRight 22

def bigSigma1 (x : U32) : U32 := x.rotateRight 6 ^^^ x.rotateRight 11 ^^^ x.rotateRight 25

def smallSigma0 (x : U32) : U32 := x.rotateRight 7 ^^^ x.rotateRight 18 ^^^ x >>> 3

def smallSigma1 (x : U32) : U32 := x.rotateRight 17 ^^^ x.rotateRight 19 ^^^ x >>> 10

/-! ## The hash (sections 5 and 6.2) -/

/-- Eight words: a hash value, or the working variables. -/
structure Words where
  a : U32
  b : U32
  c : U32
  d : U32
  e : U32
  f : U32
  g : U32
  h : U32
  deriving DecidableEq, Repr

/-- `M_t` of a block: its `t`-th word, most significant byte first. -/
def blockWord (block : List U8) (t : ℕ) : U32 :=
  BitVec.ofNat 32 ((block.getD (4 * t) 0).toNat * 2 ^ 24 + (block.getD (4 * t + 1) 0).toNat * 2 ^ 16 +
    (block.getD (4 * t + 2) 0).toNat * 2 ^ 8 + (block.getD (4 * t + 3) 0).toNat)

/-- `W_t`, the message schedule. -/
def schedule (block : List U8) (t : ℕ) : U32 :=
  if _h : t < 16 then blockWord block t
  else smallSigma1 (schedule block (t - 2)) + schedule block (t - 7) +
    smallSigma0 (schedule block (t - 15)) + schedule block (t - 16)
termination_by t

/-- One step of the computation on the working variables. -/
def round (block : List U8) (v : Words) (t : ℕ) : Words :=
  let t1 := v.h + bigSigma1 v.e + ch v.e v.f v.g + roundConstant t + schedule block t
  let t2 := bigSigma0 v.a + maj v.a v.b v.c
  ⟨t1 + t2, v.a, v.b, v.c, v.d + t1, v.e, v.f, v.g⟩

/-- The intermediate hash value after one more block. -/
def compress (hash : Words) (block : List U8) : Words :=
  let v := (List.range 64).foldl (round block) hash
  ⟨v.a + hash.a, v.b + hash.b, v.c + hash.c, v.d + hash.d,
    v.e + hash.e, v.f + hash.f, v.g + hash.g, v.h + hash.h⟩

def initialHash : Words :=
  ⟨initialWord 0, initialWord 1, initialWord 2, initialWord 3,
    initialWord 4, initialWord 5, initialWord 6, initialWord 7⟩

/-- A number as `n` bytes, most significant first. -/
def bigEndian (n x : ℕ) : List U8 :=
  (List.range n).map fun i => BitVec.ofNat 8 (x / 2 ^ (8 * (n - 1 - i)))

/-- The zero bytes between the message and its length: the fewest that
fill the last block. -/
def padZeros (len : ℕ) : ℕ := (55 + (64 - len % 64)) % 64

/-- **Padding**: a one bit, zeros, and the length in bits. -/
def pad (msg : List U8) : List U8 :=
  msg ++ 0x80 :: (List.replicate (padZeros msg.length) 0 ++ bigEndian 8 (8 * msg.length))

def Words.bytes (v : Words) : List U8 :=
  [v.a, v.b, v.c, v.d, v.e, v.f, v.g, v.h].flatMap fun w => bigEndian 4 w.toNat

/-- **The SHA-256 digest of a message.** -/
def sha256 (msg : List U8) : List U8 := (Blocks.absorb compress 64 initialHash (pad msg)).bytes

/-- The padded message is a whole number of blocks, and no fewer zeros
would make it one. -/
theorem padZeros_least (len z : ℕ) :
    (len + 1 + padZeros len + 8) % 64 = 0 ∧ ((len + 1 + z + 8) % 64 = 0 → padZeros len ≤ z) := by
  unfold padZeros
  omega

/-! ## HMAC (FIPS 198-1) -/

/-- `K_0`: the key, hashed if it is longer than a block, filled up with
zeros to one. -/
def blockKey (key : List U8) : List U8 :=
  let k := if 64 < key.length then sha256 key else key
  k ++ List.replicate (64 - k.length) 0

/-- **HMAC-SHA256.** -/
def hmac (key text : List U8) : List U8 :=
  let ipad := (blockKey key).map (· ^^^ 0x36)
  let opad := (blockKey key).map (· ^^^ 0x5C)
  sha256 (opad ++ sha256 (ipad ++ text))

end Fips

end HypervisorBase
