import Mathlib.Data.List.Basic
import HypervisorBase.Crypto.Model
/-!
# Streaming SHA-256 is SHA-256

`sha256Compress` is the standard's compression function
(`sha256Compress_eq`). A context that has been fed a message holds the
hash of its whole blocks and what is left over in its buffer
(`Represents`); every update extends the message (`update_represents`),
and the two padding branches of `sha256_final` both complete it as the
standard does (`final_eq`). So the digest does not depend on how the
message was cut (`sha256_streaming`).
-/

namespace HypervisorBase

namespace Crypto

/-! ## Compression -/

theorem k_eq : k = Fips.primes.map fun p => BitVec.ofNat 32 (Fips.iroot 3 (p * 2 ^ 96)) := by
  decide +kernel

theorem h0_eq : h0 = Fips.initialHash := by decide +kernel

variable {t : ℕ}

theorem k_getD (ht : t < 64) : k.getD t 0 = Fips.roundConstant t := by
  have hlen : Fips.primes.length = 64 := by
    have := congrArg List.length k_eq
    rw [List.length_map] at this
    exact this.symm
  have hk : t < k.length := ht
  rw [List.getD_eq_getElem _ _ hk, Fips.roundConstant, List.getD_eq_getElem _ _ (by omega)]
  simp only [k_eq, List.getElem_map]

variable {n : ℕ}

theorem rotr32_eq (x : U32) (hn : n < 32) : rotr32 x n = x.rotateRight n := by
  rw [rotr32, BitVec.rotateRight_def, Nat.mod_eq_of_lt hn]

theorem ep0_eq (x : U32) : ep0 x = Fips.bigSigma0 x := by
  simp only [ep0, Fips.bigSigma0, rotr32_eq x (show 2 < 32 by decide),
    rotr32_eq x (show 13 < 32 by decide), rotr32_eq x (show 22 < 32 by decide)]

theorem ep1_eq (x : U32) : ep1 x = Fips.bigSigma1 x := by
  simp only [ep1, Fips.bigSigma1, rotr32_eq x (show 6 < 32 by decide),
    rotr32_eq x (show 11 < 32 by decide), rotr32_eq x (show 25 < 32 by decide)]

theorem sig0_eq (x : U32) : sig0 x = Fips.smallSigma0 x := by
  simp only [sig0, Fips.smallSigma0, rotr32_eq x (show 7 < 32 by decide),
    rotr32_eq x (show 18 < 32 by decide)]

theorem sig1_eq (x : U32) : sig1 x = Fips.smallSigma1 x := by
  simp only [sig1, Fips.smallSigma1, rotr32_eq x (show 17 < 32 by decide),
    rotr32_eq x (show 19 < 32 by decide)]

/-- A byte shifted into place. -/
theorem toNat_byte_shift (b : U8) (hn : n ≤ 24) :
    (b.setWidth 32 <<< n).toNat = b.toNat * 2 ^ n := by
  have hpow : (2 : ℕ) ^ n ≤ 2 ^ 24 := Nat.pow_le_pow_right (by decide) hn
  have hlt : b.toNat * 2 ^ n < 2 ^ 32 := by
    have hb := b.isLt
    calc b.toNat * 2 ^ n ≤ 255 * 2 ^ 24 := Nat.mul_le_mul (by omega) hpow
      _ < 2 ^ 32 := by decide
  have hb : b.toNat < 2 ^ 32 := Nat.lt_of_lt_of_le b.isLt (by decide)
  rw [BitVec.toNat_shiftLeft, BitVec.toNat_setWidth, Nat.shiftLeft_eq, Nat.mod_eq_of_lt hb,
    Nat.mod_eq_of_lt hlt]

/-- `be32` reads a word of the block. -/
theorem be32_eq (block : List U8) (t : ℕ) : be32 block (t * 4) = Fips.blockWord block t := by
  rw [be32, Fips.blockWord, Nat.mul_comm t 4]
  obtain ⟨b₀, hb₀⟩ : ∃ b, b = block.getD (4 * t) 0 := ⟨_, rfl⟩
  obtain ⟨b₁, hb₁⟩ : ∃ b, b = block.getD (4 * t + 1) 0 := ⟨_, rfl⟩
  obtain ⟨b₂, hb₂⟩ : ∃ b, b = block.getD (4 * t + 2) 0 := ⟨_, rfl⟩
  obtain ⟨b₃, hb₃⟩ : ∃ b, b = block.getD (4 * t + 3) 0 := ⟨_, rfl⟩
  rw [← hb₀, ← hb₁, ← hb₂, ← hb₃]
  have h₀ := b₀.isLt
  have h₁ := b₁.isLt
  have h₂ := b₂.isLt
  have h₃ := b₃.isLt
  have e₀ := toNat_byte_shift b₀ (show 24 ≤ 24 by decide)
  have e₁ := toNat_byte_shift b₁ (show 16 ≤ 24 by decide)
  have e₂ := toNat_byte_shift b₂ (show 8 ≤ 24 by decide)
  have e₃ : (b₃.setWidth 32).toNat = b₃.toNat := by
    rw [BitVec.toNat_setWidth]
    omega
  have s₁ := Word.toNat_or_of_lt (x := b₀.setWidth 32 <<< 24) (y := b₁.setWidth 32 <<< 16) (i := 24)
    (by omega) (by omega)
  have s₂ := Word.toNat_or_of_lt (x := b₀.setWidth 32 <<< 24 ||| b₁.setWidth 32 <<< 16)
    (y := b₂.setWidth 32 <<< 8) (i := 16) (by omega) (by omega)
  have s₃ := Word.toNat_or_of_lt
    (x := b₀.setWidth 32 <<< 24 ||| b₁.setWidth 32 <<< 16 ||| b₂.setWidth 32 <<< 8)
    (y := b₃.setWidth 32) (i := 8) (by omega) (by omega)
  apply BitVec.eq_of_toNat_eq
  rw [s₃, s₂, s₁, e₀, e₁, e₂, e₃, BitVec.toNat_ofNat, Nat.mod_eq_of_lt (by omega)]

/-- The array `W` after `n` steps of its second loop: `16 + n` words of
the message schedule. -/
theorem expand_eq (block : List U8) (n : ℕ) :
    (List.range' 16 n).foldl expandOne ((List.range 16).map fun i => be32 block (i * 4)) =
      (List.range (16 + n)).map (Fips.schedule block) := by
  induction n with
  | zero =>
    refine List.map_congr_left fun t ht => ?_
    have ht : t < 16 := List.mem_range.mp ht
    rw [be32_eq, Fips.schedule, dif_pos ht]
  | succ n ih =>
    have hget : ∀ j, j < 16 + n →
        ((List.range (16 + n)).map (Fips.schedule block)).getD j 0 = Fips.schedule block j := by
      intro j hj
      rw [List.getD_eq_getElem _ _ (by simpa using hj)]
      simp
    have hrec := Fips.schedule.eq_def block (16 + n)
    rw [dif_neg (by omega)] at hrec
    rw [List.range'_concat, List.foldl_append, ih, Nat.one_mul, List.foldl_cons, List.foldl_nil,
      expandOne, hget _ (by omega), hget _ (by omega), hget _ (by omega), hget _ (by omega),
      sig0_eq, sig1_eq, ← hrec, ← Nat.add_assoc, List.range_succ, List.map_append]
    rfl

theorem messageSchedule_getD (block : List U8) (ht : t < 64) :
    (messageSchedule block).getD t 0 = Fips.schedule block t := by
  rw [messageSchedule, expand_eq, List.getD_eq_getElem _ _ (by simpa using ht)]
  simp

theorem roundOne_eq (block : List U8) (v : Fips.Words) (ht : t < 64) :
    roundOne (messageSchedule block) v t = Fips.round block v t := by
  simp only [roundOne, Fips.round, messageSchedule_getD block ht, k_getD ht, ep0_eq, ep1_eq]
  rfl

/-- **The compression function is the standard's.** -/
theorem sha256Compress_eq : sha256Compress = Fips.compress := by
  funext state block
  have hrounds : (List.range 64).foldl (roundOne (messageSchedule block)) state =
      (List.range 64).foldl (Fips.round block) state :=
    List.foldl_ext _ _ _ fun v t ht => roundOne_eq block v (List.mem_range.mp ht)
  simp only [sha256Compress, Fips.compress, hrounds, BitVec.add_comm]

/-! ## Updates -/

/-- A context with a hash value and bytes that wait for the rest of their
block. -/
structure Holds (ctx : Sha256Ctx) (state : Fips.Words) (pending : List U8) : Prop where
  state_eq : ctx.state = state
  bufLen_eq : ctx.bufLen = pending.length
  buf_take : ctx.buf.take ctx.bufLen = pending

/-- The loop over full blocks. -/
theorem blockLoop_eq (data : List U8) (n : ℕ) (state : Fips.Words) (i : ℕ) :
    blockLoop data n state i =
      (Blocks.absorbN Fips.compress 64 n state (data.drop i), i + n * 64) := by
  induction n generalizing state i with
  | zero => simp [blockLoop, Blocks.absorbN]
  | succ n ih =>
    rw [blockLoop, ih, Blocks.absorbN, sha256Compress_eq, List.drop_drop]
    simp only [sha256Block, Prod.mk.injEq, true_and]
    omega

variable {xs : List U8}

theorem take_write (ctx : Sha256Ctx) {off : ℕ} (h : off + xs.length ≤ 64) :
    (ctx.write off xs).buf.take (off + xs.length) = ctx.buf.take off ++ xs := by
  have hlen : (ctx.buf.take off ++ xs).length = off + xs.length := by
    rw [List.length_append, List.length_take, ctx.buf_length, sha256Block]
    omega
  rw [Sha256Ctx.write_buf, Blocks.overwrite_eq (by rw [ctx.buf_length]; exact h), ← hlen,
    List.take_left]

variable {ctx : Sha256Ctx} {pending : List U8} {state : Fips.Words}

/-- Bytes that fit into the buffer wait there. -/
theorem push_holds
    (h : Holds ctx state pending) (hfits : pending.length + xs.length ≤ 64) :
    Holds (ctx.push xs) state (pending ++ xs) := by
  have htake := take_write ctx (show ctx.bufLen + xs.length ≤ 64 by rw [h.bufLen_eq]; exact hfits)
  refine ⟨h.state_eq, ?_, ?_⟩
  · rw [List.length_append, ← h.bufLen_eq]
    rfl
  · rw [h.buf_take] at htake
    exact htake

/-- What is left of the input after the buffer was emptied. -/
theorem storeTail_holds (h : Holds ctx state [])
    (data : List U8) (i : ℕ) :
    Holds (storeTail ctx data i) (Blocks.absorb Fips.compress 64 state (data.drop i))
      (Blocks.rest 64 (data.drop i)) := by
  have hlen : (data.drop i).length = data.length - i := List.length_drop
  have hrest : Blocks.rest 64 (data.drop i) = data.drop (i + (data.length - i) / 64 * 64) := by
    rw [Blocks.rest, hlen, List.drop_drop]
  have hrlen := Blocks.length_rest 64 (data.drop i)
  have hsize : sha256Block = 64 := rfl
  unfold storeTail
  rw [blockLoop_eq, hsize]
  dsimp only
  rw [Blocks.absorb, hlen, hrest, h.state_eq]
  rw [hrest, List.length_drop] at hrlen
  split
  · have hfits : 0 + (data.drop (i + (data.length - i) / 64 * 64)).length ≤ 64 := by
      rw [List.length_drop]
      omega
    have htake := take_write ctx hfits
    rw [Nat.zero_add, List.length_drop] at htake
    exact ⟨rfl, List.length_drop.symm, htake⟩
  · rename_i hnone
    have hnil : data.drop (i + (data.length - i) / 64 * 64) = [] :=
      List.drop_eq_nil_of_le (by omega)
    rw [hnil]
    exact ⟨rfl, h.bufLen_eq, h.buf_take⟩

/-- An input that was used up leaves the context alone. -/
theorem storeTail_of_le {data : List U8} {i : ℕ} (h : data.length ≤ i) :
    storeTail ctx data i = ctx := by
  have hzero : data.length - i = 0 := by omega
  unfold storeTail
  simp [hzero, blockLoop]

/-- **Filling a partial buffer**: it takes in the whole input, or it is
completed and emptied, and the input goes on behind what it took. -/
theorem fillBuffer_cases
    (h : Holds ctx state pending) (hlt : pending.length < 64) (data : List U8) :
    ((fillBuffer ctx data).2 = data.length ∧ (pending ++ data).length < 64 ∧
        Holds (fillBuffer ctx data).1 state (pending ++ data)) ∨
      ∃ state', Holds (fillBuffer ctx data).1 state' [] ∧
        Blocks.absorb Fips.compress 64 state (pending ++ data) =
          Blocks.absorb Fips.compress 64 state' (data.drop (fillBuffer ctx data).2) ∧
        Blocks.rest 64 (pending ++ data) = Blocks.rest 64 (data.drop (fillBuffer ctx data).2) := by
  have hpending := h.bufLen_eq
  have hsize : sha256Block = 64 := rfl
  unfold fillBuffer
  by_cases hpos : 0 < ctx.bufLen
  · rw [if_pos hpos]
    dsimp only
    by_cases hshort : data.length < sha256Block - ctx.bufLen
    · -- the input ends inside the block
      left
      have hpush := push_holds h (show pending.length + data.length ≤ 64 by omega)
      have hopen : (ctx.push data).bufLen ≠ sha256Block := by
        rw [hpush.bufLen_eq, List.length_append]
        omega
      rw [if_pos hshort, List.take_length, if_neg hopen]
      exact ⟨rfl, by rw [List.length_append]; omega, hpush⟩
    · -- the block is completed
      right
      obtain ⟨n, hn⟩ : ∃ n, n = sha256Block - ctx.bufLen := ⟨_, rfl⟩
      have hlen : (data.take n).length = n := by
        rw [List.length_take]
        omega
      have hblock : (pending ++ data.take n).length = 64 := by
        rw [List.length_append]
        omega
      have hpush := push_holds h (show pending.length + (data.take n).length ≤ 64 by omega)
      have hfull : (ctx.push (data.take n)).bufLen = sha256Block := hpush.bufLen_eq.trans hblock
      have hbuf : (ctx.push (data.take n)).buf = pending ++ data.take n := by
        have htake := hpush.buf_take
        rwa [hfull, List.take_of_length_le (Nat.le_of_eq (ctx.push (data.take n)).buf_length)]
          at htake
      have hsplit : pending ++ data = (pending ++ data.take n) ++ data.drop n := by
        rw [List.append_assoc, List.take_append_drop]
      rw [if_neg hshort, ← hn, if_pos hfull, hsplit]
      refine ⟨Fips.compress state (pending ++ data.take n), ⟨?_, rfl, rfl⟩,
        Blocks.absorb_block (by decide) hblock, Blocks.rest_block (by decide) hblock⟩
      change sha256Compress (ctx.push (data.take n)).state (ctx.push (data.take n)).buf = _
      rw [hbuf, hpush.state_eq, sha256Compress_eq]
  · -- nothing was waiting
    right
    have hnil : pending = [] := List.eq_nil_of_length_eq_zero (by omega)
    rw [if_neg hpos, hnil]
    rw [hnil] at h
    exact ⟨state, h, rfl, rfl⟩

/-- **An update goes on where the context stopped.** -/
theorem update_holds
    (h : Holds ctx state pending) (hlt : pending.length < 64) (data : List U8) :
    Holds (sha256Update ctx data) (Blocks.absorb Fips.compress 64 state (pending ++ data))
      (Blocks.rest 64 (pending ++ data)) := by
  have hcount : Holds { ctx with bitCount := ctx.bitCount + BitVec.ofNat 64 data.length * 8 } state
      pending := ⟨h.state_eq, h.bufLen_eq, h.buf_take⟩
  unfold sha256Update
  dsimp only
  rcases fillBuffer_cases hcount hlt data with ⟨hall, hshort, hfill⟩ | ⟨state', hfill, habs, hrest⟩
  · rw [hall, storeTail_of_le (Nat.le_refl _), Blocks.absorb_of_lt hshort, Blocks.rest_of_lt hshort]
    exact hfill
  · rw [habs, hrest]
    exact storeTail_holds hfill data _

/-- **A context that has been fed a message**: the hash of its whole
blocks, what they leave over, and its length in bits, which wraps. -/
structure Represents (ctx : Sha256Ctx) (msg : List U8) : Prop where
  holds : Holds ctx (Blocks.absorb Fips.compress 64 Fips.initialHash msg) (Blocks.rest 64 msg)
  bitCount : ctx.bitCount = BitVec.ofNat 64 (8 * msg.length)

theorem init_represents (ctx : Sha256Ctx) : Represents (sha256Init ctx) [] := by
  refine ⟨⟨?_, rfl, rfl⟩, rfl⟩
  rw [Blocks.absorb_of_lt (by decide)]
  exact h0_eq

theorem length_rest_lt (msg : List U8) : (Blocks.rest 64 msg).length < 64 := by
  rw [Blocks.length_rest]
  exact Nat.mod_lt _ (by decide)

theorem bitCount_flush (ctx : Sha256Ctx) : ctx.flush.bitCount = ctx.bitCount := by
  -- taken apart, the two sides are compared at the counter and never at
  -- the compressed state
  obtain ⟨_, b, _, _, _⟩ := ctx
  exact (rfl : b = b)

theorem bitCount_flush_reset (ctx : Sha256Ctx) :
    ({ ctx.flush with bufLen := 0 } : Sha256Ctx).bitCount = ctx.bitCount := by
  obtain ⟨_, b, _, _, _⟩ := ctx
  exact (rfl : b = b)

theorem bitCount_fillBuffer (ctx : Sha256Ctx) (data : List U8) :
    (fillBuffer ctx data).1.bitCount = ctx.bitCount := by
  unfold fillBuffer
  by_cases hpos : 0 < ctx.bufLen
  · obtain ⟨c, hc⟩ : ∃ c, c = ctx.push (data.take (if data.length < sha256Block - ctx.bufLen
        then data.length else sha256Block - ctx.bufLen)) := ⟨_, rfl⟩
    have hcount : c.bitCount = ctx.bitCount := by
      rw [hc]
      rfl
    rw [if_pos hpos]
    dsimp only
    rw [← hc]
    split
    · exact (bitCount_flush_reset c).trans hcount
    · exact hcount
  · rw [if_neg hpos]

theorem bitCount_storeTail (ctx : Sha256Ctx) (data : List U8) (i : ℕ) :
    (storeTail ctx data i).bitCount = ctx.bitCount := by
  obtain ⟨r, hr⟩ : ∃ r, r = blockLoop data ((data.length - i) / sha256Block) ctx.state i := ⟨_, rfl⟩
  unfold storeTail
  rw [← hr]
  dsimp only
  split
  · rw [Sha256Ctx.write_bitCount]
  · rfl

theorem bitCount_update (ctx : Sha256Ctx) (data : List U8) :
    (sha256Update ctx data).bitCount = ctx.bitCount + BitVec.ofNat 64 data.length * 8 := by
  unfold sha256Update
  dsimp only
  rw [bitCount_storeTail, bitCount_fillBuffer]

variable {msg : List U8}

/-- **An update extends the message.** -/
theorem update_represents (h : Represents ctx msg)
    (data : List U8) : Represents (sha256Update ctx data) (msg ++ data) := by
  refine ⟨?_, ?_⟩
  · rw [Blocks.absorb_append (by decide), Blocks.rest_append (by decide)]
    exact update_holds h.holds (length_rest_lt msg) data
  · rw [bitCount_update, h.bitCount, List.length_append]
    apply BitVec.eq_of_toNat_eq
    simp only [BitVec.toNat_add, BitVec.toNat_mul, BitVec.toNat_ofNat,
      show (8 : U64).toNat = 8 from rfl]
    omega

/-- **And so does a list of them**, by induction on the chunks. -/
theorem updates_represent (h : Represents ctx msg)
    (chunks : List (List U8)) : Represents (chunks.foldl sha256Update ctx) (msg ++ chunks.flatten) := by
  induction chunks generalizing ctx msg with
  | nil => simpa using h
  | cons c cs ih =>
    have hrest := ih (update_represents h c)
    rwa [List.append_assoc] at hrest

/-! ## The end of the message -/

/-- A byte of a number that is kept in 64 bits. -/
theorem byte_ofNat (n : ℕ) {i : ℕ} (hi : i ≤ 56) :
    BitVec.ofNat 8 ((BitVec.ofNat 64 n).toNat / 2 ^ i) = BitVec.ofNat 8 (n / 2 ^ i) := by
  apply BitVec.eq_of_toNat_eq
  have hpow : (2 : ℕ) ^ 64 = 2 ^ i * 2 ^ (64 - i) := by
    rw [← Nat.pow_add]
    congr 1
    omega
  have hdvd : (2 : ℕ) ^ 8 ∣ 2 ^ (64 - i) := Nat.pow_dvd_pow 2 (by omega)
  rw [BitVec.toNat_ofNat, BitVec.toNat_ofNat, BitVec.toNat_ofNat, hpow,
    Nat.mod_mul_right_div_self, Nat.mod_mod_of_dvd _ hdvd]

/-- The length field. Both sides keep the low 64 bits of the length, so
this needs no bound. -/
theorem putBits_eq (n : ℕ) : putBits (BitVec.ofNat 64 n) = Fips.bigEndian 8 n := by
  have hlow : (BitVec.ofNat 64 n).setWidth 8 = BitVec.ofNat 8 (n / 2 ^ 0) := by
    rw [← byte_ofNat n (Nat.zero_le 56), Nat.pow_zero, Nat.div_one]
    apply BitVec.eq_of_toNat_eq
    rw [BitVec.toNat_setWidth, BitVec.toNat_ofNat, BitVec.toNat_ofNat]
  simp only [putBits, Word.setWidth_shiftRight, hlow, byte_ofNat n (show 56 ≤ 56 by decide),
    byte_ofNat n (show 48 ≤ 56 by decide), byte_ofNat n (show 40 ≤ 56 by decide),
    byte_ofNat n (show 32 ≤ 56 by decide), byte_ofNat n (show 24 ≤ 56 by decide),
    byte_ofNat n (show 16 ≤ 56 by decide), byte_ofNat n (show 8 ≤ 56 by decide)]
  rfl

theorem putBe32_eq (v : U32) : putBe32 v = Fips.bigEndian 4 v.toNat := by
  have hlow : v.setWidth 8 = BitVec.ofNat 8 (v.toNat / 2 ^ 0) := by
    rw [Nat.pow_zero, Nat.div_one]
    apply BitVec.eq_of_toNat_eq
    rw [BitVec.toNat_setWidth, BitVec.toNat_ofNat]
  simp only [putBe32, Word.setWidth_shiftRight, hlow]
  rfl

theorem putDigest_eq (v : Fips.Words) : putDigest v = v.bytes := by
  simp only [putDigest, Fips.Words.bytes, putBe32_eq, List.flatMap_cons, List.flatMap_nil,
    List.append_assoc, List.append_nil]

/-- A buffer that has been written to its end. -/
theorem buf_write_end (ctx : Sha256Ctx) {off : ℕ} (h : off + xs.length = 64) :
    (ctx.write off xs).buf = ctx.buf.take off ++ xs := by
  have hlen : (ctx.write off xs).buf.length = 64 := (ctx.write off xs).buf_length
  have htake := take_write ctx (Nat.le_of_eq h)
  rwa [h, List.take_of_length_le (Nat.le_of_eq hlen)] at htake

theorem flush_state (ctx : Sha256Ctx) :
    ctx.flush.state = Fips.compress ctx.state ctx.buf := by
  rw [← sha256Compress_eq]
  rfl

variable {bits : List U8}

/-- The last block: the length behind whatever is in front of it. -/
theorem state_lastBlock {front : List U8}
    (hstate : ctx.state = state) (hfront : ctx.buf.take 56 = front) (hbits : bits.length = 8) :
    (ctx.write 56 bits).flush.state = Fips.compress state (front ++ bits) := by
  rw [flush_state, buf_write_end ctx (show 56 + bits.length = 64 by omega), hfront, ← hstate]
  rfl

/-- The zeros behind the byte `0x80`, up to some offset. -/
theorem take_write_zeros
    (h : Holds ctx state pending) (hn : pending.length ≤ n) (hfits : n ≤ 64) :
    (ctx.write ctx.bufLen (List.replicate (n - ctx.bufLen) 0)).buf.take n =
      pending ++ List.replicate (n - pending.length) 0 := by
  have hlen : ctx.bufLen + (List.replicate (n - ctx.bufLen) (0 : U8)).length = n := by
    rw [List.length_replicate, h.bufLen_eq]
    omega
  have htake := take_write ctx (show ctx.bufLen +
    (List.replicate (n - ctx.bufLen) (0 : U8)).length ≤ 64 by omega)
  rw [hlen, h.buf_take] at htake
  rw [htake, h.bufLen_eq]

/-- The padding when the length still fits behind what waits. -/
theorem absorb_pad_one {p : List U8} (hbits : bits.length = 8)
    (hp : p.length ≤ 56) :
    Blocks.absorb Fips.compress 64 state (p ++ (List.replicate (56 - p.length) 0 ++ bits)) =
      Fips.compress state (p ++ List.replicate (56 - p.length) 0 ++ bits) := by
  have hblock : (p ++ List.replicate (56 - p.length) 0 ++ bits).length = 64 := by
    rw [List.length_append, List.length_append, List.length_replicate]
    omega
  rw [← List.append_assoc, ← List.append_nil (p ++ _ ++ bits),
    Blocks.absorb_block (by decide) hblock, Blocks.absorb_of_lt (by decide), List.append_nil]

/-- The padding when it does not: one block is filled with zeros and the
length stands at the end of another. -/
theorem absorb_pad_two {p : List U8} (hbits : bits.length = 8)
    (hp : p.length ≤ 64) :
    Blocks.absorb Fips.compress 64 state
        (p ++ (List.replicate (64 - p.length + 56) 0 ++ bits)) =
      Fips.compress (Fips.compress state (p ++ List.replicate (64 - p.length) 0))
        (List.replicate 56 0 ++ bits) := by
  have hblock : (p ++ List.replicate (64 - p.length) 0).length = 64 := by
    rw [List.length_append, List.length_replicate]
    omega
  -- the second block is a padding of nothing
  have hlast (s : Fips.Words) : Blocks.absorb Fips.compress 64 s (List.replicate 56 0 ++ bits) =
      Fips.compress s (List.replicate 56 0 ++ bits) :=
    absorb_pad_one (p := []) hbits (by decide)
  rw [List.replicate_add, List.append_assoc, ← List.append_assoc p,
    Blocks.absorb_block (by decide) hblock, hlast]

/-- **Both padding branches complete the message as the standard does.**
The cases are whether the length still fits behind the byte `0x80`. -/
theorem final_eq (h : Represents ctx msg) :
    (sha256Final ctx).1 = Fips.sha256 msg := by
  obtain ⟨r, hr⟩ : ∃ r, r = Blocks.rest 64 msg := ⟨_, rfl⟩
  obtain ⟨st, hst⟩ : ∃ st, st = Blocks.absorb Fips.compress 64 Fips.initialHash msg := ⟨_, rfl⟩
  obtain ⟨bits, hbits⟩ : ∃ bits, bits = Fips.bigEndian 8 (8 * msg.length) := ⟨_, rfl⟩
  obtain ⟨c, hc⟩ : ∃ c, c = ctx.push [0x80] := ⟨_, rfl⟩
  have hblen : bits.length = 8 := by rw [hbits, Fips.bigEndian, List.length_map, List.length_range]
  have hrlen : r.length = msg.length % 64 := by rw [hr]; exact Blocks.length_rest 64 msg
  have hrlt : r.length < 64 := by rw [hr]; exact length_rest_lt msg
  have hplen : (r ++ [(0x80 : U8)]).length = r.length + 1 := by rw [List.length_append]; rfl
  have hcount : c.bitCount = ctx.bitCount := by
    rw [hc]
    rfl
  have hput : putBits c.bitCount = bits := by rw [hcount, h.bitCount, hbits, putBits_eq]
  have hheld : Holds c st (r ++ [0x80]) := by
    rw [hc, hst, hr]
    exact push_holds h.holds (show (Blocks.rest 64 msg).length + 1 ≤ 64 from length_rest_lt msg)
  have hspec : Fips.sha256 msg = (Blocks.absorb Fips.compress 64 st
      ((r ++ [0x80]) ++ (List.replicate (Fips.padZeros msg.length) 0 ++ bits))).bytes := by
    rw [Fips.sha256, Fips.pad, Blocks.absorb_append (by decide), ← hr, ← hst, ← hbits,
      List.append_assoc r, List.singleton_append]
  unfold sha256Final
  dsimp only
  rw [← hc, putDigest_eq, hspec]
  apply congrArg
  split
  · rename_i hlong
    rw [hheld.bufLen_eq] at hlong
    have hzeros : Fips.padZeros msg.length = 64 - (r ++ [(0x80 : U8)]).length + 56 := by
      rw [Fips.padZeros]
      omega
    obtain ⟨d, hd⟩ : ∃ d, d = c.write c.bufLen (List.replicate (64 - c.bufLen) 0) := ⟨_, rfl⟩
    have hdcount : d.flush.bitCount = c.bitCount := by
      rw [bitCount_flush, hd, Sha256Ctx.write_bitCount]
    have hdbuf : d.buf = (r ++ [0x80]) ++ List.replicate (64 - (r ++ [(0x80 : U8)]).length) 0 := by
      have htake := take_write_zeros hheld (show (r ++ [(0x80 : U8)]).length ≤ 64 by omega)
        (Nat.le_refl 64)
      have hfull : d.buf.length ≤ 64 := Nat.le_of_eq d.buf_length
      rwa [← hd, List.take_of_length_le hfull] at htake
    have hdstate : d.flush.state = Fips.compress st
        ((r ++ [0x80]) ++ List.replicate (64 - (r ++ [(0x80 : U8)]).length) 0) := by
      rw [flush_state, hdbuf, hd, ← hheld.state_eq]
      rfl
    obtain ⟨e, he⟩ : ∃ e, e = d.flush := ⟨_, rfl⟩
    have hfront := take_write e (show 0 + (List.replicate 56 (0 : U8)).length ≤ 64 by decide)
    rw [← he] at hdcount hdstate
    rw [hzeros, absorb_pad_two hblen (by omega), show sha256Block = 64 from rfl, ← hd, ← he,
      Sha256Ctx.write_bitCount, hdcount, hput]
    exact state_lastBlock hdstate hfront hblen
  · rename_i hshort
    rw [hheld.bufLen_eq] at hshort
    have hzeros : Fips.padZeros msg.length = 56 - (r ++ [(0x80 : U8)]).length := by
      rw [Fips.padZeros]
      omega
    rw [hzeros, absorb_pad_one hblen (by omega), Sha256Ctx.write_bitCount, hput]
    exact state_lastBlock hheld.state_eq (take_write_zeros hheld (by omega) (by decide)) hblen

/-- The standard's example message, `abc`. -/
example : Fips.sha256 [0x61, 0x62, 0x63] =
    [0xba, 0x78, 0x16, 0xbf, 0x8f, 0x01, 0xcf, 0xea, 0x41, 0x41, 0x40, 0xde, 0x5d, 0xae, 0x22, 0x23,
     0xb0, 0x03, 0x61, 0xa3, 0x96, 0x17, 0x7a, 0x9c, 0xb4, 0x10, 0xff, 0x61, 0xf2, 0x00, 0x15,
     0xad] := by
  have hrun := final_eq (updates_represent
    (init_represents ⟨h0, 0, List.replicate 64 0, 0, rfl⟩) [[0x61], [], [0x62, 0x63]])
  exact hrun.symm.trans (by decide +kernel)

/-! ## Streaming out of memory -/

/-- **The chunks of `_hash_region` make up the region.** The induction is
the loop's; what has been done is what the context represents. -/
theorem hashLoop_represents (mem : U64 → U8) (pa : U64) (len done : ℕ) (ctx : Sha256Ctx)
    (hdone : done ≤ len) (h : Represents ctx (bytesAt mem pa done)) :
    Represents (hashLoop mem pa len done ctx) (bytesAt mem pa len) := by
  induction done, ctx using hashLoop.induct mem pa len with
  | case1 done ctx hlt n ih =>
    rw [hashLoop, if_pos hlt]
    have hn : done + n ≤ len := by
      change done + (if len - done < gmeasChunk then len - done else gmeasChunk) ≤ len
      split <;> omega
    have hnext := update_represents h (bytesAt mem (pa + BitVec.ofNat 64 done) n)
    rw [← bytesAt_add] at hnext
    exact ih hn hnext
  | case2 done ctx hle =>
    rw [hashLoop, if_neg hle]
    have heq : done = len := by omega
    rwa [← heq]

/-- **Streaming correctness**: however a message is cut, the digest is the
standard's, and so is the one `_hash_region` streams out of memory, which
therefore is the digest of the region in one piece.

The standard defines digests up to `2 ^ 61` bytes; of a longer length the
code and the padding keep the same 64 bits. One chunk is taken to be shorter
than `2 ^ 64 - 64` bytes: beyond that `i + 64 <= len` in `sha256_update`
wraps, which the list of its bytes does not show. -/
theorem sha256_streaming (ctx : Sha256Ctx) :
    (∀ chunks : List (List U8), (sha256Final (chunks.foldl sha256Update (sha256Init ctx))).1 =
        Fips.sha256 chunks.flatten) ∧
      ∀ (mem : U64 → U8) (pa len : U64) (ctx' : Sha256Ctx), hashRegion ctx mem pa len =
        (sha256Final (sha256Update (sha256Init ctx') (bytesAt mem pa len.toNat))).1 := by
  refine ⟨?_, ?_⟩
  · intro chunks
    exact final_eq (updates_represent (init_represents ctx) chunks)
  · intro mem pa len ctx'
    have hloop := hashLoop_represents mem pa len.toNat 0 _ (Nat.zero_le _) (init_represents ctx)
    have hshot := update_represents (init_represents ctx') (bytesAt mem pa len.toNat)
    rw [hashRegion, final_eq hloop, final_eq hshot, List.nil_append]

end Crypto

end HypervisorBase
