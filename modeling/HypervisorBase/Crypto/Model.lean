import HypervisorBase.State
import HypervisorBase.Crypto.Fips
/-!
# SHA-256, HMAC and the measurements made with them

The model of `vse/hmac.c`, of `_hash_region` of `vse/guest_measure.c` and
of `component_check_measure` of `vse/component_check.c`. A buffer that is
passed with its length is a list of bytes, and `bytesAt` reads one out of
memory. A context that was never initialised holds arbitrary values, so
the initialisers take one and keep what they do not write.
-/

namespace HypervisorBase

namespace Crypto

/-- `SHA256_BLOCK`. -/
def sha256Block : ℕ := 64

/-- The round constants. -/
def k : List U32 :=
  [0x428a2f98, 0x71374491, 0xb5c0fbcf, 0xe9b5dba5, 0x3956c25b, 0x59f111f1, 0x923f82a4, 0xab1c5ed5,
   0xd807aa98, 0x12835b01, 0x243185be, 0x550c7dc3, 0x72be5d74, 0x80deb1fe, 0x9bdc06a7, 0xc19bf174,
   0xe49b69c1, 0xefbe4786, 0x0fc19dc6, 0x240ca1cc, 0x2de92c6f, 0x4a7484aa, 0x5cb0a9dc, 0x76f988da,
   0x983e5152, 0xa831c66d, 0xb00327c8, 0xbf597fc7, 0xc6e00bf3, 0xd5a79147, 0x06ca6351, 0x14292967,
   0x27b70a85, 0x2e1b2138, 0x4d2c6dfc, 0x53380d13, 0x650a7354, 0x766a0abb, 0x81c2c92e, 0x92722c85,
   0xa2bfe8a1, 0xa81a664b, 0xc24b8b70, 0xc76c51a3, 0xd192e819, 0xd6990624, 0xf40e3585, 0x106aa070,
   0x19a4c116, 0x1e376c08, 0x2748774c, 0x34b0bcb5, 0x391c0cb3, 0x4ed8aa4a, 0x5b9cca4f, 0x682e6ff3,
   0x748f82ee, 0x78a5636f, 0x84c87814, 0x8cc70208, 0x90befffa, 0xa4506ceb, 0xbef9a3f7, 0xc67178f2]

/-- The initial hash values. -/
def h0 : Fips.Words :=
  ⟨0x6a09e667, 0xbb67ae85, 0x3c6ef372, 0xa54ff53a, 0x510e527f, 0x9b05688c, 0x1f83d9ab, 0x5be0cd19⟩

/-! ## Compression -/

def rotr32 (x : U32) (n : ℕ) : U32 := (x >>> n) ||| (x <<< (32 - n))

def ch (e f g : U32) : U32 := (e &&& f) ^^^ (~~~e &&& g)

def maj (a b c : U32) : U32 := (a &&& b) ^^^ (a &&& c) ^^^ (b &&& c)

def ep0 (a : U32) : U32 := rotr32 a 2 ^^^ rotr32 a 13 ^^^ rotr32 a 22

def ep1 (e : U32) : U32 := rotr32 e 6 ^^^ rotr32 e 11 ^^^ rotr32 e 25

def sig0 (x : U32) : U32 := rotr32 x 7 ^^^ rotr32 x 18 ^^^ (x >>> 3)

def sig1 (x : U32) : U32 := rotr32 x 17 ^^^ rotr32 x 19 ^^^ (x >>> 10)

/-- `be32` of the four bytes at an offset. -/
def be32 (p : List U8) (off : ℕ) : U32 :=
  ((p.getD off 0).setWidth 32 <<< 24) ||| ((p.getD (off + 1) 0).setWidth 32 <<< 16) |||
    ((p.getD (off + 2) 0).setWidth 32 <<< 8) ||| (p.getD (off + 3) 0).setWidth 32

def putBe32 (v : U32) : List U8 :=
  [(v >>> 24).setWidth 8, (v >>> 16).setWidth 8, (v >>> 8).setWidth 8, v.setWidth 8]

/-- One word of the second loop over `W`. -/
def expandOne (w : List U32) (i : ℕ) : List U32 :=
  w ++ [sig1 (w.getD (i - 2) 0) + w.getD (i - 7) 0 + sig0 (w.getD (i - 15) 0) + w.getD (i - 16) 0]

/-- The array `W`. -/
def messageSchedule (block : List U8) : List U32 :=
  (List.range' 16 48).foldl expandOne ((List.range 16).map fun i => be32 block (i * 4))

/-- One of the 64 rounds. -/
def roundOne (w : List U32) (v : Fips.Words) (i : ℕ) : Fips.Words :=
  let t1 := v.h + ep1 v.e + ch v.e v.f v.g + k.getD i 0 + w.getD i 0
  let t2 := ep0 v.a + maj v.a v.b v.c
  ⟨t1 + t2, v.a, v.b, v.c, v.d + t1, v.e, v.f, v.g⟩

def sha256Compress (state : Fips.Words) (block : List U8) : Fips.Words :=
  let w := messageSchedule block
  let v := (List.range 64).foldl (roundOne w) state
  ⟨state.a + v.a, state.b + v.b, state.c + v.c, state.d + v.d,
    state.e + v.e, state.f + v.f, state.g + v.g, state.h + v.h⟩

/-! ## SHA-256 -/

/-- `sha256_ctx_t`. -/
structure Sha256Ctx where
  state : Fips.Words
  bitCount : U64
  buf : List U8
  bufLen : ℕ
  buf_length : buf.length = sha256Block

namespace Sha256Ctx

/-- A write into the buffer: `memcpy` and `memset` both are one. -/
def write (ctx : Sha256Ctx) (off : ℕ) (xs : List U8) : Sha256Ctx :=
  { ctx with
    buf := Blocks.overwrite ctx.buf off xs
    buf_length := (Blocks.length_overwrite ..).trans ctx.buf_length }

@[simp] theorem write_buf (ctx : Sha256Ctx) (off : ℕ) (xs : List U8) :
    (ctx.write off xs).buf = Blocks.overwrite ctx.buf off xs := rfl

@[simp] theorem write_bitCount (ctx : Sha256Ctx) (off : ℕ) (xs : List U8) :
    (ctx.write off xs).bitCount = ctx.bitCount := rfl

/-- Bytes put behind those in the buffer. -/
def push (ctx : Sha256Ctx) (xs : List U8) : Sha256Ctx :=
  { ctx.write ctx.bufLen xs with bufLen := ctx.bufLen + xs.length }

/-- `sha256_compress` of the buffer. -/
def flush (ctx : Sha256Ctx) : Sha256Ctx :=
  { ctx with state := sha256Compress ctx.state ctx.buf }

end Sha256Ctx

def sha256Init (ctx : Sha256Ctx) : Sha256Ctx :=
  { ctx with state := h0, bitCount := 0, bufLen := 0 }

/-- The part of `sha256_update` that fills a partial buffer first, with the
number of bytes it took. -/
def fillBuffer (ctx : Sha256Ctx) (data : List U8) : Sha256Ctx × ℕ :=
  if 0 < ctx.bufLen then
    let space := sha256Block - ctx.bufLen
    let take := if data.length < space then data.length else space
    let ctx := ctx.push (data.take take)
    if ctx.bufLen = sha256Block then ({ ctx.flush with bufLen := 0 }, take) else (ctx, take)
  else (ctx, 0)

/-- The loop over full blocks, from offset `i` on for `n` more of them. -/
def blockLoop (data : List U8) : ℕ → Fips.Words → ℕ → Fips.Words × ℕ
  | 0, state, i => (state, i)
  | n + 1, state, i =>
    blockLoop data n (sha256Compress state ((data.drop i).take sha256Block)) (i + sha256Block)

/-- The rest of `sha256_update`, from offset `i` on: full blocks directly
from the input, and what is left into the buffer. The loop's test
`i + SHA256_BLOCK <= len` holds for exactly `(len - i) / SHA256_BLOCK`
steps. -/
def storeTail (ctx : Sha256Ctx) (data : List U8) (i : ℕ) : Sha256Ctx :=
  let (state, i) := blockLoop data ((data.length - i) / sha256Block) ctx.state i
  let ctx := { ctx with state := state }
  let tail := data.length - i
  if 0 < tail then { ctx.write 0 (data.drop i) with bufLen := tail } else ctx

def sha256Update (ctx : Sha256Ctx) (data : List U8) : Sha256Ctx :=
  let ctx := { ctx with bitCount := ctx.bitCount + BitVec.ofNat 64 data.length * 8 }
  let (ctx, i) := fillBuffer ctx data
  storeTail ctx data i

/-- The length as `sha256_final` stores it. -/
def putBits (bits : U64) : List U8 :=
  [(bits >>> 56).setWidth 8, (bits >>> 48).setWidth 8, (bits >>> 40).setWidth 8,
    (bits >>> 32).setWidth 8, (bits >>> 24).setWidth 8, (bits >>> 16).setWidth 8,
    (bits >>> 8).setWidth 8, bits.setWidth 8]

/-- `put_be32` of each word. -/
def putDigest (s : Fips.Words) : List U8 :=
  putBe32 s.a ++ putBe32 s.b ++ putBe32 s.c ++ putBe32 s.d ++
    putBe32 s.e ++ putBe32 s.f ++ putBe32 s.g ++ putBe32 s.h

/-- `sha256_final`: the digest, and what it leaves of the context. -/
def sha256Final (ctx : Sha256Ctx) : List U8 × Sha256Ctx :=
  let ctx := ctx.push [0x80]
  let ctx :=
    if 56 < ctx.bufLen then
      let ctx := ctx.write ctx.bufLen (List.replicate (sha256Block - ctx.bufLen) 0)
      ctx.flush.write 0 (List.replicate 56 0)
    else ctx.write ctx.bufLen (List.replicate (56 - ctx.bufLen) 0)
  let ctx := (ctx.write 56 (putBits ctx.bitCount)).flush
  (putDigest ctx.state, ctx)

/-! ## Streaming out of memory -/

/-- `GMEAS_CHUNK`. -/
def gmeasChunk : ℕ := 4096

/-- The loop of `_hash_region`. -/
def hashLoop (mem : U64 → U8) (pa : U64) (len done : ℕ) (ctx : Sha256Ctx) : Sha256Ctx :=
  if done < len then
    let n := if len - done < gmeasChunk then len - done else gmeasChunk
    hashLoop mem pa len (done + n) (sha256Update ctx (bytesAt mem (pa + BitVec.ofNat 64 done) n))
  else ctx
termination_by len - done
decreasing_by
  rw [gmeasChunk]
  split <;> omega

/-- `_hash_region`, with what its context held before. -/
def hashRegion (ctx : Sha256Ctx) (mem : U64 → U8) (pa len : U64) : List U8 :=
  (sha256Final (hashLoop mem pa len.toNat 0 (sha256Init ctx))).1

/-! ## HMAC -/

/-- `hmac_ctx_t`. -/
structure HmacCtx where
  inner : Sha256Ctx
  outer : Sha256Ctx

/-- `k_block`: a block of zeros with the key, or its digest, in front. -/
def kBlock (tmp : Sha256Ctx) (key : List U8) : List U8 :=
  Blocks.overwrite (List.replicate sha256Block 0) 0
    (if sha256Block < key.length then (sha256Final (sha256Update (sha256Init tmp) key)).1 else key)

/-- `hmac_init`; `tmp` is its local context. -/
def hmacInit (ctx : HmacCtx) (tmp : Sha256Ctx) (key : List U8) : Err × HmacCtx :=
  if key.length = 0 then (.inval, ctx)
  else
    let kIpad := (kBlock tmp key).map (· ^^^ 0x36)
    let kOpad := (kBlock tmp key).map (· ^^^ 0x5C)
    (.ok,
      { inner := sha256Update (sha256Init ctx.inner) kIpad
        outer := sha256Update (sha256Init ctx.outer) kOpad })

def hmacUpdate (ctx : HmacCtx) (data : List U8) : HmacCtx :=
  { ctx with inner := sha256Update ctx.inner data }

/-- `hmac_final`: the code, and what it leaves of the context. -/
def hmacFinal (ctx : HmacCtx) : List U8 × HmacCtx :=
  let (innerDigest, inner) := sha256Final ctx.inner
  let (mac, outer) := sha256Final (sha256Update ctx.outer innerDigest)
  (mac, ⟨inner, outer⟩)

/-- `hmac_sha256`: an error, or the code it writes; `ctx` and `tmp` are
the contexts on its stack. -/
def hmacSha256 (ctx : HmacCtx) (tmp : Sha256Ctx) (key msg : List U8) : Except Err (List U8) :=
  match hmacInit ctx tmp key with
  | (.ok, ctx) => .ok (hmacFinal (hmacUpdate ctx msg)).1
  | (e, _) => .error e

/-- `hmac_verify`: the differences of the first `len` bytes, accumulated. -/
def hmacVerify (expected actual : List U8) (len : ℕ) : Bool :=
  ((List.range len).foldl (fun diff i => diff ||| (expected.getD i 0 ^^^ actual.getD i 0)) 0) = 0

/-! ## Measuring the hypervisor's own sections -/

def vseNumComponents : ℕ := 2

def vseComponentRodata : U32 := 1

/-- `HMAC_SIZE`. -/
def hmacSize : ℕ := 32

/-- `sizeof(_golden_components)`. -/
def goldenSize : ℕ := vseNumComponents * hmacSize

/-- `vse_component_t`, without its name. -/
structure VseComponent where
  start : U64
  stop : U64
  deriving DecidableEq, Repr

/-- What `component_check_measure` reads: `_components`, the address of
`_golden_components`, `_master_key` and memory. -/
structure ComponentState where
  component : U32 → VseComponent
  golden : U64
  masterKey : List U8
  mem : U64 → U8
  masterKey_length : masterKey.length = 32

/-- `component_check_measure`: an error, or the code it writes. -/
def componentCheckMeasure (s : ComponentState) (ctx : HmacCtx) (tmp : Sha256Ctx) (idx : U32) :
    Except Err (List U8) :=
  if vseNumComponents ≤ idx.toNat then .error .inval
  else
    let c := s.component idx
    if c.start = 0 ∨ c.stop = 0 ∨ c.stop ≤ c.start then .error .inval
    else if idx = vseComponentRodata then
      let gpStart := s.golden
      let gpEnd := gpStart + BitVec.ofNat 64 goldenSize
      if gpStart < c.start ∨ c.stop < gpEnd then .error .inval
      else
        match hmacInit ctx tmp s.masterKey with
        | (.ok, ctx) =>
          let ctx := if c.start < gpStart then
              hmacUpdate ctx (bytesAt s.mem c.start (gpStart - c.start).toNat)
            else ctx
          let ctx := if gpEnd < c.stop then
              hmacUpdate ctx (bytesAt s.mem gpEnd (c.stop - gpEnd).toNat)
            else ctx
          .ok (hmacFinal ctx).1
        | (e, _) => .error e
    else hmacSha256 ctx tmp s.masterKey (bytesAt s.mem c.start (c.stop - c.start).toNat)

end Crypto

end HypervisorBase
