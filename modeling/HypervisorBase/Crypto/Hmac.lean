import HypervisorBase.Crypto.Streaming
/-!
# HMAC, and what `.rodata` is measured as

An HMAC context runs two hashes. Between the calls it represents a key and
the message so far (`HmacRepresents`): the inner hash has been fed the
inner pad and the message, the outer one the outer pad. Each function of
`hmac.c` has its lemma about that, and `component_check_measure` is a
caller like any other: its two segments are the section without the
golden table (`bytesOutside_eq`).
-/

namespace HypervisorBase

namespace Crypto

theorem length_sha256 (msg : List U8) : (Fips.sha256 msg).length = 32 := by
  simp [Fips.sha256, Fips.Words.bytes, Fips.bigEndian]

theorem length_hmac (key text : List U8) : (Fips.hmac key text).length = 32 := length_sha256 _

/-! ## Comparing -/

/-- An accumulated difference is zero if every byte agrees. -/
theorem foldl_or_eq_zero_iff (f : ℕ → U8) (n : ℕ) :
    (List.range n).foldl (fun diff i => diff ||| f i) 0 = 0 ↔ ∀ i < n, f i = 0 := by
  induction n with
  | zero =>
    constructor
    · intro _ i hi
      omega
    · intro _
      rfl
  | succ n ih =>
    rw [List.range_succ, List.foldl_append, List.foldl_cons, List.foldl_nil]
    refine BitVec.or_eq_zero_iff.trans ⟨?_, ?_⟩
    · rintro ⟨hlow, hn⟩ i hi
      by_cases h : i = n
      · rw [h]
        exact hn
      · exact ih.mp hlow i (by omega)
    · intro h
      exact ⟨ih.mpr fun i hi => h i (by omega), h n (by omega)⟩

/-- `hmac_verify` compares the first `len` bytes. -/
theorem hmacVerify_iff (expected actual : List U8) (len : ℕ) :
    hmacVerify expected actual len = true ↔
      ∀ i < len, expected.getD i 0 = actual.getD i 0 := by
  rw [hmacVerify, decide_eq_true_eq, foldl_or_eq_zero_iff]
  exact forall₂_congr fun i _ => BitVec.xor_eq_zero_iff

theorem take_eq_iff_getD {a b : List U8} {n : ℕ} (ha : n ≤ a.length) (hb : n ≤ b.length) :
    a.take n = b.take n ↔ ∀ i < n, a.getD i 0 = b.getD i 0 := by
  constructor
  · intro h i hi
    have hget := congrArg (fun l => l.getD i 0) h
    simpa [List.getD_eq_getElem?_getD, List.getElem?_take, hi] using hget
  · intro h
    refine List.ext_getElem (by simp; omega) fun i hi hi' => ?_
    have hlt : i < n := by
      rw [List.length_take] at hi
      omega
    have hget := h i hlt
    rw [List.getD_eq_getElem _ _ (by omega), List.getD_eq_getElem _ _ (by omega)] at hget
    simpa using hget

/-- On strings of that length it decides equality. -/
theorem hmacVerify_eq_true {expected actual : List U8} {len : ℕ} (he : expected.length = len)
    (ha : actual.length = len) : hmacVerify expected actual len = true ↔ expected = actual := by
  rw [hmacVerify_iff, ← take_eq_iff_getD (Nat.le_of_eq he.symm) (Nat.le_of_eq ha.symm),
    List.take_of_length_le (Nat.le_of_eq he), List.take_of_length_le (Nat.le_of_eq ha)]

/-! ## Keys and pads -/

/-- One update of a fresh context. -/
theorem init_update_represents (ctx : Sha256Ctx) (data : List U8) :
    Represents (sha256Update (sha256Init ctx) data) data :=
  update_represents (init_represents ctx) data

/-- The key block is the one of the standard. -/
theorem kBlock_eq (tmp : Sha256Ctx) (key : List U8) : kBlock tmp key = Fips.blockKey key := by
  obtain ⟨k, hk⟩ : ∃ k, k = if 64 < key.length then Fips.sha256 key else key := ⟨_, rfl⟩
  have hlen : k.length ≤ 64 := by
    rw [hk]
    split
    · rw [length_sha256]
      decide
    · omega
  have hfits : 0 + k.length ≤ (List.replicate 64 (0 : U8)).length := by
    rw [List.length_replicate, Nat.zero_add]
    exact hlen
  rw [kBlock, Fips.blockKey, final_eq (init_update_represents tmp key), sha256Block, ← hk,
    Blocks.overwrite_eq hfits, List.take_zero, List.nil_append, Nat.zero_add, List.drop_replicate]

/-- The message of the inner hash. -/
def ipad (key : List U8) : List U8 := (Fips.blockKey key).map (· ^^^ 0x36)

/-- What the outer hash starts with. -/
def opad (key : List U8) : List U8 := (Fips.blockKey key).map (· ^^^ 0x5C)

theorem hmac_eq (key text : List U8) :
    Fips.hmac key text = Fips.sha256 (opad key ++ Fips.sha256 (ipad key ++ text)) := rfl

/-! ## Contexts -/

/-- **A context with a key that has been fed a message.** -/
structure HmacRepresents (ctx : HmacCtx) (key msg : List U8) : Prop where
  inner : Represents ctx.inner (ipad key ++ msg)
  outer : Represents ctx.outer (opad key)

variable {key : List U8}

/-- After `hmac_init` both contexts have read their pads. -/
theorem hmacInit_represents (ctx : HmacCtx) (tmp : Sha256Ctx)
    (hkey : 0 < key.length) :
    ∃ ctx', hmacInit ctx tmp key = (.ok, ctx') ∧ HmacRepresents ctx' key [] := by
  refine ⟨_, by rw [hmacInit, if_neg (by omega)], ?_, ?_⟩
  · rw [kBlock_eq, List.append_nil]
    exact init_update_represents ctx.inner (ipad key)
  · rw [kBlock_eq]
    exact init_update_represents ctx.outer (opad key)

variable {ctx : HmacCtx} {msg : List U8}

theorem hmacUpdate_represents (h : HmacRepresents ctx key msg)
    (data : List U8) : HmacRepresents (hmacUpdate ctx data) key (msg ++ data) := by
  refine ⟨?_, h.outer⟩
  rw [← List.append_assoc]
  exact update_represents h.inner data

/-- By induction on the chunks. -/
theorem hmacUpdates_represent (h : HmacRepresents ctx key msg)
    (chunks : List (List U8)) :
    HmacRepresents (chunks.foldl hmacUpdate ctx) key (msg ++ chunks.flatten) := by
  induction chunks generalizing ctx msg with
  | nil => simpa using h
  | cons c cs ih =>
    have hrest := ih (hmacUpdate_represents h c)
    rwa [List.append_assoc] at hrest

theorem hmacFinal_eq (h : HmacRepresents ctx key msg) :
    (hmacFinal ctx).1 = Fips.hmac key msg := by
  have houter := update_represents h.outer (sha256Final ctx.inner).1
  rw [hmac_eq, ← final_eq h.inner, ← final_eq houter]
  rfl

theorem hmacSha256_eq (ctx : HmacCtx) (tmp : Sha256Ctx) (hkey : 0 < key.length)
    (msg : List U8) : hmacSha256 ctx tmp key msg = .ok (Fips.hmac key msg) := by
  obtain ⟨ctx', hinit, hrep⟩ := hmacInit_represents ctx tmp hkey
  rw [hmacSha256, hinit]
  exact congrArg _ (hmacFinal_eq (hmacUpdate_represents hrep msg))

/-! ## The section without the golden table -/

/-- The bytes from `start` to `stop` whose address is not one of the `n`
from `lo` on. -/
def bytesOutside (mem : U64 → U8) (start stop lo : U64) (n : ℕ) : List U8 :=
  ((List.range (stop.toNat - start.toNat)).filter fun i =>
      start.toNat + i < lo.toNat ∨ lo.toNat + n ≤ start.toNat + i).map
    fun i => mem (start + BitVec.ofNat 64 i)

/-- **They are two segments**, either of which may be empty. -/
theorem bytesOutside_eq (mem : U64 → U8) {start stop lo : U64} {n : ℕ}
    (hlo : start.toNat ≤ lo.toNat) (hhi : lo.toNat + n ≤ stop.toNat) :
    bytesOutside mem start stop lo n =
      bytesAt mem start (lo.toNat - start.toNat) ++
        bytesAt mem (lo + BitVec.ofNat 64 n) (stop.toNat - (lo.toNat + n)) := by
  obtain ⟨a, ha⟩ : ∃ a, a = lo.toNat - start.toNat := ⟨_, rfl⟩
  obtain ⟨b, hb⟩ : ∃ b, b = stop.toNat - (lo.toNat + n) := ⟨_, rfl⟩
  have hsplit : stop.toNat - start.toNat = a + n + b := by omega
  have hloEq : lo = start + BitVec.ofNat 64 a := by
    apply BitVec.eq_of_toNat_eq
    have := lo.isLt
    rw [BitVec.toNat_add, BitVec.toNat_ofNat]
    omega
  have hfront : (List.range a).filter (fun i => start.toNat + i < lo.toNat ∨
      lo.toNat + n ≤ start.toNat + i) = List.range a := by
    refine List.filter_eq_self.mpr fun i hi => ?_
    have := List.mem_range.mp hi
    exact decide_eq_true (by omega)
  have hmiddle : ((List.range n).map (a + ·)).filter (fun i => start.toNat + i < lo.toNat ∨
      lo.toNat + n ≤ start.toNat + i) = [] := by
    refine List.filter_eq_nil_iff.mpr fun i hi => ?_
    obtain ⟨j, hj, rfl⟩ := List.mem_map.mp hi
    have := List.mem_range.mp hj
    rw [decide_eq_true_eq]
    omega
  have hback : ((List.range b).map (a + n + ·)).filter (fun i => start.toNat + i < lo.toNat ∨
      lo.toNat + n ≤ start.toNat + i) = (List.range b).map (a + n + ·) := by
    refine List.filter_eq_self.mpr fun i hi => ?_
    obtain ⟨j, _, rfl⟩ := List.mem_map.mp hi
    exact decide_eq_true (by omega)
  rw [bytesOutside, hsplit, List.range_add, List.range_add, List.filter_append, List.filter_append,
    hfront, hmiddle, hback, List.append_nil, List.map_append, List.map_map, ← ha, ← hb, hloEq]
  refine congrArg (bytesAt mem start a ++ ·) (List.map_congr_left fun i _ => ?_)
  rw [Function.comp_apply, BitVec.ofNat_add, BitVec.ofNat_add]
  simp only [BitVec.add_assoc]

/-- **The golden table lies inside `.rodata`**, which is where the linker
put it and not at the null address. -/
structure GoldenInside (s : ComponentState) : Prop where
  start_ne : (s.component vseComponentRodata).start ≠ 0
  lower : (s.component vseComponentRodata).start.toNat ≤ s.golden.toNat
  upper : s.golden.toNat + goldenSize ≤ (s.component vseComponentRodata).stop.toNat

/-- `.rodata` with the bytes of the golden table deleted. -/
def rodataOutside (s : ComponentState) : List U8 :=
  bytesOutside s.mem (s.component vseComponentRodata).start (s.component vseComponentRodata).stop
    s.golden goldenSize

/-- An update that is skipped when its segment is empty. -/
theorem hmacUpdate_segment (h : HmacRepresents ctx key msg)
    (mem : U64 → U8) {lo hi : U64} (hle : lo.toNat ≤ hi.toNat) :
    HmacRepresents (if lo < hi then hmacUpdate ctx (bytesAt mem lo (hi - lo).toNat) else ctx) key
      (msg ++ bytesAt mem lo (hi.toNat - lo.toNat)) := by
  split
  · have hsub : (hi - lo).toNat = hi.toNat - lo.toNat := BitVec.toNat_sub_of_le (by bv_omega)
    rw [hsub]
    exact hmacUpdate_represents h _
  · rename_i hnot
    have hempty : hi.toNat - lo.toNat = 0 := by
      rw [BitVec.lt_def] at hnot
      omega
    rw [hempty]
    simpa [bytesAt] using h

/-- The read-only data is measured without the golden values in it. -/
theorem measure_rodata (s : ComponentState) (ctx : HmacCtx) (tmp : Sha256Ctx)
    (h : GoldenInside s) :
    componentCheckMeasure s ctx tmp vseComponentRodata =
      .ok (Fips.hmac s.masterKey (rodataOutside s)) := by
  have hlower := h.lower
  have hupper := h.upper
  have hsize : goldenSize = 64 := rfl
  have hend : (s.golden + BitVec.ofNat 64 goldenSize).toNat = s.golden.toNat + goldenSize := by
    have := (s.component vseComponentRodata).stop.isLt
    rw [BitVec.toNat_add, BitVec.toNat_ofNat]
    omega
  obtain ⟨c, hc⟩ : ∃ c, c = s.component vseComponentRodata := ⟨_, rfl⟩
  obtain ⟨g, hg⟩ : ∃ g, g = s.golden + BitVec.ofNat 64 goldenSize := ⟨_, rfl⟩
  rw [← hc] at hlower hupper
  rw [← hg] at hend
  have hrange : ¬(c.start = 0 ∨ c.stop = 0 ∨ c.stop ≤ c.start) := by
    rintro (hzero | hzero | hle)
    · exact h.start_ne (hc ▸ hzero)
    · have hstop : c.stop.toNat = 0 := by
        rw [hzero]
        rfl
      omega
    · rw [BitVec.le_def] at hle
      omega
  have hguard : ¬(s.golden < c.start ∨ c.stop < g) := by
    rw [BitVec.lt_def, BitVec.lt_def]
    omega
  obtain ⟨ctx', hinit, hrep⟩ := hmacInit_represents ctx tmp
    (show 0 < s.masterKey.length by rw [s.masterKey_length]; decide)
  have hsegments := hmacUpdate_segment (hmacUpdate_segment hrep s.mem hlower) s.mem
    (show g.toNat ≤ c.stop.toNat by omega)
  rw [List.nil_append, hend, hg, ← bytesOutside_eq s.mem hlower hupper] at hsegments
  have hidx : ¬vseNumComponents ≤ vseComponentRodata.toNat := by decide
  unfold componentCheckMeasure
  dsimp only
  rw [if_neg hidx, ← hc, if_neg hrange, if_pos rfl, ← hg, if_neg hguard, hinit]
  dsimp only
  rw [hg, hmacFinal_eq hsegments, rodataOutside, ← hc]

/-- **HMAC correctness**: however the message is cut, the contexts yield
the standard's code under any key that is not empty, `hmac_sha256` agrees,
and `.rodata` is measured as its bytes without those of the golden table,
wherever the table lies in it. -/
theorem hmac_correct (ctx ctx₁ : HmacCtx) (tmp tmp₁ : Sha256Ctx) :
    (∀ (key : List U8) (chunks : List (List U8)), 0 < key.length →
        ∃ ctx', hmacInit ctx tmp key = (.ok, ctx') ∧
          (hmacFinal (chunks.foldl hmacUpdate ctx')).1 = Fips.hmac key chunks.flatten ∧
          hmacSha256 ctx₁ tmp₁ key chunks.flatten = .ok (Fips.hmac key chunks.flatten)) ∧
      ∀ s : ComponentState, GoldenInside s →
        componentCheckMeasure s ctx tmp vseComponentRodata =
          .ok (Fips.hmac s.masterKey (rodataOutside s)) := by
  refine ⟨?_, ?_⟩
  · intro key chunks hkey
    obtain ⟨ctx', hinit, hrep⟩ := hmacInit_represents ctx tmp hkey
    exact ⟨ctx', hinit, hmacFinal_eq (hmacUpdates_represent hrep chunks),
      hmacSha256_eq ctx₁ tmp₁ hkey chunks.flatten⟩
  · intro s hs
    exact measure_rodata s ctx tmp hs

/-- A context as the stack might hold it. -/
def blankCtx : HmacCtx :=
  { inner := ⟨h0, 0, List.replicate 64 0, 0, rfl⟩
    outer := ⟨h0, 0, List.replicate 64 0, 0, rfl⟩ }

/-- A `.rodata` of 256 bytes with the golden table at its very start. -/
def smallImage : ComponentState where
  component := fun _ => ⟨0x40280000, 0x40280100⟩
  golden := 0x40280000
  masterKey := List.replicate 32 0xA3
  mem := fun a => a.setWidth 8
  masterKey_length := rfl

theorem hmac_correct_jefe :
    (∃ ctx', hmacInit blankCtx blankCtx.inner [0x4a, 0x65, 0x66, 0x65] = (.ok, ctx') ∧
        (hmacFinal ([[0x77, 0x68], [], [0x61, 0x74]].foldl hmacUpdate ctx')).1 =
          Fips.hmac [0x4a, 0x65, 0x66, 0x65] [0x77, 0x68, 0x61, 0x74] ∧
        hmacSha256 blankCtx blankCtx.inner [0x4a, 0x65, 0x66, 0x65] [0x77, 0x68, 0x61, 0x74] =
          .ok (Fips.hmac [0x4a, 0x65, 0x66, 0x65] [0x77, 0x68, 0x61, 0x74])) ∧
      componentCheckMeasure smallImage blankCtx blankCtx.inner vseComponentRodata =
        .ok (Fips.hmac smallImage.masterKey (rodataOutside smallImage)) :=
  ⟨(hmac_correct blankCtx blankCtx blankCtx.inner blankCtx.inner).1 [0x4a, 0x65, 0x66, 0x65]
      [[0x77, 0x68], [], [0x61, 0x74]] (by decide),
    (hmac_correct blankCtx blankCtx blankCtx.inner blankCtx.inner).2 smallImage
      ⟨by decide, by decide, by decide⟩⟩

end Crypto

end HypervisorBase
