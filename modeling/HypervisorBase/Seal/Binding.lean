import HypervisorBase.Crypto.Hmac
import HypervisorBase.Login.Model
import HypervisorBase.Seal.Model
/-!
# What a sealed blob is bound to

Sealing runs a chain of three HMACs: the tag of the configuration, the key
derived from the tag, and the code of the blob under that key (`tagOf`,
`keyOf`, `codeOf`). Both functions are determined by these
(`vseSeal_eq`, `vseUnseal_eq`), which gives the round trip and the five
exits (`seal_round_trip`). The encodings that are hashed are unambiguous
(`ConfigBlob.bytes_injective`, `coded_injective`), so where the HMACs do
not collide a blob opens under its own configuration only and only as it
was sealed (`seal_binding`).
-/

namespace HypervisorBase

namespace Seal

open Crypto (HmacCtx Sha256Ctx hmacSha256 hmacInit hmacUpdate hmacFinal hmacVerify hmacSize)

/-! ## The chain -/

/-- The tag of a configuration. -/
def tagOf (key : List U8) (cfg : ConfigBlob) : List U8 := Fips.hmac key cfg.bytes

/-- The key that is derived from the tag. -/
def keyOf (key : List U8) (cfg : ConfigBlob) : List U8 :=
  Fips.hmac key (sealLabel ++ tagOf key cfg)

/-- What of a blob is authenticated. -/
def coded (b : SealedBlob) : List U8 := header b.magic b.payloadLen ++ b.bindTag ++ b.payload

/-- The code a blob must carry under a configuration. -/
def codeOf (key : List U8) (cfg : ConfigBlob) (b : SealedBlob) : List U8 :=
  Fips.hmac (keyOf key cfg) (coded b)

variable (s : SealState) (ctx : HmacCtx) (tmp : Sha256Ctx)

theorem masterKey_pos : 0 < s.masterKey.length := by
  rw [s.masterKey_length]
  decide

theorem platformBindTag_eq (cfg : ConfigBlob) :
    platformBindTag s ctx tmp cfg = .ok (tagOf s.masterKey cfg) :=
  Crypto.hmacSha256_eq ctx tmp (masterKey_pos s) _

theorem deriveSealKey_eq (cfg : ConfigBlob) :
    deriveSealKey s ctx tmp (tagOf s.masterKey cfg) = .ok (keyOf s.masterKey cfg) :=
  Crypto.hmacSha256_eq ctx tmp (masterKey_pos s) _

/-- The three updates are one message. -/
theorem blobMac_eq {sealKey : List U8} (hkey : 0 < sealKey.length) (magic payloadLen : U32)
    (bindTag payload : List U8) :
    blobMac ctx tmp sealKey magic payloadLen bindTag payload =
      .ok (Fips.hmac sealKey (header magic payloadLen ++ bindTag ++ payload)) := by
  obtain ⟨ctx', hinit, hrep⟩ := Crypto.hmacInit_represents ctx tmp hkey
  have h₁ := Crypto.hmacUpdate_represents hrep (header magic payloadLen)
  have h₂ := Crypto.hmacUpdate_represents h₁ bindTag
  have h₃ := Crypto.hmacUpdate_represents h₂ payload
  rw [blobMac, hinit]
  exact congrArg _ (Crypto.hmacFinal_eq h₃)

theorem keyOf_pos (key : List U8) (cfg : ConfigBlob) : 0 < (keyOf key cfg).length := by
  rw [keyOf, Crypto.length_hmac]
  decide

theorem length_codeOf (key : List U8) (cfg : ConfigBlob) (b : SealedBlob) :
    (codeOf key cfg b).length = hmacSize := Crypto.length_hmac _ _

/-! ## The two functions -/

theorem field_eq {n : ℕ} {xs : List U8} (h : xs.length ≤ n) :
    field n xs = xs ++ List.replicate (n - xs.length) 0 := by
  have hfits : 0 + xs.length ≤ (List.replicate n (0 : U8)).length := by
    rw [List.length_replicate]
    omega
  rw [field, Blocks.overwrite_eq hfits, List.take_zero, List.nil_append, Nat.zero_add,
    List.drop_replicate]

theorem field_of_length {n : ℕ} {xs : List U8} (h : xs.length = n) : field n xs = xs := by
  rw [field_eq (Nat.le_of_eq h), h, Nat.sub_self]
  exact List.append_nil xs

/-- The blob a payload is sealed as. -/
def sealed (key : List U8) (cfg : ConfigBlob) (payload : List U8) : SealedBlob :=
  assemble payload (tagOf key cfg) (codeOf key cfg (assemble payload (tagOf key cfg) []))

/-- **Sealing** gives the sealed blob of the payload. -/
theorem vseSeal_eq (hs : s.initialized = true) (cfg : ConfigBlob) {payload : List U8}
    (hlen : payload.length ≤ sealMaxPayload) (out : SealedBlob) :
    vseSeal s ctx tmp cfg payload out = (.ok, sealed s.masterKey cfg payload) := by
  have hfits : ¬sealMaxPayload < payload.length := Nat.not_lt.mpr hlen
  simp only [vseSeal, if_neg hfits, hs, Bool.not_true, Bool.false_eq_true, if_false,
    platformBindTag_eq, deriveSealKey_eq, blobMac_eq ctx tmp (keyOf_pos _ _), sealed, codeOf, coded]

/-- The code is not part of what is authenticated. -/
theorem coded_assemble (payload bindTag mac mac' : List U8) :
    coded (assemble payload bindTag mac) = coded (assemble payload bindTag mac') := by
  simp only [coded, assemble]

/-- The code of a sealed blob is the one it must carry. -/
theorem mac_sealed (key : List U8) (cfg : ConfigBlob) (payload : List U8) :
    (sealed key cfg payload).mac = codeOf key cfg (sealed key cfg payload) := by
  have hmac (code : List U8) :
      (assemble payload (tagOf key cfg) code).mac = field hmacSize code := by
    simp only [assemble]
  rw [sealed, hmac, field_of_length (length_codeOf _ _ _), codeOf, codeOf]
  exact congrArg _ (coded_assemble _ _ _ _)

/-- A sealed blob carries its payload as it is. -/
theorem payload_sealed (key : List U8) (cfg : ConfigBlob) {payload : List U8}
    (hlen : payload.length ≤ sealMaxPayload) :
    (sealed key cfg payload).payload.take payload.length = payload := by
  have hfield (tag code : List U8) :
      (assemble payload tag code).payload = field sealMaxPayload payload := by
    simp only [assemble]
  rw [sealed, hfield, field_eq hlen, List.take_left]

theorem payloadLen_sealed (key : List U8) (cfg : ConfigBlob) {payload : List U8}
    (hlen : payload.length ≤ sealMaxPayload) :
    (sealed key cfg payload).payloadLen.toNat = payload.length := by
  have hfield (tag code : List U8) :
      (assemble payload tag code).payloadLen = BitVec.ofNat 32 payload.length := by
    simp only [assemble]
  rw [sealMaxPayload] at hlen
  rw [sealed, hfield, BitVec.toNat_ofNat]
  omega

/-- **A blob that is refused**: a wrong magic, a length that is too large,
or not the code it must carry. -/
def Refused (key : List U8) (cfg : ConfigBlob) (b : SealedBlob) : Prop :=
  b.magic ≠ sealMagic ∨ sealMaxPayload < b.payloadLen.toNat ∨ b.mac ≠ codeOf key cfg b

instance (key : List U8) (cfg : ConfigBlob) (b : SealedBlob) : Decidable (Refused key cfg b) :=
  inferInstanceAs (Decidable (_ ∨ _))

/-- **`vse_unseal` by its exits.** -/
theorem vseUnseal_eq (hs : s.initialized = true) (cfg : ConfigBlob) (b : SealedBlob)
    (mem : U64 → U8) (out : U64) (ioLen : U32) :
    vseUnseal s ctx tmp cfg b mem out ioLen =
      if Refused s.masterKey cfg b then (.inval, ioLen, mem)
      else if ioLen < b.payloadLen then (.inval, b.payloadLen, mem)
      else (.ok, b.payloadLen, putBytes mem out (b.payload.take b.payloadLen.toNat)) := by
  rw [vseUnseal, hs]
  by_cases hmagic : b.magic = sealMagic
  · by_cases hlen : sealMaxPayload < b.payloadLen.toNat
    · have hrefused : Refused s.masterKey cfg b := Or.inr (Or.inl hlen)
      simp only [Bool.not_true, Bool.false_eq_true, if_false, hmagic, ne_eq, not_true_eq_false,
        if_pos hlen, if_pos hrefused]
    · have hkeyed := blobMac_eq ctx tmp (keyOf_pos s.masterKey cfg) b.magic b.payloadLen b.bindTag
        b.payload
      have hver := Crypto.hmacVerify_eq_true (length_codeOf s.masterKey cfg b) b.mac_length
      simp only [Bool.not_true, Bool.false_eq_true, if_false, ne_eq, hmagic, not_true_eq_false,
        if_neg hlen, platformBindTag_eq, deriveSealKey_eq]
      rw [hmagic] at hkeyed
      rw [hkeyed]
      dsimp only
      by_cases hmac : b.mac = codeOf s.masterKey cfg b
      · have hnot : ¬Refused s.masterKey cfg b := by
          rintro (h | h | h)
          · exact h hmagic
          · exact hlen h
          · exact h hmac
        have htrue := hver.mpr hmac.symm
        rw [codeOf, coded, hmagic] at htrue
        rw [htrue, if_neg hnot]
        rfl
      · have hrefused : Refused s.masterKey cfg b := Or.inr (Or.inr hmac)
        have hfalse : hmacVerify (codeOf s.masterKey cfg b) b.mac hmacSize = false := by
          rw [Bool.eq_false_iff]
          intro h
          exact hmac (hver.mp h).symm
        rw [codeOf, coded, hmagic] at hfalse
        rw [hfalse, if_pos hrefused]
        rfl
  · have hrefused : Refused s.masterKey cfg b := Or.inl hmagic
    simp only [Bool.not_true, Bool.false_eq_true, if_false, ne_eq, hmagic, not_false_eq_true,
      if_true, if_pos hrefused]

/-! ## Round trip -/

/-- `seal_init` succeeds, with the key it is given. -/
theorem sealInit_eq (cfg : ConfigBlob) {key : List U8} (hkey : key.length = 32) :
    sealInit s ctx tmp cfg key hkey = (.ok, ⟨key, true, hkey⟩) := by
  simp only [sealInit, platformBindTag_eq]

/-- A sealed blob passes its own check. -/
theorem not_refused_sealed (key : List U8) (cfg : ConfigBlob) {payload : List U8}
    (hlen : payload.length ≤ sealMaxPayload) : ¬Refused key cfg (sealed key cfg payload) := by
  rintro (h | h | h)
  · exact h (by simp only [sealed, assemble])
  · rw [payloadLen_sealed key cfg hlen] at h
    omega
  · exact h (mac_sealed key cfg payload)

/-- **Round trip and error atomicity.** After `seal_init`, what was sealed
comes back under the same configuration when there is room for it, the
room that is missing is reported when there is not, and a blob that is
refused leaves both outputs as they were. -/
theorem seal_round_trip (cfg : ConfigBlob) (key : List U8) (hkey : key.length = 32) :
    ∃ s', sealInit s ctx tmp cfg key hkey = (.ok, s') ∧
      (∀ (payload : List U8) (out : SealedBlob), payload.length ≤ sealMaxPayload →
        ∃ b, vseSeal s' ctx tmp cfg payload out = (.ok, b) ∧
          ∀ (ctx' : HmacCtx) (tmp' : Sha256Ctx) (mem : U64 → U8) (dst : U64) (ioLen : U32),
            (payload.length ≤ ioLen.toNat →
              ∃ mem', vseUnseal s' ctx' tmp' cfg b mem dst ioLen =
                  (.ok, BitVec.ofNat 32 payload.length, mem') ∧
                bytesAt mem' dst payload.length = payload ∧
                ∀ a, payload.length ≤ (a - dst).toNat → mem' a = mem a) ∧
            (ioLen.toNat < payload.length →
              vseUnseal s' ctx' tmp' cfg b mem dst ioLen =
                (.inval, BitVec.ofNat 32 payload.length, mem))) ∧
      ∀ (b : SealedBlob) (mem : U64 → U8) (dst : U64) (ioLen : U32), Refused key cfg b →
        vseUnseal s' ctx tmp cfg b mem dst ioLen = (.inval, ioLen, mem) := by
  refine ⟨_, sealInit_eq s ctx tmp cfg hkey, ?_, ?_⟩
  · intro payload out hlen
    obtain ⟨b, hb⟩ : ∃ b, b = sealed key cfg payload := ⟨_, rfl⟩
    have hplen := payloadLen_sealed key cfg hlen
    have htake := payload_sealed key cfg hlen
    have hnot := not_refused_sealed key cfg hlen
    rw [← hb] at hplen htake hnot
    have hret : b.payloadLen = BitVec.ofNat 32 payload.length := by
      rw [← hplen, BitVec.ofNat_toNat, BitVec.setWidth_eq]
    refine ⟨b, by rw [vseSeal_eq _ ctx tmp rfl cfg hlen out, hb], ?_⟩
    intro ctx' tmp' mem dst ioLen
    have hiff : ioLen < b.payloadLen ↔ ioLen.toNat < payload.length := by
      rw [BitVec.lt_def, hplen]
    rw [vseUnseal_eq _ ctx' tmp' rfl, if_neg hnot, hplen, htake]
    refine ⟨?_, ?_⟩
    · intro hroom
      have hword : payload.length < 2 ^ 64 := by
        rw [sealMaxPayload] at hlen
        omega
      have hge : ¬ioLen < b.payloadLen := by
        rw [hiff]
        omega
      refine ⟨putBytes mem dst payload, by rw [if_neg hge, hret], bytesAt_putBytes mem dst hword, ?_⟩
      intro a ha
      exact putBytes_of_le ha
    · intro hshort
      rw [if_pos (hiff.mpr hshort), hret]
  · intro b mem dst ioLen hrefused
    rw [vseUnseal_eq _ ctx tmp rfl, if_pos hrefused]

/-- The variables of the service before `seal_init`. -/
def unsealedState : SealState := ⟨List.replicate 32 0, false, rfl⟩

theorem seal_round_trip_dev :
    ∃ s', sealInit unsealedState Crypto.blankCtx Crypto.blankCtx.inner configCheckGetBlob
          Login.devMasterKey rfl = (.ok, s') ∧
      ∃ b, vseSeal s' Crypto.blankCtx Crypto.blankCtx.inner configCheckGetBlob [0x56, 0x53, 0x45]
          zeroBlob = (.ok, b) ∧
        (vseUnseal s' Crypto.blankCtx Crypto.blankCtx.inner configCheckGetBlob b (fun _ => 0)
          0x40300000 2).1 = .inval := by
  obtain ⟨s', hinit, hseal, _⟩ := seal_round_trip unsealedState Crypto.blankCtx Crypto.blankCtx.inner
    configCheckGetBlob Login.devMasterKey rfl
  obtain ⟨b, hb, hunseal⟩ := hseal [0x56, 0x53, 0x45] zeroBlob (by decide)
  refine ⟨s', hinit, b, hb, ?_⟩
  rw [(hunseal Crypto.blankCtx Crypto.blankCtx.inner (fun _ => 0) 0x40300000 2).2 (by decide)]

/-! ## Unambiguous encodings -/

theorem byte_eq_iff {x y : ℕ} : BitVec.ofNat 8 x = BitVec.ofNat 8 y ↔ x % 256 = y % 256 := by
  rw [← BitVec.toNat_inj, BitVec.toNat_ofNat, BitVec.toNat_ofNat]

theorem le32_injective {v w : U32} (h : le32 v = le32 w) : v = w := by
  have hv := v.isLt
  have hw := w.isLt
  have hlow : ∀ x : U32, x.setWidth 8 = BitVec.ofNat 8 x.toNat := fun x => rfl
  simp only [le32, hlow, BitVec.toNat_ushiftRight, Nat.shiftRight_eq_div_pow, List.cons.injEq,
    byte_eq_iff, and_true] at h
  apply BitVec.eq_of_toNat_eq
  omega

theorem putBe32_injective {v w : U32} (h : Crypto.putBe32 v = Crypto.putBe32 w) : v = w := by
  have hrev : ∀ x : U32, le32 x = (Crypto.putBe32 x).reverse := fun x => rfl
  apply le32_injective
  rw [hrev, hrev, h]

theorem le64_injective {v w : U64} (h : le64 v = le64 w) : v = w := by
  have hv := v.isLt
  have hw := w.isLt
  have hlow : ∀ x : U64, x.setWidth 8 = BitVec.ofNat 8 x.toNat := fun x => rfl
  simp only [le64, hlow, BitVec.toNat_ushiftRight, Nat.shiftRight_eq_div_pow, List.cons.injEq,
    byte_eq_iff, and_true] at h
  apply BitVec.eq_of_toNat_eq
  omega

/-- The packed record, field by field. -/
def ConfigBlob.fields (c : ConfigBlob) : List (List U8) :=
  [le32 c.maxVms, le32 c.maxVcpuPerVm, le32 c.maxMemRegions, le32 c.maxDevPerVm,
    le32 c.maxIrqRoutes, le32 c.schedMajorFrameUs, le64 c.uartBase, le64 c.gicdBase, le64 c.gicrBase,
    le64 c.linuxVmPa, le64 c.rtosVmPa, le64 c.androidVmPa, le64 c.shmemPoolPa, le64 c.shmemPoolSz,
    le32 c.logLevel, le32 c.pad]

/-- **Configurations with the same bytes are the same.** The fields have
fixed lengths, so the bytes determine them one by one. -/
theorem ConfigBlob.bytes_injective {c c' : ConfigBlob} (h : c.bytes = c'.bytes) : c = c' := by
  have hflat : ∀ x : ConfigBlob, x.bytes = x.fields.flatten := by
    intro x
    simp only [bytes, fields, List.flatten_cons, List.flatten_nil, List.append_nil,
      List.append_assoc]
  rw [hflat, hflat] at h
  have hfields : c.fields = c'.fields := List.eq_iff_flatten_eq.mpr ⟨h, rfl⟩
  simp only [fields, List.cons.injEq, and_true] at hfields
  obtain ⟨h₁, h₂, h₃, h₄, h₅, h₆, h₇, h₈, h₉, h₁₀, h₁₁, h₁₂, h₁₃, h₁₄, h₁₅, h₁₆⟩ := hfields
  cases c
  cases c'
  congr 1
  all_goals first
    | exact le32_injective ‹_›
    | exact le64_injective ‹_›

/-- **What is authenticated determines a blob but for its code.** -/
theorem coded_injective {b b' : SealedBlob} (h : coded b = coded b') (hmac : b.mac = b'.mac) :
    b = b' := by
  have hflat : ∀ x : SealedBlob, coded x =
      [Crypto.putBe32 x.magic, Crypto.putBe32 x.payloadLen, x.bindTag, x.payload].flatten := by
    intro x
    simp only [coded, header, List.flatten_cons, List.flatten_nil, List.append_nil,
      List.append_assoc]
  rw [hflat, hflat] at h
  have hlengths : ∀ x : SealedBlob, [Crypto.putBe32 x.magic, Crypto.putBe32 x.payloadLen, x.bindTag,
      x.payload].map List.length = [4, 4, hmacSize, sealMaxPayload] := by
    intro x
    simp only [List.map_cons, List.map_nil, x.bindTag_length, x.payload_length, Crypto.putBe32,
      List.length_cons, List.length_nil]
  have hfields := List.eq_iff_flatten_eq.mpr ⟨h, by rw [hlengths, hlengths]⟩
  simp only [List.cons.injEq, and_true] at hfields
  obtain ⟨hmagic, hlen, htag, hpayload⟩ := hfields
  exact SealedBlob.ext (putBe32_injective hmagic) (putBe32_injective hlen) htag hmac hpayload

/-! ## Binding -/

/-- Two evaluations of the HMAC that do not collide. -/
def NoCollision (p q : List U8 × List U8) : Prop := Fips.hmac p.1 p.2 = Fips.hmac q.1 q.2 → p = q

/-- **No collision between what sealing `b` under `c` and opening `b'`
under `c'` evaluate**, asked only of the two evaluations that are made for
the same purpose. -/
structure Separated (key : List U8) (c c' : ConfigBlob) (b b' : SealedBlob) : Prop where
  tags : NoCollision (key, c.bytes) (key, c'.bytes)
  keys : NoCollision (key, sealLabel ++ tagOf key c) (key, sealLabel ++ tagOf key c')
  codes : NoCollision (keyOf key c, coded b) (keyOf key c', coded b')

/-- Where nothing collides, equal codes come from the same configuration
and the same blob, back through the chain. -/
theorem Separated.eq_of_codeOf {key : List U8} {c c' : ConfigBlob} {b b' : SealedBlob}
    (h : Separated key c c' b b') (hcode : codeOf key c b = codeOf key c' b') :
    c = c' ∧ coded b = coded b' := by
  have hpair := h.codes hcode
  rw [Prod.mk.injEq] at hpair
  obtain ⟨hkey, hcoded⟩ := hpair
  have hmsg := h.keys hkey
  rw [Prod.mk.injEq, List.append_right_inj] at hmsg
  have hbytes := h.tags hmsg.2
  rw [Prod.mk.injEq] at hbytes
  exact ⟨ConfigBlob.bytes_injective hbytes.2, hcoded⟩

/-- **Binding and tamper evidence.** Among the blobs that carry the code
of a sealed one, opening succeeds on that blob alone and under the
configuration it was sealed under alone. -/
theorem seal_binding (c₀ c c' : ConfigBlob) (key : List U8) (hkey : key.length = 32)
    (payload : List U8) (hlen : payload.length ≤ sealMaxPayload) (out b' : SealedBlob)
    (mem : U64 → U8) (dst : U64) (ioLen : U32) (hroom : sealMaxPayload ≤ ioLen.toNat) :
    ∃ s' b, sealInit s ctx tmp c₀ key hkey = (.ok, s') ∧
      vseSeal s' ctx tmp c payload out = (.ok, b) ∧
      (b'.mac = b.mac → Separated key c c' b b' →
        ((vseUnseal s' ctx tmp c' b' mem dst ioLen).1 = .ok ↔ c' = c ∧ b' = b)) := by
  refine ⟨_, _, sealInit_eq s ctx tmp c₀ hkey, vseSeal_eq _ ctx tmp rfl c hlen out, ?_⟩
  intro hmac hsep
  dsimp only at hmac hsep ⊢
  rw [vseUnseal_eq _ ctx tmp rfl]
  dsimp only
  constructor
  · intro hok
    split at hok
    · cases hok
    · rename_i hnot
      have hcarried : b'.mac = codeOf key c' b' := by
        by_contra hne
        exact hnot (Or.inr (Or.inr hne))
      have hcode : codeOf key c (sealed key c payload) = codeOf key c' b' := by
        rw [← mac_sealed, ← hmac, hcarried]
      obtain ⟨hc, hcoded⟩ := hsep.eq_of_codeOf hcode
      exact ⟨hc.symm, (coded_injective hcoded hmac.symm).symm⟩
  · rintro ⟨rfl, rfl⟩
    have hge : ¬ioLen < (sealed key c' payload).payloadLen := by
      rw [BitVec.lt_def, payloadLen_sealed key c' hlen]
      omega
    rw [if_neg (not_refused_sealed key c' hlen), if_neg hge]

/-! ### A blob that is tampered with -/

/-- The tag of the shipped configuration under the development key, as
`config_check.c` has it. -/
def configCode : List U8 :=
  [0x2d, 0xbb, 0x69, 0x96, 0xa8, 0x72, 0xa5, 0x9c, 0x81, 0x44, 0x1d, 0x09, 0x18, 0x57, 0x91, 0xb6,
   0x25, 0xb5, 0xe2, 0xef, 0xde, 0xcb, 0x42, 0x4b, 0xd3, 0x5a, 0xce, 0xb6, 0x62, 0x08, 0x8c, 0xf9]

/-- The key that is derived from it. -/
def configKey : List U8 :=
  [0x60, 0x5a, 0x67, 0x48, 0xeb, 0x88, 0xc1, 0x98, 0x5d, 0xed, 0x6f, 0xab, 0x98, 0x2d, 0x0b, 0xf1,
   0xb4, 0xeb, 0x59, 0xe3, 0x7d, 0xcd, 0x5d, 0x24, 0xf8, 0x46, 0x78, 0x73, 0x45, 0x6e, 0xcc, 0x7d]

/-- An HMAC is what the code computes for it. -/
theorem hmac_of_run {key msg code : List U8} (hkey : 0 < key.length)
    (hrun : hmacSha256 Crypto.blankCtx Crypto.blankCtx.inner key msg = .ok code) :
    Fips.hmac key msg = code :=
  Except.ok.inj ((Crypto.hmacSha256_eq _ _ hkey msg).symm.trans hrun)

theorem run_configCode : hmacSha256 Crypto.blankCtx Crypto.blankCtx.inner Login.devMasterKey
    configCheckGetBlob.bytes = .ok configCode := by
  decide +kernel

theorem tagOf_dev : tagOf Login.devMasterKey configCheckGetBlob = configCode :=
  hmac_of_run (by decide) run_configCode

theorem keyOf_dev : keyOf Login.devMasterKey configCheckGetBlob = configKey := by
  rw [keyOf, tagOf_dev]
  exact hmac_of_run (by decide) (by decide +kernel)

/-- What is authenticated of a full payload sealed under the development
key, up to its last 40 bytes. -/
def sharedPart : List U8 := header sealMagic 256 ++ configCode ++ List.replicate 216 0x56

def lastPart (byte : U8) : List U8 := List.replicate 39 0x56 ++ [byte]

/-- The context of the HMAC after the blocks that do not depend on the
last byte. -/
def sharedCtx : HmacCtx :=
  { inner := { Crypto.blankCtx.inner with
      state := ⟨0x90e687d8, 0x8cdf51f8, 0x78ccdd0a, 0x580c7b01, 0x7d6f2ec5, 0x67e0e561, 0xabf3219e,
        0x38b0c01c⟩
      bitCount := 2560 }
    outer := { Crypto.blankCtx.outer with
      state := ⟨0xdce0a472, 0x40fed2d4, 0xc0f0c078, 0x2104e10a, 0xf32cc7c6, 0x57e3525b, 0x1f73cbcc,
        0xc3cfbc59⟩
      bitCount := 512 } }

theorem sharedCtx_inner :
    Blocks.absorb Crypto.sha256Compress 64 Crypto.h0 (Crypto.ipad configKey ++ sharedPart) =
      sharedCtx.inner.state := by decide +kernel

theorem sharedCtx_outer : Blocks.absorb Crypto.sha256Compress 64 Crypto.h0 (Crypto.opad configKey) =
    sharedCtx.outer.state := by decide +kernel

theorem sharedCtx_represents : Crypto.HmacRepresents sharedCtx configKey sharedPart := by
  have hinner := sharedCtx_inner
  have houter := sharedCtx_outer
  rw [Crypto.sha256Compress_eq, Crypto.h0_eq] at hinner houter
  exact ⟨⟨⟨hinner.symm, by decide +kernel, by decide +kernel⟩, by decide +kernel⟩,
    ⟨⟨houter.symm, by decide +kernel, by decide +kernel⟩, by decide +kernel⟩⟩

theorem hmac_lastPart_ne : Fips.hmac configKey (sharedPart ++ lastPart 0x56) ≠
    Fips.hmac configKey (sharedPart ++ lastPart 0x57) := by
  rw [← Crypto.hmacFinal_eq (Crypto.hmacUpdate_represents sharedCtx_represents _),
    ← Crypto.hmacFinal_eq (Crypto.hmacUpdate_represents sharedCtx_represents _)]
  decide +kernel

/-- The blob that is sealed under the development key. -/
def fullBlob : SealedBlob :=
  sealed Login.devMasterKey configCheckGetBlob (List.replicate sealMaxPayload 0x56)

/-- The same blob with another last byte. -/
def tamperedBlob : SealedBlob :=
  { fullBlob with payload := List.replicate 216 0x56 ++ lastPart 0x57
                  payload_length := by decide +kernel }

theorem coded_fullBlob : coded fullBlob = sharedPart ++ lastPart 0x56 ∧
    coded tamperedBlob = sharedPart ++ lastPart 0x57 := by
  have hlen : fullBlob.payloadLen = 256 := congrArg (BitVec.ofNat 32) List.length_replicate
  have htag : fullBlob.bindTag = configCode := by
    rw [fullBlob, sealed, tagOf_dev]
    exact field_of_length (by decide)
  have hpayload : fullBlob.payload = List.replicate 216 0x56 ++ lastPart 0x56 := by
    simp only [fullBlob, sealed, assemble, field_of_length List.length_replicate]
    decide +kernel
  rw [coded, coded, show tamperedBlob.payloadLen = fullBlob.payloadLen from rfl,
    show tamperedBlob.bindTag = fullBlob.bindTag from rfl, hlen, htag, hpayload, sharedPart,
    List.append_assoc (header _ _ ++ configCode), List.append_assoc (header _ _ ++ configCode)]
  exact ⟨rfl, rfl⟩

theorem separated_tampered : Separated Login.devMasterKey configCheckGetBlob configCheckGetBlob
    fullBlob tamperedBlob := by
  refine ⟨fun _ => rfl, fun _ => rfl, fun hcode => absurd hcode ?_⟩
  rw [keyOf_dev, coded_fullBlob.1, coded_fullBlob.2]
  exact hmac_lastPart_ne

/-- **The last sealed byte is changed**, with the code left as it is, and
the blob does not open. -/
theorem seal_binding_tampered :
    ∃ s' b, sealInit unsealedState Crypto.blankCtx Crypto.blankCtx.inner configCheckGetBlob
          Login.devMasterKey rfl = (.ok, s') ∧
      vseSeal s' Crypto.blankCtx Crypto.blankCtx.inner configCheckGetBlob
        (List.replicate sealMaxPayload 0x56) zeroBlob = (.ok, b) ∧
      tamperedBlob.mac = b.mac ∧ tamperedBlob ≠ b ∧
      (vseUnseal s' Crypto.blankCtx Crypto.blankCtx.inner configCheckGetBlob tamperedBlob (fun _ => 0)
        0x40300000 256).1 ≠ .ok := by
  have hfits : (List.replicate sealMaxPayload (0x56 : U8)).length ≤ sealMaxPayload :=
    Nat.le_of_eq List.length_replicate
  obtain ⟨s', b, hinit, hseal, hiff⟩ := seal_binding unsealedState Crypto.blankCtx
    Crypto.blankCtx.inner configCheckGetBlob configCheckGetBlob configCheckGetBlob Login.devMasterKey
    rfl _ hfits zeroBlob tamperedBlob (fun _ => 0) 0x40300000 256 (by decide)
  obtain rfl : (⟨Login.devMasterKey, true, rfl⟩ : SealState) = s' :=
    congrArg Prod.snd ((sealInit_eq _ _ _ _ _).symm.trans hinit)
  obtain rfl : fullBlob = b :=
    congrArg Prod.snd ((vseSeal_eq _ _ _ rfl _ hfits _).symm.trans hseal)
  have hne : tamperedBlob ≠ fullBlob := by
    intro heq
    have hcoded := congrArg coded heq
    rw [coded_fullBlob.1, coded_fullBlob.2] at hcoded
    exact absurd hcoded (by decide +kernel)
  exact ⟨_, _, hinit, hseal, rfl, hne, fun hok => hne ((hiff rfl separated_tampered).mp hok).2⟩

end Seal

end HypervisorBase
