import HypervisorBase.Crypto.Model
/-!
# Sealing

The model of `vse/seal.c`, with the configuration record of
`vse/config_check.c` that it binds blobs to. Records that are hashed are
packed, so their bytes are those of the fields in order, low byte first.
The contexts a function is given are what its stack held before.
-/

namespace HypervisorBase

namespace Seal

open Crypto (HmacCtx Sha256Ctx hmacSha256 hmacInit hmacUpdate hmacFinal hmacVerify hmacSize)

/-! ## The platform's configuration -/

def le32 (v : U32) : List U8 :=
  [v.setWidth 8, (v >>> 8).setWidth 8, (v >>> 16).setWidth 8, (v >>> 24).setWidth 8]

def le64 (v : U64) : List U8 :=
  [v.setWidth 8, (v >>> 8).setWidth 8, (v >>> 16).setWidth 8, (v >>> 24).setWidth 8,
    (v >>> 32).setWidth 8, (v >>> 40).setWidth 8, (v >>> 48).setWidth 8, (v >>> 56).setWidth 8]

/-- `config_blob_t`. -/
structure ConfigBlob where
  maxVms : U32
  maxVcpuPerVm : U32
  maxMemRegions : U32
  maxDevPerVm : U32
  maxIrqRoutes : U32
  schedMajorFrameUs : U32
  uartBase : U64
  gicdBase : U64
  gicrBase : U64
  linuxVmPa : U64
  rtosVmPa : U64
  androidVmPa : U64
  shmemPoolPa : U64
  shmemPoolSz : U64
  logLevel : U32
  pad : U32
  deriving DecidableEq, Repr

/-- The record as `hmac_sha256` reads it. -/
def ConfigBlob.bytes (c : ConfigBlob) : List U8 :=
  le32 c.maxVms ++ le32 c.maxVcpuPerVm ++ le32 c.maxMemRegions ++ le32 c.maxDevPerVm ++
    le32 c.maxIrqRoutes ++ le32 c.schedMajorFrameUs ++ le64 c.uartBase ++ le64 c.gicdBase ++
    le64 c.gicrBase ++ le64 c.linuxVmPa ++ le64 c.rtosVmPa ++ le64 c.androidVmPa ++
    le64 c.shmemPoolPa ++ le64 c.shmemPoolSz ++ le32 c.logLevel ++ le32 c.pad

/-- `config_check_get_blob`, with the values of `include/config.h`. -/
def configCheckGetBlob : ConfigBlob where
  maxVms := 4
  maxVcpuPerVm := 4
  maxMemRegions := 8
  maxDevPerVm := 16
  maxIrqRoutes := 256
  schedMajorFrameUs := 10000
  uartBase := 0x09000000
  gicdBase := 0x08000000
  gicrBase := 0x080A0000
  linuxVmPa := 0x41000000
  rtosVmPa := 0x60000000
  androidVmPa := 0x70000000
  shmemPoolPa := 0xA0000000
  shmemPoolSz := 0x20000000
  logLevel := 3
  pad := 0

/-! ## Blobs -/

def sealMaxPayload : ℕ := 256

def sealMagic : U32 := 0x56534534

/-- `_seal_label`, without its terminator. -/
def sealLabel : List U8 := [0x56, 0x53, 0x45, 0x2d, 0x53, 0x45, 0x41, 0x4c, 0x2d, 0x76, 0x31]

/-- `sealed_blob_t`. -/
@[ext] structure SealedBlob where
  magic : U32
  payloadLen : U32
  bindTag : List U8
  mac : List U8
  payload : List U8
  bindTag_length : bindTag.length = hmacSize
  mac_length : mac.length = hmacSize
  payload_length : payload.length = sealMaxPayload

/-- `_master_key` and `_initialized`. -/
structure SealState where
  masterKey : List U8
  initialized : Bool
  masterKey_length : masterKey.length = 32

def platformBindTag (s : SealState) (ctx : HmacCtx) (tmp : Sha256Ctx) (cfg : ConfigBlob) :
    Except Err (List U8) :=
  hmacSha256 ctx tmp s.masterKey cfg.bytes

def deriveSealKey (s : SealState) (ctx : HmacCtx) (tmp : Sha256Ctx) (bindTag : List U8) :
    Except Err (List U8) :=
  hmacSha256 ctx tmp s.masterKey (sealLabel ++ bindTag)

/-- `hdr` of `_blob_mac`. -/
def header (magic payloadLen : U32) : List U8 := Crypto.putBe32 magic ++ Crypto.putBe32 payloadLen

def blobMac (ctx : HmacCtx) (tmp : Sha256Ctx) (sealKey : List U8) (magic payloadLen : U32)
    (bindTag payload : List U8) : Except Err (List U8) :=
  match hmacInit ctx tmp sealKey with
  | (.ok, ctx) =>
    let ctx := hmacUpdate ctx (header magic payloadLen)
    let ctx := hmacUpdate ctx bindTag
    let ctx := hmacUpdate ctx payload
    .ok (hmacFinal ctx).1
  | (e, _) => .error e

/-- `seal_init`; the key is the one `vse_get_master_key` returns. -/
def sealInit (s : SealState) (ctx : HmacCtx) (tmp : Sha256Ctx) (cfg : ConfigBlob) (key : List U8)
    (hkey : key.length = 32) : Err × SealState :=
  let s := { s with masterKey := key, masterKey_length := hkey }
  match platformBindTag s ctx tmp cfg with
  | .ok _ => (.ok, { s with initialized := true })
  | .error e => (e, s)

/-- A field of `n` bytes that was cleared and then written from its start. -/
def field (n : ℕ) (xs : List U8) : List U8 := Blocks.overwrite (List.replicate n 0) 0 xs

theorem length_field (n : ℕ) (xs : List U8) : (field n xs).length = n := by
  rw [field, Blocks.length_overwrite, List.length_replicate]

/-- The blob `vse_seal` assembles, with its code. -/
def assemble (payload bindTag mac : List U8) : SealedBlob where
  magic := sealMagic
  payloadLen := BitVec.ofNat 32 payload.length
  bindTag := field hmacSize bindTag
  mac := field hmacSize mac
  payload := field sealMaxPayload payload
  bindTag_length := length_field _ _
  mac_length := length_field _ _
  payload_length := length_field _ _

/-- `memset` of a blob. -/
def zeroBlob : SealedBlob where
  magic := 0
  payloadLen := 0
  bindTag := List.replicate hmacSize 0
  mac := List.replicate hmacSize 0
  payload := List.replicate sealMaxPayload 0
  bindTag_length := List.length_replicate
  mac_length := List.length_replicate
  payload_length := List.length_replicate

/-- `vse_seal`: its result and `*out`. -/
def vseSeal (s : SealState) (ctx : HmacCtx) (tmp : Sha256Ctx) (cfg : ConfigBlob) (payload : List U8)
    (out : SealedBlob) : Err × SealedBlob :=
  if sealMaxPayload < payload.length then (.inval, out)
  else if !s.initialized then (.inval, out)
  else
    match platformBindTag s ctx tmp cfg with
    | .error e => (e, out)
    | .ok bindTag =>
      match deriveSealKey s ctx tmp bindTag with
      | .error e => (e, out)
      | .ok sealKey =>
        let b := assemble payload bindTag []
        match blobMac ctx tmp sealKey b.magic b.payloadLen b.bindTag b.payload with
        | .error e => (e, zeroBlob)
        | .ok mac => (.ok, assemble payload bindTag mac)

/-- `vse_unseal`: its result, `*io_len` and the memory with `out` in it. -/
def vseUnseal (s : SealState) (ctx : HmacCtx) (tmp : Sha256Ctx) (cfg : ConfigBlob)
    (blob : SealedBlob) (mem : U64 → U8) (out : U64) (ioLen : U32) : Err × U32 × (U64 → U8) :=
  if !s.initialized then (.inval, ioLen, mem)
  else if blob.magic ≠ sealMagic then (.inval, ioLen, mem)
  else if sealMaxPayload < blob.payloadLen.toNat then (.inval, ioLen, mem)
  else
    match platformBindTag s ctx tmp cfg with
    | .error e => (e, ioLen, mem)
    | .ok bindTag =>
      match deriveSealKey s ctx tmp bindTag with
      | .error e => (e, ioLen, mem)
      | .ok sealKey =>
        match blobMac ctx tmp sealKey blob.magic blob.payloadLen blob.bindTag blob.payload with
        | .error e => (e, ioLen, mem)
        | .ok expectMac =>
          if !hmacVerify expectMac blob.mac hmacSize then (.inval, ioLen, mem)
          else if ioLen < blob.payloadLen then (.inval, blob.payloadLen, mem)
          else
            (.ok, blob.payloadLen,
              putBytes mem out (blob.payload.take blob.payloadLen.toNat))

end Seal

end HypervisorBase
