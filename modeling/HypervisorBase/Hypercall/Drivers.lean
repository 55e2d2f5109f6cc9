import HypervisorBase.State
/-!
# Virtual drivers

The fuel, OBD and audio hypercalls of `guest/hypercall/hvc_drivers.c`. The
RTOS packs its engine state into four registers, the hypervisor keeps the
fields and copies a snapshot to the page it exports to Linux, and the two
OBD calls pack them again.
-/

namespace HypervisorBase

namespace Hypercall

/-- The argument registers of a hypercall and its results. -/
abbrev Regs := ℕ → U64

/-- A field of a register: `(x >> lo) & mask`, as a 32-bit value. -/
def field (x : U64) (lo : ℕ) (mask : U64) : U32 := ((x >>> lo) &&& mask).setWidth 32

/-- A 32-bit store, least significant byte first. -/
def storeWord (phys : U64 → U8) (a : U64) (w : U32) : U64 → U8 :=
  let phys := Function.update phys a (w.setWidth 8)
  let phys := Function.update phys (a + 1) ((w >>> 8).setWidth 8)
  let phys := Function.update phys (a + 2) ((w >>> 16).setWidth 8)
  Function.update phys (a + 3) ((w >>> 24).setWidth 8)

/-- Consecutive 32-bit stores. -/
def storeWords (phys : U64 → U8) (a : U64) : List U32 → U64 → U8
  | [] => phys
  | w :: ws => storeWords (storeWord phys a w) (a + 4) ws

def obdShmemPa : U64 := 0x40F00000

def obdMagic : U32 := 0x4F424400

/-- The number of trouble codes reported with a fault code. -/
def dtcCount (f : FuelState) : U32 := if f.faultCode ≠ 0 then 1 else 0

/-- `obd_shmem_t`, in the order of its fields. -/
def obdSnapshot (f : FuelState) : List U32 :=
  [obdMagic, f.rpm, f.rpm / 37, f.coolantC, f.throttlePct, f.mapKpa, dtcCount f, f.faultCode, f.seq,
    f.cylStatus, f.injCount]

def decodeFuel (x1 x2 x3 x4 : U64) : FuelState where
  rpm := field x1 0 0xFFFF
  injectionUs := field x1 16 0xFFFF
  coolantC := field x1 32 0xFFFF
  throttlePct := field x1 48 0xFFFF
  mapKpa := field x4 0 0xFFFF
  lambdaX100 := field x3 32 0xFFFF
  cylStatus := field x2 0 0xF
  injCount := field x2 8 0xFFFFFF
  faultCode := field x2 32 0xFFFF
  seq := field x3 0 0xFFFFFFFF
  valid := true

/-- `hvc_fuel_update`. -/
def hvcFuelUpdate (h : Hyp) (x : Regs) : Regs × Hyp :=
  let f := decodeFuel (x 1) (x 2) (x 3) (x 4)
  (Function.update x 0 0,
    { h with fuel := f, phys := storeWords h.phys obdShmemPa (obdSnapshot f) })

/-- The derived speed of `hvc_obd_read_all`, capped. -/
def speedKmh (f : FuelState) : U32 := if 250 < (f.rpm / 37).toNat then 250 else f.rpm / 37

/-- The derived sensor voltage, in wrapping 32-bit arithmetic. -/
def o2Mv (f : FuelState) : U32 :=
  if 100 ≤ f.lambdaX100.toNat then 450 + (f.lambdaX100 - 100) * 3
  else 450 - (100 - f.lambdaX100) * 5

def wide (x : U32) (lo : ℕ) : U64 := x.setWidth 64 <<< lo

/-- `hvc_obd_read_all`. -/
def hvcObdReadAll (h : Hyp) (x : Regs) : Regs :=
  let f := h.fuel
  let (r1, r2, r3) := if !f.valid then ((0 : U64), (0 : U64), (0 : U64)) else
    (wide f.rpm 0 ||| wide (speedKmh f) 16 ||| wide f.coolantC 32 ||| wide f.throttlePct 48,
     wide f.mapKpa 0 ||| wide (o2Mv f) 16 ||| wide (dtcCount f) 32 ||| wide f.faultCode 48,
     wide f.seq 0)
  Function.update (Function.update (Function.update (Function.update x 1 r1) 2 r2) 3 r3) 0 0

/-- The value `hvc_obd_read_pid` returns. -/
def obdPid (f : FuelState) (pid : U32) : U32 :=
  if !f.valid then 0xFFFFFFFF
  else if pid = 0x0C then f.rpm
  else if pid = 0x0D then f.rpm / 37
  else if pid = 0x05 then f.coolantC
  else if pid = 0x11 then f.throttlePct
  else if pid = 0x0B then f.mapKpa
  else if pid = 0x01 then dtcCount f
  else 0xFFFFFFFF

/-- `hvc_audio_status`. -/
def hvcAudioStatus (h : Hyp) (x : Regs) : Hyp :=
  { h with audio := ⟨(x 1).setWidth 32, (x 2).setWidth 32, (x 3).setWidth 32, true, true⟩ }

/-- `hvc_audio_play`. -/
def hvcAudioPlay (h : Hyp) : Hyp := { h with audio := { h.audio with playing := true, valid := true } }

/-- `hvc_audio_stop`. -/
def hvcAudioStop (h : Hyp) : Hyp := { h with audio := { h.audio with playing := false } }

end Hypercall

end HypervisorBase
