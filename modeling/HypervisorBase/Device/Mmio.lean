import HypervisorBase.Hypercall.Drivers
/-!
# Emulated devices

The model of `vre/device/mmio_trap.c` and of the one emulation function
that the repository registers with it, the configuration space of
`vre/bus/pcie.c`. An access is checked against the owner of the first
region that contains it, for the VM that `mmio_set_current_vm` named
last.
-/

namespace HypervisorBase

/-- Changes the saved registers of the current vCPU. -/
def Hyp.modifyCurrent (h : Hyp) (f : Vcpu → Vcpu) : Hyp :=
  match h.current with
  | none => h
  | some c => { h with vcpus := h.vcpus.modify c f }

def Vcpu.setX (vc : Vcpu) (x : ℕ → U64) : Vcpu := { vc with regs := { vc.regs with x := x } }

def Vcpu.setElr (vc : Vcpu) (elr : U64) : Vcpu := { vc with regs := { vc.regs with elrEl2 := elr } }

/-- The vCPU that is on the CPU. -/
structure CurrentVcpu (h : Hyp) where
  c : ℕ
  vc : Vcpu
  current : h.current = some c
  vcpu : h.vcpus[c]? = some vc

namespace CurrentVcpu

variable {h : Hyp} (cpu : CurrentVcpu h)

theorem modify_eq (f : Vcpu → Vcpu) :
    h.modifyCurrent f = { h with vcpus := h.vcpus.modify cpu.c f } := by
  unfold Hyp.modifyCurrent
  rw [cpu.current]

theorem getElem?_modify (f : Vcpu → Vcpu) :
    (h.modifyCurrent f).vcpus[cpu.c]? = some (f cpu.vc) := by
  rw [cpu.modify_eq, List.getElem?_modify_eq, cpu.vcpu]
  rfl

end CurrentVcpu

namespace Device

/-! ## PCIe configuration space -/

/-- `PCIE_ECAM_BASE`. -/
def pcieEcamBase : U64 := 0x3F000000

/-- `PCIE_ECAM_SIZE`. -/
def pcieEcamSize : U64 := 0x01000000

def pcieMaxAssignments : ℕ := 64

/-- `PCIE_VENDOR_INVALID`. -/
def pcieVendorInvalid : U64 := 0xFFFFFFFF

/-- `pcie_assign_vm`. -/
def pcieAssignVm (h : Hyp) (vmId : U32) (bus dev fn : U8) : Err × Hyp :=
  if pcieMaxAssignments ≤ h.pcie.length then (.inval, h)
  else (.ok, { h with pcie := h.pcie ++ [⟨bus, dev, fn, vmId⟩] })

/-- `pcie_vm_owns_bdf`. -/
def pcieVmOwnsBdf (h : Hyp) (vmId : U32) (bus dev fn : U8) : Bool :=
  h.pcie.any fun a =>
    a.vmId = vmId && (a.bus = 0xFF || (a.bus = bus && a.dev = dev && a.fn = fn))

/-- A 32-bit load, least significant byte first. -/
def loadWord (phys : U64 → U8) (a : U64) : U32 :=
  (phys a).setWidth 32 ||| ((phys (a + 1)).setWidth 32 <<< 8) |||
    ((phys (a + 2)).setWidth 32 <<< 16) ||| ((phys (a + 3)).setWidth 32 <<< 24)

/-- `pcie_ecam_emulate`, with the value it leaves in `*val`. -/
def pcieEcamEmulate (h : Hyp) (addr : U64) (isWrite : Bool) (val : U64) : U64 × Hyp :=
  if addr < pcieEcamBase ∨ pcieEcamBase + pcieEcamSize ≤ addr then
    (if isWrite then val else pcieVendorInvalid, h)
  else
    let off := addr - pcieEcamBase
    let bus : U8 := ((off >>> 20) &&& 0xFF).setWidth 8
    let dev : U8 := ((off >>> 15) &&& 0x1F).setWidth 8
    let fn : U8 := ((off >>> 12) &&& 0x07).setWidth 8
    if !pcieVmOwnsBdf h h.mmio.currentVmId bus dev fn then
      (if isWrite then val else pcieVendorInvalid, h)
    else if isWrite then
      (val, { h with phys := Hypercall.storeWord h.phys addr (val.setWidth 32) })
    else ((loadWord h.phys addr).setWidth 64, h)

/-! ## The trap table -/

def maxMmioRegions : ℕ := 32

/-- What `mmio_register` and `mmio_register_vm_device` share. -/
def mmioAdd (h : Hyp) (ownerVmId : U32) (base sz : U64) (fn : Option MmioFn) : Err × Hyp :=
  if maxMmioRegions ≤ h.mmio.regs.length then (.nomem, h)
  else (.ok, { h with mmio := { h.mmio with
    regs := h.mmio.regs ++ [⟨base, sz, fn, true, ownerVmId, 0⟩] } })

/-- `mmio_register`: owner 0 is any VM. -/
def mmioRegister (h : Hyp) (base sz : U64) (fn : Option MmioFn) : Err × Hyp := mmioAdd h 0 base sz fn

def mmioRegisterVmDevice (h : Hyp) (vmId : U32) (base sz : U64) (fn : Option MmioFn) : Err × Hyp :=
  mmioAdd h vmId base sz fn

def mmioSetCurrentVm (h : Hyp) (vmId : U32) : Hyp :=
  { h with mmio := { h.mmio with currentVmId := vmId } }

/-- A call of a registered emulation function. -/
def runMmioFn (h : Hyp) (addr : U64) (isWrite : Bool) (val : U64) : MmioFn → U64 × Hyp
  | .pcieEcam => pcieEcamEmulate h addr isWrite val
  | .device f =>
    let (val, phys) := f addr isWrite val h.phys
    (val, { h with phys := phys })

/-- The destination register of the access, from the syndrome. -/
def srtOf (esr : U64) : ℕ := ((esr >>> 16) &&& 0x1F).toNat

/-- The result of a read goes to the saved registers. -/
def putResult (h : Hyp) (esr : U64) (isWrite : Bool) (val : U64) : Hyp :=
  if isWrite then h
  else h.modifyCurrent fun vc => vc.setX (putReg vc.regs.x (srtOf esr) val)

/-- `mmio_handle`. -/
def mmioHandle (h : Hyp) (fa esr : U64) : Hyp :=
  let wr : Bool := (esr >>> 6) &&& 1 ≠ 0
  match h.mmio.regs.findIdx? fun r => r.active && !(fa < r.base || r.base + r.sz ≤ fa) with
  | none => h
  | some i =>
    match h.mmio.regs[i]? with
    | none => h
    | some r =>
      if r.ownerVmId ≠ 0 ∧ r.ownerVmId ≠ h.mmio.currentVmId then
        let h := { h with mmio := { h.mmio with
          regs := h.mmio.regs.set i { r with violationCnt := r.violationCnt + 1 } } }
        putResult h esr wr 0
      else
        match r.fn with
        | none => h
        | some fn =>
          let (val, h) := runMmioFn h fa wr 0 fn
          putResult h esr wr val

/-- An emulation function changes memory only. -/
theorem runMmioFn_rest (h : Hyp) (addr : U64) (isWrite : Bool) (val : U64) (fn : MmioFn) :
    (runMmioFn h addr isWrite val fn).2 =
      { h with phys := (runMmioFn h addr isWrite val fn).2.phys } := by
  cases fn with
  | pcieEcam =>
    unfold runMmioFn pcieEcamEmulate
    dsimp only
    repeat' split
    all_goals rfl
  | device f => rfl

/-- **What `mmio_handle` can do**: count a refusal or run a device, and
give a reader its result. -/
theorem mmioHandle_eq (h : Hyp) (fa esr : U64) : mmioHandle h fa esr = h ∨
    ∃ m p val, mmioHandle h fa esr =
      putResult { h with mmio := m, phys := p } esr ((esr >>> 6) &&& 1 ≠ 0) val := by
  unfold mmioHandle
  dsimp only
  split
  · exact .inl rfl
  split
  · exact .inl rfl
  split
  · exact .inr ⟨_, h.phys, 0, rfl⟩
  split
  · exact .inl rfl
  · rename_i fn _
    have hfn := runMmioFn_rest h fa ((esr >>> 6) &&& 1 ≠ 0) 0 fn
    exact .inr ⟨h.mmio, _, _, congrArg (fun g => putResult g esr _ _) hfn⟩

end Device

end HypervisorBase
