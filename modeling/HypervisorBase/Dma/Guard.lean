import HypervisorBase.Ipc.Model
import HypervisorBase.Vse.Ids
/-!
# The DMA guard

The model of `vre/dma/dma_guard.c` and of the hypercall `hvc_dma_xfer`,
through which a guest asks for a transfer.
-/

namespace HypervisorBase

namespace Dma

/-- The size the guard looks at: rounded up to whole pages, in 64 bits. -/
def roundSize (size : U64) : U64 :=
  if size &&& 0xFFF ≠ 0 then (size + 0xFFF) &&& ~~~(0xFFF : U64) else size

/-- `dma_guard_check_ipa` on a VM's root. -/
def dmaGuardCheckIpa (s : S2State) (pgd ipa size : U64) : Option Err :=
  if size = 0 then some .inval
  else do
    let mapped ← Stage2.s2IpaIsMapped s pgd ipa (roundSize size)
    pure (if mapped then .ok else .inval)

/-- The region that decides a physical address: the first that holds it,
with its end in 64 bits. -/
def regionOfPa (mem : List MemRegion) (pa : U64) : Option MemRegion :=
  mem.find? fun r => r.paBase ≤ pa && pa < r.paBase + r.size

/-- `dma_guard_check`: the sums are those of 64-bit words. -/
def dmaGuardCheck (s : S2State) (vm : Vm) (pa size : U64) : Option Err :=
  if size = 0 then some .inval
  else
    let size := roundSize size
    match regionOfPa vm.mem pa with
    | none => some .inval
    | some r =>
      let ipa := r.ipaBase + (pa - r.paBase)
      if pa + size > r.paBase + r.size then some .inval
      else do
        let mapped ← Stage2.s2IpaIsMapped s vm.s2Pgd ipa size
        pure (if mapped then .ok else .inval)

section Tables

variable [P : PtPool]

/-- `dma_guard_log_violation`. The stream and the size are only logged. -/
def dmaGuardLogViolation (h : Hyp) (vmId : U32) (faultPa : U64) : Option Hyp :=
  Vse.fdetectDmaViolation h vmId faultPa

/-- `hvc_dma_xfer`, on the target and size registers. -/
def hvcDmaXfer (h : Hyp) (ipa x2 : U64) : Option (Err × Hyp) :=
  match currentVm h with
  | none => some (.inval, h)
  | some vm => do
      let e ← dmaGuardCheckIpa h.s2 vm.s2Pgd ipa (if x2 ≠ 0 then x2 else 0x1000)
      if e = .ok then pure (.ok, h)
      else
        let h ← dmaGuardLogViolation h vm.id ipa
        pure (.denied, h)

end Tables

end Dma

end HypervisorBase
