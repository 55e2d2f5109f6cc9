import HypervisorBase.State
/-!
# Shared memory between VMs

The model of `guest/shmem/shmem.c`: a bump cursor over a fixed physical
pool, and a table of the regions shared so far. `shmem_map` is cut where
it stops checking and starts mapping, since the cursor has moved by then
and both `s2_map` calls can still fail, or not return.
-/

namespace HypervisorBase

namespace Shmem

def maxShmemRegions : ℕ := 16

/-- The attributes of a shared page. -/
def shmemFlags : U64 :=
  Stage2.s2Af ||| Stage2.s2ShInner ||| Stage2.s2S2apRw ||| Stage2.s2MemattrWb

def shmemInit (h : Hyp) : Hyp :=
  { h with shmem := { regions := [], cursor := shmemPoolPa } }

/-- `shmem_map` up to `_cursor += sz`: the roots of the two VMs and the
physical address it is about to hand to `s2_map`. -/
def shmemReserve (h : Hyp) (srcId dstId : U32) (sz : U64) :
    Except Err ((U64 × U64) × U64 × Hyp) :=
  if maxShmemRegions ≤ h.shmem.regions.length then .error .nomem
  else if !isAligned sz 4096 then .error .inval
  else if shmemPoolPa + shmemPoolSz < h.shmem.cursor + sz then .error .nomem
  else
    match vmAt h srcId, vmAt h dstId with
    | some src, some dst =>
      .ok ((src.s2Pgd, dst.s2Pgd), h.shmem.cursor,
        { h with shmem := ⟨h.shmem.regions, h.shmem.cursor + sz⟩ })
    | _, _ => .error .notfound

section Pool

variable [P : PtPool]

def shmemMap (h : Hyp) (srcId dstId : U32) (ipa sz : U64) : Option (Err × Hyp) :=
  match shmemReserve h srcId dstId sz with
  | .error e => some (e, h)
  | .ok ((src, dst), pa, h) => do
      let (e, s2) ← Stage2.s2Map h.s2 src ipa pa sz shmemFlags
      if e ≠ .ok then pure (e, { h with s2 := s2 })
      else
        let (e, s2) ← Stage2.s2Map s2 dst ipa pa sz shmemFlags
        if e ≠ .ok then pure (e, { h with s2 := (Stage2.s2Unmap s2 src ipa sz).2 })
        else
          let r : ShmRegion :=
            { pa := pa, sz := sz, src := srcId, dst := dstId, ipa := ipa, active := true }
          pure (.ok, { h with
            s2 := s2
            shmem := ⟨h.shmem.regions ++ [r], h.shmem.cursor⟩ })

end Pool

/-- `s2_unmap` on a VM that may be gone. -/
def unmapIn (vm : Option Vm) (ipa sz : U64) (s : S2State) : S2State :=
  match vm with
  | none => s
  | some vm => (Stage2.s2Unmap s vm.s2Pgd ipa sz).2

/-- `shmem_unmap`. The size unmapped is the caller's, not the region's. -/
def shmemUnmap (h : Hyp) (ipa sz : U64) : Err × Hyp :=
  match h.shmem.regions.findIdx? fun r => r.active && r.ipa = ipa with
  | none => (.notfound, h)
  | some k =>
    match h.shmem.regions[k]? with
    | none => (.notfound, h)
    | some r =>
      let s2 := unmapIn (vmAt h r.src) ipa sz h.s2
      let s2 := unmapIn (vmAt h r.dst) ipa sz s2
      let regions := h.shmem.regions.set k { r with active := false }
      (.ok, { h with s2 := s2, shmem := ⟨regions, h.shmem.cursor⟩ })

end Shmem

end HypervisorBase
