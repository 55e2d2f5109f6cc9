import HypervisorBase.Vm.Lifecycle
/-!
# Trust and failover

The model of `vse/trust.c` and `vse/failover.c`, which call each other:
a quarantine tries to restart the VM from its backup, and a failover that
has used up its attempts revokes it. A result of `none` is a rebuild of
the tables that never returns because the pool is empty.
-/

namespace HypervisorBase

/-- `memcpy`: byte after byte, upwards. -/
def memcpy (dst src : U64) : ℕ → (U64 → U8) → U64 → U8
  | 0, phys => phys
  | n + 1, phys => memcpy (dst + 1) (src + 1) n (Function.update phys dst (phys src))

/-- Replaces the trust record at an index. -/
def Hyp.setTrust (h : Hyp) (ix : Fin maxVms) (r : TrustRecord) : Hyp :=
  { h with trust := { h.trust with vm := Function.update h.trust.vm ix r } }

/-- Replaces the backup descriptor at an index. -/
def Hyp.setBackup (h : Hyp) (ix : Fin maxVms) (b : BackupDesc) : Hyp :=
  { h with failover := { h.failover with backup := Function.update h.failover.backup ix b } }

namespace Vse

def trustThreshDegraded : ℕ := 5

def trustThreshQuarantine : ℕ := 15

def trustCleanPeriodUs : ℕ := 30000000

def failoverMaxAttempts : ℕ := 3

/-- `gmeas_result_t`. -/
inductive Gmeas
  | match
  | mismatch
  | learn
  | skip
  deriving DecidableEq, Repr

/-! ## Levels -/

/-- One VM of `trust_init`'s loop, given what `guest_measure_vm` finds. -/
def trustMark (gm : U32 → Gmeas) (t : Trust) (vm : Vm) : Trust :=
  match idx vm.id with
  | none => t
  | some ix =>
    let level := if gm vm.id = .mismatch then .quarantine else .trusted
    { t with vm := Function.update t.vm ix { t.vm ix with level := level } }

def trustInit (h : Hyp) (gm : U32 → Gmeas) : Hyp :=
  let zero : Trust := { initialized := false, vm := fun _ => ⟨.unknown, 0, 0, 0, 0, 0⟩,
                        totalFaults := 0, quarantineCount := 0 }
  { h with trust := { h.vms.foldl (trustMark gm) zero with initialized := true } }

def trustGet (h : Hyp) (vmId : U32) : TrustLevel :=
  match idx vmId with
  | none => .unknown
  | some ix => if h.trust.initialized then (h.trust.vm ix).level else .unknown

def trustIsBlocked (h : Hyp) (vmId : U32) : Bool :=
  trustGet h vmId = .quarantine || trustGet h vmId = .revoked

def trustSet (h : Hyp) (vmId : U32) (level : TrustLevel) : Err × Hyp :=
  match idx vmId with
  | none => (.inval, h)
  | some ix =>
    if !h.trust.initialized then (.inval, h)
    else if (h.trust.vm ix).level ≠ level then
      let (now, h) := timerNowUs h
      (.ok, h.setTrust ix { h.trust.vm ix with level := level, downgradeTime := now })
    else (.ok, h)

def trustRevoke (h : Hyp) (vmId : U32) : Err × Hyp :=
  match idx vmId, vmById h vmId with
  | none, _ => (.inval, h)
  | some _, none => (.notfound, h)
  | some _, some i =>
    let h := (trustSet h vmId .revoked).2
    -- `vm_stop` makes the same test again; its error is only logged
    (.ok, if (h.vms[i]?).map Vm.state ≠ some .stopped then (vmStop h i).2 else h)

section Tables

variable [P : PtPool]

/-! ## Failover -/

def failoverInit (h : Hyp) : Hyp :=
  { h with failover := ⟨true, fun _ => ⟨false, 0, 0, 0, 0, false, 0⟩⟩ }

def failoverRegister (h : Hyp) (vmId : U32) (backupPa livePa backupSize entryIpa : U64) : Err × Hyp :=
  match idx vmId with
  | none => (.inval, h)
  | some ix =>
    if !h.failover.initialized then (.inval, h)
    else if backupPa = 0 ∨ backupSize = 0 then (.inval, h)
    else if (vmById h vmId).isNone then (.notfound, h)
    else (.ok, h.setBackup ix ⟨true, backupPa, livePa, backupSize, entryIpa, true, 0⟩)

/-- Step 2a of `_do_failover`. -/
def restoreImage (h : Hyp) (bd : BackupDesc) : Hyp :=
  if bd.backupPa ≠ 0 ∧ bd.livePa ≠ 0 ∧ bd.backupSize ≠ 0 ∧ bd.backupPa ≠ bd.livePa then
    { h with phys := memcpy bd.livePa bd.backupPa bd.backupSize.toNat h.phys }
  else h

/-- Step 3 of `_do_failover`. -/
def resetEntry (h : Hyp) (i : ℕ) (entryIpa : U64) : Hyp :=
  match (h.vms[i]?).bind fun vm => vm.vcpus[0]? with
  | none => h
  | some v => { h with vcpus := h.vcpus.modify v fun vc => vcpuSetEntry vc entryIpa 0 }

/-- `_do_failover` on the descriptor at `ix`. -/
def doFailover (h : Hyp) (vmId : U32) (ix : Fin maxVms) : Option (Err × Hyp) :=
  match vmById h vmId with
  | none => some (.notfound, h)
  | some i =>
    let bd := h.failover.backup ix
    if failoverMaxAttempts ≤ bd.failoverCount.toNat then some (.busy, (trustRevoke h vmId).2)
    else
      let h := h.setBackup ix { bd with failoverCount := bd.failoverCount + 1 }
      let (e, h) := vmStop h i
      if e ≠ .ok then some (e, h)
      else do
        let (e, h) ← vmFinalize (restoreImage h bd) i
        if e ≠ .ok then pure (e, h)
        else
          let (e, h) := vmStart (resetEntry h i bd.entryIpa) i
          if e ≠ .ok then pure (e, h)
          else pure (.ok, (trustSet h vmId .degraded).2)

def failoverOnQuarantine (h : Hyp) (vmId : U32) : Option (Err × Hyp) :=
  match idx vmId with
  | none => some (.inval, h)
  | some ix =>
    if !h.failover.initialized then some (.notfound, h)
    else if !(h.failover.backup ix).registered || !(h.failover.backup ix).critical then
      some (.notfound, h)
    else doFailover h vmId ix

def failoverTrigger (h : Hyp) (vmId : U32) : Option (Err × Hyp) :=
  match idx vmId with
  | none => some (.inval, h)
  | some ix =>
    if !h.failover.initialized then some (.inval, h)
    else if !(h.failover.backup ix).registered then some (.notfound, h)
    else doFailover h vmId ix

/-! ## Enforcement -/

/-- The VM's part of `trust_quarantine`: it is suspended if it could run. -/
def suspendRunnable (h : Hyp) (i : ℕ) : Hyp :=
  match h.vms[i]? with
  | none => h
  | some vm => if vm.state = .running ∨ vm.state = .ready then (vmSuspend h i).2 else h

def trustQuarantine (h : Hyp) (vmId : U32) : Option (Err × Hyp) :=
  match idx vmId, vmById h vmId with
  | none, _ => some (.inval, h)
  | some _, none => some (.notfound, h)
  | some ix, some i =>
    if TrustLevel.quarantine.rank ≤ (h.trust.vm ix).level.rank then some (.ok, h)
    else do
      let h := (trustSet h vmId .quarantine).2
      let h := { h with trust := { h.trust with quarantineCount := h.trust.quarantineCount + 1 } }
      let (_, h) ← failoverOnQuarantine (suspendRunnable h i) vmId
      pure (.ok, h)

def trustRestore (h : Hyp) (vmId : U32) : Err × Hyp :=
  match idx vmId, vmById h vmId with
  | none, _ => (.inval, h)
  | some _, none => (.notfound, h)
  | some ix, some i =>
    if (h.trust.vm ix).level ≠ .quarantine then (.inval, h)
    else
      let h := h.setTrust ix { h.trust.vm ix with faultCount := 0 }
      let h := (trustSet h vmId .degraded).2
      (.ok, if (h.vms[i]?).map Vm.state = some .suspended then (vmResume h i).2 else h)

/-- The record of a fault, before any escalation. -/
def recordFault (h : Hyp) (ix : Fin maxVms) (faultType : U32) (detail : U64) : Hyp :=
  let (now, h) := timerNowUs h
  let r := h.trust.vm ix
  let h := h.setTrust ix { r with
    faultCount := r.faultCount + 1
    lastFaultType := faultType
    lastFaultDetail := detail
    lastFaultUs := now }
  { h with trust := { h.trust with totalFaults := h.trust.totalFaults + 1 } }

def trustReportFault (h : Hyp) (vmId faultType : U32) (detail : U64) : Option (Err × Hyp) :=
  match idx vmId with
  | none => some (.inval, h)
  | some ix =>
    if !h.trust.initialized then some (.inval, h)
    else if (h.trust.vm ix).level = .revoked then some (.ok, h)
    else
      let h := recordFault h ix faultType detail
      let r := h.trust.vm ix
      if trustThreshQuarantine ≤ r.faultCount.toNat then
        if r.level.rank < TrustLevel.quarantine.rank then do
          let (_, h) ← trustQuarantine h vmId
          pure (.ok, h)
        else some (.ok, h)
      else if trustThreshDegraded ≤ r.faultCount.toNat then
        if r.level = .trusted then some (.ok, (trustSet h vmId .degraded).2) else some (.ok, h)
      else some (.ok, h)

/-- One VM of `trust_auto_promote_tick`'s loop, with the count so far. -/
def promoteOne (nowUs : U64) (st : U32 × Hyp) (ix : Fin maxVms) : U32 × Hyp :=
  let (n, h) := st
  let r := h.trust.vm ix
  if r.level ≠ .degraded then (n, h)
  else if nowUs < r.lastFaultUs then (n, h)
  else if (nowUs - r.lastFaultUs).toNat < trustCleanPeriodUs then (n, h)
  else
    let h := h.setTrust ix { r with faultCount := 0 }
    (n + 1, (trustSet h (BitVec.ofNat 32 (ix.val + 1)) .trusted).2)

def trustAutoPromoteTick (h : Hyp) (nowUs : U64) : U32 × Hyp :=
  if !h.trust.initialized then (0, h)
  else (List.finRange maxVms).foldl (promoteOne nowUs) (0, h)

end Tables

end Vse

end HypervisorBase
