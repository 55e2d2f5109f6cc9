import HypervisorBase.Hypercall.Dispatch
import HypervisorBase.Vse.Bookkeeping
import Mathlib.Logic.Relation
/-!
# What a hypercall is made of

A hypercall runs through a handful of operations on the hypervisor's
state: bookkeeping, the lifecycle of a VM, a rebuild of its tables, and
shared memory. `Part` lists them, and a hypercall that returns is a
sequence of parts (`parts_of_hvcDispatch`), whatever the state it starts
from. What every part preserves, a hypercall preserves.
-/

namespace HypervisorBase

namespace Hypercall

/-! ## The parts -/

/-- **Only queues, list registers, slots, drivers, the timer and guest
memory have changed.** -/
structure Aside (h h' : Hyp) : Prop where
  rest : h' = { h with
    queues := h'.queues, lr := h'.lr, sched := h'.sched, fuel := h'.fuel, audio := h'.audio,
    cnthp := h'.cnthp, phys := h'.phys }

/-- Whatever is read off the rest of the state is unchanged. -/
theorem Aside.eq {h h' : Hyp} {α : Type*} (a : Aside h h') (f : Hyp → α)
    (hf : ∀ g q l s u d c p, f { g with
      queues := q, lr := l, sched := s, fuel := u, audio := d, cnthp := c, phys := p } = f g) :
    f h' = f h := by
  rw [a.rest]
  exact hf ..

theorem aside_ipcSend (h : Hyp) (dst : U32) (buf len : U64) :
    Aside h (Ipc.ipcSend h dst buf len).2.1 := by
  unfold Ipc.ipcSend
  dsimp only
  repeat' split
  all_goals exact ⟨rfl⟩

theorem aside_ipcRecv (h : Hyp) (buf maxLen : U64) : Aside h (Ipc.ipcRecv h buf maxLen).2.2.1 := by
  unfold Ipc.ipcRecv
  dsimp only
  repeat' split
  all_goals exact ⟨rfl⟩

theorem aside_gicInjectVirqLr (h : Hyp) (virq : U32) (prio : U8) :
    Aside h (Ipc.gicInjectVirqLr h virq prio) := by
  unfold Ipc.gicInjectVirqLr
  dsimp only
  repeat' split
  all_goals exact ⟨rfl⟩

theorem aside_ipcNotify (h : Hyp) (dst : U32) : Aside h (Ipc.ipcNotify h dst).2 := by
  unfold Ipc.ipcNotify
  split
  · exact ⟨rfl⟩
  split
  · exact ⟨rfl⟩
  split
  · exact ⟨rfl⟩
  · exact aside_gicInjectVirqLr h _ _

theorem aside_schedSetSlice (h : Hyp) (vmId durUs : U32) :
    Aside h (Sched.schedSetSlice h vmId durUs).2 := by
  unfold Sched.schedSetSlice
  dsimp only
  split <;> exact ⟨rfl⟩

/-- A call that touches neither the VMs nor their tables, or a later test. -/
theorem aside_or_of_test {p : Prop} [Decidable p] {h h' g : Hyp} {x' y : Regs}
    {rest : Option (Regs × Hyp)}
    (hrun : (if p then some (y, g) else rest) = some (x', h')) (ha : Aside h g) :
    Aside h h' ∨ rest = some (x', h') := by
  rcases ite_eq_iff.mp hrun with ⟨-, hrun⟩ | ⟨-, hrun⟩
  · cases hrun
    exact .inl ha
  · exact .inr hrun

/-- A lifecycle call does nothing, or finds the VM it names. -/
theorem onVm_cases (f : Hyp → ℕ → Err × Hyp) (h : Hyp) (id : U32) :
    (onVm f h id).2 = h ∨ ∃ i, vmById h id = some i ∧ (onVm f h id).2 = (f h i).2 := by
  unfold onVm
  split
  · exact .inl rfl
  · rename_i i hi
    exact .inr ⟨i, hi, rfl⟩

section Tables

variable [P : PtPool]

/-- **One operation of a hypercall.** -/
inductive Part : Hyp → Hyp → Prop
  | aside {h h' : Hyp} : Aside h h' → Part h h'
  | vse {h h' : Hyp} : Vse.OnlyVse h h' → Part h h'
  | backup (h : Hyp) (ix : Fin maxVms) (b : BackupDesc) : Part h (h.setBackup ix b)
  | start (h : Hyp) (i : ℕ) : Part h (vmStart h i).2
  | stop (h : Hyp) (i : ℕ) : Part h (vmStop h i).2
  | suspend (h : Hyp) (i : ℕ) : Part h (vmSuspend h i).2
  | resume (h : Hyp) (i : ℕ) : Part h (vmResume h i).2
  /-- A rebuild that fails leaves the entry point alone. -/
  | rebuild {h h' : Hyp} {i : ℕ} {e : Err} : vmFinalize h i = some (e, h') → Part h h'
  | restart {h h' : Hyp} {i : ℕ} (entryIpa : U64) : vmFinalize h i = some (.ok, h') →
      Part h (Vse.resetEntry h' i entryIpa)
  | map {h h' : Hyp} {src dst : U32} {ipa sz : U64} {e : Err} :
      Shmem.shmemMap h src dst ipa sz = some (e, h') → Part h h'
  | unmap (h : Hyp) (ipa sz : U64) : Part h (Shmem.shmemUnmap h ipa sz).2

abbrev Parts : Hyp → Hyp → Prop := Relation.ReflTransGen Part

/-- **The rule of parts**: an invariant of every part is one of a
sequence. -/
theorem Parts.invariant {I : Hyp → Prop} (hpart : ∀ h h', Part h h' → I h → I h') {h h' : Hyp}
    (hparts : Parts h h') (hi : I h) : I h' := by
  induction hparts with
  | refl => exact hi
  | tail _ hlast ih => exact hpart _ _ hlast ih

variable {h h' : Hyp} {id : U32} {e : Err}

theorem Parts.vse (hvse : Vse.OnlyVse h h') : Parts h h' := .single (.vse hvse)

/-! ## Their footprints -/

variable {ipa : U64}

/-- Sharing changes tables and regions only. -/
theorem shmemMap_rest {src dst : U32} {sz : U64}
    (hrun : Shmem.shmemMap h src dst ipa sz = some (e, h')) :
    h' = { h with s2 := h'.s2, shmem := h'.shmem } := by
  unfold Shmem.shmemMap at hrun
  split at hrun
  · cases hrun
    rfl
  · rename_i src dst pa h₁ hres
    have hreserved : h₁ = { h with shmem := h₁.shmem } := by
      unfold Shmem.shmemReserve at hres
      repeat' split at hres
      all_goals cases hres
      rfl
    obtain ⟨⟨e₁, s₁⟩, -, hrun⟩ := Option.bind_eq_some_iff.mp hrun
    dsimp only at hrun
    split at hrun
    · cases hrun
      rw [hreserved]
    · obtain ⟨⟨e₂, s₂⟩, -, hrun⟩ := Option.bind_eq_some_iff.mp hrun
      dsimp only at hrun
      split at hrun
      · cases hrun
        rw [hreserved]
      · cases hrun
        rw [hreserved]

omit P in
theorem shmemUnmap_rest (h : Hyp) (ipa sz : U64) :
    (Shmem.shmemUnmap h ipa sz).2 =
      { h with s2 := (Shmem.shmemUnmap h ipa sz).2.s2, shmem := (Shmem.shmemUnmap h ipa sz).2.shmem } := by
  unfold Shmem.shmemUnmap
  split
  · rfl
  split
  · rfl
  · rfl

/-! ## Failover -/

theorem parts_of_trustRevoke (h : Hyp) (id : U32) : Parts h (Vse.trustRevoke h id).2 :=
  Vse.trustRevoke_keeps (R := Parts h) .refl (.vse (Vse.onlyVse_trustSet h id _))
    fun g i hg => hg.tail (.stop g i)

/-- A failover stops, restores, rebuilds and starts. -/
theorem parts_of_doFailover {ix : Fin maxVms} (hrun : Vse.doFailover h id ix = some (e, h')) :
    Parts h h' := by
  rcases Vse.doFailover_inv hrun with ⟨-, -, rfl⟩ | ⟨i, -, ⟨-, -, rfl⟩ | ⟨-, hend⟩⟩
  · exact .refl
  · exact parts_of_trustRevoke h id
  generalize hcount : h.setBackup ix _ = h₁ at hend
  have hcounted : Parts h h₁ := by
    rw [← hcount]
    exact .single (.backup h ix _)
  have himage : ∀ {s}, vmStop h₁ i = (.ok, s) → Parts h (Vse.restoreImage s (h.failover.backup ix)) := by
    intro s hstop
    have hstopped : Parts h (vmStop h₁ i).2 := hcounted.tail (.stop h₁ i)
    rw [hstop] at hstopped
    refine hstopped.tail (.aside ?_)
    unfold Vse.restoreImage
    split
    · exact ⟨rfl⟩
    · exact ⟨rfl⟩
  have hrestart : ∀ {s g k e'}, vmStop h₁ i = (.ok, s) →
      vmFinalize (Vse.restoreImage s (h.failover.backup ix)) i = some (.ok, g) →
      vmStart (Vse.resetEntry g i (h.failover.backup ix).entryIpa) i = (e', k) → Parts h k := by
    intro s g k e' hstop hfin hstart
    have hstarted := ((himage hstop).tail (.restart (h.failover.backup ix).entryIpa hfin)).tail
      (.start _ i)
    rwa [hstart] at hstarted
  cases hend with
  | stopFails hstop herr =>
    have hstopped : Parts h (vmStop h₁ i).2 := hcounted.tail (.stop h₁ i)
    rwa [hstop] at hstopped
  | finalizeFails hstop hfin herr => exact (himage hstop).tail (.rebuild hfin)
  | startFails hstop hfin hstart herr => exact hrestart hstop hfin hstart
  | restarts hstop hfin hstart hok hset =>
    rw [hset]
    exact (hrestart hstop hfin hstart).tail (.vse (Vse.onlyVse_trustSet _ id _))

theorem parts_of_failoverOnQuarantine (hrun : Vse.failoverOnQuarantine h id = some (e, h')) :
    Parts h h' := by
  rcases Vse.failoverOnQuarantine_inv hrun with rfl | ⟨ix, hdo⟩
  · exact .refl
  · exact parts_of_doFailover hdo

/-! ## A fault -/

/-- A quarantine suspends the VM and may fail it over. -/
theorem parts_of_trustQuarantine (hrun : Vse.trustQuarantine h id = some (e, h')) : Parts h h' := by
  rcases Vse.trustQuarantine_inv hrun with ⟨rfl, -⟩ | ⟨ix, i, g, e', -, -, -, hset, hfail⟩
  · exact .refl
  have hmarked : Parts h g := by
    rw [hset]
    exact .vse (Vse.onlyVse_trustSet h id _)
  have hcount : Parts h { g with trust := { g.trust with
      quarantineCount := g.trust.quarantineCount + 1 } } := hmarked.tail (.vse ⟨rfl, rfl⟩)
  generalize ({ g with trust := { g.trust with
      quarantineCount := g.trust.quarantineCount + 1 } } : Hyp) = k at hcount hfail
  have hsuspend : Parts h (Vse.suspendRunnable k i) :=
    Vse.suspendRunnable_keeps hcount (hcount.tail (.suspend k i))
  exact hsuspend.trans (parts_of_failoverOnQuarantine hfail)

variable {detail : U64} {faultType : U32}

/-- A report is bookkeeping, or a quarantine or a revocation. -/
theorem parts_of_trustReportFault
    (hrun : Vse.trustReportFault h id faultType detail = some (e, h')) : Parts h h' := by
  rcases Vse.trustReportFault_inv hrun with ⟨rfl, -⟩ | ⟨ix, g, -, -, hg, hcases⟩
  · exact .refl
  have hrecord : Parts h g := by
    rw [hg]
    exact .vse ⟨rfl, rfl⟩
  rcases hcases with ⟨-, e', hquar⟩ | ⟨-, rfl | ⟨-, rfl⟩⟩
  · exact hrecord.trans (parts_of_trustQuarantine hquar)
  · exact hrecord
  · exact hrecord.tail (.vse (Vse.onlyVse_trustSet _ id _))

/-- Enforcement is a quarantine between two records. -/
theorem parts_of_detectStorm {ix : Fin maxVms} {now : U64}
    (hrun : Vse.detectStorm h id ix faultType now = some h') : Parts h h' := by
  rcases Vse.detectStorm_inv hrun with ⟨-, rfl⟩ | ⟨-, n, k, -, hk, ⟨-, rfl⟩ | ⟨-, henforce⟩⟩
  · exact .vse ⟨rfl, rfl⟩
  · rw [hk]
    exact .vse ⟨rfl, rfl⟩
  have halerted : Parts h (Vse.idsAlert k id .storm faultType (n.setWidth 64)) := by
    rw [hk]
    exact .vse ⟨rfl, rfl⟩
  rcases Vse.enforceStorm_inv henforce with ⟨-, rfl⟩ | ⟨-, e, g, hquar, rfl⟩
  · exact halerted
  · exact (halerted.trans (parts_of_trustQuarantine hquar)).tail (.vse ⟨rfl, rfl⟩)

theorem parts_of_idsNotifyFault
    (hrun : Vse.idsNotifyFault h id faultType detail = some h') : Parts h h' := by
  rcases Vse.idsNotifyFault_inv hrun with ⟨-, rfl⟩ | ⟨ix, g, -, -, hstorm, rfl⟩
  · exact .refl
  have hevidence : Parts h (Vse.evidence h id ix faultType detail) :=
    .vse (Vse.logged_evidence h ix id faultType detail).silent.only
  exact (hevidence.trans (parts_of_detectStorm hstorm)).tail (.vse (Vse.silent_detectRapid ..).only)

theorem parts_of_reportGuest
    (hrun : Vse.reportGuest h id faultType detail = some h') : Parts h h' := by
  unfold Vse.reportGuest at hrun
  split at hrun
  · cases hrun
    exact .refl
  · obtain ⟨⟨e, g⟩, hreport, hrun⟩ := Option.bind_eq_some_iff.mp hrun
    exact (parts_of_trustReportFault hreport).trans (parts_of_idsNotifyFault hrun)

theorem parts_of_fdetectMemFault {isWrite : Bool}
    (hrun : Vse.fdetectMemFault h id ipa isWrite = some h') : Parts h h' := by
  unfold Vse.fdetectMemFault at hrun
  split at hrun
  · cases hrun
    exact .refl
  · refine Relation.ReflTransGen.head (.vse ?_) (parts_of_reportGuest hrun)
    exact ⟨rfl, rfl⟩

theorem parts_of_fdetectDmaViolation {faultPa : U64}
    (hrun : Vse.fdetectDmaViolation h id faultPa = some h') : Parts h h' := by
  unfold Vse.fdetectDmaViolation at hrun
  split at hrun
  · cases hrun
    exact .refl
  · refine Relation.ReflTransGen.head (.vse ?_) (parts_of_reportGuest hrun)
    exact ⟨rfl, rfl⟩

theorem parts_of_hvcDmaXfer {x2 : U64} (hrun : Dma.hvcDmaXfer h ipa x2 = some (e, h')) :
    Parts h h' := by
  unfold Dma.hvcDmaXfer at hrun
  split at hrun
  · cases hrun
    exact .refl
  · obtain ⟨e₁, -, hrun⟩ := Option.bind_eq_some_iff.mp hrun
    split at hrun
    · cases hrun
      exact .refl
    · obtain ⟨g, hlog, hrun⟩ := Option.bind_eq_some_iff.mp hrun
      cases hrun
      exact parts_of_fdetectDmaViolation hlog

/-! ## The call -/

theorem parts_of_onVm {f : Hyp → ℕ → Err × Hyp} (hpart : ∀ i, Part h (f h i).2) (id : U32) :
    Parts h (onVm f h id).2 := by
  rcases onVm_cases f h id with heq | ⟨i, -, heq⟩
  · rw [heq]
  · rw [heq]
    exact .single (hpart i)

variable {x x' : Regs}

/-- **What a hypercall can do** to the VMs and their tables. -/
theorem hvcCall_cases (hrun : hvcCall h x = some (x', h')) :
    Aside h h' ∨
    ((x 0).setWidth 32 = (3 : U32) ∧ h' = (hvcVmStop h ((x 1).setWidth 32)).2) ∨
    ((x 0).setWidth 32 = (4 : U32) ∧ h' = (hvcVmSuspend h ((x 1).setWidth 32)).2) ∨
    h' = (hvcVmResume h ((x 1).setWidth 32)).2 ∨
    (∃ src dst e, Shmem.shmemMap h src dst (x 3) (x 4) = some (e, h')) ∨
    h' = (Shmem.shmemUnmap h (x 1) (x 2)).2 ∨
    ((x 0).setWidth 32 = (0x68 : U32) ∧ ∃ e, Dma.hvcDmaXfer h (x 1) (x 2) = some (e, h')) := by
  unfold hvcCall at hrun
  -- one call after the other, in the order of the tests
  rcases aside_or_of_test (h := h) hrun ⟨rfl⟩ with haside | hrun
  · exact .inl haside
  rcases aside_or_of_test (h := h) hrun ⟨rfl⟩ with haside | hrun
  · exact .inl haside
  rcases ite_eq_iff.mp hrun with ⟨hid, hrun⟩ | ⟨-, hrun⟩
  · cases hrun
    exact .inr (.inl ⟨hid, rfl⟩)
  rcases ite_eq_iff.mp hrun with ⟨hid, hrun⟩ | ⟨-, hrun⟩
  · cases hrun
    exact .inr (.inr (.inl ⟨hid, rfl⟩))
  rcases ite_eq_iff.mp hrun with ⟨-, hrun⟩ | ⟨-, hrun⟩
  · cases hrun
    exact .inr (.inr (.inr (.inl rfl)))
  rcases ite_eq_iff.mp hrun with ⟨-, hrun⟩ | ⟨-, hrun⟩
  · obtain ⟨⟨e, g⟩, hmap, hrun⟩ := Option.bind_eq_some_iff.mp hrun
    cases hrun
    exact .inr (.inr (.inr (.inr (.inl ⟨_, _, e, hmap⟩))))
  rcases ite_eq_iff.mp hrun with ⟨-, hrun⟩ | ⟨-, hrun⟩
  · cases hrun
    exact .inr (.inr (.inr (.inr (.inr (.inl rfl)))))
  rcases aside_or_of_test (h := h) hrun (aside_ipcSend h _ _ _) with haside | hrun
  · exact .inl haside
  rcases aside_or_of_test (h := h) hrun (aside_ipcRecv h _ _) with haside | hrun
  · exact .inl haside
  rcases aside_or_of_test (h := h) hrun (aside_ipcNotify h _) with haside | hrun
  · exact .inl haside
  rcases aside_or_of_test (h := h) hrun (aside_schedSetSlice h _ _) with haside | hrun
  · exact .inl haside
  rcases ite_eq_iff.mp hrun with ⟨-, hrun⟩ | ⟨-, hrun⟩
  · split at hrun <;> cases hrun <;> exact .inl ⟨rfl⟩
  rcases aside_or_of_test (h := h) hrun ⟨rfl⟩ with haside | hrun
  · exact .inl haside
  rcases aside_or_of_test (h := h) hrun ⟨rfl⟩ with haside | hrun
  · exact .inl haside
  rcases aside_or_of_test (h := h) hrun ⟨rfl⟩ with haside | hrun
  · exact .inl haside
  rcases aside_or_of_test (h := h) hrun ⟨rfl⟩ with haside | hrun
  · exact .inl haside
  rcases ite_eq_iff.mp hrun with ⟨hid, hrun⟩ | ⟨-, hrun⟩
  · obtain ⟨⟨e, g⟩, hdma, hrun⟩ := Option.bind_eq_some_iff.mp hrun
    cases hrun
    exact .inr (.inr (.inr (.inr (.inr (.inr ⟨hid, e, hdma⟩)))))
  -- the drivers keep their own records
  left
  repeat' split at hrun
  all_goals
    cases hrun
    exact ⟨rfl⟩

/-- **A hypercall is a sequence of parts.** -/
theorem parts_of_hvcCall (hrun : hvcCall h x = some (x', h')) : Parts h h' := by
  rcases hvcCall_cases hrun with
    haside | ⟨-, rfl⟩ | ⟨-, rfl⟩ | rfl | ⟨src, dst, e, hmap⟩ | rfl | ⟨-, e, hdma⟩
  · exact .single (.aside haside)
  · exact parts_of_onVm (fun i => .stop h i) _
  · exact parts_of_onVm (fun i => .suspend h i) _
  · exact parts_of_onVm (fun i => .resume h i) _
  · exact .single (.map hmap)
  · exact .single (.unmap h _ _)
  · exact parts_of_hvcDmaXfer hdma

/-- **A hypercall that returns is a sequence of parts.** -/
theorem parts_of_hvcDispatch (hrun : hvcDispatch h x = some (x', h')) :
    Parts h h' := by
  unfold hvcDispatch at hrun
  split at hrun
  · obtain ⟨v, -, hrun⟩ := Option.map_eq_some_iff.mp hrun
    cases hrun
    exact .refl
  · exact parts_of_hvcCall hrun

end Tables

end Hypercall

end HypervisorBase
