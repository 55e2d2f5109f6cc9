import HypervisorBase.Hypercall.Dispatch
import HypervisorBase.Ipc.Confinement
import HypervisorBase.Ipc.Fifo
/-!
# What a receive throws away

`ipc_recv` cuts a message at the receiver's bound and then drops it. So it
keeps what it does not deliver (`KeepsUndelivered`) only where there is
nothing to cut: the queue is empty, or the bound is at least the length of
the oldest message, and that is not zero (`recv_keeps_iff`). No message
that `ipc_send` has queued has length zero.
-/

namespace HypervisorBase

namespace Ipc

/-- The queue of a VM. -/
def queueOf (h : Hyp) (vm : Vm) : IpcQueue := h.queues (vm.id - 1)

/-- The message at the head. -/
def oldest (q : IpcQueue) : IpcMsg := q.slots q.head.toNat

/-- **Nothing undelivered is destroyed**: a message is removed only if all
of it has arrived and its length is returned, it stays if the bound is
below its length, and zero is returned only by an empty queue. -/
structure Keeps (h h' : Hyp) (vm : Vm) (buf maxLen out : U64) : Prop where
  removed : queueOf h' vm ≠ queueOf h vm →
    out.toNat = (oldest (queueOf h vm)).len.toNat ∧
      bytesAt h'.phys (buf + paOffset (some vm)) (oldest (queueOf h vm)).len.toNat =
        (msgOf (oldest (queueOf h vm))).2
  stays : (queueOf h vm).count ≠ 0 → maxLen.toNat < (oldest (queueOf h vm)).len.toNat →
    queueOf h' vm = queueOf h vm
  zero : out = 0 → (queueOf h vm).count = 0

/-- It is so for the VM that calls. -/
def KeepsUndelivered (h : Hyp) (buf maxLen : U64) : Prop :=
  ∀ vm ∈ currentVm h,
    Keeps h (ipcRecv h buf maxLen).2.2.1 vm buf maxLen (ipcRecv h buf maxLen).2.1

/-- What a receive returns and leaves behind when a message waits. -/
theorem recv_waiting {h : Hyp} {vm : Vm} (hvm : currentVm h = some vm)
    (hwaiting : (queueOf h vm).count ≠ 0) (buf maxLen : U64) :
    (ipcRecv h buf maxLen).2.1 = copyLen (oldest (queueOf h vm)) maxLen ∧
    queueOf (ipcRecv h buf maxLen).2.2.1 vm = dequeue (queueOf h vm) ∧
    (ipcRecv h buf maxLen).2.2.1.phys = copyOut h.phys (buf + paOffset (some vm))
      (oldest (queueOf h vm)).data (copyLen (oldest (queueOf h vm)) maxLen).toNat := by
  rw [ipcRecv_of_waiting hvm rfl rfl hwaiting]
  exact ⟨rfl, Function.update_self .., rfl⟩

theorem dequeue_ne (q : IpcQueue) : dequeue q ≠ q := by
  intro heq
  have hcount : q.count - 1 = q.count := congrArg IpcQueue.count heq
  bv_omega

/-- **With a message waiting, nothing is destroyed exactly if it fits.** A
message without bytes would be returned as zero. -/
theorem keeps_waiting_iff {h : Hyp} {vm : Vm} (hvm : currentVm h = some vm)
    (hwaiting : (queueOf h vm).count ≠ 0) (buf maxLen : U64) :
    Keeps h (ipcRecv h buf maxLen).2.2.1 vm buf maxLen (ipcRecv h buf maxLen).2.1 ↔
      (oldest (queueOf h vm)).len ≠ 0 ∧ (oldest (queueOf h vm)).len.toNat ≤ maxLen.toNat := by
  obtain ⟨hout, hqueue, hphys⟩ := recv_waiting hvm hwaiting buf maxLen
  have hchanged : queueOf (ipcRecv h buf maxLen).2.2.1 vm ≠ queueOf h vm := by
    rw [hqueue]
    exact dequeue_ne _
  have hlen : (ipcRecv h buf maxLen).2.1.toNat =
      min (oldest (queueOf h vm)).len.toNat maxLen.toNat := by
    rw [hout, toNat_copyLen]
  constructor
  · intro hkeeps
    have hfull := (hkeeps.removed hchanged).1
    refine ⟨fun hnone => hwaiting (hkeeps.zero ?_), by omega⟩
    apply BitVec.eq_of_toNat_eq
    rw [hfull, hnone]
    rfl
  · rintro ⟨hsome, hfits⟩
    have hcopied : (copyLen (oldest (queueOf h vm)) maxLen).toNat =
        (oldest (queueOf h vm)).len.toNat := by
      rw [toNat_copyLen, Nat.min_eq_left hfits]
    refine ⟨fun _ => ⟨by rw [hout, hcopied], ?_⟩, fun _ hshort => by omega, fun hzero => ?_⟩
    · rw [hphys, hcopied, bytesAt_copyOut _ _ _ le_rfl]
      refine List.take_of_length_le ?_
      rw [msgOf, List.length_map, List.length_range]
    · refine absurd ?_ hsome
      apply BitVec.eq_of_toNat_eq
      rw [← hcopied, ← hout, hzero]
      rfl

theorem keeps_empty {h : Hyp} {vm : Vm} (hvm : currentVm h = some vm)
    (hempty : (queueOf h vm).count = 0) (buf maxLen : U64) :
    Keeps h (ipcRecv h buf maxLen).2.2.1 vm buf maxLen (ipcRecv h buf maxLen).2.1 := by
  rw [ipcRecv_of_empty hvm hempty]
  exact ⟨fun hne => absurd rfl hne, fun hne => absurd hempty hne, fun _ => hempty⟩

/-- **A receive destroys nothing undelivered** exactly if the caller's
queue is empty or its oldest message has a byte and fits the bound, in
every state, and the hypercall returns what `ipc_recv` does. -/
theorem recv_keeps_iff [P : PtPool] (h : Hyp) (x : Hypercall.Regs) :
    (let r := ipcRecv h (x 1) (x 2)
     Hypercall.hvcDispatch h (Function.update x 0 0x0021) =
       some (Function.update x 0 (if r.1 = .ok then r.2.1 else r.1.word), r.2.2.1)) ∧
    (KeepsUndelivered h (x 1) (x 2) ↔
      ∀ vm ∈ currentVm h, (queueOf h vm).count = 0 ∨ (oldest (queueOf h vm)).len ≠ 0 ∧
        (oldest (queueOf h vm)).len.toNat ≤ (x 2).toNat) := by
  constructor
  · unfold Hypercall.hvcDispatch Hypercall.hvcCall
    rw [Function.update_self, Function.update_of_ne (by decide), Function.update_of_ne (by decide)]
    exact congrArg (fun y => some (y, (ipcRecv h (x 1) (x 2)).2.2.1)) (Function.update_idem ..)
  · refine forall₂_congr fun vm hvm => ?_
    by_cases hempty : (queueOf h vm).count = 0
    · exact iff_of_true (keeps_empty hvm hempty _ _) (.inl hempty)
    · rw [keeps_waiting_iff hvm hempty]
      exact ⟨.inr, fun hor => hor.resolve_left hempty⟩

/-- Linux sends itself a byte. -/
def oneByteSent : Hyp := (ipcSend (ipcInit linuxAlone) 1 0 1).2.1

/-- A receive with a bound of zero returns zero and the byte is gone. -/
theorem byte_destroyed :
    (oneByteSent.queues 0).count = 1 ∧
    (ipcRecv oneByteSent 0 0).1 = .ok ∧ (ipcRecv oneByteSent 0 0).2.1 = 0 ∧
    ((ipcRecv oneByteSent 0 0).2.2.1.queues 0).count = 0 ∧
    ¬ KeepsUndelivered oneByteSent 0 0 := by
  refine ⟨by decide, by decide, by decide, by decide, fun hkeeps => ?_⟩
  obtain ⟨vm, hvm⟩ : ∃ vm, currentVm oneByteSent = some vm := ⟨_, rfl⟩
  exact absurd ((hkeeps vm hvm).zero rfl) (by cases hvm; decide)

end Ipc

end HypervisorBase
