import HypervisorBase.Ipc.Model
import HypervisorBase.Stage2.Model
import HypervisorBase.Vm.Lifecycle
/-!
# Which memory a message may touch

`ipc_send` and `ipc_recv` add the first region's offset to the guest's
address and copy, without a walk of the caller's tables and without a
bound. So a call that gets past its checks is confined to the caller's
memory exactly when the tables happen to agree with that offset on the
whole buffer (`ipc_confined_iff`), and otherwise it copies from, or to,
memory of the hypervisor or of another VM.
-/

namespace HypervisorBase

namespace Ipc

/-- The caller's Stage-2 table maps `ipa` to the page of `a`. -/
def CallerMaps (h : Hyp) (ipa a : U64) : Prop :=
  ∃ vm pa, currentVm h = some vm ∧ Stage2.ipaToPa h.s2 vm.s2Pgd ipa = some pa ∧
    a.toNat / 4096 = pa.toNat / 4096

/-- A copy of `n` bytes at the caller's `buf` touches `as`: byte by byte in
pages the caller has there, or else the call fails and leaves memory and
queues alone. -/
structure CopyConfined (h : Hyp) (buf : U64) (n : ℕ) (e : Err) (h' : Hyp) (as : List U64) : Prop where
  inside : ∀ i a, as[i]? = some a → CallerMaps h (buf + BitVec.ofNat 64 i) a
  refused : (∃ i < n, ∀ a, ¬ CallerMaps h (buf + BitVec.ofNat 64 i) a) →
    e ≠ .ok ∧ h'.phys = h.phys ∧ h'.queues = h.queues

def SendConfined (h : Hyp) (dstVmId : U32) (buf len : U64) : Prop :=
  CopyConfined h buf (sendDemand h dstVmId len) (ipcSend h dstVmId buf len).1
    (ipcSend h dstVmId buf len).2.1 (ipcSend h dstVmId buf len).2.2

def RecvConfined (h : Hyp) (buf maxLen : U64) : Prop :=
  CopyConfined h buf (recvDemand h maxLen) (ipcRecv h buf maxLen).1
    (ipcRecv h buf maxLen).2.2.1 (ipcRecv h buf maxLen).2.2.2

/-- The caller's tables map the `n` bytes at `buf`, all of them at the
distance `off`. -/
def FlatAt (h : Hyp) (buf off : U64) (n : ℕ) : Prop :=
  ∀ i < n, CallerMaps h (buf + BitVec.ofNat 64 i) (buf + BitVec.ofNat 64 i + off)

/-! ## What the two copies touch -/

variable {h : Hyp} {dstVmId : U32} {buf len maxLen : U64}

theorem getElem?_span {a x : U64} {n i : ℕ} :
    (span a n)[i]? = some x ↔ i < n ∧ x = a + BitVec.ofNat 64 i := by
  rw [span, List.getElem?_map]
  rcases Nat.lt_or_ge i n with hi | hi
  · simp [hi, eq_comm]
  · simp [Nat.not_lt.2 hi]

/-- A copy at an offset is confined when the buffer is flat there, and
only then. -/
theorem copyConfined_iff {off : U64} {n : ℕ} {e : Err} {h' : Hyp} {as : List U64}
    (has : as = span (buf + off) n) :
    CopyConfined h buf n e h' as ↔ FlatAt h buf off n := by
  have hbyte : ∀ i, buf + off + BitVec.ofNat 64 i = buf + BitVec.ofNat 64 i + off := by
    intro i
    rw [BitVec.add_assoc, BitVec.add_comm off, ← BitVec.add_assoc]
  constructor
  · intro hc i hi
    have := hc.inside i (buf + off + BitVec.ofNat 64 i)
      (by rw [has]; exact getElem?_span.2 ⟨hi, rfl⟩)
    rwa [hbyte] at this
  · intro hflat
    refine ⟨fun i a ha => ?_, ?_⟩
    · rw [has] at ha
      obtain ⟨hi, rfl⟩ := getElem?_span.1 ha
      rw [hbyte]
      exact hflat i hi
    · rintro ⟨i, hi, hno⟩
      exact absurd (hflat i hi) (hno _)

/-- **What a send reads**: past its checks, the message, wherever the
offset of the first region puts it. -/
theorem reads_ipcSend (h : Hyp) (dstVmId : U32) (buf len : U64) :
    (ipcSend h dstVmId buf len).2.2 = span (sendSource h buf) (sendDemand h dstVmId len) := by
  unfold ipcSend sendDemand
  by_cases hdst : dstVmId.toNat = 0 ∨ maxVms < dstVmId.toNat
  · rw [if_pos hdst, if_pos (by tauto)]
    rfl
  rw [if_neg hdst]
  by_cases hlen : len.toNat = 0 ∨ ipcMsgMax < len.toNat
  · rw [if_pos hlen]
    rcases hlen with hzero | hlong
    · rw [hzero, ite_self]
      rfl
    · rw [if_pos (by tauto)]
      rfl
  rw [if_neg hlen]
  dsimp only
  by_cases hfull : ipcDepth ≤ (h.queues (dstVmId - 1)).count.toNat
  · rw [if_pos hfull, if_pos (by tauto)]
    rfl
  · rw [if_neg hfull, if_neg (by tauto)]
    rfl

/-- **What a receive writes**: the message that waits, likewise. -/
theorem writes_ipcRecv (h : Hyp) (buf maxLen : U64) :
    (ipcRecv h buf maxLen).2.2.2 = span (recvTarget h buf) (recvDemand h maxLen) := by
  unfold ipcRecv recvDemand recvTarget
  cases hvm : currentVm h with
  | none => rfl
  | some vm =>
    dsimp only
    by_cases hempty : (h.queues (vm.id - 1)).count = 0
    · rw [if_pos hempty, if_pos hempty]
      rfl
    · rw [if_neg hempty, if_neg hempty]

/-- **A send is confined exactly when its buffer is flat** at the first
region's offset. -/
theorem sendConfined_iff : SendConfined h dstVmId buf len ↔
    FlatAt h buf (paOffset (vmAt h (currentVmId h))) (sendDemand h dstVmId len) :=
  copyConfined_iff (reads_ipcSend h dstVmId buf len)

/-- **And so is a receive.** -/
theorem recvConfined_iff : RecvConfined h buf maxLen ↔
    FlatAt h buf (paOffset (currentVm h)) (recvDemand h maxLen) :=
  copyConfined_iff (writes_ipcRecv h buf maxLen)

/-- **Messages are confined exactly where the tables are flat.** For every
state and every argument, a send or a receive touches only pages its
caller has at the buffer, and fails without effect where there are none,
if and only if the caller's tables map every byte the call would have to
touch at the distance between the first region's two bases. -/
theorem ipc_confined_iff (h : Hyp) :
    (∀ dstVmId buf len, SendConfined h dstVmId buf len ↔
      FlatAt h buf (paOffset (vmAt h (currentVmId h))) (sendDemand h dstVmId len)) ∧
    ∀ buf maxLen, RecvConfined h buf maxLen ↔
      FlatAt h buf (paOffset (currentVm h)) (recvDemand h maxLen) :=
  ⟨fun _ _ _ => sendConfined_iff, fun _ _ => recvConfined_iff⟩

/-- A buffer that starts above the 39 bits of the tables is never flat,
so a send from one is never confined. -/
theorem not_sendConfined_of_wide (hbuf : 2 ^ 39 ≤ buf.toNat) (hn : 0 < sendDemand h dstVmId len) :
    ¬ SendConfined h dstVmId buf len := by
  intro hconf
  obtain ⟨vm, pa, -, hpa, -⟩ := sendConfined_iff.1 hconf 0 hn
  rw [BitVec.add_zero, Stage2.ipaToPa, if_neg (Nat.not_lt.2 hbuf)] at hpa
  exact absurd hpa (by simp)

/-- The Linux VM with its first region, running, as `platform_init` leaves
it before the tables are filled. -/
def linuxAlone : Hyp :=
  let h := Hyp.blank
  let vm := { vmInit 1 .linux with
    state := .running
    s2Pgd := 0x40200000
    mem := [⟨0x41000000, 0, 0x08000000, 7⟩] }
  { h with vms := [vm], vcpus := [vcpuInit 0 vm 0], current := some 0 }

/-- Linux sends sixteen bytes from an address whose sum with the offset
wraps to the start of the hypervisor's image: they are read and queued. -/
theorem ipc_reads_hypervisor_image :
    (ipcSend linuxAlone 2 (0 - 0x1000000) 16).1 = .ok ∧
      (ipcSend linuxAlone 2 (0 - 0x1000000) 16).2.2.head? = some 0x40000000 ∧
      ¬ SendConfined linuxAlone 2 (0 - 0x1000000) 16 := by
  exact ⟨rfl, rfl, not_sendConfined_of_wide (by decide) (by decide)⟩

end Ipc

end HypervisorBase
