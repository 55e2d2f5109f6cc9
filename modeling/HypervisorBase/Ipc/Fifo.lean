import HypervisorBase.Common.Ring
import HypervisorBase.Common.Run
import HypervisorBase.Ipc.Model
/-!
# Queues are bounded FIFOs

Read from its head on, the ring of a VM is a list of messages, its inbox.
Every send and every receive does to the inboxes what `SendSpec` and
`RecvSpec` say (`send_spec`, `recv_spec`), in any order, whoever is
running and whatever the guests do to their memory in between: so along a
run what was accepted for a VM is what it has taken followed by what waits
for it (`ipc_refines_fifo`).
-/

namespace HypervisorBase

namespace Ipc

/-! ## Inboxes -/

/-- A message: who sent it, and its bytes. -/
abbrev Msg := U32 × List U8

/-- What a slot holds. -/
def msgOf (m : IpcMsg) : Msg := (m.srcVmId, (List.range m.len.toNat).map m.data)

/-- The messages of a queue, oldest first. -/
def messages (q : IpcQueue) : List Msg :=
  (Ring.contents ipcDepth q.slots q.head.toNat q.count.toNat).map msgOf

/-- **The messages that wait for a VM**, oldest first. -/
def inbox (h : Hyp) (id : U32) : List Msg := messages (h.queues (id - 1))

/-- A queue in order: its ring is, and no message is too long. -/
structure QueueOk (q : IpcQueue) : Prop where
  ring : Ring.InOrder ipcDepth q.head.toNat q.tail.toNat q.count.toNat
  short : ∀ m ∈ Ring.contents ipcDepth q.slots q.head.toNat q.count.toNat, m.len.toNat ≤ ipcMsgMax

@[simp] theorem length_messages (q : IpcQueue) : (messages q).length = q.count.toNat := by
  rw [messages, List.length_map, Ring.length_contents]

variable {x : U32}

theorem toNat_next (h : x.toNat < ipcDepth) : ((x + 1) % 8).toNat = (x.toNat + 1) % 8 := by
  have hx : x.toNat < 8 := h
  have hadd : (x + 1).toNat = x.toNat + 1 := by
    rw [BitVec.toNat_add, show (1 : U32).toNat = 1 from rfl]
    omega
  rw [BitVec.toNat_umod, hadd]
  rfl

theorem toNat_succ (h : x.toNat < ipcDepth) : (x + 1).toNat = x.toNat + 1 := by
  have hx : x.toNat < 8 := h
  rw [BitVec.toNat_add, show (1 : U32).toNat = 1 from rfl]
  omega

theorem toNat_pred (h : 0 < x.toNat) : (x - 1).toNat = x.toNat - 1 :=
  BitVec.toNat_sub_of_le (by rw [BitVec.le_def]; exact h)

/-- The message that `ipc_send` puts into a slot. -/
theorem msgOf_fillMsg (m : IpcMsg) (phys : U64 → U8) (src : U64) {len : U64} (srcVmId : U32)
    (hlen : len.toNat ≤ ipcMsgMax) :
    msgOf (fillMsg m phys src len srcVmId) = (srcVmId, bytesAt phys src len.toNat) := by
  have hword : (len.setWidth 32).toNat = len.toNat := by
    rw [ipcMsgMax] at hlen
    rw [BitVec.toNat_setWidth]
    omega
  rw [msgOf, fillMsg, bytesAt]
  dsimp only
  rw [hword]
  congr 1
  refine List.map_congr_left fun i hi => ?_
  rw [if_pos (List.mem_range.mp hi)]

/-- The queue after a message was put at its tail. -/
def enqueue (q : IpcQueue) (m : IpcMsg) : IpcQueue :=
  { q with slots := Function.update q.slots q.tail.toNat m, tail := (q.tail + 1) % 8,
           count := q.count + 1 }

/-- The queue after its head was advanced. -/
def dequeue (q : IpcQueue) : IpcQueue := { q with head := (q.head + 1) % 8, count := q.count - 1 }

variable {q : IpcQueue}

/-- **Sending** appends to the queue of messages. -/
theorem enqueue_spec (h : QueueOk q) (hroom : q.count.toNat < ipcDepth) {m : IpcMsg}
    (hm : m.len.toNat ≤ ipcMsgMax) :
    QueueOk (enqueue q m) ∧ messages (enqueue q m) = messages q ++ [msgOf m] := by
  obtain ⟨hring, hcontents⟩ := h.ring.push hroom q.slots m
  have htail := toNat_next h.ring.tail_lt
  have hcount := toNat_succ hroom
  have hcontents' : Ring.contents ipcDepth (enqueue q m).slots (enqueue q m).head.toNat
      (enqueue q m).count.toNat = Ring.contents ipcDepth q.slots q.head.toNat q.count.toNat ++ [m] := by
    rw [← hcontents, ← hcount]
    rfl
  refine ⟨⟨?_, ?_⟩, ?_⟩
  · have hring' : Ring.InOrder ipcDepth q.head.toNat ((q.tail + 1) % 8).toNat
        (q.count + 1).toNat := by
      rw [htail, hcount]
      exact hring
    exact hring'
  · rw [hcontents']
    intro x hx
    rcases List.mem_append.mp hx with hx | hx
    · exact h.short x hx
    · rw [List.mem_singleton.mp hx]
      exact hm
  · rw [messages, hcontents', List.map_append, List.map_singleton]
    rfl

/-- **Receiving** takes the oldest message. -/
theorem dequeue_spec (h : QueueOk q) (hpos : 0 < q.count.toNat) :
    QueueOk (dequeue q) ∧ messages q = msgOf (q.slots q.head.toNat) :: messages (dequeue q) := by
  obtain ⟨hring, hcontents⟩ := h.ring.pop hpos q.slots
  have hhead := toNat_next h.ring.head_lt
  have hcount := toNat_pred hpos
  have hrest : Ring.contents ipcDepth (dequeue q).slots (dequeue q).head.toNat
      (dequeue q).count.toNat =
      Ring.contents ipcDepth q.slots ((q.head.toNat + 1) % ipcDepth) (q.count.toNat - 1) := by
    rw [← hcount]
    exact congrArg (fun i => Ring.contents ipcDepth q.slots i (q.count - 1).toNat) hhead
  refine ⟨⟨?_, ?_⟩, ?_⟩
  · have hring' : Ring.InOrder ipcDepth ((q.head + 1) % 8).toNat q.tail.toNat
        (q.count - 1).toNat := by
      rw [hhead, hcount]
      exact hring
    exact hring'
  · rw [hrest]
    intro x hx
    refine h.short x ?_
    rw [hcontents]
    exact List.mem_cons_of_mem _ hx
  · rw [messages, messages, hrest, hcontents, List.map_cons]

/-! ## The two calls -/

/-- Nothing but the inboxes changes, and of these only that of `id`. -/
structure OnlyInbox (h h' : Hyp) (id : U32) : Prop where
  others : ∀ id', id' ≠ id → inbox h' id' = inbox h id'
  rest : { h' with queues := h.queues } = h

/-- **What a send does**: it appends the sender and the bytes read, while
there is room. -/
def SendSpec (h : Hyp) (dst : U32) (buf len : U64) (e : Err) (h' : Hyp) : Prop :=
  if dst.toNat = 0 ∨ maxVms < dst.toNat ∨ len.toNat = 0 ∨ ipcMsgMax < len.toNat then
    e = .inval ∧ h' = h
  else if (inbox h dst).length < ipcDepth then
    e = .ok ∧ inbox h' dst = inbox h dst ++ [(currentVmId h,
        bytesAt h.phys (buf + paOffset (vmAt h (currentVmId h))) len.toNat)] ∧
      OnlyInbox h h' dst
  else e = .busy ∧ h' = h

/-- **What a receive does**: it takes the caller's oldest message, and
delivers as much of it as the caller has room for. -/
def RecvSpec (h : Hyp) (buf maxLen : U64) (e : Err) (out : U64) (h' : Hyp) : Prop :=
  match currentVm h with
  | none => e = .inval ∧ out = 0 ∧ h' = h
  | some vm =>
    match inbox h vm.id with
    | [] => e = .ok ∧ out = 0 ∧ h' = h
    | m :: waiting =>
      e = .ok ∧ out.toNat = min m.2.length maxLen.toNat ∧ inbox h' vm.id = waiting ∧
        bytesAt h'.phys (buf + paOffset (some vm)) out.toNat = m.2.take out.toNat ∧
        (∀ a, out.toNat ≤ (a - (buf + paOffset (some vm))).toNat → h'.phys a = h.phys a) ∧
        OnlyInbox h { h' with phys := h.phys } vm.id

/-- All queues are in order. -/
def QueuesOk (h : Hyp) : Prop := ∀ i, QueueOk (h.queues i)

theorem onlyInbox_update (h : Hyp) (id : U32) (q : IpcQueue) :
    OnlyInbox h { h with queues := Function.update h.queues (id - 1) q } id := by
  refine ⟨?_, rfl⟩
  intro id' hne
  have hidx : id' - 1 ≠ id - 1 := by
    intro heq
    exact hne (by bv_omega)
  rw [inbox, inbox]
  dsimp only
  rw [Function.update_of_ne hidx]

variable {h : Hyp}

theorem queuesOk_update (hok : QueuesOk h) (id : U32) (hq : QueueOk q) :
    ∀ i, QueueOk (Function.update h.queues id q i) := by
  intro i
  by_cases hi : i = id
  · rw [hi, Function.update_self]
    exact hq
  · rw [Function.update_of_ne hi]
    exact hok i

variable {h' : Hyp}

theorem inbox_of_update {id : U32}
    (hq : h'.queues = Function.update h.queues (id - 1) q) : inbox h' id = messages q := by
  rw [inbox, hq, Function.update_self]

/-- **A send keeps the queues in order and does what it should.** The
cases are its exits. -/
theorem send_spec (hok : QueuesOk h) (dst : U32) (buf len : U64) :
    QueuesOk (ipcSend h dst buf len).2.1 ∧
      SendSpec h dst buf len (ipcSend h dst buf len).1 (ipcSend h dst buf len).2.1 := by
  by_cases hdst : dst.toNat = 0 ∨ maxVms < dst.toNat
  · have hsend : ipcSend h dst buf len = (.inval, h, []) := if_pos hdst
    rw [hsend]
    exact ⟨hok, by rw [SendSpec, if_pos (by tauto)]; exact ⟨rfl, rfl⟩⟩
  by_cases hlen : len.toNat = 0 ∨ ipcMsgMax < len.toNat
  · have hsend : ipcSend h dst buf len = (.inval, h, []) := by
      rw [ipcSend, if_neg hdst, if_pos hlen]
    rw [hsend]
    exact ⟨hok, by rw [SendSpec, if_pos (by tauto)]; exact ⟨rfl, rfl⟩⟩
  have hargs : ¬(dst.toNat = 0 ∨ maxVms < dst.toNat ∨ len.toNat = 0 ∨ ipcMsgMax < len.toNat) := by
    tauto
  have hlength : (inbox h dst).length = (h.queues (dst - 1)).count.toNat := length_messages _
  by_cases hfull : ipcDepth ≤ (h.queues (dst - 1)).count.toNat
  · have hsend : ipcSend h dst buf len = (.busy, h, []) := by
      rw [ipcSend, if_neg hdst, if_neg hlen, if_pos hfull]
    rw [hsend]
    refine ⟨hok, ?_⟩
    rw [SendSpec, if_neg hargs, if_neg (by omega)]
    exact ⟨rfl, rfl⟩
  · -- the message goes into the slot at the tail
    obtain ⟨q, hq⟩ : ∃ q, q = h.queues (dst - 1) := ⟨_, rfl⟩
    obtain ⟨src, hsrc⟩ : ∃ src, src = buf + paOffset (vmAt h (currentVmId h)) := ⟨_, rfl⟩
    obtain ⟨m, hm⟩ : ∃ m, m = fillMsg (q.slots q.tail.toNat) h.phys src len (currentVmId h) :=
      ⟨_, rfl⟩
    have hmsg : msgOf m = (currentVmId h, bytesAt h.phys src len.toNat) := by
      rw [hm]
      exact msgOf_fillMsg _ _ _ _ (by omega)
    have hshort : m.len.toNat ≤ ipcMsgMax := by
      have hle : len.toNat ≤ ipcMsgMax := by omega
      rw [hm, fillMsg]
      dsimp only
      rw [BitVec.toNat_setWidth]
      exact Nat.le_trans (Nat.mod_le _ _) hle
    have hsend : ipcSend h dst buf len =
        (.ok, { h with queues := Function.update h.queues (dst - 1) (enqueue q m) },
          span src len.toNat) := by
      rw [ipcSend, if_neg hdst, if_neg hlen, if_neg hfull, hm, hq, hsrc]
      rfl
    have hroom : q.count.toNat < ipcDepth := by
      rw [hq]
      omega
    obtain ⟨hqok, hqmsg⟩ := enqueue_spec (hq ▸ hok (dst - 1)) hroom hshort
    rw [hsend]
    refine ⟨queuesOk_update hok (dst - 1) hqok, ?_⟩
    rw [SendSpec, if_neg hargs, if_pos (by omega)]
    refine ⟨rfl, ?_, onlyInbox_update h dst _⟩
    rw [inbox_of_update rfl, hqmsg, hmsg, hsrc, hq]
    rfl

theorem toNat_copyLen (m : IpcMsg) (maxLen : U64) :
    (copyLen m maxLen).toNat = min m.len.toNat maxLen.toNat := by
  have hm := m.len.isLt
  have hword : (m.len.setWidth 64).toNat = m.len.toNat := by
    rw [BitVec.toNat_setWidth]
    omega
  rw [copyLen]
  split
  · rename_i hlt
    rw [BitVec.lt_def, hword] at hlt
    omega
  · rename_i hge
    rw [BitVec.lt_def, hword] at hge
    omega

/-- The bytes that arrive at the receiver's address. -/
theorem bytesAt_copyOut (phys : U64 → U8) (dst : U64) (m : IpcMsg) {n : ℕ} (hn : n ≤ m.len.toNat) :
    bytesAt (copyOut phys dst m.data n) dst n = (msgOf m).2.take n := by
  have hm := m.len.isLt
  rw [msgOf, ← List.map_take, List.take_range, Nat.min_eq_left hn, bytesAt]
  refine List.map_congr_left fun i hi => ?_
  have hi := List.mem_range.mp hi
  have hoff : (dst + BitVec.ofNat 64 i - dst).toNat = i := by
    rw [BitVec.add_comm, BitVec.add_sub_cancel, BitVec.toNat_ofNat]
    omega
  rw [copyOut, hoff, if_pos hi]

theorem ipcRecv_of_empty {vm : Vm} (hvm : currentVm h = some vm)
    (hempty : (h.queues (vm.id - 1)).count = 0) (buf maxLen : U64) :
    ipcRecv h buf maxLen = (.ok, 0, h, []) := by
  rw [ipcRecv, hvm]
  exact if_pos hempty

/-- The message at the head is copied out and dropped. -/
theorem ipcRecv_of_waiting {vm : Vm} {m : IpcMsg}
    (hvm : currentVm h = some vm) (hq : q = h.queues (vm.id - 1)) (hm : m = q.slots q.head.toNat)
    (hwaiting : q.count ≠ 0) (buf maxLen : U64) :
    ipcRecv h buf maxLen = (.ok, copyLen m maxLen,
      { h with
        phys := copyOut h.phys (buf + paOffset (some vm)) m.data (copyLen m maxLen).toNat
        queues := Function.update h.queues (vm.id - 1) (dequeue q) },
      span (buf + paOffset (some vm)) (copyLen m maxLen).toNat) := by
  rw [ipcRecv, hvm]
  dsimp only
  rw [← hq, if_neg hwaiting, hm]
  rfl

/-- **A receive keeps the queues in order and does what it should.** -/
theorem recv_spec (hok : QueuesOk h) (buf maxLen : U64) :
    QueuesOk (ipcRecv h buf maxLen).2.2.1 ∧
      RecvSpec h buf maxLen (ipcRecv h buf maxLen).1 (ipcRecv h buf maxLen).2.1
        (ipcRecv h buf maxLen).2.2.1 := by
  cases hvm : currentVm h with
  | none =>
    have hrecv : ipcRecv h buf maxLen = (.inval, 0, h, []) := by rw [ipcRecv, hvm]
    rw [hrecv]
    exact ⟨hok, by rw [RecvSpec, hvm]; exact ⟨rfl, rfl, rfl⟩⟩
  | some vm =>
    obtain ⟨q, hq⟩ : ∃ q, q = h.queues (vm.id - 1) := ⟨_, rfl⟩
    have hbox : inbox h vm.id = messages q := by rw [inbox, hq]
    by_cases hempty : q.count = 0
    · have hrecv := ipcRecv_of_empty hvm (hq ▸ hempty) buf maxLen
      have hnil : messages q = [] := by
        rw [← List.length_eq_zero_iff, length_messages, hempty]
        rfl
      rw [hrecv]
      refine ⟨hok, ?_⟩
      rw [RecvSpec, hvm]
      dsimp only
      rw [hbox, hnil]
      exact ⟨rfl, rfl, rfl⟩
    · have hpos : 0 < q.count.toNat := by
        rw [Nat.pos_iff_ne_zero]
        intro hzero
        exact hempty (BitVec.eq_of_toNat_eq hzero)
      obtain ⟨hqok, hqmsg⟩ := dequeue_spec (hq ▸ hok (vm.id - 1)) hpos
      obtain ⟨m, hm⟩ : ∃ m, m = q.slots q.head.toNat := ⟨_, rfl⟩
      obtain ⟨dst, hdst⟩ : ∃ dst, dst = buf + paOffset (some vm) := ⟨_, rfl⟩
      obtain ⟨n, hn⟩ : ∃ n, n = copyLen m maxLen := ⟨_, rfl⟩
      have hnat : n.toNat = min m.len.toNat maxLen.toNat := by rw [hn, toNat_copyLen]
      have hlength : (msgOf m).2.length = m.len.toNat := by
        rw [msgOf, List.length_map, List.length_range]
      rw [ipcRecv_of_waiting hvm hq hm hempty, ← hdst, ← hn]
      refine ⟨queuesOk_update hok (vm.id - 1) hqok, ?_⟩
      rw [RecvSpec, hvm]
      dsimp only
      rw [hbox, hqmsg, ← hm, ← hdst]
      refine ⟨rfl, by rw [hnat, hlength], inbox_of_update rfl,
        bytesAt_copyOut _ _ _ (by omega), ?_, onlyInbox_update h vm.id _⟩
      intro a ha
      exact if_neg (by omega)

/-! ## Runs -/

/-- What may happen: a call of either function by whatever VM is current,
or anything else that leaves the queues alone. -/
inductive IpcEvent
  | send (dst : U32) (buf len : U64)
  | recv (buf maxLen : U64)
  | other (g : Hyp)

def ipcStep (h : Hyp) : IpcEvent → Option Hyp
  | .send dst buf len => some (ipcSend h dst buf len).2.1
  | .recv buf maxLen => some (ipcRecv h buf maxLen).2.2.1
  | .other g => some { g with queues := h.queues }

/-- An event that does what it should. -/
def Behaves (h : Hyp) : IpcEvent → Prop
  | .send dst buf len =>
    SendSpec h dst buf len (ipcSend h dst buf len).1 (ipcSend h dst buf len).2.1
  | .recv buf maxLen =>
    RecvSpec h buf maxLen (ipcRecv h buf maxLen).1 (ipcRecv h buf maxLen).2.1
      (ipcRecv h buf maxLen).2.2.1
  | .other _ => True

/-- The messages for a VM that an event puts into its queue. -/
def accepted (h : Hyp) (id : U32) : IpcEvent → List Msg
  | .send dst buf len =>
    if dst = id ∧ (ipcSend h dst buf len).1 = .ok then
      [(currentVmId h, bytesAt h.phys (buf + paOffset (vmAt h (currentVmId h))) len.toNat)]
    else []
  | _ => []

/-- The messages of a VM that an event hands out: a receive by that VM
takes its oldest. -/
def taken (h : Hyp) (id : U32) : IpcEvent → List Msg
  | .recv _ _ => if (currentVm h).map Vm.id = some id then (inbox h id).take 1 else []
  | _ => []

/-- What the events of a run yield, one after the other. -/
def along (f : Hyp → IpcEvent → List Msg) : Hyp → List IpcEvent → List Msg
  | _, [] => []
  | h, e :: es => f h e ++ ((ipcStep h e).map fun h' => along f h' es).getD []

theorem queuesOk_init (h : Hyp) : QueuesOk (ipcInit h) := by
  intro i
  refine ⟨Ring.inOrder_empty (by decide), ?_⟩
  intro m hm
  cases hm

/-- Every call keeps the queues well formed. -/
theorem queuesOk_step {e : IpcEvent} (hok : QueuesOk h) (hstep : ipcStep h e = some h') :
    QueuesOk h' := by
  cases e with
  | send dst buf len =>
    cases hstep
    exact (send_spec hok dst buf len).1
  | recv buf maxLen =>
    cases hstep
    exact (recv_spec hok buf maxLen).1
  | other g =>
    cases hstep
    exact hok

theorem behaves_of_queuesOk (hok : QueuesOk h) (e : IpcEvent) : Behaves h e := by
  cases e with
  | send dst buf len => exact (send_spec hok dst buf len).2
  | recv buf maxLen => exact (recv_spec hok buf maxLen).2
  | other g => trivial

/-- **One event neither loses nor makes up a message**: what waits, then
what is accepted, is what is taken, then what waits afterwards. -/
theorem inbox_step {e : IpcEvent} (hok : QueuesOk h) (hstep : ipcStep h e = some h')
    (id : U32) : inbox h id ++ accepted h id e = taken h id e ++ inbox h' id := by
  have hbehaves := behaves_of_queuesOk hok e
  cases e with
  | send dst buf len =>
    cases hstep
    rw [Behaves, SendSpec] at hbehaves
    dsimp only [taken, accepted]
    rw [List.nil_append]
    split at hbehaves
    · obtain ⟨herr, hsame⟩ := hbehaves
      rw [herr, hsame, if_neg (by simp), List.append_nil]
    · split at hbehaves
      · obtain ⟨herr, hbox, honly⟩ := hbehaves
        by_cases hdst : dst = id
        · rw [if_pos ⟨hdst, herr⟩, ← hdst, hbox]
        · rw [if_neg fun hboth => hdst hboth.1, List.append_nil,
            honly.others id fun heq => hdst heq.symm]
      · obtain ⟨herr, hsame⟩ := hbehaves
        rw [herr, hsame, if_neg (by simp), List.append_nil]
  | recv buf maxLen =>
    cases hstep
    rw [Behaves, RecvSpec] at hbehaves
    dsimp only [taken, accepted]
    rw [List.append_nil]
    cases hvm : currentVm h with
    | none =>
      rw [hvm] at hbehaves
      rw [hbehaves.2.2, Option.map_none, if_neg (by simp), List.nil_append]
    | some vm =>
      rw [hvm] at hbehaves
      dsimp only at hbehaves
      rw [Option.map_some]
      split at hbehaves
      · rename_i hnil
        rw [hbehaves.2.2]
        by_cases hid : vm.id = id
        · rw [← hid, hnil]
          simp
        · rw [if_neg (by simpa using hid), List.nil_append]
      · rename_i m waiting hcons
        obtain ⟨_, _, hbox, _, _, honly⟩ := hbehaves
        by_cases hid : vm.id = id
        · rw [if_pos (by rw [hid]), ← hid, hcons, hbox]
          rfl
        · rw [if_neg (by simpa using hid), List.nil_append]
          exact (honly.others id fun heq => hid heq.symm).symm
  | other g =>
    cases hstep
    dsimp only [taken, accepted]
    rw [List.append_nil, List.nil_append]
    rfl

/-- **And so a run**, by induction on its events. -/
theorem inbox_run {es : List IpcEvent} (hok : QueuesOk h)
    (hrun : exec ipcStep h es = some h') (id : U32) :
    inbox h id ++ along (fun g e => accepted g id e) h es =
      along (fun g e => taken g id e) h es ++ inbox h' id := by
  induction es generalizing h with
  | nil =>
    cases hrun
    rw [along, along, List.append_nil, List.nil_append]
  | cons e es ih =>
    obtain ⟨g, hstep, hrest⟩ := Option.bind_eq_some_iff.mp hrun
    have hone := inbox_step hok hstep id
    have hmore := ih (queuesOk_step hok hstep) hrest
    simp only [along, hstep, Option.map_some, Option.getD_some]
    rw [← List.append_assoc, hone, List.append_assoc, hmore, List.append_assoc]

/-- **The queues are bounded FIFOs**, in every interleaving of calls from
`ipc_init` on: rings stay in order, every call does to the inboxes what it
should, and for every VM what was accepted is what it took followed by
what still waits, in the same order. -/
theorem ipc_refines_fifo (h : Hyp) (es : List IpcEvent) :
    Throughout ipcStep QueuesOk (ipcInit h) es ∧ Guarded ipcStep Behaves (ipcInit h) es ∧
      ∀ h', exec ipcStep (ipcInit h) es = some h' → ∀ id,
        along (fun g e => accepted g id e) (ipcInit h) es =
          along (fun g e => taken g id e) (ipcInit h) es ++ inbox h' id := by
  have hsafe : Throughout ipcStep QueuesOk (ipcInit h) es ∧
      Guarded ipcStep Behaves (ipcInit h) es := by
    refine (safe_iff_guarded (fun _ hinv => hinv) (fun _ _ _ hinv _ hstep => queuesOk_step hinv hstep)
      (fun _ e hinv _ => behaves_of_queuesOk hinv e) (fun _ _ _ hnot => absurd trivial hnot)
      (queuesOk_init h)).mpr ?_
    exact guarded_of_forall (fun _ _ => trivial) _ _
  refine ⟨hsafe.1, hsafe.2, ?_⟩
  intro h' hrun id
  have hconserved := inbox_run (queuesOk_init h) hrun id
  rwa [show inbox (ipcInit h) id = [] from rfl, List.nil_append] at hconserved

end Ipc

end HypervisorBase
