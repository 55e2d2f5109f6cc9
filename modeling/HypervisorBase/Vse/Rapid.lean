import Mathlib.Data.List.DropRight
import HypervisorBase.Vse.Clock
import HypervisorBase.Vse.Rescue
/-!
# Rapid escalation

`ids_notify_fault` gives a RAPID alert if it finds the VM blocked less than
two seconds after `first_fault_us`. By then the fault has been reported,
and a quarantine it brought about has been handed to failover. Beside the
state stands here what happens to a VM as a list of marks: its faults with
their times, the alerts, and when it becomes trusted.

`rapid_alerts_iff` compares the alerts with these marks. A VM that failover
can restart is not blocked any more and gives none; the clock starts at
the first fault since the last alert, and not since the VM was last
trusted; and every further fault of a VM that stays blocked gives one more.
-/

namespace HypervisorBase

namespace Vse

/-! ## Events -/

/-- A fault as the hooks pass it on. -/
structure Fault where
  vmId : U32
  faultType : U32
  detail : U64

/-- What happens to the system: a fault one of the hooks is called for, or
another operation. Intrusion detection hears of faults through the hooks
only. -/
inductive Event
  | memFault (vmId : U32) (ipa : U64) (isWrite : Bool)
  | dmaViolation (vmId : U32) (faultPa : U64)
  | other (op : TrustOp) (hop : ∀ v t d, op ≠ .notifyFault v t d)

def Event.fault : Event → Option Fault
  | .memFault vmId ipa isWrite => some ⟨vmId, trustFaultMem, ipa ||| if isWrite then 1 <<< 63 else 0⟩
  | .dmaViolation vmId faultPa => some ⟨vmId, trustFaultDma, faultPa⟩
  | .other _ _ => none

/-- The hook counts the fault. -/
def Event.tally (h : Hyp) : Event → Hyp
  | .memFault .. => { h with fdetect := { h.fdetect with
      memFaults := h.fdetect.memFaults + 1, total := h.fdetect.total + 1 } }
  | .dmaViolation .. => { h with fdetect := { h.fdetect with
      dmaViolations := h.fdetect.dmaViolations + 1, total := h.fdetect.total + 1 } }
  | .other .. => h

theorem onlyVse_tally (h : Hyp) (e : Event) : OnlyVse h (e.tally h) := by
  cases e <;> exact ⟨rfl, rfl⟩

theorem ids_tally (h : Hyp) (e : Event) : (e.tally h).ids = h.ids := by
  cases e <;> rfl

theorem timer_tally (h : Hyp) (e : Event) : (e.tally h).timer = h.timer := by
  cases e <;> rfl

theorem OnWatch.tally {h : Hyp} (hw : OnWatch h) (e : Event) : OnWatch (e.tally h) := by
  obtain ⟨l, hl⟩ := hw.recorded
  refine ⟨hw.standing.of_onlyVse (onlyVse_tally h e), ?_, l, ?_⟩
  · rw [ids_tally]
    exact hw.on
  · rw [Recorded, ids_tally]
    exact hl

section Events

variable [P : PtPool]

def eventStep (h : Hyp) : Event → Option Hyp
  | .memFault vmId ipa isWrite => fdetectMemFault h vmId ipa isWrite
  | .dmaViolation vmId faultPa => fdetectDmaViolation h vmId faultPa
  | .other op _ => trustStep h op

/-- **The VM whose fault is heard, and the state** in which the hook calls
`ids_notify_fault`: the fault has been reported to the trust engine. -/
def heard (h : Hyp) (e : Event) : Option (Fin maxVms × Hyp) :=
  if h.fdetect.initialized then e.fault.bind fun f => (idx f.vmId).bind fun ix =>
    (trustReportFault (e.tally h) f.vmId f.faultType f.detail).map fun r => (ix, r.2)
  else none

variable {h h' g m : Hyp} {e : Event} {f : Fault} {ix : Fin maxVms}

/-- A fault event is a report, then a notification. -/
theorem eventStep_fault (hf : e.fault = some f) : eventStep h e =
    if h.fdetect.initialized then reportGuest (e.tally h) f.vmId f.faultType f.detail
    else some h := by
  have hhook : ∀ {a b : Option Hyp}, (if !h.fdetect.initialized then a else b) =
      if h.fdetect.initialized then b else a := by
    intro a b
    cases h.fdetect.initialized <;> rfl
  cases e with
  | memFault vmId ipa isWrite =>
    obtain rfl := Option.some.inj hf
    exact hhook
  | dmaViolation vmId faultPa =>
    obtain rfl := Option.some.inj hf
    exact hhook
  | other op hop => cases hf

/-- **A fault that is heard**: reported, and then notified. -/
structure Voiced (ix : Fin maxVms) (f : Fault) (h : Hyp) (e : Event) (g h' : Hyp) : Prop where
  fault : e.fault = some f
  vm : f.vmId = vmIdOf ix
  heard : heard h e = some (ix, g)
  report : trustStep (e.tally h) (.reportFault f.vmId f.faultType f.detail) = some g
  notify : trustStep g (.notifyFault f.vmId f.faultType f.detail) = some h'

/-- **An event is a fault that is heard**, or it is another operation, or
nothing but a count. -/
theorem eventStep_cases (hrun : eventStep h e = some h') :
    (∃ ix f g, Voiced ix f h e g h') ∨ heard h e = none ∧
      ((∃ op hop, e = .other op hop ∧ trustStep h op = some h') ∨ h' = h ∨ h' = e.tally h) := by
  cases hf : e.fault with
  | none =>
    refine .inr ⟨?_, .inl ?_⟩
    · rw [heard, hf]
      exact ite_self _
    · cases e with
      | other op hop => exact ⟨op, hop, rfl, hrun⟩
      | memFault => cases hf
      | dmaViolation => cases hf
  | some f =>
    rw [eventStep_fault hf] at hrun
    by_cases hon : h.fdetect.initialized = true
    swap
    · rw [if_neg hon] at hrun
      exact .inr ⟨if_neg hon, .inr (.inl (Option.some.inj hrun).symm)⟩
    rw [if_pos hon] at hrun
    unfold reportGuest at hrun
    cases hix : idx f.vmId with
    | none =>
      rw [hix] at hrun
      refine .inr ⟨?_, .inr (.inr (Option.some.inj hrun).symm)⟩
      rw [heard, if_pos hon, hf, Option.bind_some, hix, Option.bind_none]
    | some ix =>
      rw [hix] at hrun
      obtain ⟨⟨er, g⟩, hreport, hnotify⟩ := Option.bind_eq_some_iff.mp hrun
      refine .inl ⟨ix, f, g, hf, idx_eq_some hix, ?_, ?_, hnotify⟩
      · rw [heard, if_pos hon, hf, Option.bind_some, hix, Option.bind_some, hreport]
        rfl
      · exact Option.map_eq_some_iff.mpr ⟨_, hreport, rfl⟩

/-- **Every event keeps the watch.** -/
theorem OnWatch.event (hw : OnWatch h) (hrun : eventStep h e = some h') : OnWatch h' := by
  rcases eventStep_cases hrun with ⟨ix, f, g, hv⟩ | ⟨-, ⟨op, hop, rfl, hop'⟩ | rfl | rfl⟩
  · exact ((hw.tally e).step hv.report).step hv.notify
  · exact hw.step hop'
  · exact hw
  · exact hw.tally e

/-- The clock has been read some number of times. -/
theorem eventStep_timer (hs : Standing h) (hrun : eventStep h e = some h') :
    ∃ n, ∀ k, h'.timer k = h.timer (n + k) := by
  rcases eventStep_cases hrun with ⟨ix, f, g, hv⟩ | ⟨-, ⟨op, hop, rfl, hop'⟩ | rfl | rfl⟩
  · have hs' := hs.of_onlyVse (onlyVse_tally h e)
    obtain ⟨n, hn, -⟩ := trustStep_stamps hs' hv.report
    obtain ⟨n', hn', -⟩ := trustStep_stamps (trustStep_standing hs' hv.report) hv.notify
    exact ⟨n + n', fun k => by rw [hn', hn, timer_tally, Nat.add_assoc]⟩
  · obtain ⟨n, hn, -⟩ := trustStep_stamps hs hop'
    exact ⟨n, hn⟩
  · exact ⟨0, fun k => by rw [Nat.zero_add]⟩
  · exact ⟨0, fun k => by rw [timer_tally, Nat.zero_add]⟩

end Events

/-! ## Marks -/

/-- What is written down about a VM. -/
inductive Mark
  | fault (time : U64)
  | alert
  | trusted
  deriving DecidableEq, Repr

def Mark.time? : Mark → Option U64
  | .fault time => some time
  | .alert | .trusted => none

/-- The times of the faults. -/
def timesOf (ms : List Mark) : List U64 := ms.filterMap Mark.time?

/-- **The faults since the last mark of a kind**, or since the start. -/
def faultsSince (stop : Mark) (ms : List Mark) : List U64 := timesOf (ms.rtakeWhile (· ≠ stop))

/-- The time from which the detector counts: that of the first fault, but
for those at time zero, which the monitor takes for none. -/
def clockStart (ts : List U64) : U64 := (ts.find? (· ≠ 0)).getD 0

section Marks

variable {ms ms' : List Mark} {mark stop : Mark} {ts : List U64} {t : U64}

theorem timesOf_append (ms ms' : List Mark) : timesOf (ms ++ ms') = timesOf ms ++ timesOf ms' :=
  List.filterMap_append

theorem faultsSince_concat (stop mark : Mark) (ms : List Mark) : faultsSince stop (ms ++ [mark]) =
    if mark = stop then [] else faultsSince stop ms ++ timesOf [mark] := by
  unfold faultsSince
  rw [List.rtakeWhile_concat]
  by_cases hstop : mark = stop
  · rw [if_neg (by simp [hstop]), if_pos hstop]
    rfl
  · rw [if_pos (by simp [hstop]), if_neg hstop, timesOf_append]

theorem faultsSince_suffix (stop : Mark) (ms : List Mark) : faultsSince stop ms <:+ timesOf ms :=
  (List.rtakeWhile_suffix _ ms).filterMap _

theorem clockStart_concat (ts : List U64) (t : U64) :
    clockStart (ts ++ [t]) = if clockStart ts = 0 then t else clockStart ts := by
  unfold clockStart
  rw [List.find?_append]
  cases hfind : ts.find? (· ≠ 0) with
  | none =>
    rw [Option.none_or, Option.getD_none, if_pos rfl]
    by_cases ht : t = 0
    · rw [ht]
      rfl
    · rw [List.find?_singleton, if_pos (decide_eq_true ht)]
      rfl
  | some x =>
    have hx : x ≠ 0 := by simpa using List.find?_some hfind
    rw [Option.some_or, Option.getD_some, if_neg hx]

theorem clockStart_ne_zero (ht : t ≠ 0) (ts : List U64) : clockStart (ts ++ [t]) ≠ 0 := by
  rw [clockStart_concat]
  split
  · exact ht
  · assumption

/-- With a fault at a time that is not zero, the detector counts from one
of the faults. -/
theorem clockStart_mem (ht : t ≠ 0) (ts : List U64) : clockStart (ts ++ [t]) ∈ ts ++ [t] := by
  unfold clockStart
  cases hfind : (ts ++ [t]).find? (· ≠ 0) with
  | none =>
    have hall := List.find?_eq_none.mp hfind t (by simp)
    exact absurd ht (by simpa using hall)
  | some x => exact List.mem_of_find?_eq_some hfind

end Marks

/-! ## Watching -/

/-- The state, with what is written down about every VM. -/
structure Watch where
  hyp : Hyp
  marks : Fin maxVms → List Mark

def Watch.start (h : Hyp) : Watch := ⟨h, fun _ => []⟩

/-- The VM becomes trusted. -/
def promotion (ix : Fin maxVms) (h h' : Hyp) : List Mark :=
  if (h.trust.vm ix).level ≠ .trusted ∧ (h'.trust.vm ix).level = .trusted then [.trusted] else []

section Watching

variable [P : PtPool]

/-- A fault of the VM is heard, at the time `ids_notify_fault` reads. -/
def heardOf (ix : Fin maxVms) (h : Hyp) (e : Event) : List Mark :=
  match heard h e with
  | some (jx, g) => if jx = ix then [.fault (g.timer 0)] else []
  | none => []

/-- The marks of an event, with the RAPID alerts that are in the log. -/
def marksOf (ix : Fin maxVms) (h : Hyp) (e : Event) (h' : Hyp) : List Mark :=
  heardOf ix h e ++ List.replicate (alertsOf .rapid (vmIdOf ix) (appended h h')) .alert ++
    promotion ix h h'

def watch (s : Watch) (e : Event) : Option Watch :=
  (eventStep s.hyp e).map fun h' => ⟨h', fun ix => s.marks ix ++ marksOf ix s.hyp e h'⟩

variable {s s' : Watch} {e : Event} {ix : Fin maxVms} {h h' g : Hyp} {f : Fault}

theorem watch_eq (hstep : watch s e = some s') : eventStep s.hyp e = some s'.hyp ∧
    ∀ ix, s'.marks ix = s.marks ix ++ marksOf ix s.hyp e s'.hyp := by
  obtain ⟨h', hrun, rfl⟩ := Option.map_eq_some_iff.mp hstep
  exact ⟨hrun, fun _ => rfl⟩

omit P in
theorem appended_congr (hids : g.ids = h.ids) : appended g h' = appended h h' := by
  rw [appended, appended, hids]

omit P in
theorem timesOf_promotion (ix : Fin maxVms) (h h' : Hyp) : timesOf (promotion ix h h') = [] := by
  unfold promotion
  split <;> rfl

omit P in
theorem faultsSince_promotion (ms : List Mark) (ix : Fin maxVms) (h h' : Hyp) :
    faultsSince .alert (ms ++ promotion ix h h') = faultsSince .alert ms := by
  unfold promotion
  split
  · rw [faultsSince_concat, if_neg (by decide)]
    exact List.append_nil _
  · rw [List.append_nil]

/-- A report leaves the detector alone. -/
theorem Voiced.ids (hv : Voiced ix f h e g h') : g.ids = h.ids := by
  obtain ⟨⟨er, g'⟩, hreport, rfl⟩ := Option.map_eq_some_iff.mp hv.report
  exact (ids_trustReportFault hreport).trans (ids_tally h e)

/-- **What a fault of the VM adds**: the fault, and an alert if one is
due. -/
theorem Voiced.marks (hv : Voiced ix f h e g h') (hw : OnWatch h) (jx : Fin maxVms) :
    marksOf jx h e h' = (if ix = jx then .fault (g.timer 0) ::
      (if RapidDue (vmIdOf ix) ix g h' then [.alert] else []) else []) ++ promotion jx h h' ∧
    (h'.ids.mon jx).firstFaultUs = if ix = jx then
      (if RapidDue (vmIdOf ix) ix g h' then 0 else firstFault g ix)
      else (h.ids.mon jx).firstFaultUs := by
  have hwg : OnWatch g := (hw.tally e).step hv.report
  obtain ⟨l, hl⟩ := hwg.recorded
  have hnoted := idsNotifyFault_noted hwg.on (hv.vm ▸ idx_vmIdOf ix) hv.notify
  rw [hv.vm] at hnoted
  obtain ⟨-, halerts, -⟩ := hnoted.alerts hl (vmIdOf jx)
  rw [appended_congr hv.ids] at halerts
  rw [marksOf, heardOf, hv.heard, halerts]
  dsimp only
  by_cases hjx : ix = jx
  · subst hjx
    rw [if_pos rfl, if_pos rfl, if_pos rfl]
    refine ⟨?_, hnoted.first⟩
    by_cases hdue : RapidDue (vmIdOf ix) ix g h'
    · rw [if_pos ⟨rfl, hdue⟩, if_pos hdue]
      rfl
    · rw [if_neg fun hboth => hdue hboth.2, if_neg hdue]
      rfl
  · have hne : ¬ (vmIdOf ix = vmIdOf jx ∧ RapidDue (vmIdOf ix) ix g h') :=
      fun hboth => hjx (vmIdOf_inj hboth.1)
    rw [if_neg hjx, if_neg hjx, if_neg hjx, if_neg hne, hnoted.others jx fun heq => hjx heq.symm,
      hv.ids]
    exact ⟨rfl, rfl⟩

/-- **What another event adds**: at most that the VM is trusted again. -/
theorem marksOf_unheard (hw : OnWatch h) (hrun : eventStep h e = some h') (hnone : heard h e = none)
    (ix : Fin maxVms) : marksOf ix h e h' = promotion ix h h' ∧
      (h'.ids.mon ix).firstFaultUs = (h.ids.mon ix).firstFaultUs := by
  obtain ⟨l, hl⟩ := hw.recorded
  have hquiet : Unheard h h' := by
    rcases eventStep_cases hrun with ⟨jx, f, g, hv⟩ | ⟨-, ⟨op, hop, rfl, hop'⟩ | rfl | rfl⟩
    · cases hnone.symm.trans hv.heard
    · rcases trustStep_heard hl hw.on hop' with ⟨v, t, d, jx, heq, -⟩ | ⟨-, hquiet⟩
      · exact absurd heq (hop v t d)
      · exact hquiet
    · exact unheard_of_ids rfl
    · exact unheard_of_ids (ids_tally h e)
  refine ⟨?_, hquiet.first ix⟩
  rw [marksOf, heardOf, hnone, hquiet.alerts _ _ (by decide)]
  rfl

/-- **An event as a VM sees it**: a fault of its own is heard, or it has no
mark but perhaps that it is trusted again. -/
theorem watch_cases (hw : OnWatch s.hyp) (hstep : watch s e = some s') (ix : Fin maxVms) :
    (∃ f g, Voiced ix f s.hyp e g s'.hyp ∧
      s'.marks ix = s.marks ix ++ (.fault (g.timer 0) ::
        (if RapidDue (vmIdOf ix) ix g s'.hyp then [.alert] else []) ++ promotion ix s.hyp s'.hyp) ∧
      (s'.hyp.ids.mon ix).firstFaultUs =
        if RapidDue (vmIdOf ix) ix g s'.hyp then 0 else firstFault g ix) ∨
    s'.marks ix = s.marks ix ++ promotion ix s.hyp s'.hyp ∧
      (s'.hyp.ids.mon ix).firstFaultUs = (s.hyp.ids.mon ix).firstFaultUs := by
  obtain ⟨hrun, hmarks⟩ := watch_eq hstep
  rw [hmarks]
  rcases eventStep_cases hrun with ⟨jx, f, g, hv⟩ | ⟨hnone, -⟩
  · obtain ⟨hnew, hfirst⟩ := hv.marks hw ix
    by_cases hjx : jx = ix
    · subst hjx
      rw [if_pos rfl] at hnew hfirst
      exact .inl ⟨f, g, hv, by rw [hnew], hfirst⟩
    · -- the fault of another VM
      rw [if_neg hjx] at hnew hfirst
      exact .inr ⟨by rw [hnew, List.nil_append], hfirst⟩
  · obtain ⟨hnew, hfirst⟩ := marksOf_unheard hw hrun hnone ix
    exact .inr ⟨by rw [hnew], hfirst⟩

/-- **The detector follows the marks of a VM**, on a clock that does not go
back: the faults are past and in order, and the monitor has the start of
the faults since the last alert. -/
structure Attends (ix : Fin maxVms) (s : Watch) : Prop where
  onWatch : OnWatch s.hyp
  clock : ∀ j k, j ≤ k → (s.hyp.timer j).toNat ≤ (s.hyp.timer k).toNat
  sorted : (timesOf (s.marks ix)).Pairwise fun t t' => t.toNat ≤ t'.toNat
  past : ∀ t ∈ timesOf (s.marks ix), t.toNat ≤ (s.hyp.timer 0).toNat
  first : (s.hyp.ids.mon ix).firstFaultUs = clockStart (faultsSince .alert (s.marks ix))

/-- The clock as it is read for a fault, before and after. -/
theorem Attends.between (ha : Attends ix s) (hv : Voiced ix f s.hyp e g h') :
    (s.hyp.timer 0).toNat ≤ (g.timer 0).toNat ∧ (g.timer 0).toNat ≤ (h'.timer 0).toNat := by
  have hs := (ha.onWatch.tally e).standing
  obtain ⟨n, hn, -⟩ := trustStep_stamps hs hv.report
  obtain ⟨n', hn', -⟩ := trustStep_stamps (trustStep_standing hs hv.report) hv.notify
  rw [hn', hn, hn, timer_tally]
  exact ⟨ha.clock _ _ (Nat.zero_le _), ha.clock _ _ (by omega)⟩

/-- What the monitor has as its first fault once this one is taken in. -/
theorem Attends.firstFault (ha : Attends ix s) (hv : Voiced ix f s.hyp e g h') :
    firstFault g ix = clockStart (faultsSince .alert (s.marks ix) ++ [g.timer 0]) := by
  rw [Vse.firstFault, hv.ids, ha.first, clockStart_concat]

omit P in
theorem timesOf_fault (t : U64) (due : Prop) [Decidable due] (ix : Fin maxVms) (h h' : Hyp) :
    timesOf (.fault t :: (if due then [.alert] else []) ++ promotion ix h h') = [t] := by
  rw [timesOf_append, timesOf_promotion]
  split <;> rfl

omit P in
theorem faultsSince_fault (ms : List Mark) (t : U64) (due : Prop) [Decidable due] (ix : Fin maxVms)
    (h h' : Hyp) :
    faultsSince .alert (ms ++ (.fault t :: (if due then [.alert] else []) ++ promotion ix h h')) =
      if due then [] else faultsSince .alert ms ++ [t] := by
  have hfault : faultsSince .alert (ms ++ [.fault t]) = faultsSince .alert ms ++ [t] := by
    rw [faultsSince_concat, if_neg nofun]
    rfl
  rw [← List.append_assoc, faultsSince_promotion]
  by_cases hdue : due
  · rw [if_pos hdue, if_pos hdue, List.append_cons, faultsSince_concat, if_pos rfl]
  · rw [if_neg hdue, if_neg hdue, hfault]

/-- The clock goes on, and does not go back. -/
theorem Attends.later (ha : Attends ix s) (hstep : watch s e = some s') :
    (∀ j k, j ≤ k → (s'.hyp.timer j).toNat ≤ (s'.hyp.timer k).toNat) ∧
      (s.hyp.timer 0).toNat ≤ (s'.hyp.timer 0).toNat := by
  obtain ⟨n, hn⟩ := eventStep_timer ha.onWatch.standing (watch_eq hstep).1
  refine ⟨fun j k hjk => ?_, ?_⟩
  · rw [hn, hn]
    exact ha.clock _ _ (by omega)
  · rw [hn]
    exact ha.clock _ _ (Nat.zero_le _)

/-- **One event.** -/
theorem Attends.step (ha : Attends ix s) (hstep : watch s e = some s') : Attends ix s' := by
  obtain ⟨hclock, hlater⟩ := ha.later hstep
  have hw := ha.onWatch.event (watch_eq hstep).1
  rcases watch_cases ha.onWatch hstep ix with ⟨f, g, hv, hmarks, hfirst⟩ | ⟨hmarks, hfirst⟩
  · obtain ⟨hbefore, hafter⟩ := ha.between hv
    have htimes : timesOf (s'.marks ix) = timesOf (s.marks ix) ++ [g.timer 0] := by
      rw [hmarks, timesOf_append, timesOf_fault]
    refine ⟨hw, hclock, ?_, ?_, ?_⟩
    · rw [htimes]
      refine List.pairwise_append.mpr ⟨ha.sorted, List.pairwise_singleton .., fun t ht t' ht' => ?_⟩
      rw [List.mem_singleton.mp ht']
      exact Nat.le_trans (ha.past t ht) hbefore
    · rw [htimes]
      intro t ht
      rcases List.mem_append.mp ht with hold | hnow
      · exact Nat.le_trans (ha.past t hold) hlater
      · rw [List.mem_singleton.mp hnow]
        exact hafter
    · -- an alert forgets the first fault, as the faults since then are none
      rw [hfirst, hmarks, faultsSince_fault, ha.firstFault hv]
      split <;> rfl
  · have htimes : timesOf (s'.marks ix) = timesOf (s.marks ix) := by
      rw [hmarks, timesOf_append, timesOf_promotion, List.append_nil]
    refine ⟨hw, hclock, ?_, ?_, ?_⟩
    · rw [htimes]
      exact ha.sorted
    · rw [htimes]
      exact fun t ht => Nat.le_trans (ha.past t ht) hlater
    · rw [hfirst, hmarks, faultsSince_promotion]
      exact ha.first

/-! ## Alerts -/

/-- The VM is quarantined or revoked. -/
def Blocked (h : Hyp) (ix : Fin maxVms) : Prop :=
  TrustLevel.quarantine.rank ≤ (h.trust.vm ix).level.rank

omit P in
theorem promotion_of_blocked (hblocked : Blocked h' ix) : promotion ix h h' = [] := by
  refine if_neg fun hboth => ?_
  rw [Blocked, hboth.2] at hblocked
  exact absurd hblocked (by decide)

omit P in
theorem rapidDue_of_eq {c : U64} (hinit : h'.trust.initialized = true) (hfirst : firstFault g ix = c)
    (hc : c ≠ 0) (hle : c.toNat ≤ (g.timer 0).toNat) :
    RapidDue (vmIdOf ix) ix g h' ↔ Blocked h' ix ∧ (g.timer 0).toNat < c.toNat + idsRapidUs := by
  have hlevel : trustGet h' (vmIdOf ix) = (h'.trust.vm ix).level := by
    rw [trustGet, idx_vmIdOf]
    exact if_pos hinit
  have hsub : (g.timer 0 - c).toNat = (g.timer 0).toNat - c.toNat :=
    BitVec.toNat_sub_of_le (BitVec.le_def.mpr hle)
  rw [RapidDue, hfirst, hlevel, hsub, Blocked]
  constructor
  · rintro ⟨hrank, -, hshort⟩
    exact ⟨hrank, by omega⟩
  · rintro ⟨hrank, hshort⟩
    exact ⟨hrank, hc, by omega⟩

/-- **When the alert is due**: the VM is blocked after the fault, and the
faults since the last alert started less than two seconds ago. -/
theorem Attends.rapidDue_iff (ha : Attends ix s) (hv : Voiced ix f s.hyp e g h')
    (hinit : h'.trust.initialized = true) (ht : g.timer 0 ≠ 0) :
    RapidDue (vmIdOf ix) ix g h' ↔ Blocked h' ix ∧ (g.timer 0).toNat <
      (clockStart (faultsSince .alert (s.marks ix) ++ [g.timer 0])).toNat + idsRapidUs := by
  refine rapidDue_of_eq hinit (ha.firstFault hv) (clockStart_ne_zero ht _) ?_
  rcases List.mem_append.mp (clockStart_mem ht (faultsSince .alert (s.marks ix))) with hold | hnow
  · exact Nat.le_trans (ha.past _ ((faultsSince_suffix _ _).subset hold)) (ha.between hv).1
  · rw [List.mem_singleton.mp hnow]

/-- **A VM that stays blocked**, after a fault for which an alert was due
or was not: then either the clock of the detector is at rest, or it has
run for too long. -/
structure Stays (due : Prop) (ix : Fin maxVms) (s : Watch) : Prop where
  attends : Attends ix s
  started : s.hyp.timer 0 ≠ 0
  rest : due → (s.hyp.ids.mon ix).firstFaultUs = 0
  late : ¬ due → (s.hyp.ids.mon ix).firstFaultUs ≠ 0 ∧
    (s.hyp.ids.mon ix).firstFaultUs.toNat + idsRapidUs ≤ (s.hyp.timer 0).toNat

omit P in
theorem ne_zero_of_le {a b : U64} (hle : a.toNat ≤ b.toNat) (ha : a ≠ 0) : b ≠ 0 := by
  intro hb
  rw [hb] at hle
  exact ha (BitVec.eq_of_toNat_eq (Nat.le_zero.mp hle))

/-- **Every further fault gives an alert, or none does.** -/
theorem Stays.step {due : Prop} [Decidable due] (hst : Stays due ix s)
    (hstep : watch s e = some s') (hblocked : Blocked s'.hyp ix) :
    Stays due ix s' ∧ ∃ new, s'.marks ix = s.marks ix ++ new ∧
      new.count .alert = if due then (timesOf new).length else 0 := by
  have ha := hst.attends
  have ha' := ha.step hstep
  have hlater := (ha.later hstep).2
  have hstarted := ne_zero_of_le hlater hst.started
  have hpromo : promotion ix s.hyp s'.hyp = [] := promotion_of_blocked hblocked
  rcases watch_cases ha.onWatch hstep ix with ⟨f, g, hv, hmarks, hfirst⟩ | ⟨hmarks, hfirst⟩
  · rw [hpromo, List.append_nil] at hmarks
    obtain ⟨hbefore, -⟩ := ha.between hv
    have hinit := ha'.onWatch.standing.initialized
    by_cases hdue : due
    · -- the clock starts with this fault, and the VM is blocked already
      have hnow : firstFault g ix = g.timer 0 := by
        rw [Vse.firstFault, hv.ids, if_pos (hst.rest hdue)]
      have hrapid : RapidDue (vmIdOf ix) ix g s'.hyp :=
        (rapidDue_of_eq hinit hnow (ne_zero_of_le hbefore hst.started) (Nat.le_refl _)).mpr
          ⟨hblocked, Nat.lt_add_of_pos_right (by decide)⟩
      rw [if_pos hrapid] at hmarks hfirst
      refine ⟨⟨ha', hstarted, fun _ => hfirst, fun hnot => absurd hdue hnot⟩, _, hmarks, ?_⟩
      rw [if_pos hdue]
      rfl
    · -- the clock has run for too long, and goes on
      obtain ⟨hrunning, hlate⟩ := hst.late hdue
      have hsame : firstFault g ix = (s.hyp.ids.mon ix).firstFaultUs := by
        rw [Vse.firstFault, hv.ids, if_neg hrunning]
      have hrapid : ¬ RapidDue (vmIdOf ix) ix g s'.hyp := fun hrapid => by
        have hshort := ((rapidDue_of_eq hinit hsame hrunning (by omega)).mp hrapid).2
        omega
      rw [if_neg hrapid] at hmarks hfirst
      refine ⟨⟨ha', hstarted, fun hyes => absurd hyes hdue, fun _ => ?_⟩, _, hmarks, ?_⟩
      · rw [hfirst, hsame]
        exact ⟨hrunning, Nat.le_trans hlate hlater⟩
      · rw [if_neg hdue]
        rfl
  · rw [hpromo] at hmarks
    refine ⟨⟨ha', hstarted, fun hdue => ?_, fun hdue => ?_⟩, [], hmarks, (ite_self 0).symm⟩
    · rw [hfirst]
      exact hst.rest hdue
    · rw [hfirst]
      exact ⟨(hst.late hdue).1, Nat.le_trans (hst.late hdue).2 hlater⟩

/-- **As long as the VM stays blocked.** -/
theorem Stays.run {due : Prop} [Decidable due] {events : List Event} (hst : Stays due ix s)
    (hstay : Throughout watch (fun s => Blocked s.hyp ix) s events)
    (hrun : exec watch s events = some s') :
    ∃ new, s'.marks ix = s.marks ix ++ new ∧
      new.count .alert = if due then (timesOf new).length else 0 := by
  induction events generalizing s with
  | nil =>
    obtain rfl := Option.some.inj hrun
    exact ⟨[], (List.append_nil _).symm, (ite_self 0).symm⟩
  | cons e events ih =>
    obtain ⟨s₁, hstep, hrun⟩ := Option.bind_eq_some_iff.mp hrun
    have hrest := hstay.2 s₁ hstep
    obtain ⟨hst₁, new, hmarks, hcount⟩ := hst.step hstep hrest.head
    obtain ⟨new', hmarks', hcount'⟩ := ih hst₁ hrest hrun
    refine ⟨new ++ new', by rw [hmarks', hmarks, List.append_assoc], ?_⟩
    rw [List.count_append, hcount, hcount', timesOf_append, List.length_append]
    split <;> rfl

/-! ## Escalations -/

omit P in
/-- A fault has a VM quarantined only if there is one, at its threshold or
in a storm. -/
theorem vm_of_handover {v t : U32} {d : U64} (hr : Roster h) (hix : idx v = some ix) :
    ((handover h (.reportFault v t d)).isSome → FaultDue h ix ∧ ∃ vm, h.vms[ix.val]? = some vm) ∧
    ((handover h (.notifyFault v t d)).isSome → StormNow h ix ∧ ∃ vm, h.vms[ix.val]? = some vm) := by
  have hvm : ∀ {k : Hyp}, k.vms = h.vms → (quarantineOf k v).isSome →
      ∃ vm, h.vms[ix.val]? = some vm := by
    intro k hvms hsome
    obtain ⟨m, hm⟩ := Option.isSome_iff_exists.mp hsome
    obtain ⟨i, hfound, -⟩ := Option.bind_eq_some_iff.mp hm
    rw [vmById, hvms, ← vmById] at hfound
    obtain ⟨rfl, hi, vm, hvm⟩ := hr.vmById_eq hfound
    obtain rfl := Option.some.inj (hix.symm.trans (idx_ofNat hi))
    exact ⟨vm, hvm⟩
  constructor
  · intro hand
    rw [handover, hix, Option.bind_some] at hand
    split at hand
    · rename_i hdue
      exact ⟨hdue.2, hvm (k := recordFault h ix t d) rfl (by rwa [Option.isSome_map] at hand)⟩
    · cases hand
  · intro hand
    rw [handover, hix, Option.bind_some] at hand
    split at hand
    · rename_i hnow
      refine ⟨hnow, hvm ?_ (by rwa [Option.isSome_map] at hand)⟩
      exact (silent_stormPoint ..).only.eq Hyp.vms fun _ _ _ _ _ => rfl
    · cases hand

/-- **A rapid escalation**: a fault of the VM, heard in this state, moves it
into quarantine, less than two seconds after the first of its faults since
it was last trusted. -/
structure RapidEscalation (ix : Fin maxVms) (s : Watch) (e : Event) (g : Hyp) : Prop where
  heard : heard s.hyp e = some (ix, g)
  moved : ∃ f, e.fault = some f ∧
    ((handover (e.tally s.hyp) (.reportFault f.vmId f.faultType f.detail)).isSome ∨
      (handover g (.notifyFault f.vmId f.faultType f.detail)).isSome)
  quick : ∀ t ∈ (faultsSince .trusted (s.marks ix) ++ [g.timer 0]).head?,
    (g.timer 0).toNat < t.toNat + idsRapidUs

/-- **What is heard is voiced**: the monitor and the alerts follow the event. -/
theorem voiced_of_heard (hheard : heard h e = some (ix, g)) (hrun : eventStep h e = some h') :
    ∃ f, Voiced ix f h e g h' := by
  rcases eventStep_cases hrun with ⟨jx, f, g', hv⟩ | ⟨hnone, -⟩
  · obtain ⟨rfl, rfl⟩ := Prod.mk.inj (Option.some.inj (hheard.symm.trans hv.heard))
    exact ⟨f, hv⟩
  · cases hnone.symm.trans hheard

/-- **The VM is there to stay blocked**, said of the state before a fault
at this time: it cannot be restarted, or the fault has it quarantined twice,
at the threshold and for a storm, and it cannot be restarted twice. -/
def Stranded (h : Hyp) (ix : Fin maxVms) (now : U64) : Prop :=
  ¬ Rescuable h ix 1 ∨ FaultDue h ix ∧ StormDue h ix now ∧ ¬ Rescuable h ix 2

/-- The VM that is moved is there, before the report and after it. -/
theorem RapidEscalation.exists_vm (hesc : RapidEscalation ix s e g) (hst : Standing (e.tally s.hyp))
    (hv : Voiced ix f s.hyp e g h') :
    (∃ vm, (e.tally s.hyp).vms[ix.val]? = some vm) ∧ ∃ vm, g.vms[ix.val]? = some vm := by
  obtain ⟨f', hf', hmoved⟩ := hesc.moved
  obtain rfl := Option.some.inj (hv.fault.symm.trans hf')
  have hix : idx f.vmId = some ix := hv.vm ▸ idx_vmIdOf ix
  have hlayout := layout_of_retains (trustStep_retains hv.report) ix.val
  have hthere : (∃ vm, (e.tally s.hyp).vms[ix.val]? = some vm) ↔ ∃ vm, g.vms[ix.val]? = some vm := by
    rw [← Option.isSome_iff_exists, ← Option.isSome_iff_exists, ← Option.isSome_map (f := Vm.layout),
      ← hlayout, Option.isSome_map]
  rcases hmoved with hand | hand
  · have hvm := ((vm_of_handover hst.roster hix).1 hand).2
    exact ⟨hvm, hthere.mp hvm⟩
  · have hvm := ((vm_of_handover (trustStep_standing hst hv.report).roster hix).2 hand).2
    exact ⟨hthere.mpr hvm, hvm⟩

/-- A fault that does not have the VM quarantined at the threshold moves it
in a storm. -/
theorem RapidEscalation.stormNow (hesc : RapidEscalation ix s e g) (hst : Standing (e.tally s.hyp))
    (hv : Voiced ix f s.hyp e g h') (hnot : ¬ FaultDue (e.tally s.hyp) ix) : StormNow g ix := by
  obtain ⟨f', hf', hmoved⟩ := hesc.moved
  obtain rfl := Option.some.inj (hv.fault.symm.trans hf')
  have hix : idx f.vmId = some ix := hv.vm ▸ idx_vmIdOf ix
  rcases hmoved with hand | hand
  · exact absurd ((vm_of_handover hst.roster hix).1 hand).1 hnot
  · exact ((vm_of_handover (trustStep_standing hst hv.report).roster hix).2 hand).1

/-- **Whether an escalation leaves the VM blocked** is settled before it. -/
theorem RapidEscalation.blocked_iff (hesc : RapidEscalation ix s e g) (hw : OnWatch s.hyp)
    (hv : Voiced ix f s.hyp e g h') : Blocked h' ix ↔ Stranded s.hyp ix (g.timer 0) := by
  have hix : idx f.vmId = some ix := hv.vm ▸ idx_vmIdOf ix
  have hst := (hw.tally e).standing
  obtain ⟨⟨vm, hvm⟩, vm', hvm'⟩ := hesc.exists_vm hst hv
  have hstorm := hesc.stormNow hst hv
  have hnotify := idsNotifyFault_rescue (trustStep_standing hst hv.report) hix hvm' hv.notify
  have hon : g.ids.initialized = true := hv.ids ▸ hw.on
  obtain ⟨⟨er, g'⟩, hreport, rfl⟩ := Option.map_eq_some_iff.mp hv.report
  -- the condition, in the state in which the fault is reported and in the one it is notified in
  have hstock : ∀ {k}, Rescuable (e.tally s.hyp) ix k ↔ Rescuable s.hyp ix k :=
    rescuable_congr ((onlyVse_tally s.hyp e).stock ix)
  have hdue : FaultDue (e.tally s.hyp) ix ↔ FaultDue s.hyp ix := by
    cases e <;> exact Iff.rfl
  have hwindow : StormDue g' ix (g'.timer 0) ↔ StormDue s.hyp ix (g'.timer 0) := by
    rw [StormDue, StormDue, hv.ids]
  rw [Stranded, ← hdue, ← hwindow, ← hstock, ← hstock]
  rcases trustReportFault_rescue hst hix hvm hreport with ⟨hfull, hfate⟩ | ⟨hnot, honly⟩
  · rcases hfate with ⟨hyes, hlevel, hleft⟩ | ⟨hno, hblocked⟩
    · -- it is back, and a storm may have it quarantined again
      have hnow : StormNow g' ix ↔ StormDue g' ix (g'.timer 0) := by
        rw [StormNow, hlevel]
        exact ⟨fun h => h.2.1, fun h => ⟨hon, h, by decide⟩⟩
      rw [← hnow, ← hleft 1]
      rcases hnotify with ⟨hst', hiff⟩ | ⟨hno, htrust⟩
      · rw [Blocked, hiff]
        exact ⟨fun hnr => .inr ⟨hfull, hst', hnr⟩,
          fun hor => hor.elim (absurd hyes) fun h => h.2.2⟩
      · rw [Blocked, htrust, hlevel]
        exact ⟨fun hle => absurd hle (by decide),
          fun hor => hor.elim (absurd hyes) fun h => absurd h.2.1 hno⟩
    · rcases hnotify with ⟨hnow, -⟩ | ⟨-, htrust⟩
      · exact absurd hnow.2.2 (Nat.not_lt.mpr hblocked)
      · rw [Blocked, htrust]
        exact iff_of_true hblocked (.inl hno)
  · -- only the storm has it quarantined
    rcases hnotify with ⟨-, hiff⟩ | ⟨hno, -⟩
    · rw [Blocked, hiff, rescuable_congr (honly.stock ix)]
      exact ⟨.inl, fun hor => hor.elim (fun h => h) fun hboth => absurd hboth.1 hnot⟩
    · exact absurd (hstorm hnot) hno

/-- The marks between two states of a run. -/
def newMarks (ix : Fin maxVms) (s s' : Watch) : List Mark :=
  (s'.marks ix).drop (s.marks ix).length

omit P in
theorem newMarks_eq {new : List Mark} (heq : s'.marks ix = s.marks ix ++ new) :
    newMarks ix s s' = new := by
  rw [newMarks, heq, List.drop_left]

/-- **Where the clock has not run on** from before the VM was last trusted,
the detector finds a rapid escalation rapid. -/
theorem RapidEscalation.young (hesc : RapidEscalation ix s e g) (ha : Attends ix s)
    (hnow : (s.hyp.timer 0).toNat ≤ (g.timer 0).toNat) (ht : g.timer 0 ≠ 0)
    (hfresh : faultsSince .alert (s.marks ix) <:+ faultsSince .trusted (s.marks ix)) :
    (g.timer 0).toNat <
      (clockStart (faultsSince .alert (s.marks ix) ++ [g.timer 0])).toNat + idsRapidUs := by
  have hquick := hesc.quick
  have hmem : clockStart (faultsSince .alert (s.marks ix) ++ [g.timer 0]) ∈
      faultsSince .trusted (s.marks ix) ++ [g.timer 0] := by
    rcases List.mem_append.mp (clockStart_mem ht (faultsSince .alert (s.marks ix))) with hold | hlast
    · exact List.mem_append_left _ (hfresh.subset hold)
    · exact List.mem_append_right _ hlast
  have hpast := (faultsSince_suffix .trusted (s.marks ix)).subset
  have hsorted : (faultsSince .trusted (s.marks ix) ++ [g.timer 0]).Pairwise
      fun t t' => t.toNat ≤ t'.toNat := by
    refine List.pairwise_append.mpr ⟨ha.sorted.sublist (faultsSince_suffix ..).sublist,
      List.pairwise_singleton .., fun t hold t' hlast => ?_⟩
    rw [List.mem_singleton.mp hlast]
    exact Nat.le_trans (ha.past t (hpast hold)) hnow
  generalize faultsSince .trusted (s.marks ix) ++ [g.timer 0] = ts at hquick hmem hsorted
  cases ts with
  | nil => cases hmem
  | cons t ts =>
    have hfirst : (g.timer 0).toNat < t.toNat + idsRapidUs := hquick t rfl
    rcases List.mem_cons.mp hmem with heq | hlater
    · rw [heq]
      exact hfirst
    · have hle := (List.pairwise_cons.mp hsorted).1 _ hlater
      omega

omit P in
theorem attends_start (hr : Roster h) (gm : U32 → Gmeas)
    (hclock : ∀ j k, j ≤ k → (h.timer j).toNat ≤ (h.timer k).toNat) (ix : Fin maxVms) :
    Attends ix (.start (vseInit h gm)) :=
  ⟨onWatch_vseInit hr gm, fun _ _ hjk => hclock _ _ (Nat.add_le_add_right hjk 1), .nil, nofun, rfl⟩

/-- **Which rapid escalations are reported.** Exactly one alert is given for
a rapid escalation, from the fault on for as long as the VM stays blocked,
if and only if failover cannot bring the VM back, the faults since the last
alert started less than two seconds ago, and it is the last fault. The
first is so exactly if the VM is blocked after the fault, and the second if
there has been no fault between the last alert and the time the VM was last
trusted. -/
theorem rapid_alerts_iff {h₀ : Hyp} {gm : U32 → Gmeas} {before after : List Event}
    {s s₁ s₂ : Watch} (hr : Roster h₀)
    (hclock : ∀ j k, j ≤ k → (h₀.timer j).toNat ≤ (h₀.timer k).toNat)
    (hbefore : exec watch (.start (vseInit h₀ gm)) before = some s)
    (hesc : RapidEscalation ix s e g) (ht : g.timer 0 ≠ 0) (hstep : watch s e = some s₁)
    (hstay : after = [] ∨ Throughout watch (fun s => Blocked s.hyp ix) s₁ after)
    (hafter : exec watch s₁ after = some s₂) :
    ((newMarks ix s s₂).count .alert = 1 ↔ Stranded s.hyp ix (g.timer 0) ∧
      (g.timer 0).toNat <
        (clockStart (faultsSince .alert (s.marks ix) ++ [g.timer 0])).toNat + idsRapidUs ∧
      (timesOf (newMarks ix s s₂)).length = 1) ∧
    (Blocked s₁.hyp ix ↔ Stranded s.hyp ix (g.timer 0)) ∧
    (faultsSince .alert (s.marks ix) <:+ faultsSince .trusted (s.marks ix) →
      (g.timer 0).toNat <
        (clockStart (faultsSince .alert (s.marks ix) ++ [g.timer 0])).toNat + idsRapidUs) := by
  have ha := exec_invariant (fun _ _ _ ha hab => Attends.step ha hab)
    (attends_start hr gm hclock ix) hbefore
  have ha₁ := ha.step hstep
  obtain ⟨hrun, hmarks⟩ := watch_eq hstep
  obtain ⟨f, hv⟩ := voiced_of_heard hesc.heard hrun
  obtain ⟨hearlier, hlater⟩ := ha.between hv
  have hblocked := hesc.blocked_iff ha.onWatch hv
  refine ⟨?_, hblocked, hesc.young ha hearlier ht⟩
  have hdue := ha.rapidDue_iff hv ha₁.onWatch.standing.initialized ht
  obtain ⟨hnew, hfirst⟩ := hv.marks ha.onWatch ix
  rw [if_pos rfl] at hnew hfirst
  -- what comes after the fault gives as many alerts as faults, or none
  obtain ⟨rest, hrest, hcount⟩ : ∃ rest, s₂.marks ix = s₁.marks ix ++ rest ∧
      rest.count .alert = if RapidDue (vmIdOf ix) ix g s₁.hyp then (timesOf rest).length else 0 := by
    rcases hstay with rfl | hstay
    · obtain rfl := Option.some.inj hafter
      exact ⟨[], (List.append_nil _).symm, (ite_self 0).symm⟩
    · refine Stays.run ⟨ha₁, ne_zero_of_le hlater ht, fun hyes => ?_, fun hno => ?_⟩ hstay hafter
      · rw [hfirst, if_pos hyes]
      · have hlong := Nat.not_lt.mp fun hshort => hno (hdue.mpr ⟨hstay.head, hshort⟩)
        rw [hfirst, if_neg hno, ha.firstFault hv]
        exact ⟨clockStart_ne_zero ht _, Nat.le_trans hlong hlater⟩
  have hall : newMarks ix s s₂ = .fault (g.timer 0) ::
      (if RapidDue (vmIdOf ix) ix g s₁.hyp then [.alert] else []) ++ promotion ix s.hyp s₁.hyp ++
        rest := by
    refine newMarks_eq ?_
    rw [hrest, hmarks, hnew, List.append_assoc]
  have hpromo : (promotion ix s.hyp s₁.hyp).count .alert = 0 := by
    unfold promotion
    split <;> rfl
  have htimes : timesOf (newMarks ix s s₂) = g.timer 0 :: timesOf rest := by
    rw [hall, timesOf_append, timesOf_fault]
    rfl
  rw [htimes, ← hblocked, ← and_assoc, ← hdue, hall, List.count_append, List.count_append, hpromo, hcount,
    List.length_cons]
  by_cases hyes : RapidDue (vmIdOf ix) ix g s₁.hyp
  · rw [if_pos hyes, if_pos hyes, show List.count Mark.alert [.fault (g.timer 0), .alert] = 1 from rfl]
    constructor
    · exact fun hone => ⟨hyes, by omega⟩
    · exact fun hone => by omega
  · rw [if_neg hyes, if_neg hyes, show List.count Mark.alert [.fault (g.timer 0)] = 0 from rfl]
    exact ⟨fun hone => absurd hone (by decide), fun hboth => absurd hboth.1 hyes⟩

end Watching

/-- The lone RTOS, with a clock that stands still. -/
def rtosAt (now : U64) : Hyp := { loneRtos with timer := fun _ => now }

theorem roster_rtosAt (now : U64) : Roster (rtosAt now) :=
  (standing_of_one (h := rtosAt now) rfl rfl (by decide) rfl).roster

theorem exists_fifthFault :
    letI := Stage2.poolAt2M
    ∃ s g s₁, exec watch (.start (vseInit (rtosAt 1) fun _ => .match))
        (List.replicate 4 (.memFault 1 0 false)) = some s ∧
      heard s.hyp (.memFault 1 0 false) = some (⟨0, by decide⟩, g) ∧
      (handover g (.notifyFault 1 trustFaultMem 0)).isSome ∧
      (faultsSince .trusted (s.marks ⟨0, by decide⟩) ++ [g.timer 0]).head? = some 1 ∧
      g.timer 0 = 1 ∧ watch s (.memFault 1 0 false) = some s₁ ∧
      (s.hyp.failover.backup ⟨0, by decide⟩).registered = false ∧
      faultsSince .alert (s.marks ⟨0, by decide⟩) = faultsSince .trusted (s.marks ⟨0, by decide⟩) ∧
      timesOf (newMarks ⟨0, by decide⟩ s s₁) = [1] :=
  ⟨_, _, _, rfl, rfl, rfl, rfl, rfl, rfl, rfl, rfl, rfl⟩

/-- Five faults at once make a storm: the RTOS is quarantined at the fifth,
and one alert is given. -/
theorem rapid_alert_storm :
    letI := Stage2.poolAt2M
    ∃ s s₁ g, exec watch (.start (vseInit (rtosAt 1) fun _ => .match))
        (List.replicate 4 (.memFault 1 0 false)) = some s ∧
      RapidEscalation ⟨0, by decide⟩ s (.memFault 1 0 false) g ∧
      watch s (.memFault 1 0 false) = some s₁ ∧
      (newMarks ⟨0, by decide⟩ s s₁).count .alert = 1 := by
  let _ := Stage2.poolAt2M
  obtain ⟨s, g, s₁, hrun, hheard, hmoved, hquick, ht, hstep, halone, hsuffix, htimes⟩ :=
    exists_fifthFault
  have hesc : RapidEscalation ⟨0, by decide⟩ s (.memFault 1 0 false) g := by
    refine ⟨hheard, ⟨_, rfl, .inr hmoved⟩, fun t hfirst => ?_⟩
    obtain rfl := Option.some.inj (hquick.symm.trans hfirst)
    rw [ht]
    decide
  obtain ⟨hiff, -, hyoung⟩ := rapid_alerts_iff (roster_rtosAt 1) (fun _ _ _ => Nat.le_refl _)
    hrun hesc (by rw [ht]; decide) hstep (.inl rfl) rfl
  refine ⟨s, s₁, g, hrun, hesc, hstep, hiff.mpr ⟨.inl fun hr => ?_, hyoung ?_, ?_⟩⟩
  · cases halone.symm.trans hr.backup.2
  · rw [hsuffix]
  · rw [htimes]
    rfl

/-- The RTOS has a backup. The fifth fault has it quarantined and restarted
in the same call, and no alert is given. -/
theorem rapid_alert_missed :
    letI := Stage2.poolAt2M
    Roster (rtosAt 1) ∧
    ∃ s s₁ g, exec watch (.start (vseInit (rtosAt 1) fun _ => .match))
        (.other (.failoverRegister 1 0x50000000 0 0x1000 0) nofun ::
          List.replicate 4 (.memFault 1 0 false)) = some s ∧
      RapidEscalation ⟨0, by decide⟩ s (.memFault 1 0 false) g ∧
      watch s (.memFault 1 0 false) = some s₁ ∧
      (s₁.hyp.trust.vm ⟨0, by decide⟩).level = .degraded ∧
      (newMarks ⟨0, by decide⟩ s s₁).count .alert = 0 := by
  let _ := Stage2.poolAt2M
  refine ⟨roster_rtosAt 1, _, _, _, rfl, ⟨rfl, ⟨_, rfl, .inr rfl⟩, ?_⟩, rfl, rfl, rfl⟩
  intro t ht
  cases ht
  decide

end Vse

end HypervisorBase
