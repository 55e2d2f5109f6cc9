import HypervisorBase.Common.Windows
import HypervisorBase.Common.Run
import HypervisorBase.Stage2.Queries
import HypervisorBase.Vse.Log
/-!
# Which storms are seen

`ids.h` calls it a storm when a VM has more than `IDS_STORM_FAULTS` faults
within `IDS_STORM_WINDOW_US`. The detector keeps one window per VM: it
starts with `ids_init`, and again with the first fault after it has
expired. A notification moves that counter as `Windows.Counter` does and
logs an alert when the count passes the limit (`Watches`), whatever other
VMs do. So no alert is false, and a burst of faults that lies across two
windows is not seen: `storm_detection_iff`.
-/

namespace HypervisorBase

namespace Vse

/-! ## Notifications and alerts -/

/-- A call of `ids_notify_fault`, and what the timer reads during it. The
first reading is the time of the fault. -/
structure Notice where
  readings : ℕ → U64
  vmId : U32
  faultType : U32
  detail : U64

def Notice.time (n : Notice) : ℕ := (n.readings 0).toNat

/-- The times of the faults of one VM. -/
def faultTimes (v : U32) (ns : List Notice) : List ℕ :=
  (ns.filter fun n => n.vmId = v).map Notice.time

/-- A storm alert for the VM is in the audit ring. -/
def StormLogged (v : U32) (h : Hyp) : Prop :=
  ∃ i < 128, (h.ids.log i).type = .storm ∧ (h.ids.log i).severity = .alert ∧ (h.ids.log i).vmId = v

section Tables

variable [P : PtPool]

def notify (h : Hyp) (n : Notice) : Option Hyp :=
  idsNotifyFault { h with timer := n.readings } n.vmId n.faultType n.detail

/-- **A storm alert has been logged**: it was in the ring after one of the
notifications. -/
def StormSeen (h₀ : Hyp) (v : U32) (ns : List Notice) : Prop :=
  ∃ before after, ns = before ++ after ∧
    ∃ g, exec notify (idsInit h₀) before = some g ∧ StormLogged v g

end Tables

/-! ## One notification -/

section Alerts

variable {h h' : Hyp} {id faultType : U32} {ix : Fin maxVms} {l rs : List IdsRecord}

/-- What a call has just appended is in the ring. -/
theorem Appends.stormLogged (ha : Appends rs h h') (hl : Recorded l h) (hfew : rs.length ≤ 128)
    {v : U32} (hmem : (.storm, .alert, v) ∈ rs.map brief) : StormLogged v h' := by
  obtain ⟨r, hr, hbrief⟩ := List.mem_map.mp hmem
  obtain ⟨j, hj, rfl⟩ := List.getElem_of_mem hr
  have hslot := (ha.recorded hl).ring (l.length + j)
    (by rw [List.length_append]; omega) (by rw [List.length_append]; omega)
  rw [List.getElem_append_right (Nat.le_add_right ..)] at hslot
  simp only [Nat.add_sub_cancel_left] at hslot
  simp only [brief, Prod.mk.injEq] at hbrief
  refine ⟨(l.length + j) % 128, Nat.mod_lt _ (by decide), ?_⟩
  rw [hslot]
  exact hbrief

/-- An alert that a call has not appended was there before. -/
theorem Appends.storm_of (ha : Appends rs h h') {v : U32} (hv : StormLogged v h') :
    StormLogged v h ∨ (.storm, .alert, v) ∈ rs.map brief := by
  obtain ⟨i, hi, htype, hsev, hvm⟩ := hv
  rcases ha.slots i with hkept | hnew
  · rw [hkept] at htype hsev hvm
    exact .inl ⟨i, hi, htype, hsev, hvm⟩
  · refine .inr (List.mem_map.mpr ⟨_, hnew, ?_⟩)
    rw [brief, htype, hsev, hvm]

theorem Noted.recorded (hn : Noted id faultType ix h h') (hl : Recorded l h) :
    ∃ l', Recorded l' h' := by
  obtain ⟨storm, -, -, rs, ha, -⟩ := hn.logs
  exact ⟨_, ha.recorded hl⟩

/-- **The fault that makes a storm leaves an alert.** -/
theorem Noted.storm (hn : Noted id faultType ix h h') (hl : Recorded l h)
    (hdue : StormDue h ix (h.timer 0)) : StormLogged id h' := by
  obtain ⟨storm, hkind, hspeaks, rs, ha, hmap⟩ := hn.logs
  have hlen := congrArg List.length hmap
  rw [List.length_map] at hlen
  have hfew : (noteOf id (RepeatDue h ix faultType) storm (RapidDue id ix h h')).length ≤ 5 :=
    length_noteOf hkind
  refine ha.stormLogged hl (by omega) ?_
  rw [hmap]
  exact (storm_mem_noteOf hkind).mpr ⟨hspeaks.mpr hdue, rfl⟩

/-- **No other fault leaves one**, and none for another VM. -/
theorem Noted.fresh (hn : Noted id faultType ix h h') {v : U32} (hv : StormLogged v h') :
    StormLogged v h ∨ (StormDue h ix (h.timer 0) ∧ v = id) := by
  obtain ⟨storm, hkind, hspeaks, rs, ha, hmap⟩ := hn.logs
  refine (ha.storm_of hv).imp_right fun hmem => ?_
  rw [hmap] at hmem
  obtain ⟨hsome, hself⟩ := (storm_mem_noteOf hkind).mp hmem
  exact ⟨hspeaks.mp hsome, hself⟩

end Alerts

/-! ## Runs of notifications -/

/-- **The detector follows the counter** of one VM. The count is kept in 32
bits. -/
structure Watches (ix : Fin maxVms) (t₀ : ℕ) (ts : List ℕ) (h : Hyp) : Prop where
  initialized : h.ids.initialized = true
  recorded : ∃ l, Recorded l h
  start : (h.ids.mon ix).windowStartUs.toNat = (Windows.track idsStormWindowUs t₀ ts).start
  faults : (h.ids.mon ix).windowFaults =
    BitVec.ofNat 32 (Windows.track idsStormWindowUs t₀ ts).count

variable {ts : List ℕ} {t₀ : ℕ}

section Counting

variable {h : Hyp} {v : U32} {ix : Fin maxVms} {n : Notice} {ns : List Notice}

theorem faultTimes_concat (v : U32) (ns : List Notice) (n : Notice) :
    faultTimes v (ns ++ [n]) = faultTimes v ns ++ if n.vmId = v then [n.time] else [] := by
  unfold faultTimes
  rw [List.filter_append, List.map_append]
  by_cases hv : n.vmId = v <;> simp [hv]

theorem faultTimes_subset {t : ℕ} (ht : t ∈ faultTimes v ns) : t ∈ ns.map Notice.time := by
  obtain ⟨n, hn, rfl⟩ := List.mem_map.mp ht
  exact List.mem_map_of_mem (List.mem_filter.mp hn).1

theorem faultTimes_sorted (hsorted : (t₀ :: ns.map Notice.time).Pairwise (· ≤ ·)) :
    (t₀ :: faultTimes v ns).Pairwise (· ≤ ·) :=
  hsorted.sublist ((List.filter_sublist.map _).cons_cons t₀)

theorem eq_of_idx {id : U32} (hid : idx id = some ix) (hv : idx v = some ix) : id = v :=
  (idx_eq_some hid).trans (idx_eq_some hv).symm

/-- The test of the window, in numbers. -/
theorem expired_iff {now start : U64} (hle : start.toNat ≤ now.toNat) :
    idsStormWindowUs < (now - start).toNat ↔ start.toNat + idsStormWindowUs < now.toNat := by
  rw [BitVec.toNat_sub_of_le hle]
  omega

/-- A storm is due only with the fault that passes the limit. -/
theorem Watches.passes_of_due (hw : Watches ix t₀ ts h)
    (hle : (Windows.track idsStormWindowUs t₀ ts).start ≤ n.time)
    (hdue : StormDue h ix (n.readings 0)) :
    4 < (Windows.track idsStormWindowUs t₀ (ts ++ [n.time])).count := by
  obtain ⟨hopen, hfour⟩ := hdue
  have hopen := Nat.not_lt.mpr hopen
  rw [expired_iff (by rw [hw.start]; exact hle), hw.start] at hopen
  change ¬ _ < n.time at hopen
  have hcount : (Windows.track idsStormWindowUs t₀ ts).count % 2 ^ 32 = 4 := by
    rw [hw.faults] at hfour
    have hnat := congrArg BitVec.toNat hfour
    rwa [BitVec.toNat_ofNat] at hnat
  rw [Windows.track_concat, Windows.Counter.add, if_neg hopen]
  dsimp only
  omega

/-- The fault that passes the limit makes a storm. A counter that wraps has
passed it before. -/
theorem Watches.due_of_passes (hw : Watches ix t₀ ts h)
    (hle : (Windows.track idsStormWindowUs t₀ ts).start ≤ n.time)
    (hpass : 4 < (Windows.track idsStormWindowUs t₀ (ts ++ [n.time])).count) :
    4 < (Windows.track idsStormWindowUs t₀ ts).count ∨ StormDue h ix (n.readings 0) := by
  rw [Windows.track_concat, Windows.Counter.add] at hpass
  by_cases hlate : (Windows.track idsStormWindowUs t₀ ts).start + idsStormWindowUs < n.time
  · rw [if_pos hlate] at hpass
    exact absurd hpass (show ¬ 4 < 1 by decide)
  rw [if_neg hlate] at hpass
  dsimp only at hpass
  by_cases hfour : (Windows.track idsStormWindowUs t₀ ts).count = 4
  · refine .inr ⟨Nat.not_lt.mp fun hexp => hlate ?_, ?_⟩
    · rw [expired_iff (by rw [hw.start]; exact hle), hw.start] at hexp
      exact hexp
    · rw [hw.faults, hfour]
      rfl
  · exact .inl (by omega)

theorem watches_idsInit (h₀ : Hyp) (ix : Fin maxVms) :
    Watches ix (h₀.timer 0).toNat [] (idsInit h₀) :=
  ⟨rfl, ⟨[], recorded_idsInit h₀⟩, rfl, rfl⟩

theorem not_stormLogged_idsInit (h₀ : Hyp) (v : U32) : ¬ StormLogged v (idsInit h₀) := by
  rintro ⟨i, -, htype, -⟩
  cases htype

end Counting

section Runs

variable [P : PtPool]
variable {h₀ h h' : Hyp} {v : U32} {ix : Fin maxVms} {n : Notice} {ns : List Notice}

/-- A notification of another VM. -/
theorem Watches.notify_other (hw : Watches ix t₀ ts h)
    (hix : idx v = some ix) (hne : n.vmId ≠ v) (hrun : notify h n = some h') :
    Watches ix t₀ ts h' ∧ (StormLogged v h' → StormLogged v h) := by
  obtain ⟨l, hl⟩ := hw.recorded
  cases hid : idx n.vmId with
  | none =>
    have hoff : ¬ (h.ids.initialized = true ∧ ∃ ix, idx n.vmId = some ix) := by
      rintro ⟨-, ix, hix⟩
      rw [hid] at hix
      cases hix
    have hsame := idsNotifyFault_of_off (h := { h with timer := n.readings }) hoff n.faultType
      n.detail
    rw [← Option.some.inj (hsame.symm.trans hrun)]
    exact ⟨⟨hw.initialized, ⟨l, hl⟩, hw.start, hw.faults⟩, fun hv => hv⟩
  | some jx =>
    have hl' : Recorded l { h with timer := n.readings } := hl
    have hstep := idsNotifyFault_noted (h := { h with timer := n.readings }) hw.initialized hid hrun
    have hjx : ix ≠ jx := by
      intro heq
      rw [← heq] at hid
      exact hne (eq_of_idx hid hix)
    have hmon : h'.ids.mon ix = h.ids.mon ix := hstep.others ix hjx
    refine ⟨⟨hstep.initialized, hstep.recorded hl', ?_, ?_⟩, fun hv => ?_⟩
    · rw [hmon]
      exact hw.start
    · rw [hmon]
      exact hw.faults
    · rcases hstep.fresh hv with hold | ⟨-, hself⟩
      · exact hold
      · exact absurd hself.symm hne

/-- **A notification of the VM** is an event for the counter. -/
theorem Watches.notify_self (hw : Watches ix t₀ ts h)
    (hix : idx n.vmId = some ix)
    (hle : (Windows.track idsStormWindowUs t₀ ts).start ≤ n.time) (hrun : notify h n = some h') :
    Watches ix t₀ (ts ++ [n.time]) h' ∧
    (StormDue h ix (n.readings 0) → StormLogged n.vmId h') ∧
    (StormLogged n.vmId h' → StormLogged n.vmId h ∨ StormDue h ix (n.readings 0)) := by
  obtain ⟨l, hl⟩ := hw.recorded
  have hl' : Recorded l { h with timer := n.readings } := hl
  have hstep := idsNotifyFault_noted (h := { h with timer := n.readings }) hw.initialized hix hrun
  have hexp : idsStormWindowUs < (n.readings 0 - (h.ids.mon ix).windowStartUs).toNat ↔
      (Windows.track idsStormWindowUs t₀ ts).start + idsStormWindowUs < n.time := by
    rw [expired_iff (by rw [hw.start]; exact hle), hw.start]
    rfl
  refine ⟨⟨hstep.initialized, hstep.recorded hl', ?_, ?_⟩, hstep.storm hl', fun hv => ?_⟩
  · rw [hstep.start, Windows.track_concat, Windows.Counter.add]
    dsimp only [ticks]
    by_cases hlate : (Windows.track idsStormWindowUs t₀ ts).start + idsStormWindowUs < n.time
    · rw [if_pos (hexp.mpr hlate), if_pos hlate]
      rfl
    · rw [if_neg fun hc => hlate (hexp.mp hc), if_neg hlate]
      exact hw.start
  · rw [hstep.faults, Windows.track_concat, Windows.Counter.add]
    dsimp only [ticks]
    by_cases hlate : (Windows.track idsStormWindowUs t₀ ts).start + idsStormWindowUs < n.time
    · rw [if_pos (hexp.mpr hlate), if_pos hlate]
      rfl
    · rw [if_neg fun hc => hlate (hexp.mp hc), if_neg hlate]
      rw [hw.faults]
      exact (BitVec.ofNat_add ..).symm
  · rcases hstep.fresh hv with hold | ⟨hdue, -⟩
    · exact .inl hold
    · exact .inr hdue

theorem stormSeen_concat (hrun : exec notify (idsInit h₀) (ns ++ [n]) = some h) :
    StormSeen h₀ v (ns ++ [n]) ↔ StormSeen h₀ v ns ∨ StormLogged v h := by
  unfold StormSeen
  rw [Windows.exists_split_concat, hrun]
  simp

/-- **The detector and the counter agree** after any notifications, and an
alert has been logged exactly when the counter has passed the limit. -/
theorem watches_run (hix : idx v = some ix)
    (hsorted : ((h₀.timer 0).toNat :: ns.map Notice.time).Pairwise (· ≤ ·))
    (hrun : exec notify (idsInit h₀) ns = some h) :
    Watches ix (h₀.timer 0).toNat (faultTimes v ns) h ∧
    (StormSeen h₀ v ns ↔
      Windows.Fired idsStormWindowUs 4 (h₀.timer 0).toNat (faultTimes v ns)) := by
  induction ns using List.reverseRecOn generalizing h with
  | nil =>
    cases hrun
    refine ⟨watches_idsInit h₀ ix, iff_of_false ?_ ?_⟩
    · rintro ⟨before, after, heq, g, hg, hlogged⟩
      obtain ⟨rfl, -⟩ := List.append_eq_nil_iff.mp heq.symm
      cases hg
      exact not_stormLogged_idsInit h₀ v hlogged
    · rintro ⟨before, after, heq, hlt⟩
      obtain ⟨rfl, -⟩ := List.append_eq_nil_iff.mp heq.symm
      exact absurd hlt (Nat.not_lt_zero 4)
  | append_singleton ns n ih =>
    have hrun' := hrun
    rw [exec_append] at hrun'
    obtain ⟨g, hbefore, hlast⟩ := Option.bind_eq_some_iff.mp hrun'
    obtain ⟨h₁, hstep, heq⟩ := Option.bind_eq_some_iff.mp hlast
    obtain rfl := Option.some.inj heq
    rw [List.map_append, ← List.cons_append] at hsorted
    obtain ⟨hsorted, hmax⟩ := (Windows.pairwise_concat (x := n.time)).mp hsorted
    obtain ⟨hw, hseen⟩ := ih hsorted hbefore
    have hearlier : StormLogged v g → StormSeen h₀ v ns := fun hg =>
      ⟨ns, [], (List.append_nil ns).symm, g, hbefore, hg⟩
    rw [stormSeen_concat hrun, faultTimes_concat]
    by_cases hv : n.vmId = v
    · subst hv
      rw [if_pos rfl]
      have hle : (Windows.track idsStormWindowUs (h₀.timer 0).toNat
          (faultTimes n.vmId ns)).start ≤ n.time := by
        have htracks := Windows.track_tracks (W := idsStormWindowUs)
          (faultTimes_sorted (v := n.vmId) hsorted)
        refine hmax _ ?_
        rcases htracks.start.mem with hinit | hmem
        · rw [hinit]
          exact List.mem_cons_self
        · exact List.mem_cons_of_mem _ (faultTimes_subset hmem)
      obtain ⟨hw', hdue, hfresh⟩ := hw.notify_self hix hle hstep
      refine ⟨hw', ?_⟩
      rw [Windows.fired_concat, ← hseen]
      constructor
      · rintro (hold | hlogged)
        · exact .inl hold
        · rcases hfresh hlogged with hold | hnow
          · exact .inl (hearlier hold)
          · exact .inr (hw.passes_of_due hle hnow)
      · rintro (hold | hpass)
        · exact .inl hold
        · rcases hw.due_of_passes hle hpass with hold | hnow
          · exact .inl (hseen.mpr ⟨_, [], (List.append_nil _).symm, hold⟩)
          · exact .inr (hdue hnow)
    · rw [if_neg hv, List.append_nil]
      obtain ⟨hw', hfresh⟩ := hw.notify_other hix hv hstep
      refine ⟨hw', ?_⟩
      rw [← hseen]
      exact ⟨fun hor => hor.elim id fun hlogged => hearlier (hfresh hlogged), .inl⟩

/-- **Which storms are seen.** By the time of a fault, after `ids_init` and
any notifications in the order of their times, an alert for the VM has
been logged if and only if one of the detector's windows holds more than
four of its faults. Then some interval of one second does, and the
detector is exact if and only if, when an interval does, a window does. -/
theorem storm_detection_iff (hix : idx v = some ix)
    (hsorted : ((h₀.timer 0).toNat :: (ns ++ [n]).map Notice.time).Pairwise (· ≤ ·))
    (hrun : exec notify (idsInit h₀) (ns ++ [n]) = some h) :
    (StormSeen h₀ v (ns ++ [n]) ↔
      Windows.InOneWindow idsStormWindowUs 4 (h₀.timer 0).toNat (faultTimes v (ns ++ [n]))) ∧
    (StormSeen h₀ v (ns ++ [n]) →
      Windows.Sliding idsStormWindowUs 4 (faultTimes v (ns ++ [n])) n.time) ∧
    ((StormSeen h₀ v (ns ++ [n]) ↔
        Windows.Sliding idsStormWindowUs 4 (faultTimes v (ns ++ [n])) n.time) ↔
      (Windows.Sliding idsStormWindowUs 4 (faultTimes v (ns ++ [n])) n.time →
        Windows.InOneWindow idsStormWindowUs 4 (h₀.timer 0).toNat (faultTimes v (ns ++ [n])))) := by
  have hseen := (watches_run hix hsorted hrun).2
  rw [Windows.fired_iff (faultTimes_sorted hsorted)] at hseen
  have hnow : ∀ t ∈ faultTimes v (ns ++ [n]), t ≤ n.time := by
    intro t ht
    rw [List.map_append, ← List.cons_append] at hsorted
    have hmax := ((Windows.pairwise_concat (x := n.time)).mp hsorted).2
    have hmem := faultTimes_subset ht
    rw [List.map_append] at hmem
    rcases List.mem_append.mp hmem with hold | hnew
    · exact hmax t (List.mem_cons_of_mem _ hold)
    · exact Nat.le_of_eq (List.mem_singleton.mp hnew)
  have hsound : Windows.InOneWindow idsStormWindowUs 4 (h₀.timer 0).toNat
      (faultTimes v (ns ++ [n])) →
      Windows.Sliding idsStormWindowUs 4 (faultTimes v (ns ++ [n])) n.time :=
    Windows.sliding_of_window hnow
  refine ⟨hseen, fun h => hsound (hseen.mp h), ?_⟩
  rw [hseen]
  exact ⟨fun hiff => hiff.mpr, fun hone => ⟨hsound, hone⟩⟩

end Runs

theorem idx_one : idx 1 = some ⟨0, by decide⟩ := rfl

/-- A memory fault of VM 1 at a time. -/
def faultAt (t : U64) : Notice := ⟨fun _ => t, 1, trustFaultMem, 0⟩

theorem exists_fiveFaults :
    letI := Stage2.poolAt2M
    ∃ h, exec notify (idsInit Hyp.blank)
      ([faultAt 1, faultAt 2, faultAt 3, faultAt 4] ++ [faultAt 5]) = some h :=
  ⟨_, rfl⟩

theorem storm_detection_fiveFaults :
    letI := Stage2.poolAt2M
    ∃ h, exec notify (idsInit Hyp.blank)
        ([faultAt 1, faultAt 2, faultAt 3, faultAt 4] ++ [faultAt 5]) = some h ∧
      StormSeen Hyp.blank 1 ([faultAt 1, faultAt 2, faultAt 3, faultAt 4] ++ [faultAt 5]) := by
  let _ := Stage2.poolAt2M
  obtain ⟨h, hrun⟩ := exists_fiveFaults
  have hiff := storm_detection_iff (v := 1) idx_one (by decide) hrun
  exact ⟨h, hrun, hiff.1.mpr ⟨0, .init, by decide⟩⟩

/-- Four faults at the end of the first second, and one in the next. -/
def burst : List Notice := [faultAt 900000, faultAt 910000, faultAt 920000, faultAt 930000]

theorem exists_burst :
    letI := Stage2.poolAt2M
    ∃ h, exec notify (idsInit Hyp.blank) (burst ++ [faultAt 1010000]) = some h :=
  ⟨_, rfl⟩

/-- **A burst across two windows is not seen**: five faults within 110
milliseconds. -/
theorem burst_across_windows :
    letI := Stage2.poolAt2M
    ∃ h, exec notify (idsInit Hyp.blank) (burst ++ [faultAt 1010000]) = some h ∧
      Windows.Sliding idsStormWindowUs 4 (faultTimes 1 (burst ++ [faultAt 1010000])) 1010000 ∧
      ¬ StormSeen Hyp.blank 1 (burst ++ [faultAt 1010000]) := by
  let _ := Stage2.poolAt2M
  obtain ⟨h, hrun⟩ := exists_burst
  refine ⟨h, hrun, ⟨1010000, Nat.le_refl _, by decide⟩, ?_⟩
  rw [(watches_run (v := 1) idx_one (by decide) hrun).2]
  decide

end Vse

end HypervisorBase
