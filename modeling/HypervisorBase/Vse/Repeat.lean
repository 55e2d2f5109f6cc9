import HypervisorBase.Common.Streak
import HypervisorBase.Vse.Audit
/-!
# Repeat detection

The repeat monitor of a VM keeps the type of its last fault and how often
it has come in a row. Both start as zero, and zero is a fault type too.
`Tracks` says that the monitor counts the streak at the end of the VM's
own faults all the same, whatever other VMs do in between; the alert is
then given at the third fault of every maximal run and at no other.
-/

namespace HypervisorBase

namespace Vse

variable {h h' : Hyp} {id : U32} {ix : Fin maxVms} {l : List IdsRecord} {ts : List U32} {t : U32}

/-- The type of the fault of a VM that an operation notifies. -/
def faultOf (v : U32) : TrustOp → Option U32
  | .notifyFault id t _ => if id = v then some t else none
  | _ => none

/-- **The VM's own faults**, by type. -/
def faultTypes (v : U32) (ops : List TrustOp) : List U32 := ops.filterMap (faultOf v)

/-- The faults of all VMs. -/
def faultCount (ops : List TrustOp) : ℕ :=
  ops.countP fun op => match op with
    | .notifyFault .. => true
    | _ => false

theorem faultTypes_concat (v : U32) (ops : List TrustOp) (op : TrustOp) :
    faultTypes v (ops ++ [op]) = faultTypes v ops ++ (faultOf v op).toList := by
  rw [faultTypes, List.filterMap_append]
  cases hop : faultOf v op with
  | none => rw [List.filterMap_cons_none hop]; rfl
  | some t => rw [List.filterMap_cons_some hop]; rfl

/-- A VM has no more faults than there are. -/
theorem length_faultTypes_le (v : U32) (ops : List TrustOp) :
    (faultTypes v ops).length ≤ faultCount ops := by
  induction ops with
  | nil => exact Nat.le_refl 0
  | cons op ops ih =>
    rw [faultTypes, faultCount] at ih ⊢
    rw [List.countP_cons, List.filterMap_cons]
    cases op with
    | notifyFault id t d =>
      by_cases hid : id = v
      · simpa [faultOf, hid] using ih
      · simp only [faultOf, if_neg hid]
        exact Nat.le_trans ih (Nat.le_add_right _ _)
    | _ => simpa [faultOf] using ih

/-- An operation that notifies no VM notifies none of them. -/
theorem faultOf_unheard {op : TrustOp} (hop : ∀ v t d, op = .notifyFault v t d → idx v = none)
    (ix : Fin maxVms) : faultOf (vmIdOf ix) op = none := by
  cases op with
  | notifyFault v t d =>
    refine if_neg fun heq => ?_
    have hnone := hop v t d rfl
    rw [heq, idx_vmIdOf] at hnone
    cases hnone
  | _ => rfl

/-! ## The monitor and the streak -/

/-- **The monitor counts the streak at the end of these faults.** Before
the first fault it stands at none, of type zero. -/
def Tracks (m : IdsVmMon) (ts : List U32) : Prop :=
  ∃ k, EndsRun k m.lastFaultType ts ∧ (k = 0 → ts = []) ∧ m.repeatRun = BitVec.ofNat 32 k

theorem tracks_idsInit (h : Hyp) (ix : Fin maxVms) : Tracks ((idsInit h).ids.mon ix) [] :=
  ⟨0, endsRun_nil _, fun _ => rfl, rfl⟩

/-- **One fault.** -/
theorem Tracks.noted (ht : Tracks (h.ids.mon ix) ts) (hn : Noted id t ix h h') :
    Tracks (h'.ids.mon ix) (ts ++ [t]) := by
  obtain ⟨k, hstreak, hempty, hrun⟩ := ht
  have htype := hn.type
  have hnew := hn.run
  by_cases hsame : t = (h.ids.mon ix).lastFaultType
  · rw [if_pos hsame, hrun] at hnew
    refine ⟨k + 1, ?_, nofun, ?_⟩
    · rw [htype]
      rw [← hsame] at hstreak
      exact hstreak.concat
    · rw [hnew, BitVec.ofNat_add]
      rfl
  · rw [if_neg hsame] at hnew
    refine ⟨1, ?_, nofun, hnew⟩
    rw [htype]
    exact hstreak.concat_of_ne hempty hsame

/-- **The third of a maximal run**, as the monitor sees it. -/
theorem repeatDue_iff (ht : Tracks (h.ids.mon ix) ts) (hfew : ts.length + 1 < 2 ^ 32) :
    RepeatDue h ix t ↔ EndsRun 3 t (ts ++ [t]) := by
  obtain ⟨k, hstreak, hempty, hrun⟩ := ht
  have hk := hstreak.le_length
  have hthree : idsRepeatCount = BitVec.ofNat 32 3 := rfl
  rw [RepeatDue, hrun, hthree, show (1 : U32) = BitVec.ofNat 32 1 from rfl, ← BitVec.ofNat_add]
  constructor
  · rintro ⟨hsame, hcount⟩
    have hnat := congrArg BitVec.toNat hcount
    rw [BitVec.toNat_ofNat, BitVec.toNat_ofNat] at hnat
    obtain rfl : k = 2 := by omega
    rw [← hsame] at hstreak
    exact hstreak.concat
  · intro hthird
    by_cases hsame : t = (h.ids.mon ix).lastFaultType
    · rw [← hsame] at hstreak
      exact ⟨hsame, congrArg _ (hstreak.concat.unique hthird)⟩
    · have hone := (hstreak.concat_of_ne hempty hsame).unique hthird
      exact absurd hone (by decide)

/-! ## Runs -/

section Runs

variable [P : PtPool]

/-- **Every monitor tracks its VM throughout a run.** -/
theorem tracks_run {h₀ : Hyp} {ops : List TrustOp}
    (hrun : exec trustStep (idsInit h₀) ops = some h) (ix : Fin maxVms) :
    Tracks (h.ids.mon ix) (faultTypes (vmIdOf ix) ops) := by
  induction ops using List.reverseRecOn generalizing h with
  | nil =>
    obtain rfl := Option.some.inj hrun
    exact tracks_idsInit h₀ ix
  | append_singleton ops op ih =>
    rw [exec_append] at hrun
    obtain ⟨g, hbefore, hrun⟩ := Option.bind_eq_some_iff.mp hrun
    obtain ⟨h', hstep, hrun⟩ := Option.bind_eq_some_iff.mp hrun
    obtain rfl := Option.some.inj hrun
    obtain ⟨hids, hl⟩ := recorded_run hbefore
    have htracks := ih hbefore
    rw [faultTypes_concat]
    rcases trustStep_heard hl hids hstep with ⟨v, t, d, jx, rfl, hjx, hnoted⟩ | ⟨hop, hquiet⟩
    · obtain rfl : v = vmIdOf jx := idx_eq_some hjx
      by_cases hix : ix = jx
      · rw [hix] at htracks ⊢
        rw [faultOf, if_pos rfl]
        exact htracks.noted hnoted
      · have hne : vmIdOf jx ≠ vmIdOf ix := fun heq => hix (vmIdOf_inj heq).symm
        rw [faultOf, if_neg hne, Option.toList_none, List.append_nil, hnoted.others ix hix]
        exact htracks
    · rw [faultOf_unheard hop ix, Option.toList_none, List.append_nil, Tracks, hquiet.type,
        hquiet.run]
      exact htracks

omit P in
/-- **The operation notifies fault number `IDS_REPEAT_COUNT` of a maximal
run** in the VM's own faults. -/
def RunsOut (v : U32) (before : List TrustOp) (op : TrustOp) : Prop :=
  ∃ t, faultOf v op = some t ∧ EndsRun idsRepeatCount.toNat t (faultTypes v (before ++ [op]))

/-- **Repeat detection is exact.** In every history of fewer than 2^32
faults after `ids_init`, with whatever other operations in between, each
operation gives a VM one repeat alert if it notifies the third fault of a
maximal run in the VM's own faults, and else none. -/
theorem repeat_alerts_exact {h₀ h h' : Hyp} {before after : List TrustOp} {op : TrustOp}
    (hfew : faultCount (before ++ op :: after) < 2 ^ 32)
    (hrun : exec trustStep (idsInit h₀) before = some h) (hstep : trustStep h op = some h')
    (ix : Fin maxVms) :
    (RunsOut (vmIdOf ix) before op → alertsOf .repeat (vmIdOf ix) (appended h h') = 1) ∧
    (¬ RunsOut (vmIdOf ix) before op → alertsOf .repeat (vmIdOf ix) (appended h h') = 0) := by
  obtain ⟨hids, hl⟩ := recorded_run hrun
  rcases trustStep_heard hl hids hstep with ⟨v, t, d, jx, rfl, hjx, hnoted⟩ | ⟨hop, hquiet⟩
  · obtain rfl : v = vmIdOf jx := idx_eq_some hjx
    obtain ⟨halerts, -, -⟩ := hnoted.alerts hl (vmIdOf ix)
    -- an alert is due exactly if the run is this VM's
    have hdue : vmIdOf jx = vmIdOf ix ∧ RepeatDue h jx t ↔
        RunsOut (vmIdOf ix) before (.notifyFault (vmIdOf jx) t d) := by
      have hlen : (faultTypes (vmIdOf jx) before).length + 1 < 2 ^ 32 := by
        have hle := length_faultTypes_le (vmIdOf jx) before
        rw [faultCount, List.countP_append, List.countP_cons_of_pos rfl, ← faultCount] at hfew
        omega
      have htrack := repeatDue_iff (t := t) (tracks_run hrun jx) hlen
      constructor
      · rintro ⟨hsame, hrepeat⟩
        refine ⟨t, if_pos hsame, ?_⟩
        rw [faultTypes_concat, faultOf, if_pos hsame, ← hsame]
        exact htrack.mp hrepeat
      · rintro ⟨t', hfault, hthird⟩
        obtain ⟨hsame, ht⟩ : vmIdOf jx = vmIdOf ix ∧ t = t' := by
          simpa [faultOf] using hfault
        rw [faultTypes_concat, hfault, ← hsame, ← ht] at hthird
        exact ⟨hsame, htrack.mpr hthird⟩
    rw [halerts]
    exact ⟨fun hout => if_pos (hdue.mpr hout), fun hout => if_neg fun hboth => hout (hdue.mp hboth)⟩
  · refine ⟨?_, fun _ => hquiet.alerts _ _ (by decide)⟩
    rintro ⟨t, hfault, -⟩
    rw [faultOf_unheard hop ix] at hfault
    cases hfault

end Runs

/-- Three faults of one VM after `ids_init`: the third gives the alert. -/
theorem repeat_alert_third :
    letI := Stage2.poolAt2M
    ∃ h h', exec trustStep (idsInit Hyp.blank)
        [.notifyFault 1 0 0, .notifyFault 1 0 0] = some h ∧
      trustStep h (.notifyFault 1 0 0) = some h' ∧ alertsOf .repeat 1 (appended h h') = 1 := by
  let _ := Stage2.poolAt2M
  have hfew : faultCount ([.notifyFault 1 0 0, .notifyFault 1 0 0] ++ .notifyFault 1 0 0 :: []) <
      2 ^ 32 := by decide
  obtain ⟨h, h', hrun, hstep⟩ : ∃ h h',
      exec trustStep (idsInit Hyp.blank)
        [.notifyFault 1 0 0, .notifyFault 1 0 0] = some h ∧
      trustStep h (.notifyFault 1 0 0) = some h' := ⟨_, _, rfl, rfl⟩
  refine ⟨h, h', hrun, hstep, (repeat_alerts_exact hfew hrun hstep ⟨0, by decide⟩).1 ?_⟩
  exact ⟨0, rfl, [], rfl, by decide⟩

end Vse

end HypervisorBase
