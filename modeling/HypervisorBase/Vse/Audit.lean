import Mathlib.Order.Fin.Basic
import HypervisorBase.Common.Run
import HypervisorBase.Stage2.Queries
import HypervisorBase.Vse.Levels
import HypervisorBase.Vse.Log
/-!
# The audit log

Beside a run of the trust engine and the detector stands the list of all
the records it has appended (`written`). A call appends what its
notification or its poll does (`Noted`, `PollDone`), and the ring shows
it. From that follows that the counters of alerts, anomalies and
enforcements agree after any run, and what `ids_log_count` and
`ids_log_at` return: the newest records, oldest first, until the total
wraps around.
-/

namespace HypervisorBase

namespace Vse

variable {h h' h'' : Hyp} {id : U32} {ix : Fin maxVms} {e : Err} {l rs rs' : List IdsRecord}

/-! ## A poll -/

/-- The id of the VM whose record stands at an index. -/
def vmIdOf (ix : Fin maxVms) : U32 := BitVec.ofNat 32 (ix.val + 1)

theorem idx_vmIdOf (ix : Fin maxVms) : idx (vmIdOf ix) = some ix := idx_ofNat ix.isLt

theorem vmIdOf_inj {ix jx : Fin maxVms} (heq : vmIdOf ix = vmIdOf jx) : ix = jx := by
  have hix := idx_vmIdOf ix
  rw [heq, idx_vmIdOf] at hix
  exact (Option.some.inj hix).symm

/-- A poll finds the VM worse off than the last one saw it. -/
def DropAt (h : Hyp) (ix : Fin maxVms) : Prop :=
  (h.ids.mon ix).lastSeenLevel.rank < (trustGet h (vmIdOf ix)).rank ∧
    (h.ids.mon ix).lastSeenLevel ≠ .unknown

instance (h : Hyp) (ix : Fin maxVms) : Decidable (DropAt h ix) :=
  inferInstanceAs (Decidable (_ ∧ _))

/-- The VMs a poll finds worse off. -/
def dropped (h : Hyp) : List (Fin maxVms) := (List.finRange maxVms).filter fun ix => DropAt h ix

theorem length_dropped (h : Hyp) : (dropped h).length ≤ 4 := by
  refine Nat.le_trans (List.length_filter_le ..) ?_
  rw [List.length_finRange]
  exact Nat.le_refl 4

/-- The two levels as a record carries them. -/
def levelPair (before now : TrustLevel) : U64 := BitVec.ofNat 64 (before.rank * 256 + now.rank)

/-- **What a scan over some VMs does**, with the number of drops so far. -/
structure Polled (L : List (Fin maxVms)) (n : U32) (h : Hyp) (st : U32 × Hyp) : Prop where
  trust : st.2.trust = h.trust
  initialized : st.2.ids.initialized = h.ids.initialized
  mon : ∀ jx, st.2.ids.mon jx = if jx ∈ L then
    { h.ids.mon jx with lastSeenLevel := trustGet h (vmIdOf jx) } else h.ids.mon jx
  number : st.1 = n + BitVec.ofNat 32 (L.filter fun ix => DropAt h ix).length
  records : ∃ rs, Appends rs h st.2 ∧ rs.map (fun r => (brief r, r.detail)) =
    (L.filter fun ix => DropAt h ix).map fun ix => ((.trustDrop, .alert, vmIdOf ix),
      levelPair (h.ids.mon ix).lastSeenLevel (trustGet h (vmIdOf ix)))

/-- The body of the scan. -/
theorem pollOne_eq (n : U32) (h : Hyp) (ix : Fin maxVms) : pollOne (n, h) ix =
    let seen : IdsVmMon := { h.ids.mon ix with lastSeenLevel := trustGet h (vmIdOf ix) }
    if DropAt h ix then
      (n + 1, (idsAlert h (vmIdOf ix) .trustDrop 0
        (levelPair (h.ids.mon ix).lastSeenLevel (trustGet h (vmIdOf ix)))).setMon ix seen)
    else (n, h.setMon ix seen) := by
  unfold pollOne
  dsimp only
  by_cases hdrop : DropAt h ix
  · rw [if_pos hdrop]
    simp only [DropAt, vmIdOf] at hdrop
    simp only [if_pos hdrop]
    rfl
  · rw [if_neg hdrop]
    simp only [DropAt, vmIdOf] at hdrop
    simp only [if_neg hdrop]
    rfl

theorem pollOne_polled (n : U32) (h : Hyp) (ix : Fin maxVms) :
    Polled [ix] n h (pollOne (n, h) ix) := by
  rw [pollOne_eq]
  dsimp only
  have hmon : ∀ (g : Hyp) jx, g.ids.mon = h.ids.mon →
      (g.setMon ix { h.ids.mon ix with lastSeenLevel := trustGet h (vmIdOf ix) }).ids.mon jx =
        if jx ∈ [ix] then { h.ids.mon jx with lastSeenLevel := trustGet h (vmIdOf jx) }
        else h.ids.mon jx := by
    intro g jx hg
    by_cases hjx : jx = ix
    · rw [if_pos (List.mem_singleton.mpr hjx), hjx, mon_setMon]
    · rw [if_neg fun hmem => hjx (List.mem_singleton.mp hmem), mon_setMon_of_ne g _ hjx, hg]
  by_cases hdrop : DropAt h ix
  · have hfilter : [ix].filter (fun ix => DropAt h ix) = [ix] := by simp [hdrop]
    rw [if_pos hdrop]
    refine ⟨rfl, rfl, fun jx => hmon _ jx rfl, ?_, ?_⟩
    · rw [hfilter]
      rfl
    · rw [hfilter]
      have halert := appends_idsAlert h (vmIdOf ix) .trustDrop 0
        (levelPair (h.ids.mon ix).lastSeenLevel (trustGet h (vmIdOf ix)))
      exact ⟨_, halert.append_nil (appends_setMon ..), rfl⟩
  · have hfilter : [ix].filter (fun ix => DropAt h ix) = [] := by simp [hdrop]
    rw [if_neg hdrop]
    refine ⟨rfl, rfl, fun jx => hmon _ jx rfl, ?_, ?_⟩
    · rw [hfilter]
      exact (BitVec.add_zero n).symm
    · rw [hfilter]
      exact ⟨[], appends_setMon .., rfl⟩

/-- The scan goes on where it has not been. -/
theorem Polled.cons {L : List (Fin maxVms)} {n : U32} {st st' : U32 × Hyp} (hix : ix ∉ L)
    (a : Polled [ix] n h st) (b : Polled L st.1 st.2 st') : Polled (ix :: L) n h st' := by
  have hget : ∀ v, trustGet st.2 v = trustGet h v := fun v => by rw [trustGet, trustGet, a.trust]
  have hrest : ∀ jx ∈ L, st.2.ids.mon jx = h.ids.mon jx := by
    intro jx hjx
    rw [a.mon, if_neg]
    rintro hmem
    exact hix (List.mem_singleton.mp hmem ▸ hjx)
  have hdrop : L.filter (fun jx => DropAt st.2 jx) = L.filter fun jx => DropAt h jx := by
    refine List.filter_congr fun jx hjx => ?_
    rw [decide_eq_decide, DropAt, DropAt, hrest jx hjx, hget]
  have hsplit : (ix :: L).filter (fun jx => DropAt h jx) =
      [ix].filter (fun jx => DropAt h jx) ++ L.filter fun jx => DropAt h jx := by
    rw [← List.filter_append]
    rfl
  refine ⟨b.trust.trans a.trust, b.initialized.trans a.initialized, fun jx => ?_, ?_, ?_⟩
  · rw [b.mon, hget]
    by_cases hjx : jx ∈ L
    · rw [if_pos hjx, if_pos (List.mem_cons_of_mem ix hjx), hrest jx hjx]
    · rw [if_neg hjx, a.mon]
      simp only [List.mem_cons, hjx, List.not_mem_nil, or_false]
  · rw [b.number, a.number, hdrop, hsplit, List.length_append, BitVec.ofNat_add, BitVec.add_assoc]
  · obtain ⟨rs, hrs, hmap⟩ := a.records
    obtain ⟨rs', hrs', hmap'⟩ := b.records
    refine ⟨rs ++ rs', hrs.trans hrs', ?_⟩
    rw [List.map_append, hsplit, List.map_append, hmap, hmap', hdrop]
    refine congrArg _ (List.map_congr_left fun jx hjx => ?_)
    rw [hrest jx (List.mem_of_mem_filter hjx), hget]

/-- The scan, by induction on the VMs still to be looked at. -/
theorem foldl_polled {L : List (Fin maxVms)} (hL : L.Nodup) (n : U32) (h : Hyp) :
    Polled L n h (L.foldl pollOne (n, h)) := by
  induction L generalizing n h with
  | nil =>
    refine ⟨rfl, rfl, fun _ => rfl, (BitVec.add_zero n).symm, [], ?_, rfl⟩
    exact appends_nil rfl
  | cons ix L ih =>
    obtain ⟨hix, hL⟩ := List.nodup_cons.mp hL
    exact (pollOne_polled n h ix).cons hix (ih hL _ _)

/-- Promotion is not the detector's business. -/
theorem ids_autoPromoteTick (h : Hyp) (nowUs : U64) :
    (trustAutoPromoteTick h nowUs).2.ids = h.ids :=
  trustAutoPromoteTick_keeps (R := fun g => g.ids = h.ids) rfl fun _ _ _ hg =>
    promoteOne_keeps (R := fun g => g.ids = h.ids) hg fun _ _ _ => (ids_trustSet ..).trans hg

/-- **What a poll does**: it counts and logs the drops since it last
looked, remembers the levels it has seen, promotes, and leaves its
heartbeat. -/
structure PollDone (h h' : Hyp) (n : U32) : Prop where
  initialized : h'.ids.initialized = true
  mon : ∀ jx, h'.ids.mon jx = { h.ids.mon jx with lastSeenLevel := trustGet h (vmIdOf jx) }
  promoted : ∃ g, g.trust = h.trust ∧ h'.trust = (trustAutoPromoteTick g (h.timer 0)).2.trust
  number : n = BitVec.ofNat 32 (dropped h).length
  records : ∃ rs r, Appends (rs ++ [r]) h h' ∧ brief r = (.poll, .info, 0) ∧
    rs.map (fun r => (brief r, r.detail)) = (dropped h).map fun ix =>
      ((.trustDrop, .alert, vmIdOf ix),
        levelPair (h.ids.mon ix).lastSeenLevel (trustGet h (vmIdOf ix)))

theorem idsPoll_of_off (hids : ¬ h.ids.initialized = true) : (idsPoll h).2 = h := by
  unfold idsPoll
  rw [if_pos (by simpa using hids)]

/-- **A poll**: the alerts of its scan, and one record of its own. -/
theorem idsPoll_done (hids : h.ids.initialized = true) :
    PollDone h (idsPoll h).2 (idsPoll h).1 := by
  have hscan := foldl_polled (List.nodup_finRange maxVms) 0 (timerNowUs h).2
  obtain ⟨⟨n, g⟩, hfold⟩ : ∃ st,
      (List.finRange maxVms).foldl pollOne (0, (timerNowUs h).2) = st := ⟨_, rfl⟩
  unfold idsPoll
  rw [if_neg (by rw [hids]; decide)]
  dsimp only
  rw [hfold] at hscan ⊢
  dsimp only
  obtain ⟨k, hk⟩ : ∃ k, k = (trustAutoPromoteTick g (timerNowUs h).1).2 := ⟨_, rfl⟩
  have hkids : k.ids = g.ids := hk ▸ ids_autoPromoteTick g _
  rw [← hk]
  refine ⟨?_, fun jx => ?_, ⟨g, hscan.trust, ?_⟩, ?_, ?_⟩
  · change k.ids.initialized = true
    rw [hkids]
    exact hscan.initialized.trans hids
  · change k.ids.mon jx = _
    rw [hkids]
    refine (hscan.mon jx).trans ?_
    rw [if_pos (List.mem_finRange jx)]
    rfl
  · change k.trust = _
    rw [hk]
    rfl
  · refine hscan.number.trans ?_
    exact BitVec.zero_add _
  · obtain ⟨rs, hrs, hmap⟩ := hscan.records
    have hread : Appends [] h (timerNowUs h).2 := appends_nil rfl
    have hbeat := appends_idsLog k 0 .poll (show IdsSeverity.info ≠ .alert by decide) 0
      (k.trust.totalFaults.setWidth 64)
    refine ⟨rs, _, (((hread.nil_append hrs).append_nil (appends_nil_of_ids hkids)).trans
      hbeat).append_nil (appends_nil rfl), rfl, hmap⟩

/-- **The records of a poll**, read off the ring: the drops, and the
heartbeat. -/
theorem idsPoll_appended (hl : Recorded l h) (hids : h.ids.initialized = true) :
    ∃ rs r, appended h (idsPoll h).2 = rs ++ [r] ∧ Recorded (l ++ (rs ++ [r])) (idsPoll h).2 ∧
      brief r = (.poll, .info, 0) ∧ (∀ r' ∈ rs, ∃ jx, brief r' = (.trustDrop, .alert, vmIdOf jx)) ∧
      rs.map (fun r => (brief r, r.detail)) = (dropped h).map fun ix =>
        ((.trustDrop, .alert, vmIdOf ix),
          levelPair (h.ids.mon ix).lastSeenLevel (trustGet h (vmIdOf ix))) := by
  obtain ⟨rs, r, ha, hbeat, hmap⟩ := (idsPoll_done hids).records
  have hlen := congrArg List.length hmap
  have hdropped := length_dropped h
  rw [List.length_map, List.length_map] at hlen
  have hfew : (rs ++ [r]).length ≤ 128 := by
    rw [List.length_append, List.length_singleton]
    omega
  refine ⟨rs, r, appended_eq hl ha hfew, ha.recorded hl, hbeat, fun r' hr' => ?_, hmap⟩
  have hpair : (brief r', r'.detail) ∈ rs.map fun r => (brief r, r.detail) :=
    List.mem_map.mpr ⟨r', hr', rfl⟩
  rw [hmap] at hpair
  obtain ⟨jx, -, heq⟩ := List.mem_map.mp hpair
  exact ⟨jx, (congrArg Prod.fst heq).symm⟩

/-! ## The other operations -/

theorem ids_trustRestore (h : Hyp) (id : U32) : (trustRestore h id).2.ids = h.ids := by
  unfold trustRestore
  split
  · rfl
  · rfl
  rename_i ix i _ _
  split
  · rfl
  dsimp only
  split
  · rcases vmResume_cases (trustSet _ id .degraded).2 i with heq | ⟨vm, -, -, heq⟩
    · rw [heq]
      exact ids_trustSet ..
    · rw [heq]
      exact ids_trustSet ..
  · exact ids_trustSet ..

theorem ids_onVm {f : Hyp → ℕ → Err × Hyp} (hf : ∀ i, (f h i).2.ids = h.ids) (id : U32) :
    (Hypercall.onVm f h id).2.ids = h.ids := by
  unfold Hypercall.onVm
  split
  · rfl
  · exact hf _

section Runs

variable [P : PtPool]

theorem ids_trustReportFault {faultType : U32} {detail : U64}
    (hrun : trustReportFault h id faultType detail = some (e, h')) : h'.ids = h.ids := by
  rcases trustReportFault_inv hrun with ⟨rfl, -⟩ | ⟨ix, g, -, -, rfl, ⟨-, e', hquar⟩ | ⟨-, rfl | ⟨-, rfl⟩⟩⟩
  · rfl
  · exact (ids_trustQuarantine hquar).trans rfl
  · rfl
  · exact ids_trustSet ..

theorem ids_failoverTrigger (hrun : failoverTrigger h id = some (e, h')) : h'.ids = h.ids := by
  rcases failoverTrigger_inv hrun with rfl | ⟨ix, hdo⟩
  · rfl
  · exact ids_doFailover hdo

variable {op : TrustOp}

/-- **An operation is a notification, a poll, or leaves the detector
alone.** -/
theorem trustStep_ids (hrun : trustStep h op = some h') :
    (∀ v t d, op ≠ .notifyFault v t d) ∧ op ≠ .poll ∧ h'.ids = h.ids ∨
    (∃ v t d, op = .notifyFault v t d ∧ idsNotifyFault h v t d = some h') ∨
    op = .poll ∧ h' = (idsPoll h).2 := by
  cases trustStep_effect hrun with
  | notifyFault hcall => exact .inr (.inl ⟨_, _, _, rfl, hcall⟩)
  | poll => exact .inr (.inr ⟨rfl, rfl⟩)
  | reportFault hcall => exact .inl ⟨nofun, nofun, ids_trustReportFault hcall⟩
  | quarantine hcall => exact .inl ⟨nofun, nofun, ids_trustQuarantine hcall⟩
  | revoke vmId => exact .inl ⟨nofun, nofun, ids_trustRevoke h vmId⟩
  | restore vmId => exact .inl ⟨nofun, nofun, ids_trustRestore h vmId⟩
  | autoPromoteTick nowUs => exact .inl ⟨nofun, nofun, ids_autoPromoteTick h nowUs⟩
  | failoverRegister vmId backupPa livePa backupSize entryIpa =>
    rw [failoverRegister_rest]
    exact .inl ⟨nofun, nofun, rfl⟩
  | failoverTrigger hcall => exact .inl ⟨nofun, nofun, ids_failoverTrigger hcall⟩
  | failoverOnQuarantine hcall => exact .inl ⟨nofun, nofun, ids_failoverOnQuarantine hcall⟩
  | hvcStop vmId => exact .inl ⟨nofun, nofun, ids_onVm (ids_vmStop h) vmId⟩
  | hvcSuspend vmId =>
    refine .inl ⟨nofun, nofun, ids_onVm (fun i => ?_) vmId⟩
    rcases vmSuspend_cases h i with heq | ⟨vm, -, -, heq⟩ <;> rw [heq]
  | hvcResume vmId =>
    refine .inl ⟨nofun, nofun, ids_onVm (fun i => ?_) vmId⟩
    rcases vmResume_cases h i with heq | ⟨vm, -, -, heq⟩ <;> rw [heq]

/-! ## Runs -/

/-- **The records a run appends**, call after call. -/
def written (h : Hyp) : List TrustOp → List IdsRecord
  | [] => []
  | op :: ops =>
    match trustStep h op with
    | none => []
    | some h' => appended h h' ++ written h' ops

variable {ops : List TrustOp}

theorem written_cons (hrun : trustStep h op = some h') :
    written h (op :: ops) = appended h h' ++ written h' ops := by
  rw [written, hrun]

/-- **A call appends what the ring shows.** -/
theorem recorded_appended (hl : Recorded l h) (hrun : trustStep h op = some h') :
    Recorded (l ++ appended h h') h' := by
  have hfew : ∀ {rs}, Appends rs h h' → rs.length ≤ 128 → Recorded (l ++ appended h h') h' := by
    intro rs ha hlen
    rw [appended_eq hl ha hlen]
    exact ha.recorded hl
  rcases trustStep_ids hrun with ⟨-, -, hids⟩ | ⟨v, t, d, -, hnotify⟩ | ⟨-, rfl⟩
  · exact hfew (appends_nil_of_ids hids) (Nat.zero_le _)
  · rcases idsNotifyFault_inv hnotify with ⟨-, rfl⟩ | ⟨ix, -, hids, hix, -, -⟩
    · exact hfew (appends_nil_of_ids rfl) (Nat.zero_le _)
    · obtain ⟨storm, hstorm, -, rs, ha, hmap⟩ := (idsNotifyFault_noted hids hix hnotify).logs
      refine hfew ha ?_
      have hlen := congrArg List.length hmap
      rw [List.length_map] at hlen
      rw [hlen]
      exact Nat.le_trans (length_noteOf hstorm) (by decide)
  · by_cases hids : h.ids.initialized = true
    · obtain ⟨rs, r, happ, hrecorded, -⟩ := idsPoll_appended hl hids
      rw [happ]
      exact hrecorded
    · rw [idsPoll_of_off hids] at hfew ⊢
      exact hfew (appends_nil_of_ids rfl) (Nat.zero_le _)

/-- **The ring after a run.** -/
theorem recorded_written {g : Hyp} (hl : Recorded l h)
    (hrun : exec trustStep h ops = some g) : Recorded (l ++ written h ops) g := by
  induction ops generalizing h l with
  | nil =>
    obtain rfl := Option.some.inj hrun
    rw [written, List.append_nil]
    exact hl
  | cons op ops ih =>
    obtain ⟨h', hstep, hrun⟩ := Option.bind_eq_some_iff.mp hrun
    rw [written_cons hstep, ← List.append_assoc]
    exact ih (recorded_appended hl hstep) hrun

/-- **A detector that is on** notes the fault of a VM, polls, or is left
alone. -/
theorem trustStep_detector (hids : h.ids.initialized = true)
    (hrun : trustStep h op = some h') :
    (∃ v t d ix, op = .notifyFault v t d ∧ idx v = some ix ∧ idsNotifyFault h v t d = some h' ∧
      Noted v t ix h h') ∨
    op = .poll ∧ h' = (idsPoll h).2 ∨
    (∀ v t d, op = .notifyFault v t d → idx v = none) ∧ op ≠ .poll ∧ h'.ids = h.ids := by
  rcases trustStep_ids hrun with ⟨hop, hpoll, hsame⟩ | ⟨v, t, d, rfl, hnotify⟩ | hpoll
  · exact .inr (.inr ⟨fun v t d heq => absurd heq (hop v t d), hpoll, hsame⟩)
  · cases hix : idx v with
    | none =>
      rw [idsNotifyFault_of_off (by simp [hix])] at hnotify
      cases hnotify
      refine .inr (.inr ⟨fun v' t' d' heq => ?_, nofun, rfl⟩)
      cases heq
      exact hix
    | some ix =>
      exact .inl ⟨v, t, d, ix, rfl, hix, hnotify, idsNotifyFault_noted hids hix hnotify⟩
  · exact .inr (.inl hpoll)

/-- The detector stays on. -/
theorem initialized_trustStep (hids : h.ids.initialized = true)
    (hrun : trustStep h op = some h') : h'.ids.initialized = true := by
  rcases trustStep_detector hids hrun with ⟨v, t, d, ix, -, -, -, hnoted⟩ | ⟨-, rfl⟩ | ⟨-, -, hsame⟩
  · exact hnoted.initialized
  · exact (idsPoll_done hids).initialized
  · rw [hsame]
    exact hids

/-- **The detector in a run after `ids_init`.** -/
theorem recorded_run {h₀ : Hyp}
    (hrun : exec trustStep (idsInit h₀) ops = some h) :
    h.ids.initialized = true ∧ Recorded (written (idsInit h₀) ops) h := by
  have hon : (idsInit h₀).ids.initialized = true := rfl
  exact ⟨exec_invariant (fun _ _ _ hids hstep => initialized_trustStep hids hstep) hon hrun,
    recorded_written (recorded_idsInit h₀) hrun⟩

/-- **The balance**: in every state that notifications, polls and the
operations of the trust engine reach from `ids_init`, the alerts are the
anomalies and the enforcements, they are the records of that severity ever
appended, and the position of the ring is the total modulo its capacity.
All counters wrap at `2 ^ 32`. -/
theorem alert_balance (h₀ h : Hyp) (ops : List TrustOp)
    (hrun : exec trustStep (idsInit h₀) ops = some h) :
    h.ids.alerts = h.ids.anomalies + h.ids.enforcements ∧
    h.ids.alerts = BitVec.ofNat 32 (alertsIn (written (idsInit h₀) ops)) ∧
    h.ids.logHead = h.ids.logCount % idsLogCapacity := by
  have hl := (recorded_run hrun).2
  refine ⟨hl.alerts.trans hl.causes.symm, hl.alerts, ?_⟩
  apply BitVec.eq_of_toNat_eq
  rw [hl.head, BitVec.toNat_umod, hl.count, BitVec.toNat_ofNat,
    show idsLogCapacity.toNat = 128 from rfl]
  omega

omit P in
/-- Three faults of one type in a row, and a poll. -/
theorem alert_balance_three_faults :
    letI := Stage2.poolAt2M
    ∃ g, exec trustStep (idsInit Hyp.blank)
        [.notifyFault 1 1 0, .notifyFault 1 1 0, .notifyFault 1 1 0, .poll] = some g ∧
      g.ids.alerts = 1 ∧ g.ids.alerts = g.ids.anomalies + g.ids.enforcements := by
  let _ := Stage2.poolAt2M
  have halert : (exec trustStep (idsInit Hyp.blank)
      [.notifyFault 1 1 0, .notifyFault 1 1 0, .notifyFault 1 1 0, .poll]).map
        (fun g => g.ids.alerts) = some 1 := by decide
  obtain ⟨g, hrun, hone⟩ := Option.map_eq_some_iff.mp halert
  exact ⟨g, hrun, hone, (alert_balance _ g _ hrun).1⟩

/-! ## What an operation makes of the monitors -/

omit P in
theorem appended_of_ids (hids : h'.ids = h.ids) : appended h h' = [] := by
  rw [appended, hids, BitVec.sub_self]
  rfl

omit P in
/-- **The alerts of a notification.** -/
theorem Noted.alerts {faultType : U32} (hn : Noted id faultType ix h h') (hl : Recorded l h)
    (v : U32) :
    alertsOf .repeat v (appended h h') = (if id = v ∧ RepeatDue h ix faultType then 1 else 0) ∧
    alertsOf .rapid v (appended h h') = (if id = v ∧ RapidDue id ix h h' then 1 else 0) ∧
    alertsOf .trustDrop v (appended h h') = 0 := by
  obtain ⟨storm, hstorm, -, hlogs⟩ := hn.logs
  have hfew : (noteOf id (RepeatDue h ix faultType) storm (RapidDue id ix h h')).length ≤ 5 :=
    length_noteOf hstorm
  obtain ⟨-, hmap⟩ := hlogs.appended hl (by omega)
  simp only [alertsOf, hmap]
  exact count_noteOf hstorm v

/-- **No monitor hears of a fault**, and no alert is given but for a
drop. -/
structure Unheard (h h' : Hyp) : Prop where
  initialized : h'.ids.initialized = h.ids.initialized
  type : ∀ jx, (h'.ids.mon jx).lastFaultType = (h.ids.mon jx).lastFaultType
  run : ∀ jx, (h'.ids.mon jx).repeatRun = (h.ids.mon jx).repeatRun
  first : ∀ jx, (h'.ids.mon jx).firstFaultUs = (h.ids.mon jx).firstFaultUs
  alerts : ∀ type v, type ≠ .trustDrop → alertsOf type v (appended h h') = 0

omit P in
theorem unheard_of_ids (hids : h'.ids = h.ids) : Unheard h h' := by
  refine ⟨by rw [hids], fun _ => by rw [hids], fun _ => by rw [hids], fun _ => by rw [hids],
    fun type v _ => ?_⟩
  rw [appended_of_ids hids]
  rfl

omit P in
theorem unheard_idsPoll (hl : Recorded l h) (hids : h.ids.initialized = true) :
    Unheard h (idsPoll h).2 := by
  have hdone := idsPoll_done hids
  refine ⟨hdone.initialized.trans hids.symm, fun jx => by rw [hdone.mon], fun jx => by rw [hdone.mon],
    fun jx => by rw [hdone.mon], fun type v htype => ?_⟩
  obtain ⟨rs, r, happ, -, hbeat, hdrops, -⟩ := idsPoll_appended hl hids
  rw [happ, alertsOf, List.count_eq_zero]
  intro hmem
  obtain ⟨r', hr', hbrief⟩ := List.mem_map.mp hmem
  rcases List.mem_append.mp hr' with hr' | hr'
  · obtain ⟨jx, hdrop⟩ := hdrops r' hr'
    exact htype (congrArg Prod.fst (hbrief.symm.trans hdrop))
  · rw [List.mem_singleton.mp hr', hbeat] at hbrief
    cases hbrief

/-- **An operation is a notification of a VM, or goes unheard.** -/
theorem trustStep_heard (hl : Recorded l h) (hids : h.ids.initialized = true)
    (hrun : trustStep h op = some h') :
    (∃ v t d ix, op = .notifyFault v t d ∧ idx v = some ix ∧ Noted v t ix h h') ∨
    (∀ v t d, op = .notifyFault v t d → idx v = none) ∧ Unheard h h' := by
  rcases trustStep_detector hids hrun with ⟨v, t, d, ix, hop, hix, -, hnoted⟩ | ⟨rfl, rfl⟩ |
    ⟨hnone, -, hsame⟩
  · exact .inl ⟨v, t, d, ix, hop, hix, hnoted⟩
  · exact .inr ⟨nofun, unheard_idsPoll hl hids⟩
  · exact .inr ⟨hnone, unheard_of_ids hsame⟩

/-! ## What can be read of it -/

/-- **The newest records, oldest first**: as many as the ring holds, each
under its place in the history. -/
structure KeepsNewest (rs : List IdsRecord) (g : Hyp) : Prop where
  count : (idsLogCount g).toNat = min rs.length 128
  records : ∀ i, i < idsLogCount g →
    idsLogAt g i = rs[rs.length - (idsLogCount g).toNat + i.toNat]?

omit P in
theorem toNat_logCount (hl : Recorded l h) : h.ids.logCount.toNat = l.length % 2 ^ 32 := by
  rw [hl.count, BitVec.toNat_ofNat]

omit P in
theorem toNat_idsLogCount (h : Hyp) : (idsLogCount h).toNat = min h.ids.logCount.toNat 128 := by
  have hcap : idsLogCapacity.toNat = 128 := rfl
  unfold idsLogCount
  split
  · rename_i hlt
    rw [BitVec.lt_def, hcap] at hlt
    omega
  · rename_i hge
    rw [BitVec.lt_def, hcap] at hge
    rw [hcap]
    omega

omit P in
/-- Where the reading starts is the number of the oldest record in the
ring, up to the size of the ring. -/
theorem idsLogAt_eq (hl : Recorded l h) {i : U32} (hi : i < idsLogCount h)
    (hkept : l.length < 2 ^ 32 ∨ 128 ≤ l.length % 2 ^ 32) :
    idsLogAt h i = some (h.ids.log ((l.length - min l.length 128 + i.toNat) % 128)) := by
  have hcap : idsLogCapacity.toNat = 128 := rfl
  have hcount := toNat_logCount hl
  have hhead := hl.head
  unfold idsLogAt
  rw [if_neg (BitVec.not_le.mpr hi)]
  rw [BitVec.lt_def, toNat_idsLogCount, hcount] at hi
  refine congrArg (fun k => some (h.ids.log k)) ?_
  rw [BitVec.toNat_umod, BitVec.toNat_add, hcap]
  split
  · rename_i hle
    rw [BitVec.le_def, hcount, hcap] at hle
    have hzero : (0 : U32).toNat = 0 := rfl
    omega
  · rename_i hgt
    rw [BitVec.le_def, hcount, hcap] at hgt
    omega

omit P in
/-- **The log can be read back exactly while its total has not wrapped to
a small number.** -/
theorem keepsNewest_iff (hl : Recorded l h) :
    KeepsNewest l h ↔ l.length < 2 ^ 32 ∨ 128 ≤ l.length % 2 ^ 32 := by
  have hcount := toNat_idsLogCount h
  rw [toNat_logCount hl] at hcount
  constructor
  · intro hkeep
    have hmin := hkeep.count
    omega
  · intro hkept
    have hall : (idsLogCount h).toNat = min l.length 128 := by omega
    refine ⟨hall, fun i hi => ?_⟩
    have hlt : i.toNat < min l.length 128 := by
      rw [BitVec.lt_def, hall] at hi
      exact hi
    rw [idsLogAt_eq hl hi hkept, hall, List.getElem?_eq_getElem (by omega)]
    exact congrArg some (hl.ring _ (by omega) (by omega))

/-- **The audit log over a run.** After `ids_init`, whatever calls follow,
`ids_log_count` and `ids_log_at` give the newest records in order exactly
as long as the 32-bit total has not wrapped, or has grown past the
capacity again. -/
theorem audit_log_iff {h₀ g : Hyp}
    (hrun : exec trustStep (idsInit h₀) ops = some g) :
    KeepsNewest (written (idsInit h₀) ops) g ↔
      (written (idsInit h₀) ops).length < 2 ^ 32 ∨
        128 ≤ (written (idsInit h₀) ops).length % 2 ^ 32 :=
  keepsNewest_iff (recorded_run hrun).2

/-- Without trust services a poll finds no drop: it leaves one record. -/
theorem poll_untrusted (hl : Recorded l h) (hids : h.ids.initialized = true)
    (htrust : h.trust.initialized = false) :
    ∃ g, trustStep h .poll = some g ∧ g.ids.initialized = true ∧ g.trust.initialized = false ∧
      Recorded (l ++ appended h g) g ∧ (appended h g).length = 1 := by
  have hstep : trustStep h .poll = some (idsPoll h).2 := rfl
  refine ⟨_, hstep, (idsPoll_done hids).initialized, ?_, recorded_appended hl hstep, ?_⟩
  · rw [(onlyVse_idsPoll h).initialized, htrust]
  · obtain ⟨rs, r, happ, -, -, -, hmap⟩ := idsPoll_appended hl hids
    have hdropped : dropped h = [] := by
      refine List.filter_eq_nil_iff.mpr fun ix _ hdrop => ?_
      have hget : trustGet h (vmIdOf ix) = .unknown := by
        unfold trustGet
        split
        · rfl
        · rw [htrust]
          rfl
      have hlt := (of_decide_eq_true hdrop).1
      rw [hget] at hlt
      exact absurd hlt (Nat.not_lt_zero _)
    rw [hdropped] at hmap
    obtain rfl := List.map_eq_nil_iff.mp hmap
    rw [happ]
    rfl

theorem polls_untrusted (hl : Recorded l h) (hids : h.ids.initialized = true)
    (htrust : h.trust.initialized = false) (n : ℕ) :
    ∃ g, exec trustStep h (List.replicate n .poll) = some g ∧
      (written h (List.replicate n .poll)).length = n := by
  induction n generalizing h l with
  | zero => exact ⟨h, rfl, rfl⟩
  | succ n ih =>
    obtain ⟨k, hstep, hids', htrust', hl', hone⟩ := poll_untrusted hl hids htrust
    obtain ⟨g, hrun, hlen⟩ := ih hl' hids' htrust'
    refine ⟨g, ?_, ?_⟩
    · rw [List.replicate_succ, exec_cons, hstep]
      exact hrun
    · rw [List.replicate_succ, written_cons hstep, List.length_append, hone, hlen, Nat.add_comm]

end Runs

/-- **More polls than the ring has slots**, after `ids_init` on a machine
without trust services: the first two records are overwritten, and the
other 128 can be read. -/
theorem audit_log_full_ring :
    letI := Stage2.poolAt2M
    ∃ g, exec trustStep (idsInit Hyp.blank)
        (List.replicate 130 .poll) = some g ∧
      (written (idsInit Hyp.blank)
        (List.replicate 130 .poll)).length = 130 ∧
      (idsLogCount g).toNat = 128 ∧
      KeepsNewest (written (idsInit Hyp.blank)
        (List.replicate 130 .poll)) g := by
  let _ := Stage2.poolAt2M
  obtain ⟨g, hrun, hlen⟩ := polls_untrusted (recorded_idsInit Hyp.blank) rfl rfl 130
  have hkeeps := (audit_log_iff hrun).mpr (.inl (by rw [hlen]; decide))
  refine ⟨g, hrun, hlen, ?_, hkeeps⟩
  rw [hkeeps.count, hlen]
  rfl

/-- **After as many polls as make the total wrap** the log reads as
empty. -/
theorem audit_log_lost :
    letI := Stage2.poolAt2M
    ∃ g, exec trustStep (idsInit Hyp.blank)
        (List.replicate (2 ^ 32) .poll) = some g ∧
      (written (idsInit Hyp.blank)
        (List.replicate (2 ^ 32) .poll)).length = 2 ^ 32 ∧
      idsLogCount g = 0 ∧
      ¬ KeepsNewest (written (idsInit Hyp.blank)
        (List.replicate (2 ^ 32) .poll)) g := by
  let _ := Stage2.poolAt2M
  have hl := recorded_idsInit Hyp.blank
  obtain ⟨g, hrun, hlen⟩ := polls_untrusted hl rfl rfl (2 ^ 32)
  have hg := (recorded_run hrun).2
  refine ⟨g, hrun, hlen, BitVec.eq_of_toNat_eq ?_, fun hkeep => ?_⟩
  · rw [toNat_idsLogCount, toNat_logCount hg, hlen]
    rfl
  · have hkept := (keepsNewest_iff hg).mp hkeep
    rw [hlen] at hkept
    exact absurd hkept (by decide)

end Vse

end HypervisorBase
