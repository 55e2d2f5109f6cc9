import HypervisorBase.Vse.Audit
/-!
# Downgrades between polls

`ids_poll` reports the VMs whose level is worse than the one it remembers,
remembers the new levels, and only then promotes. What it remembers is
therefore not always the level a VM has when the poll returns: a VM it has
just promoted is remembered as degraded. `drops_reported_iff` says when the
next poll reports exactly the downgrades since then: if no VM that the
last poll promoted has fallen again.
-/

namespace HypervisorBase

namespace Vse

variable {h h' : Hyp} {ix : Fin maxVms}

/-! ## What is remembered -/

/-- Only a poll changes the level that is remembered of a VM. -/
theorem lastSeen_of_ne_poll [P : PtPool] {op : TrustOp} (hids : h.ids.initialized = true)
    (hop : op ≠ .poll) (hrun : trustStep h op = some h') (jx : Fin maxVms) :
    (h'.ids.mon jx).lastSeenLevel = (h.ids.mon jx).lastSeenLevel := by
  rcases trustStep_detector hids hrun with ⟨v, t, d, ix, -, -, -, hnoted⟩ | ⟨hpoll, -⟩ | ⟨-, -, hsame⟩
  · by_cases hjx : jx = ix
    · rw [hjx]
      exact hnoted.seen
    · rw [hnoted.others jx hjx]
  · exact absurd hpoll hop
  · rw [hsame]

/-- **Until the next poll it is the same.** -/
theorem lastSeen_run [P : PtPool] {ops : List TrustOp} (hids : h.ids.initialized = true)
    (hops : .poll ∉ ops) (hrun : exec trustStep h ops = some h') :
    h'.ids.initialized = true ∧
      ∀ jx, (h'.ids.mon jx).lastSeenLevel = (h.ids.mon jx).lastSeenLevel := by
  induction ops generalizing h with
  | nil =>
    obtain rfl := Option.some.inj hrun
    exact ⟨hids, fun _ => rfl⟩
  | cons op ops ih =>
    obtain ⟨g, hstep, hrun⟩ := Option.bind_eq_some_iff.mp hrun
    rw [List.mem_cons, not_or] at hops
    obtain ⟨hids', hseen⟩ := ih (initialized_trustStep hids hstep) hops.2 hrun
    exact ⟨hids', fun jx =>
      (hseen jx).trans (lastSeen_of_ne_poll hids (Ne.symm hops.1) hstep jx)⟩

/-- A poll changes levels only by promotion. -/
theorem trustGet_idsPoll (hs : Standing h) (ix : Fin maxVms) :
    trustGet (idsPoll h).2 (vmIdOf ix) = trustGet h (vmIdOf ix) ∨
    trustGet h (vmIdOf ix) = .degraded ∧ trustGet (idsPoll h).2 (vmIdOf ix) = .trusted := by
  have hp := idsPoll_promoted hs
  have hafter : trustGet (idsPoll h).2 (vmIdOf ix) = levelAt (idsPoll h).2 ix.val :=
    trustGet_eq hp.1.initialized ix.isLt
  have hbefore : trustGet h (vmIdOf ix) = levelAt h ix.val := trustGet_eq hs.initialized ix.isLt
  rw [hafter, hbefore]
  exact hp.2 ix.val

/-! ## What is reported -/

/-- **The VMs worse off** in one state than in another, apart from those
unknown there. -/
def WorseOff (b g : Hyp) (ix : Fin maxVms) : Prop :=
  (trustGet b (vmIdOf ix)).rank < (trustGet g (vmIdOf ix)).rank ∧ trustGet b (vmIdOf ix) ≠ .unknown

instance (b g : Hyp) (ix : Fin maxVms) : Decidable (WorseOff b g ix) :=
  inferInstanceAs (Decidable (_ ∧ _))

def worseOff (b g : Hyp) : List (Fin maxVms) := (List.finRange maxVms).filter fun ix => WorseOff b g ix

/-- The alerts for drops among some records: the VM and the levels. -/
def dropAlerts (rs : List IdsRecord) : List (U32 × U64) :=
  (rs.filter fun r => r.type = .trustDrop ∧ r.severity = .alert).map fun r => (r.vmId, r.detail)

/-- **Every downgrade since `b` is reported by the poll in `g`**, once and
with its two levels, and no other; the poll returns their number. -/
structure DropsReported (b g : Hyp) : Prop where
  alerts : dropAlerts (appended g (idsPoll g).2) = (worseOff b g).map fun ix =>
    (vmIdOf ix, levelPair (trustGet b (vmIdOf ix)) (trustGet g (vmIdOf ix)))
  number : (idsPoll g).1 = BitVec.ofNat 32 (worseOff b g).length

/-- **The alerts of a poll** are for the VMs it finds worse off than
remembered. -/
theorem dropAlerts_idsPoll {l : List IdsRecord} (hl : Recorded l h)
    (hids : h.ids.initialized = true) :
    dropAlerts (appended h (idsPoll h).2) = (dropped h).map fun ix =>
      (vmIdOf ix, levelPair (h.ids.mon ix).lastSeenLevel (trustGet h (vmIdOf ix))) := by
  obtain ⟨rs, r, happ, -, hbeat, hall, hmap⟩ := idsPoll_appended hl hids
  rw [happ, dropAlerts, List.filter_append, List.map_append]
  -- the heartbeat is no alert, and every other record is one
  have hdrops : rs.filter (fun r => r.type = .trustDrop ∧ r.severity = .alert) = rs := by
    refine List.filter_eq_self.mpr fun r' hr' => ?_
    obtain ⟨jx, hbrief⟩ := hall r' hr'
    exact decide_eq_true ⟨congrArg Prod.fst hbrief, congrArg (fun b => b.2.1) hbrief⟩
  have hpoll : [r].filter (fun r => r.type = .trustDrop ∧ r.severity = .alert) = [] := by
    have htype : r.type = .poll := congrArg Prod.fst hbeat
    simp [htype]
  rw [hdrops, hpoll, List.map_nil, List.append_nil]
  calc rs.map (fun r => (r.vmId, r.detail))
      = (rs.map fun r => (brief r, r.detail)).map fun p => (p.1.2.2, p.2) := by
        rw [List.map_map]
        rfl
    _ = (dropped h).map fun ix =>
          (vmIdOf ix, levelPair (h.ids.mon ix).lastSeenLevel (trustGet h (vmIdOf ix))) := by
        rw [hmap, List.map_map]
        rfl

/-- Two different remembered levels give different records. -/
theorem levelPair_ne {l l' l'' : TrustLevel} (hne : l ≠ l') : levelPair l l'' ≠ levelPair l' l'' := by
  cases l <;> cases l' <;> cases l'' <;> first | exact absurd rfl hne | decide

/-- **A poll reports the downgrades since `b`** exactly if what it
remembers of a VM is its level in `b`, or the VM is no worse than either. -/
theorem dropsReported_iff {b g : Hyp} {l : List IdsRecord} (hl : Recorded l g)
    (hids : g.ids.initialized = true)
    (hseen : ∀ ix, (g.ids.mon ix).lastSeenLevel = trustGet b (vmIdOf ix) ∨
      (g.ids.mon ix).lastSeenLevel = .degraded ∧ trustGet b (vmIdOf ix) = .trusted) :
    DropsReported b g ↔ ∀ ix, (g.ids.mon ix).lastSeenLevel ≠ trustGet b (vmIdOf ix) →
      (trustGet g (vmIdOf ix)).rank ≤ TrustLevel.trusted.rank := by
  have halerts := dropAlerts_idsPoll hl hids
  have hnumber := (idsPoll_done hids).number
  constructor
  · intro hrep ix hne
    by_contra hworse
    rcases hseen ix with heq | ⟨hlast, hbase⟩
    · exact hne heq
    -- the VM is worse off than in `b`, but its alert names another level
    have hmem : (vmIdOf ix, levelPair (trustGet b (vmIdOf ix)) (trustGet g (vmIdOf ix))) ∈
        dropAlerts (appended g (idsPoll g).2) := by
      rw [hrep.alerts]
      refine List.mem_map.mpr ⟨ix, List.mem_filter.mpr ⟨List.mem_finRange ix, decide_eq_true ?_⟩, rfl⟩
      rw [WorseOff, hbase]
      exact ⟨Nat.not_le.mp hworse, by decide⟩
    rw [halerts] at hmem
    obtain ⟨jx, -, heq⟩ := List.mem_map.mp hmem
    obtain ⟨hid, hpair⟩ := Prod.mk.inj heq
    rw [vmIdOf_inj hid] at hpair
    exact levelPair_ne hne hpair
  · intro hfine
    have hsame : ∀ ix, DropAt g ix ↔ WorseOff b g ix := by
      intro ix
      rw [DropAt, WorseOff]
      rcases hseen ix with heq | ⟨hlast, hbase⟩
      · rw [heq]
      · have hrank := hfine ix (by rw [hlast, hbase]; decide)
        have htwo : TrustLevel.degraded.rank = TrustLevel.trusted.rank + 1 := rfl
        rw [hlast, hbase]
        constructor
        · rintro ⟨hlt, -⟩
          omega
        · rintro ⟨hlt, -⟩
          omega
    have hlist : dropped g = worseOff b g := by
      refine List.filter_congr fun ix _ => ?_
      rw [decide_eq_decide]
      exact hsame ix
    refine ⟨?_, by rw [hnumber, hlist]⟩
    rw [halerts, hlist]
    refine List.map_congr_left fun ix hix => ?_
    rcases hseen ix with heq | ⟨hlast, hbase⟩
    · rw [heq]
    · have hrank := hfine ix (by rw [hlast, hbase]; decide)
      have hworse : WorseOff b g ix := of_decide_eq_true (List.mem_filter.mp hix).2
      rw [WorseOff, hbase] at hworse
      omega

/-! ## Runs -/

section Runs

variable [P : PtPool]

/-- **Where the levels were last sampled** in a history after `ids_init`:
by `ids_init` itself or by a poll. The first state is the one that was
sampled, the second the one it returned in. -/
inductive Sampled (h₀ : Hyp) : Hyp → Hyp → Prop
  | init : Sampled h₀ h₀ (idsInit h₀)
  | poll {before : List TrustOp} {s : Hyp} (hrun : exec trustStep (idsInit h₀) before = some s) :
      Sampled h₀ s (idsPoll s).2

omit P in
theorem standing_idsInit (hs : Standing h) : Standing (idsInit h) :=
  hs.of_same ⟨rfl, rfl, rfl, rfl⟩

/-- What is remembered is the level of the state that was sampled; the
poll may have promoted the VM since. -/
theorem Sampled.remembered {h₀ s b : Hyp} (hsample : Sampled h₀ s b) (hs : Standing h₀) :
    b.ids.initialized = true ∧ (∃ l, Recorded l b) ∧
    (∀ ix, (b.ids.mon ix).lastSeenLevel = trustGet s (vmIdOf ix)) ∧
    ∀ ix, trustGet s (vmIdOf ix) = trustGet b (vmIdOf ix) ∨
      trustGet s (vmIdOf ix) = .degraded ∧ trustGet b (vmIdOf ix) = .trusted := by
  cases hsample with
  | init => exact ⟨rfl, ⟨[], recorded_idsInit h₀⟩, fun _ => rfl, fun _ => .inl rfl⟩
  | poll hrun =>
    obtain ⟨hids, hl⟩ := recorded_run hrun
    have hstep : trustStep s .poll = some (idsPoll s).2 := rfl
    have hstanding := exec_standing (standing_idsInit hs) hrun
    have hdone := idsPoll_done hids
    refine ⟨hdone.initialized, ⟨_, recorded_appended hl hstep⟩, fun ix => by rw [hdone.mon],
      fun ix => ?_⟩
    rcases trustGet_idsPoll hstanding ix with heq | hprom
    · exact .inl heq.symm
    · exact .inr hprom

/-- **Downgrades between polls.** In every history after `ids_init`, a poll
reports exactly the downgrades since the last one returned if and only if
no VM that the last one promoted is worse than trusted again. -/
theorem drops_reported_iff {h₀ s b g : Hyp} {between : List TrustOp} (hs : Standing h₀)
    (hsample : Sampled h₀ s b) (hpoll : .poll ∉ between)
    (hrun : exec trustStep b between = some g) :
    DropsReported b g ↔ ∀ ix, trustGet s (vmIdOf ix) ≠ trustGet b (vmIdOf ix) →
      (trustGet g (vmIdOf ix)).rank ≤ TrustLevel.trusted.rank := by
  obtain ⟨hids, ⟨l, hl⟩, hseen, hprom⟩ := hsample.remembered hs
  obtain ⟨hids', hkept⟩ := lastSeen_run hids hpoll hrun
  have hl' := recorded_written hl hrun
  have hlast : ∀ ix, (g.ids.mon ix).lastSeenLevel = trustGet s (vmIdOf ix) :=
    fun ix => (hkept ix).trans (hseen ix)
  have hiff := dropsReported_iff (b := b) hl' hids' fun ix => by rw [hlast]; exact hprom ix
  simpa only [hlast] using hiff

end Runs

/-- The lone RTOS with a clock that jumps by half a minute after a number
of readings. -/
def rtosJumping (n : ℕ) : Hyp := { loneRtos with timer := fun k => if k < n then 0 else 30000000 }

/-- Five faults: enough to degrade a trusted VM. -/
def fiveFaults : List TrustOp := List.replicate 5 (.reportFault 1 1 0)

/-- The RTOS is degraded after `ids_init`, and the first poll reports it. -/
theorem first_drop_reported :
    letI := Stage2.poolAt2M
    ∃ g, exec trustStep (idsInit loneRtos) fiveFaults = some g ∧ trustGet g 1 = .degraded ∧
      DropsReported (idsInit loneRtos) g := by
  let _ := Stage2.poolAt2M
  have hs : Standing loneRtos := standing_of_one rfl rfl (by decide) rfl
  obtain ⟨g, hrun, hlevel⟩ : ∃ g, exec trustStep (idsInit loneRtos) fiveFaults = some g ∧
      trustGet g 1 = .degraded := ⟨_, rfl, rfl⟩
  refine ⟨g, hrun, hlevel, (drops_reported_iff hs .init (by simp [fiveFaults]) hrun).mpr fun ix hne => ?_⟩
  exact absurd rfl hne

/-- **A downgrade that no poll reports.** The RTOS is degraded, and half a
minute later a poll reports that and promotes it. It is degraded again,
and the next poll does not say so. -/
theorem drop_unreported :
    letI := Stage2.poolAt2M
    ∃ s g, exec trustStep (idsInit (rtosJumping 7)) fiveFaults = some s ∧
      exec trustStep (idsPoll s).2 fiveFaults = some g ∧
      trustGet (idsPoll s).2 1 = .trusted ∧ trustGet g 1 = .degraded ∧
      (idsPoll g).1 = 0 ∧ dropAlerts (appended g (idsPoll g).2) = [] ∧
      ¬ DropsReported (idsPoll s).2 g := by
  let _ := Stage2.poolAt2M
  obtain ⟨s, g, hrun, hrun', hbefore, hafter, hnumber, halerts⟩ : ∃ s g,
      exec trustStep (idsInit (rtosJumping 7)) fiveFaults = some s ∧
      exec trustStep (idsPoll s).2 fiveFaults = some g ∧
      trustGet (idsPoll s).2 1 = .trusted ∧ trustGet g 1 = .degraded ∧
      (idsPoll g).1 = 0 ∧ dropAlerts (appended g (idsPoll g).2) = [] :=
    ⟨_, _, rfl, rfl, rfl, rfl, rfl, rfl⟩
  refine ⟨s, g, hrun, hrun', hbefore, hafter, hnumber, halerts, fun hrep => ?_⟩
  have hlist := hrep.alerts
  rw [halerts, eq_comm, List.map_eq_nil_iff, worseOff, List.filter_eq_nil_iff] at hlist
  refine hlist ⟨0, by decide⟩ (List.mem_finRange _) (decide_eq_true ?_)
  rw [WorseOff, show vmIdOf ⟨0, by decide⟩ = 1 from rfl, hbefore, hafter]
  decide

end Vse

end HypervisorBase
