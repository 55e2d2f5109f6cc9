import HypervisorBase.Vse.Ids
/-!
# How the operations end

Failover, quarantine and fault reports go through a number of steps, and
many of these can be the last. The ways they end are listed here once, as
the code has them. What an operation leaves alone, and which of its ends
it comes to in a given state, is read off these lists.
-/

namespace HypervisorBase

namespace Vse

variable [P : PtPool]
variable {h h' : Hyp} {id : U32} {i : ℕ} {ix : Fin maxVms} {e : Err}

/-! ## Failover -/

/-- **The ways an attempt ends** once it is counted: with a step that
fails, or with the VM restarted. -/
inductive FailoverEnd (h : Hyp) (id : U32) (i : ℕ) (bd : BackupDesc) (e : Err) (h' : Hyp) : Prop
  | stopFails (hstop : vmStop h i = (e, h')) (herr : e ≠ .ok)
  | finalizeFails {s : Hyp} (hstop : vmStop h i = (.ok, s))
      (hfin : vmFinalize (restoreImage s bd) i = some (e, h')) (herr : e ≠ .ok)
  | startFails {s g : Hyp} (hstop : vmStop h i = (.ok, s))
      (hfin : vmFinalize (restoreImage s bd) i = some (.ok, g))
      (hstart : vmStart (resetEntry g i bd.entryIpa) i = (e, h')) (herr : e ≠ .ok)
  | restarts {s g k : Hyp} (hstop : vmStop h i = (.ok, s))
      (hfin : vmFinalize (restoreImage s bd) i = some (.ok, g))
      (hstart : vmStart (resetEntry g i bd.entryIpa) i = (.ok, k)) (hok : e = .ok)
      (hset : h' = (trustSet k id .degraded).2)

variable {R : Hyp → Prop}

/-- **What every step keeps, an attempt keeps**, up to the change of level
at its end. -/
theorem FailoverEnd.keeps {bd : BackupDesc} (hend : FailoverEnd h id i bd e h')
    (hstart : R h) (hstop : ∀ g, R g → R (vmStop g i).2) (himage : ∀ g, R g → R (restoreImage g bd))
    (hfinalize : ∀ {g g' e'}, vmFinalize g i = some (e', g') → R g → R g')
    (hentry : ∀ g, R g → R (resetEntry g i bd.entryIpa)) (hrestart : ∀ g, R g → R (vmStart g i).2) :
    e ≠ .ok ∧ R h' ∨ e = .ok ∧ ∃ k, R k ∧ h' = (trustSet k id .degraded).2 := by
  have hstopped : ∀ {e' s}, vmStop h i = (e', s) → R s := by
    intro e' s heq
    have hs := hstop h hstart
    rwa [heq] at hs
  have hbuilt : ∀ {s g e'}, R s → vmFinalize (restoreImage s bd) i = some (e', g) → R g :=
    fun hs hfin => hfinalize hfin (himage _ hs)
  have hrestarted : ∀ {g k e'}, R g → vmStart (resetEntry g i bd.entryIpa) i = (e', k) → R k := by
    intro g k e' hg heq
    have hk := hrestart _ (hentry g hg)
    rwa [heq] at hk
  cases hend with
  | stopFails heq herr => exact .inl ⟨herr, hstopped heq⟩
  | finalizeFails heq hfin herr => exact .inl ⟨herr, hbuilt (hstopped heq) hfin⟩
  | startFails heq hfin heq' herr =>
    exact .inl ⟨herr, hrestarted (hbuilt (hstopped heq) hfin) heq'⟩
  | restarts heq hfin heq' hok hset =>
    exact .inr ⟨hok, _, hrestarted (hbuilt (hstopped heq) hfin) heq', hset⟩

/-- **A failover** finds no VM, finds its attempts used up, or makes one. -/
theorem doFailover_inv (hrun : doFailover h id ix = some (e, h')) :
    vmById h id = none ∧ e = .notfound ∧ h' = h ∨
    ∃ i, vmById h id = some i ∧
      (failoverMaxAttempts ≤ (h.failover.backup ix).failoverCount.toNat ∧ e = .busy ∧
        h' = (trustRevoke h id).2 ∨
      ¬ failoverMaxAttempts ≤ (h.failover.backup ix).failoverCount.toNat ∧
        FailoverEnd (h.setBackup ix { h.failover.backup ix with
          failoverCount := (h.failover.backup ix).failoverCount + 1 }) id i (h.failover.backup ix) e h') := by
  unfold doFailover at hrun
  cases hfound : vmById h id with
  | none =>
    rw [hfound] at hrun
    cases hrun
    exact .inl ⟨rfl, rfl, rfl⟩
  | some i =>
    rw [hfound] at hrun
    refine .inr ⟨i, rfl, ?_⟩
    dsimp only at hrun
    split at hrun
    · rename_i hspent
      cases hrun
      exact .inl ⟨hspent, rfl, rfl⟩
    rename_i hleft
    refine .inr ⟨hleft, ?_⟩
    -- the descriptor is read before the attempt is counted in it
    generalize h.failover.backup ix = bd at hrun ⊢
    generalize h.setBackup ix { bd with failoverCount := bd.failoverCount + 1 } = h₁ at hrun ⊢
    rcases hstop : vmStop h₁ i with ⟨e₁, s⟩
    rw [hstop] at hrun
    dsimp only at hrun
    split at hrun
    · rename_i herr
      cases hrun
      exact .stopFails hstop herr
    rename_i hok
    obtain rfl := not_not.mp hok
    obtain ⟨⟨e₂, g⟩, hfin, hrun⟩ := Option.bind_eq_some_iff.mp hrun
    dsimp only at hrun
    split at hrun
    · rename_i herr
      cases hrun
      exact .finalizeFails hstop hfin herr
    rename_i hok
    obtain rfl := not_not.mp hok
    rcases hstart : vmStart (resetEntry g i bd.entryIpa) i with ⟨e₃, k⟩
    rw [hstart] at hrun
    dsimp only at hrun
    split at hrun
    · rename_i herr
      cases hrun
      exact .startFails hstop hfin hstart herr
    · rename_i hok
      obtain rfl := not_not.mp hok
      cases hrun
      exact .restarts hstop hfin hstart rfl rfl

/-- A failover of an id that names no VM. -/
theorem doFailover_notfound (hfound : vmById h id = none) :
    doFailover h id ix = some (.notfound, h) := by
  unfold doFailover
  rw [hfound]

/-- The entry points of failover differ in what they ask of the backup and
in their error codes. -/
theorem failover_cases {cond : Fin maxVms → Bool} {e₁ e₂ : Err}
    (hrun : (match idx id with
      | none => some (.inval, h)
      | some ix =>
        if !h.failover.initialized then some (e₁, h)
        else if !cond ix then some (e₂, h)
        else doFailover h id ix) = some (e, h')) :
    (∀ ix i, idx id = some ix → vmById h id = some i →
      ¬ (h.failover.initialized = true ∧ cond ix = true)) ∧ h' = h ∨
    ∃ ix i, idx id = some ix ∧ vmById h id = some i ∧ h.failover.initialized = true ∧
      cond ix = true ∧ doFailover h id ix = some (e, h') := by
  cases hix : idx id with
  | none =>
    rw [hix] at hrun
    cases hrun
    exact .inl ⟨fun ix _ hix => (by cases hix), rfl⟩
  | some ix =>
    rw [hix] at hrun
    dsimp only at hrun
    split at hrun
    · rename_i hinit
      cases hrun
      exact .inl ⟨fun _ _ _ _ hboth => by simp [hboth.1] at hinit, rfl⟩
    · rename_i hinit
      split at hrun
      · rename_i hcond
        cases hrun
        refine .inl ⟨fun ix' _ hix' _ hboth => ?_, rfl⟩
        obtain rfl := Option.some.inj hix'
        simp [hboth.2] at hcond
      · rename_i hcond
        -- the checks passed: only an id without a VM is turned away now
        cases hfound : vmById h id with
        | none =>
          rw [doFailover_notfound hfound] at hrun
          cases hrun
          exact .inl ⟨fun _ i _ hi => (by cases hi), rfl⟩
        | some i => exact .inr ⟨ix, i, rfl, rfl, by simpa using hinit, by simpa using hcond, hrun⟩

theorem failoverOnQuarantine_inv (hrun : failoverOnQuarantine h id = some (e, h')) :
    h' = h ∨ ∃ ix, doFailover h id ix = some (e, h') := by
  simp only [failoverOnQuarantine, ← Bool.not_and] at hrun
  rcases failover_cases hrun with ⟨-, hsame⟩ | ⟨ix, i, -, -, -, -, hdo⟩
  · exact .inl hsame
  · exact .inr ⟨ix, hdo⟩

theorem failoverTrigger_inv (hrun : failoverTrigger h id = some (e, h')) :
    h' = h ∨ ∃ ix, doFailover h id ix = some (e, h') := by
  rcases failover_cases hrun with ⟨-, hsame⟩ | ⟨ix, i, -, -, -, -, hdo⟩
  · exact .inl hsame
  · exact .inr ⟨ix, hdo⟩

/-! ## Quarantine -/

omit P in
/-- A revocation of an id that names no VM. -/
theorem trustRevoke_notfound (hfound : vmById h id = none) : (trustRevoke h id).2 = h := by
  unfold trustRevoke
  rw [hfound]
  split
  · rfl
  · rfl
  · contradiction

omit P in
/-- What setting a level and stopping a VM keep, a revocation keeps. -/
theorem trustRevoke_keeps (hstart : R h) (hset : R (trustSet h id .revoked).2)
    (hstop : ∀ g i, R g → R (vmStop g i).2) : R (trustRevoke h id).2 := by
  unfold trustRevoke
  split
  · exact hstart
  · exact hstart
  · dsimp only
    split
    · exact hstop _ _ hset
    · exact hset

omit P in
/-- A rule for the suspension of a VM that may not run. -/
theorem suspendRunnable_keeps (hstart : R h) (hsuspend : R (vmSuspend h i).2) :
    R (suspendRunnable h i) := by
  unfold suspendRunnable
  split
  · exact hstart
  · split
    · exact hsuspend
    · exact hstart

/-- **A quarantine** has no effect, or hands the VM to failover when it is
marked, counted and suspended. -/
theorem trustQuarantine_inv (hrun : trustQuarantine h id = some (e, h')) :
    h' = h ∧ (∀ ix i, idx id = some ix → vmById h id = some i →
      TrustLevel.quarantine.rank ≤ (h.trust.vm ix).level.rank) ∨
    ∃ ix i g e', idx id = some ix ∧ vmById h id = some i ∧
      (h.trust.vm ix).level.rank < TrustLevel.quarantine.rank ∧
      g = (trustSet h id .quarantine).2 ∧
      failoverOnQuarantine (suspendRunnable { g with trust := { g.trust with
        quarantineCount := g.trust.quarantineCount + 1 } } i) id = some (e', h') := by
  unfold trustQuarantine at hrun
  split at hrun
  · rename_i hix
    cases hrun
    exact .inl ⟨rfl, fun _ _ hix' => by cases hix.symm.trans hix'⟩
  · rename_i hfound
    cases hrun
    exact .inl ⟨rfl, fun _ _ _ hfound' => by cases hfound.symm.trans hfound'⟩
  · rename_i ix i hix hfound
    split at hrun
    · rename_i hblocked
      cases hrun
      refine .inl ⟨rfl, fun _ _ hix' _ => ?_⟩
      obtain rfl := Option.some.inj (hix.symm.trans hix')
      exact hblocked
    · rename_i hlow
      obtain ⟨⟨e', k⟩, hfail, hrun⟩ := Option.bind_eq_some_iff.mp hrun
      cases hrun
      exact .inr ⟨ix, i, _, e', hix, hfound, Nat.not_le.mp hlow, rfl, hfail⟩

/-! ## Fault reports -/

omit P in
theorem level_recordFault (h : Hyp) (ix : Fin maxVms) (faultType : U32) (detail : U64) :
    ((recordFault h ix faultType detail).trust.vm ix).level = (h.trust.vm ix).level := by
  simp [recordFault, timerNowUs, Hyp.setTrust]

omit P in
theorem faultCount_recordFault (h : Hyp) (ix : Fin maxVms) (faultType : U32) (detail : U64) :
    ((recordFault h ix faultType detail).trust.vm ix).faultCount =
      (h.trust.vm ix).faultCount + 1 := by
  simp [recordFault, timerNowUs, Hyp.setTrust]

/-- The count of this record calls for a quarantine. -/
def Full (r : TrustRecord) : Prop :=
  trustThreshQuarantine ≤ r.faultCount.toNat ∧ r.level.rank < TrustLevel.quarantine.rank

variable {faultType : U32}

/-- **A fault report** is ignored, or the fault is recorded: then the VM is
quarantined if its count is full, and else possibly degraded. -/
theorem trustReportFault_inv {detail : U64}
    (hrun : trustReportFault h id faultType detail = some (e, h')) :
    h' = h ∧ (∀ ix, idx id = some ix → h.trust.initialized = true →
      (h.trust.vm ix).level = .revoked) ∨
    ∃ ix g, idx id = some ix ∧ (h.trust.vm ix).level ≠ .revoked ∧
      g = recordFault h ix faultType detail ∧
      (Full (g.trust.vm ix) ∧ (∃ e', trustQuarantine g id = some (e', h')) ∨
      ¬ Full (g.trust.vm ix) ∧ (h' = g ∨
        (g.trust.vm ix).level = .trusted ∧ h' = (trustSet g id .degraded).2)) := by
  unfold trustReportFault at hrun
  split at hrun
  · rename_i hix
    cases hrun
    exact .inl ⟨rfl, fun _ hix' => by cases hix.symm.trans hix'⟩
  rename_i ix hix
  split at hrun
  · rename_i hoff
    cases hrun
    refine .inl ⟨rfl, fun _ _ hon => ?_⟩
    rw [hon] at hoff
    cases hoff
  split at hrun
  · rename_i hrevoked
    cases hrun
    refine .inl ⟨rfl, fun _ hix' _ => ?_⟩
    obtain rfl := Option.some.inj (hix.symm.trans hix')
    exact hrevoked
  rename_i hrevoked
  refine .inr ⟨ix, _, hix, hrevoked, rfl, ?_⟩
  generalize recordFault h ix faultType detail = g at hrun ⊢
  dsimp only at hrun
  -- a full count of a VM that is blocked already does not even degrade it
  split at hrun
  · rename_i hcount
    split at hrun
    · rename_i hlow
      obtain ⟨⟨e', k⟩, hquar, hrun⟩ := Option.bind_eq_some_iff.mp hrun
      cases hrun
      exact .inl ⟨⟨hcount, hlow⟩, e', hquar⟩
    · rename_i hblocked
      cases hrun
      exact .inr ⟨fun hfull => hblocked hfull.2, .inl rfl⟩
  rename_i hcount
  refine .inr ⟨fun hfull => hcount hfull.1, ?_⟩
  split at hrun
  · split at hrun
    · rename_i htrusted
      cases hrun
      exact .inr ⟨htrusted, rfl⟩
    · cases hrun
      exact .inl rfl
  · cases hrun
    exact .inl rfl

/-! ## Storms -/

/-- **Enforcement** is for VMs that are not blocked yet. -/
theorem enforceStorm_inv {n : U32} (hrun : enforceStorm h id faultType n = some h') :
    trustIsBlocked h id = true ∧ h' = h ∨
    ¬ trustIsBlocked h id = true ∧ ∃ e g, trustQuarantine h id = some (e, g) ∧
      h' = idsLog { g with ids := { g.ids with enforcements := g.ids.enforcements + 1 } } id .enforce
        .alert faultType (n.setWidth 64) := by
  unfold enforceStorm at hrun
  split at hrun
  · rename_i hblocked
    cases hrun
    exact .inl ⟨hblocked, rfl⟩
  · rename_i hopen
    obtain ⟨⟨e, g⟩, hquar, hrun⟩ := Option.bind_eq_some_iff.mp hrun
    cases hrun
    exact .inr ⟨hopen, e, g, hquar, rfl⟩

/-- **The storm detector** opens a new window, or counts the fault in the
one that is open and acts if it is one too many. -/
theorem detectStorm_inv {now : U64}
    (hrun : detectStorm h id ix faultType now = some h') :
    idsStormWindowUs < (now - (h.ids.mon ix).windowStartUs).toNat ∧
      h' = h.setMon ix { h.ids.mon ix with windowStartUs := now, windowFaults := 1 } ∨
    ¬ idsStormWindowUs < (now - (h.ids.mon ix).windowStartUs).toNat ∧
      ∃ n k, n = (h.ids.mon ix).windowFaults + 1 ∧
        k = h.setMon ix { h.ids.mon ix with windowFaults := n } ∧
        (n ≠ idsStormFaults + 1 ∧ h' = k ∨ n = idsStormFaults + 1 ∧
          enforceStorm (idsAlert k id .storm faultType (n.setWidth 64)) id faultType n = some h') := by
  unfold detectStorm at hrun
  dsimp only at hrun
  split at hrun
  · rename_i hover
    cases hrun
    exact .inl ⟨hover, rfl⟩
  rename_i hopen
  refine .inr ⟨hopen, _, _, rfl, rfl, ?_⟩
  split at hrun
  · rename_i hfull
    exact .inr ⟨hfull, hrun⟩
  · rename_i hfew
    cases hrun
    exact .inl ⟨hfew, rfl⟩

/-! ## Promotion and polls -/

omit P in
/-- **One VM of the promotion scan**: it is promoted if it is degraded and
clean, and else nothing happens. -/
theorem promoteOne_keeps {nowUs : U64} {n : U32} (hstart : R h)
    (hpromote : (h.trust.vm ix).level = .degraded → (h.trust.vm ix).lastFaultUs ≤ nowUs →
      trustCleanPeriodUs ≤ (nowUs - (h.trust.vm ix).lastFaultUs).toNat →
      R (trustSet (h.setTrust ix { h.trust.vm ix with faultCount := 0 })
        (BitVec.ofNat 32 (ix.val + 1)) .trusted).2) : R (promoteOne nowUs (n, h) ix).2 := by
  unfold promoteOne
  dsimp only
  split
  · exact hstart
  split
  · exact hstart
  split
  · exact hstart
  rename_i hlevel hpast hclean
  exact hpromote (not_not.mp hlevel) (BitVec.not_lt.mp hpast) (Nat.not_lt.mp hclean)

omit P in
/-- What its body keeps, the promotion scan keeps. -/
theorem trustAutoPromoteTick_keeps {nowUs : U64} (hstart : R h)
    (hstep : ∀ n g ix, R g → R (promoteOne nowUs (n, g) ix).2) : R (trustAutoPromoteTick h nowUs).2 := by
  unfold trustAutoPromoteTick
  split
  · exact hstart
  · exact List.foldlRecOn (motive := fun st : U32 × Hyp => R st.2) _ _ hstart fun st hst ix _ =>
      hstep st.1 st.2 ix hst

omit P in
/-- Apart from the promotions, a poll only writes to the detector's own
books and reads the clock. -/
theorem idsPoll_keeps (hstart : R h)
    (hbooks : ∀ g (ids : Ids) (timer : ℕ → U64), R g → R { g with ids := ids, timer := timer })
    (htick : ∀ g nowUs, R g → R (trustAutoPromoteTick g nowUs).2) : R (idsPoll h).2 := by
  have hone : ∀ (st : U32 × Hyp) (ix : Fin maxVms), R st.2 → R (pollOne st ix).2 := by
    intro st ix hst
    unfold pollOne
    dsimp only
    split
    · exact hbooks st.2 _ _ hst
    · exact hbooks st.2 _ st.2.timer hst
  unfold idsPoll
  split
  · exact hstart
  have hread : R (timerNowUs h).2 := hbooks h h.ids _ hstart
  have hpoll : R ((List.finRange maxVms).foldl pollOne (0, (timerNowUs h).2)).2 :=
    List.foldlRecOn (motive := fun st : U32 × Hyp => R st.2) _ _ hread fun st hst ix _ => hone st ix hst
  dsimp only
  generalize (List.finRange maxVms).foldl pollOne (0, (timerNowUs h).2) = st at hpoll ⊢
  have hpromoted := htick st.2 (timerNowUs h).1 hpoll
  generalize (trustAutoPromoteTick st.2 (timerNowUs h).1).2 = k at hpromoted ⊢
  exact hbooks k _ _ hpromoted

end Vse

end HypervisorBase
