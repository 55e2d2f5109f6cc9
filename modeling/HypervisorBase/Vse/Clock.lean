import HypervisorBase.Vse.Audit
import HypervisorBase.Vse.Chronicle
import HypervisorBase.Vse.Storm
/-!
# The microsecond clock

`timer_now_us` multiplies the counter by 10^6 before it divides by the
frequency, in 64 bits. As long as the product fits, the clock is exact and
does not go back, and then no difference of times that the detectors or
the trust engine take underflows. At 62.5 MHz the product no longer fits
after some three and a half days, and the clock starts again from zero.
-/

namespace HypervisorBase

namespace Vse

/-! ## One reading -/

variable {cnt freq : U64}

theorem toNat_timerNowUs (cnt : U64) (hfreq : freq ≠ 0) : (Sched.timerNowUs cnt freq).toNat =
    cnt.toNat * 1000000 % 2 ^ 64 / freq.toNat := by
  rw [Sched.timerNowUs, if_pos hfreq, BitVec.toNat_udiv, BitVec.toNat_mul]
  rfl

/-- **The clock is exact precisely while the product fits.** -/
theorem timerNowUs_exact_iff (cnt : U64) (hfreq : freq ≠ 0) :
    (Sched.timerNowUs cnt freq).toNat = cnt.toNat * 1000000 / freq.toNat ↔
      cnt.toNat * 1000000 < 2 ^ 64 := by
  rw [toNat_timerNowUs cnt hfreq]
  have hpos : 0 < freq.toNat := Nat.pos_of_ne_zero fun hzero => hfreq (BitVec.eq_of_toNat_eq hzero)
  constructor
  · intro hexact
    by_contra hover
    -- the part that is cut off is at least one frequency
    have hcut : cnt.toNat * 1000000 % 2 ^ 64 + freq.toNat ≤ cnt.toNat * 1000000 := by
      have hlt := freq.isLt
      omega
    have hless := Nat.div_le_div_right (c := freq.toNat) hcut
    rw [Nat.add_div_right _ hpos] at hless
    omega
  · intro hfits
    rw [Nat.mod_eq_of_lt hfits]

/-- While the product fits, the clock follows the counter. -/
theorem timerNowUs_mono {c₁ c₂ : U64} (hfreq : freq ≠ 0) (hle : c₁ ≤ c₂)
    (hfits : c₂.toNat * 1000000 < 2 ^ 64) :
    Sched.timerNowUs c₁ freq ≤ Sched.timerNowUs c₂ freq := by
  have hnat := Nat.mul_le_mul_right 1000000 (BitVec.le_def.mp hle)
  rw [BitVec.le_def, toNat_timerNowUs c₁ hfreq, toNat_timerNowUs c₂ hfreq, Nat.mod_eq_of_lt hfits,
    Nat.mod_eq_of_lt (Nat.lt_of_le_of_lt hnat hfits)]
  exact Nat.div_le_div_right hnat

/-! ## Times that are past -/

/-- **What has been stamped is past**, on a clock that does not go back. -/
structure Stamped (h : Hyp) : Prop where
  clock : ∀ j k, j ≤ k → (h.timer j).toNat ≤ (h.timer k).toNat
  lastFault : ∀ ix, (h.trust.vm ix).lastFaultUs.toNat ≤ (h.timer 0).toNat
  window : ∀ ix, (h.ids.mon ix).windowStartUs.toNat ≤ (h.timer 0).toNat

/-- **No difference with the next reading underflows**: neither that of the
storm detector nor that of the promotion scan. -/
structure NoUnderflow (h : Hyp) : Prop where
  window : ∀ ix, (h.timer 0 - (h.ids.mon ix).windowStartUs).toNat +
    (h.ids.mon ix).windowStartUs.toNat = (h.timer 0).toNat
  lastFault : ∀ ix, (h.timer 0 - (h.trust.vm ix).lastFaultUs).toNat +
    (h.trust.vm ix).lastFaultUs.toNat = (h.timer 0).toNat

/-- Stamps from the past do not underflow. -/
theorem Stamped.noUnderflow {h : Hyp} (hst : Stamped h) : NoUnderflow h := by
  have hsub : ∀ t : U64, t.toNat ≤ (h.timer 0).toNat →
      (h.timer 0 - t).toNat + t.toNat = (h.timer 0).toNat := by
    intro t ht
    rw [BitVec.toNat_sub_of_le (BitVec.le_def.mpr ht)]
    omega
  exact ⟨fun ix => hsub _ (hst.window ix), fun ix => hsub _ (hst.lastFault ix)⟩

section Runs

variable [P : PtPool]
variable {h h' : Hyp} {op : TrustOp} {ops : List TrustOp} {l : List IdsRecord}

omit P in
theorem Turn.lastFaultUs {t : ℕ → U64} {n : ℕ} {r r' : TrustRecord} {rule : Rule}
    (hturn : Turn t n r rule r') :
    r'.lastFaultUs = r.lastFaultUs ∨ ∃ k < n, r'.lastFaultUs = t k := by
  cases hturn with
  | rest => exact .inl rfl
  | @fault k faultType detail hk => exact .inr ⟨k, hk, rfl⟩
  | @faultTo k k' l faultType detail hk hk' hl => exact .inr ⟨k, by omega, rfl⟩
  | moveTo l hk hl => exact .inl rfl
  | clearTo l hk hl => exact .inl rfl

/-- The clock has been read some number of times, and a fault that was
recorded has one of the readings. -/
theorem trustStep_stamps (hs : Standing h) (hrun : trustStep h op = some h') :
    ∃ n, (∀ k, h'.timer k = h.timer (n + k)) ∧ ∀ ix,
      (h'.trust.vm ix).lastFaultUs = (h.trust.vm ix).lastFaultUs ∨
      ∃ k < n, (h'.trust.vm ix).lastFaultUs = h.timer k := by
  rcases trustStep_spans hs hrun with ⟨-, n, hn⟩ | ⟨id, jx, m, -, -, ⟨n, hn⟩, hafter⟩
  · refine ⟨n, hn.timer, fun ix => ?_⟩
    obtain ⟨rule, -, -, -, hturn⟩ := hn.turns ix
    exact hturn.lastFaultUs
  · obtain ⟨n', hn'⟩ := hafter.span
    refine ⟨n + n', fun k => by rw [hn'.timer, hn.timer, Nat.add_assoc], fun ix => ?_⟩
    obtain ⟨rule, -, -, -, hturn⟩ := hn.turns ix
    obtain ⟨rule', -, -, -, hturn'⟩ := hn'.turns ix
    rcases hturn'.lastFaultUs with hsame | ⟨k, hk, hread⟩
    · rw [hsame]
      rcases hturn.lastFaultUs with hold | ⟨k, hk, hread⟩
      · exact .inl hold
      · exact .inr ⟨k, by omega, hread⟩
    · exact .inr ⟨n + k, by omega, by rw [hread, hn.timer]⟩

/-- A window starts where it did, or at the first reading of the call. -/
theorem trustStep_windows (hids : h.ids.initialized = true)
    (hrun : trustStep h op = some h') (ix : Fin maxVms) :
    (h'.ids.mon ix).windowStartUs = (h.ids.mon ix).windowStartUs ∨
    (h'.ids.mon ix).windowStartUs = h.timer 0 := by
  rcases trustStep_detector hids hrun with ⟨v, t, d, jx, -, -, -, hnoted⟩ | ⟨-, rfl⟩ | ⟨-, -, hsame⟩
  · by_cases hix : ix = jx
    · subst hix
      rw [hnoted.start, ticks]
      dsimp only
      split
      · exact .inr rfl
      · exact .inl rfl
    · exact .inl (by rw [hnoted.others ix hix])
  · exact .inl (by rw [(idsPoll_done hids).mon ix])
  · exact .inl (by rw [hsame])

/-- The detector is on, and its log is in order. -/
structure OnWatch (h : Hyp) : Prop where
  standing : Standing h
  on : h.ids.initialized = true
  recorded : ∃ l, Recorded l h

theorem OnWatch.step (hw : OnWatch h) (hrun : trustStep h op = some h') : OnWatch h' := by
  obtain ⟨l, hl⟩ := hw.recorded
  exact ⟨trustStep_standing hw.standing hrun, initialized_trustStep hw.on hrun,
    _, recorded_appended hl hrun⟩

omit P in
theorem onWatch_vseInit (hr : Roster h) (gm : U32 → Gmeas) : OnWatch (vseInit h gm) :=
  ⟨(standing_trustInit hr gm).of_same ⟨rfl, rfl, rfl, rfl⟩, rfl, [], rfl, rfl, Ring.holds_nil _ _, rfl, rfl⟩

/-- **What is stamped stays past.** -/
theorem Stamped.step (hst : Stamped h) (hw : OnWatch h) (hrun : trustStep h op = some h') :
    Stamped h' := by
  obtain ⟨n, htimer, hfaults⟩ := trustStep_stamps hw.standing hrun
  have hnow : (h.timer 0).toNat ≤ (h'.timer 0).toNat := by
    rw [htimer]
    exact hst.clock 0 _ (Nat.zero_le _)
  refine ⟨fun j k hjk => ?_, fun ix => ?_, fun ix => ?_⟩
  · rw [htimer, htimer]
    exact hst.clock _ _ (by omega)
  · rcases hfaults ix with hold | ⟨k, hk, hread⟩
    · rw [hold]
      exact Nat.le_trans (hst.lastFault ix) hnow
    · rw [hread, htimer]
      exact hst.clock _ _ (by omega)
  · rcases trustStep_windows hw.on hrun ix with hold | hread
    · rw [hold]
      exact Nat.le_trans (hst.window ix) hnow
    · rw [hread]
      exact hnow

omit P in
/-- The stamps at the start are past. -/
theorem stamped_vseInit (hclock : ∀ j k, j ≤ k → (h.timer j).toNat ≤ (h.timer k).toNat)
    (gm : U32 → Gmeas) : Stamped (vseInit h gm) := by
  refine ⟨fun j k hjk => hclock _ _ (by omega), fun ix => ?_, fun ix => hclock 0 1 (by decide)⟩
  have hzero := (fresh_trustInit h gm ix).lastFaultUs
  change ((trustInit h gm).trust.vm ix).lastFaultUs.toNat ≤ _
  rw [hzero]
  exact Nat.zero_le _

/-- **On a clock that does not go back**, no difference underflows in any
run. -/
theorem noUnderflow_run (hr : Roster h) {gm : U32 → Gmeas}
    (hclock : ∀ j k, j ≤ k → (h.timer j).toNat ≤ (h.timer k).toNat)
    (hrun : exec trustStep (vseInit h gm) ops = some h') : NoUnderflow h' := by
  have hstep : ∀ a op b, OnWatch a ∧ Stamped a → trustStep a op = some b → OnWatch b ∧ Stamped b :=
    fun a op b ha hab => ⟨ha.1.step hab, ha.2.step ha.1 hab⟩
  exact (exec_invariant hstep ⟨onWatch_vseInit hr gm, stamped_vseInit hclock gm⟩ hrun).2.noUnderflow

/-- **What holds of the clock.** At a frequency other than zero it is exact
if and only if the product fits in 64 bits. As long as it does, the clock
does not go back, and in any run on it no difference underflows. -/
theorem clock_exact_iff {freq : U64} (hfreq : freq ≠ 0) :
    (∀ cnt : U64, cnt.toNat * 1000000 / freq.toNat < 2 ^ 64 →
      ((Sched.timerNowUs cnt freq).toNat = cnt.toNat * 1000000 / freq.toNat ↔
        cnt.toNat * 1000000 < 2 ^ 64)) ∧
    (∀ c₁ c₂ : U64, c₁ ≤ c₂ → c₂.toNat * 1000000 < 2 ^ 64 →
      Sched.timerNowUs c₁ freq ≤ Sched.timerNowUs c₂ freq) ∧
    (∀ (h : Hyp) (gm : U32 → Gmeas) (ops : List TrustOp) (g : Hyp) (cnt : ℕ → U64), Roster h →
      (∀ j k, j ≤ k → cnt j ≤ cnt k) → (∀ k, (cnt k).toNat * 1000000 < 2 ^ 64) →
      (∀ k, h.timer k = Sched.timerNowUs (cnt k) freq) →
      exec trustStep (vseInit h gm) ops = some g → NoUnderflow g) := by
  refine ⟨fun cnt _ => timerNowUs_exact_iff cnt hfreq,
    fun c₁ c₂ hle hfits => timerNowUs_mono hfreq hle hfits, ?_⟩
  intro h gm ops g cnt hr hcnt hfits htimer hrun
  refine noUnderflow_run hr (fun j k hjk => ?_) hrun
  rw [htimer j, htimer k]
  exact BitVec.le_def.mp (timerNowUs_mono hfreq (hcnt j k hjk) (hfits k))

end Runs

/-- The lone RTOS at 62.5 MHz, with a counter that is read once at one
value and then stands at another. -/
def rtosCounting (c₁ c₂ : U64) : Hyp :=
  { loneRtos with timer := fun k => Sched.timerNowUs (if k = 0 then c₁ else c₂) 62500000 }

theorem roster_rtosCounting (c₁ c₂ : U64) : Roster (rtosCounting c₁ c₂) :=
  (standing_of_one (h := rtosCounting c₁ c₂) rfl rfl (by decide) rfl).roster

/-- A second after the start the clock reads a second, and a fault two
seconds after the start finds the window that `ids_init` has opened past. -/
theorem clock_exact_two_seconds :
    letI := Stage2.poolAt2M
    (Sched.timerNowUs 62500000 62500000).toNat = 62500000 * 1000000 / 62500000 ∧
    Sched.timerNowUs 62500000 62500000 ≤ Sched.timerNowUs 125000000 62500000 ∧
    ∃ g, exec trustStep (vseInit (rtosCounting 62500000 125000000) fun _ => .match)
      [.notifyFault 1 trustFaultMem 0] = some g ∧ NoUnderflow g := by
  let _ := Stage2.poolAt2M
  have hfreq : (62500000 : U64) ≠ 0 := by decide
  obtain ⟨hexact, hmono, hall⟩ := clock_exact_iff hfreq
  have hfits : ∀ k : ℕ, (if k = 0 then (62500000 : U64) else 125000000).toNat * 1000000 < 2 ^ 64 := by
    intro k
    split <;> decide
  have hcnt : ∀ j k : ℕ, j ≤ k → (if j = 0 then (62500000 : U64) else 125000000) ≤
      if k = 0 then 62500000 else 125000000 := by
    intro j k hjk
    by_cases hk : k = 0
    · rw [if_pos (by omega), if_pos hk]
      decide
    · rw [if_neg hk]
      split <;> decide
  obtain ⟨g, hrun⟩ : ∃ g, exec trustStep
      (vseInit (rtosCounting 62500000 125000000) fun _ => .match) [.notifyFault 1 trustFaultMem 0] =
        some g := ⟨_, rfl⟩
  exact ⟨(hexact 62500000 (by decide)).mpr (by decide), hmono _ _ (by decide) (by decide), g, hrun,
    hall _ _ _ _ _ (roster_rtosCounting _ _) hcnt hfits (fun _ => rfl) hrun⟩

/-- At 62.5 MHz the clock reads zero one tick after 295147.905179 seconds,
and what is next subtracted from it are the starts of windows that
`ids_init` has opened before that tick. -/
theorem clock_starts_again :
    letI := Stage2.poolAt2M
    (18446744073709 : U64) ≤ 18446744073710 ∧
    Sched.timerNowUs 18446744073709 62500000 = 295147905179 ∧
    18446744073710 * 1000000 / 62500000 = 295147905179 ∧
    Sched.timerNowUs 18446744073710 62500000 = 0 ∧
    Roster (rtosCounting 18446744073709 18446744073710) ∧
    ∃ g, exec trustStep (vseInit (rtosCounting 18446744073709 18446744073710) fun _ => .match) [] =
        some g ∧
      (g.timer 0 - (g.ids.mon ⟨0, by decide⟩).windowStartUs).toNat = 2 ^ 64 - 295147905179 ∧
      ¬ NoUnderflow g := by
  let _ := Stage2.poolAt2M
  obtain ⟨g, hrun, hdiff, hnow⟩ : ∃ g,
      exec trustStep (vseInit (rtosCounting 18446744073709 18446744073710) fun _ => .match) [] =
        some g ∧
      (g.timer 0 - (g.ids.mon ⟨0, by decide⟩).windowStartUs).toNat = 2 ^ 64 - 295147905179 ∧
      (g.timer 0).toNat = 0 := ⟨_, rfl, by decide, by decide⟩
  refine ⟨by decide, by decide, by decide, by decide, roster_rtosCounting _ _, g, hrun, hdiff,
    fun hno => ?_⟩
  have hsum := hno.window ⟨0, by decide⟩
  rw [hdiff, hnow] at hsum
  omega

end Vse

end HypervisorBase
