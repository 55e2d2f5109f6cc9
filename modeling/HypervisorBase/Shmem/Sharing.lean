import HypervisorBase.Hypercall.Tables
import HypervisorBase.Shmem.Confinement
import HypervisorBase.Stage2.Aliasing
import HypervisorBase.Vm.AddressSpace
import HypervisorBase.Vm.Teardown
/-!
# Sharing and unsharing

What `shmem_map` and `shmem_unmap` do to the address spaces of all VMs,
and three laws they miss. A failed `shmem_map` has moved the cursor once
its checks have passed (`failed_share_iff`). A `shmem_map` overwrites what
it finds and the `shmem_unmap` after it clears, in the VMs of the first
active region at the address. So the two cancel only where these had
nothing mapped, and where another VM of the pair had the pages that were
shared (`share_reversible_iff`). And `shmem_unmap` takes
the size of the range from its caller, so it clears the region's pages and
no others only if the two agree on what is mapped (`unshare_exact_iff`).
-/

namespace HypervisorBase

namespace Shmem

open Stage2

section Pool

variable [P : PtPool]
variable {h h' : Hyp} {srcId dstId : U32} {ipa sz : U64} {e : Err}

/-! ## The two calls -/

/-- The region that a successful `shmem_map` records. -/
def shared (h : Hyp) (srcId dstId : U32) (ipa sz : U64) : ShmRegion :=
  ⟨h.shmem.cursor, sz, srcId, dstId, ipa, true⟩

/-- **A `shmem_map` that returns**: refused by a check, refused by the
first `s2_map` with the cursor moved, or done. The second `s2_map` has the
arguments of the first, so it refuses none that the first accepted. -/
theorem shmemMap_inv (hrun : shmemMap h srcId dstId ipa sz = some (e, h')) :
    (¬ Accepted h srcId dstId sz ∧ e ≠ .ok ∧ h' = h) ∨
    (Accepted h srcId dstId sz ∧ e ≠ .ok ∧
      h' = { h with shmem := ⟨h.shmem.regions, h.shmem.cursor + sz⟩ }) ∨
    (Accepted h srcId dstId sz ∧ e = .ok ∧ ∃ src dst s₁ s₂, vmAt h srcId = some src ∧
      vmAt h dstId = some dst ∧
      s2Map h.s2 src.s2Pgd ipa h.shmem.cursor sz shmemFlags = some (.ok, s₁) ∧
      s2Map s₁ dst.s2Pgd ipa h.shmem.cursor sz shmemFlags = some (.ok, s₂) ∧
      h' = { h with
        s2 := s₂
        shmem := ⟨h.shmem.regions ++ [shared h srcId dstId ipa sz], h.shmem.cursor + sz⟩ }) := by
  unfold shmemMap at hrun
  cases hres : shmemReserve h srcId dstId sz with
  | error e' =>
    rw [hres] at hrun
    obtain ⟨rfl, rfl⟩ := Prod.mk.inj (Option.some.inj hrun)
    have hrefused : ¬ Accepted h srcId dstId sz := by
      intro hacc
      obtain ⟨roots, h₁, hok⟩ := exists_shmemReserve hacc
      rw [hres] at hok
      cases hok
    refine .inl ⟨hrefused, ?_, rfl⟩
    rintro rfl
    unfold shmemReserve at hres
    repeat' split at hres
    all_goals cases hres
  | ok res =>
    obtain ⟨⟨src, dst⟩, pa, h₁⟩ := res
    rw [hres] at hrun
    obtain ⟨hacc, rfl, rfl⟩ := shmemReserve_eq_ok hres
    obtain ⟨vm, vm', hsrc, hdst, hroots, -⟩ := shmemReserve_roots hres
    obtain ⟨rfl, rfl⟩ := Prod.mk.inj hroots
    obtain ⟨⟨e₁, s₁⟩, hfirst, hrun⟩ := Option.bind_eq_some_iff.mp hrun
    rcases s2Map_eq_some.1 hfirst with ⟨rfl, rfl, -⟩ | ⟨rfl, hal, -⟩
    · obtain ⟨rfl, rfl⟩ := Prod.mk.inj (Option.some.inj hrun)
      exact .inr (.inl ⟨hacc, by decide, rfl⟩)
    · obtain ⟨⟨e₂, s₂⟩, hsecond, hrun⟩ := Option.bind_eq_some_iff.mp hrun
      rcases s2Map_eq_some.1 hsecond with ⟨-, -, hnot⟩ | ⟨rfl, -, -⟩
      · exact absurd hal hnot
      · obtain ⟨rfl, rfl⟩ := Prod.mk.inj (Option.some.inj hrun)
        exact .inr (.inr ⟨hacc, rfl, vm, vm', s₁, s₂, hsrc, hdst, hfirst, hsecond, rfl⟩)

/-- The region that `shmem_unmap` finds at an address. -/
def regionAt (h : Hyp) (ipa : U64) : Option ShmRegion :=
  h.shmem.regions.find? fun r => r.active && r.ipa = ipa

omit P in
/-- **A successful `shmem_unmap`**: both VMs of the region it finds lose
the caller's range. -/
theorem shmemUnmap_inv (hok : (shmemUnmap h ipa sz).1 = .ok) :
    ∃ r, regionAt h ipa = some r ∧ (shmemUnmap h ipa sz).2.s2 =
      unmapIn (vmAt h r.dst) ipa sz (unmapIn (vmAt h r.src) ipa sz h.s2) := by
  unfold regionAt
  rw [List.find?_eq_bind_findIdx?_getElem?]
  unfold shmemUnmap at hok ⊢
  cases hfind : h.shmem.regions.findIdx? fun r => r.active && r.ipa = ipa with
  | none =>
    rw [hfind] at hok
    cases hok
  | some k =>
    rw [hfind] at hok
    rw [Option.bind_some]
    dsimp only at hok ⊢
    cases hk : h.shmem.regions[k]? with
    | none =>
      rw [hk] at hok
      cases hok
    | some r => exact ⟨r, rfl, rfl⟩

/-! ## A failed share -/

/-- **A failed `shmem_map` changes nothing**, neither the pool nor what
any VM sees at any address, if and only if a check refused it or it asked
for nothing. -/
theorem failed_share_iff (hrun : shmemMap h srcId dstId ipa sz = some (e, h')) (hfail : e ≠ .ok) :
    (h'.shmem.cursor = h.shmem.cursor ∧ h'.shmem.regions = h.shmem.regions ∧
      ∀ vm ∈ h.vms, ∀ j, ipaView h'.s2 vm.s2Pgd j = ipaView h.s2 vm.s2Pgd j) ↔
    ¬ (Accepted h srcId dstId sz ∧ sz ≠ 0) := by
  rcases shmemMap_inv hrun with ⟨hnot, -, rfl⟩ | ⟨hacc, -, rfl⟩ | ⟨-, hok, -⟩
  · exact ⟨fun _ hpast => hnot hpast.1, fun _ => ⟨rfl, rfl, fun _ _ _ => rfl⟩⟩
  · rw [not_and_not_right]
    constructor
    · rintro ⟨hcur, -⟩ -
      exact BitVec.add_right_eq_self.mp hcur
    · intro hzero
      exact ⟨BitVec.add_right_eq_self.mpr (hzero hacc), rfl, fun _ _ _ => rfl⟩
  · exact absurd hok hfail

/-! ## The address spaces -/

variable {r : ShmRegion} {vm : Vm} {w : ℕ}

section Spaces

variable {s : S2State} {M : ℕ → Space}

omit P in
theorem vmById_of_vmAt {id : U32} (hvm : vmAt h id = some vm) :
    ∃ w, vmById h id = some w ∧ h.vms[w]? = some vm := by
  obtain ⟨w, hw, hvm⟩ := Option.bind_eq_some_iff.mp hvm
  exact ⟨w, hw, hvm⟩

omit P in
theorem vmAt_of_vmById {id : U32} (hw : vmById h id = some w) :
    ∃ vm, vmAt h id = some vm ∧ h.vms[w]? = some vm := by
  have hlt := (List.findIdx?_eq_some_iff_getElem.mp hw).1
  have hvm : h.vms[w]? = some h.vms[w] := List.getElem?_eq_getElem hlt
  exact ⟨h.vms[w], by rw [vmAt, hw, Option.bind_some, hvm], hvm⟩

omit P in
/-- A VM has one id. -/
theorem vmById_inj {id id' : U32} (hw : vmById h id = some w)
    (hw' : vmById h id' = some w) : id = id' := by
  obtain ⟨hlt, hid, -⟩ := List.findIdx?_eq_some_iff_getElem.mp hw
  obtain ⟨_, hid', -⟩ := List.findIdx?_eq_some_iff_getElem.mp hw'
  simp only [Bool.and_eq_true, decide_eq_true_eq] at hid hid'
  exact hid.1.symm.trans hid'.1

/-- The VM at an index is one of two. -/
def OneOf (h : Hyp) (a b : U32) (w : ℕ) : Prop := vmById h a = some w ∨ vmById h b = some w

instance (h : Hyp) (a b : U32) (w : ℕ) : Decidable (OneOf h a b w) := by
  unfold OneOf; infer_instance

/-- Unmapping in one VM clears the range there. -/
theorem unmapIn_refines (href : Refines s h.roots M) (id : U32) (ipa sz : U64) :
    Refines (unmapIn (vmAt h id) ipa sz s) h.roots fun w =>
      if vmById h id = some w then (M w).drop (unmapPages ipa sz) else M w := by
  unfold unmapIn
  cases hvm : vmAt h id with
  | none =>
    have hgone : ∀ w, vmById h id ≠ some w := by
      intro w hw
      obtain ⟨vm, hsome, -⟩ := vmAt_of_vmById hw
      rw [hvm] at hsome
      cases hsome
    simp only [hgone, if_false]
    exact href
  | some vm =>
    obtain ⟨i, hi, hvmi⟩ := vmById_of_vmAt hvm
    have hspace := s2Unmap_refines href (Hyp.roots_of_vm hvmi) ipa sz
    have heq : (fun w => if vmById h id = some w then (M w).drop (unmapPages ipa sz) else M w) =
        Function.update M i ((M i).drop (unmapPages ipa sz)) := by
      funext w
      by_cases hw : w = i
      · rw [hw, if_pos hi, Function.update_self]
      · rw [if_neg (fun h' => hw (Option.some.inj (h'.symm.trans hi))), Function.update_of_ne hw]
    rw [heq]
    exact hspace

/-- **What `shmem_unmap` leaves**: the spaces of the region's VMs without
the caller's pages. -/
theorem shmemUnmap_refines (href : Refines h.s2 h.roots M)
    (hok : (shmemUnmap h ipa sz).1 = .ok) (hr : regionAt h ipa = some r) :
    Refines (shmemUnmap h ipa sz).2.s2 h.roots fun w =>
      if OneOf h r.src r.dst w then (M w).drop (unmapPages ipa sz) else M w := by
  obtain ⟨r', hr', hs2⟩ := shmemUnmap_inv hok
  obtain rfl := Option.some.inj (hr.symm.trans hr')
  have hboth := unmapIn_refines (unmapIn_refines href r.src ipa sz) r.dst ipa sz
  rw [hs2]
  convert hboth using 2 with w
  by_cases hsrc : vmById h r.src = some w <;> by_cases hdst : vmById h r.dst = some w <;>
    simp only [OneOf, hsrc, hdst, or_self, or_true, true_or, if_true, if_false, Space.drop_drop,
      Set.union_self]

/-- What a share stores at step `k` of its range. -/
def sharedEntry (h : Hyp) (k : ℕ) : Option U64 :=
  some (pageDesc (h.shmem.cursor + BitVec.ofNat 64 (k * 4096)) shmemFlags)

/-- **What `shmem_map` leaves**: the spaces of both VMs with the shared
pages over what was there. -/
theorem shmemMap_refines (href : Refines h.s2 h.roots M)
    (hrun : shmemMap h srcId dstId ipa sz = some (.ok, h')) :
    Refines h'.s2 h.roots fun w => if OneOf h srcId dstId w
      then (M w).put ipa (sharedEntry h) (sz.toNat / 4096) else M w := by
  rcases shmemMap_inv hrun with ⟨-, hne, -⟩ | ⟨-, hne, -⟩ | ⟨-, -, src, dst, s₁, s₂, hsrc, hdst,
      hfirst, hsecond, rfl⟩
  · exact absurd rfl hne
  · exact absurd rfl hne
  obtain ⟨i, hi, hvmi⟩ := vmById_of_vmAt hsrc
  obtain ⟨k, hk, hvmk⟩ := vmById_of_vmAt hdst
  have hspace := s2Map_refines_put (s2Map_refines_put href (Hyp.roots_of_vm hvmi) hfirst)
    (Hyp.roots_of_vm hvmk) hsecond
  convert hspace using 2 with w
  simp only [OneOf, hi, hk, Option.some.injEq]
  by_cases hwk : w = k
  · subst hwk
    rw [if_pos (.inr rfl), Function.update_self]
    by_cases hwi : w = i
    · -- a VM that shares with itself is mapped twice
      subst hwi
      rw [Function.update_self]
      exact (Space.put_put _ _ _ _).symm
    · rw [Function.update_of_ne hwi]
      rfl
  · rw [Function.update_of_ne hwk]
    by_cases hwi : w = i
    · subst hwi
      rw [if_pos (.inl rfl), Function.update_self]
      rfl
    · rw [if_neg (by tauto), Function.update_of_ne hwi]

end Spaces

/-! ## Sharing and unsharing again -/

/-- The addresses whose page a range of the tables covers. -/
def Covers (ipa sz j : U64) : Prop :=
  j.toNat < 2 ^ 39 ∧ j.toNat / 4096 ∈ visited ipa (sz.toNat / 4096)

/-- What a share leaves at a page of its range: what the last step that
comes to it stores. -/
def sharedAt (h : Hyp) (ipa sz : U64) (p : ℕ) : Option U64 :=
  (lastStep ipa (sz.toNat / 4096) p).bind (sharedEntry h)

/-- The region that the `shmem_unmap` after a share finds: an older active
one at the address, or else the new one. -/
def found (h : Hyp) (srcId dstId : U32) (ipa sz : U64) : ShmRegion :=
  (regionAt h ipa).getD (shared h srcId dstId ipa sz)

/-- **What must hold before for the two calls to cancel**: the VMs of the
region that will be found have nothing mapped in the range, and a VM of the
pair that is not one of those has at each page of the range the page of the
pool, with the attributes, that will be shared there. -/
structure Restorable (h : Hyp) (srcId dstId : U32) (ipa sz : U64) (r : ShmRegion) : Prop where
  free : ∀ id vm, id = r.src ∨ id = r.dst → vmAt h id = some vm →
    ∀ j, Covers ipa sz j → ipaView h.s2 vm.s2Pgd j = none
  same : ∀ id vm, id = srcId ∨ id = dstId → id ≠ r.src → id ≠ r.dst → vmAt h id = some vm →
    ∀ j, Covers ipa sz j →
      (ipaView h.s2 vm.s2Pgd j).map Prod.fst = sharedAt h ipa sz (j.toNat / 4096)

omit P in
theorem oneOf_iff {a b : U32} :
    OneOf h a b w ↔ ∃ id, (id = a ∨ id = b) ∧ vmById h id = some w := by
  constructor
  · rintro (hw | hw)
    · exact ⟨a, .inl rfl, hw⟩
    · exact ⟨b, .inr rfl, hw⟩
  · rintro ⟨id, rfl | rfl, hw⟩
    · exact .inl hw
    · exact .inr hw

theorem aligned_of_shmemMap (hrun : shmemMap h srcId dstId ipa sz = some (.ok, h')) :
    ipa.toNat % 4096 = 0 ∧ sz.toNat % 4096 = 0 := by
  rcases shmemMap_inv hrun with ⟨-, hne, -⟩ | ⟨-, hne, -⟩ | ⟨-, -, _, _, s₁, _, -, -, hfirst, -, -⟩
  · exact absurd rfl hne
  · exact absurd rfl hne
  · rcases s2Map_eq_some.1 hfirst with ⟨hinval, -⟩ | ⟨-, ⟨hipa, -, hsz⟩, -⟩
    · cases hinval
    · exact ⟨hipa, hsz⟩

/-- The new region is recorded behind the others, so it is found only if
none of them is. -/
theorem regionAt_of_shmemMap (hrun : shmemMap h srcId dstId ipa sz = some (.ok, h')) :
    regionAt h' ipa = some (found h srcId dstId ipa sz) := by
  rcases shmemMap_inv hrun with ⟨-, hne, -⟩ | ⟨-, hne, -⟩ | ⟨-, -, src, dst, s₁, s₂, -, -, -, -, rfl⟩
  · exact absurd rfl hne
  · exact absurd rfl hne
  have hnew : [shared h srcId dstId ipa sz].find? (fun r => r.active && r.ipa = ipa) =
      some (shared h srcId dstId ipa sz) := by simp [shared]
  unfold found regionAt
  rw [List.find?_append, hnew]
  cases h.shmem.regions.find? fun r => r.active && r.ipa = ipa <;> rfl

omit P in
/-- A region that is found is unmapped. -/
theorem shmemUnmap_ok (hr : regionAt h ipa = some r) :
    (shmemUnmap h ipa sz).1 = .ok := by
  rw [regionAt, List.find?_eq_bind_findIdx?_getElem?] at hr
  obtain ⟨k, hk, hr⟩ := Option.bind_eq_some_iff.mp hr
  unfold shmemUnmap
  rw [hk]
  dsimp only
  rw [hr]

omit P in
theorem oneOf_congr (hvms : h'.vms = h.vms) {a b : U32} :
    OneOf h' a b w ↔ OneOf h a b w := by
  rw [OneOf, OneOf, vmById, vmById, vmById, vmById, hvms]

omit P in
/-- At a page of the range a share stores nothing new if and only if the
page was there. -/
theorem put_sharedEntry_iff {m : Space} {p : ℕ} (hp : p ∈ visited ipa (sz.toNat / 4096)) :
    m.put ipa (sharedEntry h) (sz.toNat / 4096) p = m p ↔ m p = sharedAt h ipa sz p := by
  rw [Space.put_eq, sharedAt]
  cases hlast : lastStep ipa (sz.toNat / 4096) p with
  | none => exact absurd hp (lastStep_eq_none_iff.mp hlast)
  | some k => exact eq_comm

/-- One address of one VM, before the share and after both calls. -/
theorem restored_at_iff (hshape : Shape h.s2 h.roots)
    (hrun : shmemMap h srcId dstId ipa sz = some (.ok, h'))
    (hfound : r = found h srcId dstId ipa sz) (hvm : h.vms[w]? = some vm) (j : U64) :
    ipaView (shmemUnmap h' ipa sz).2.s2 vm.s2Pgd j = ipaView h.s2 vm.s2Pgd j ↔
      (Covers ipa sz j → OneOf h r.src r.dst w → ipaView h.s2 vm.s2Pgd j = none) ∧
      (Covers ipa sz j → OneOf h srcId dstId w → ¬ OneOf h r.src r.dst w →
        (ipaView h.s2 vm.s2Pgd j).map Prod.fst = sharedAt h ipa sz (j.toNat / 4096)) := by
  by_cases hj : j.toNat < 2 ^ 39
  swap
  · simp only [ipaView_of_ge (Nat.not_lt.mp hj), true_iff, implies_true, true_and]
    exact fun hc => absurd hc.1 hj
  have href := hshape.refines
  generalize (fun (w : ℕ) p => (h.roots[w]?).bind fun r => translate h.s2 r (BitVec.ofNat 64 (4096 * p)))
    = M at href
  have hmap := shmemMap_refines href hrun
  have hvms : h'.vms = h.vms := by rw [Hypercall.shmemMap_rest hrun]
  have hroots : h'.roots = h.roots := by rw [Hyp.roots, hvms, Hyp.roots]
  have hr : regionAt h' ipa = some r := by rw [hfound, regionAt_of_shmemMap hrun]
  have hok : (shmemUnmap h' ipa sz).1 = .ok := shmemUnmap_ok hr
  have hunmap := shmemUnmap_refines (hroots ▸ hmap) hok hr
  obtain ⟨hipa, hsz⟩ := aligned_of_shmemMap hrun
  have hroot := Hyp.roots_of_vm hvm
  rw [hroots] at hunmap
  rw [ipaView_congr_iff href hunmap hroot hj, ipaView_fst href hroot hj,
    ipaView_eq_none_iff href hroot hj]
  have hcovers : Covers ipa sz j ↔ j.toNat / 4096 ∈ unmapPages ipa sz :=
    ⟨fun hc => ⟨hipa, hsz, hc.2⟩, fun hp => ⟨hj, hp.2.2⟩⟩
  have hquiet : ¬ Covers ipa sz j → ∀ m : Space,
      m.put ipa (sharedEntry h) (sz.toNat / 4096) (j.toNat / 4096) = m (j.toNat / 4096) :=
    fun hc m => Space.put_of_notMem fun hp => hc ⟨hj, hp⟩
  by_cases hc : Covers ipa sz j
  · by_cases hone : OneOf h r.src r.dst w
    · rw [if_pos ((oneOf_congr hvms).mpr hone), Space.drop_of_mem (hcovers.mp hc)]
      simp only [hc, hone, true_implies, not_true, false_implies, implies_true, and_true]
      exact eq_comm
    · rw [if_neg fun hone' => hone ((oneOf_congr hvms).mp hone')]
      simp only [hc, hone, true_implies, false_implies, not_false_eq_true, true_and]
      by_cases hpair : OneOf h srcId dstId w
      · simp only [hpair, true_implies, if_true]
        exact put_sharedEntry_iff hc.2
      · simp only [hpair, if_false, false_implies]
  · simp only [hc, false_implies, and_self, iff_true]
    split <;> split <;>
      simp only [Space.drop_of_notMem (fun hp => hc (hcovers.mpr hp)), hquiet hc]

/-- **Sharing is undone by unsharing**, at every address of every VM, if
and only if the range is free before in the VMs of the region that will be
found, and any other VM of the pair has the shared pages there already. -/
theorem share_reversible_iff (hshape : Shape h.s2 h.roots)
    (hrun : shmemMap h srcId dstId ipa sz = some (.ok, h')) :
    (∀ vm ∈ h.vms, ∀ j, ipaView (shmemUnmap h' ipa sz).2.s2 vm.s2Pgd j =
      ipaView h.s2 vm.s2Pgd j) ↔
    Restorable h srcId dstId ipa sz (found h srcId dstId ipa sz) := by
  constructor
  · intro hback
    refine ⟨fun id vm hid hvm j hj => ?_, fun id vm hid hsrc hdst hvm j hj => ?_⟩
    · obtain ⟨w, hw, hvm⟩ := vmById_of_vmAt hvm
      have hat := hback vm (List.mem_of_getElem? hvm) j
      rw [restored_at_iff hshape hrun rfl hvm] at hat
      exact hat.1 hj (oneOf_iff.mpr ⟨id, hid, hw⟩)
    · obtain ⟨w, hw, hvm⟩ := vmById_of_vmAt hvm
      have hat := hback vm (List.mem_of_getElem? hvm) j
      rw [restored_at_iff hshape hrun rfl hvm] at hat
      refine hat.2 hj (oneOf_iff.mpr ⟨id, hid, hw⟩) fun hone => ?_
      obtain ⟨id', hid', hw'⟩ := oneOf_iff.mp hone
      rw [← vmById_inj hw hw'] at hid'
      exact hid'.elim hsrc hdst
  · intro hres vm hmem j
    obtain ⟨w, hvm⟩ := List.getElem?_of_mem hmem
    rw [restored_at_iff hshape hrun rfl hvm]
    have hat : ∀ {id}, vmById h id = some w → vmAt h id = some vm := fun hw => by
      rw [vmAt, hw, Option.bind_some, hvm]
    constructor
    · intro hj hone
      obtain ⟨id, hid, hw⟩ := oneOf_iff.mp hone
      exact hres.free id vm hid (hat hw) j hj
    · intro hj hpair hnot
      obtain ⟨id, hid, hw⟩ := oneOf_iff.mp hpair
      refine hres.same id vm hid ?_ ?_ (hat hw) j hj
      · rintro rfl
        exact hnot (.inl hw)
      · rintro rfl
        exact hnot (.inr hw)

/-! ## Unsharing -/

/-- **A region is gone from its two VMs, and nothing else is.** -/
def Unshared (h h' : Hyp) (r : ShmRegion) : Prop :=
  ∀ id vm, id = r.src ∨ id = r.dst → vmAt h id = some vm →
    (∀ j, InRange r.ipa r.sz j → ipaView h'.s2 vm.s2Pgd j = none) ∧
    ∀ j, ¬ InRange r.ipa r.sz j → ipaView h'.s2 vm.s2Pgd j = ipaView h.s2 vm.s2Pgd j

/-- **The caller's size and the region agree** on what the two VMs have
mapped: the addresses that `s2_unmap` is led to are those of the region. -/
def Agrees (h : Hyp) (ipa sz : U64) (r : ShmRegion) : Prop :=
  ∀ id vm, id = r.src ∨ id = r.dst → vmAt h id = some vm →
    ∀ j, ipaView h.s2 vm.s2Pgd j ≠ none →
      (j.toNat / 4096 ∈ unmapPages ipa sz ↔ InRange r.ipa r.sz j)

theorem shape_of_shmemStep {c : ShmemCall} (hshape : Shape h.s2 h.roots)
    (hstep : shmemStep h c = some h') : Shape h'.s2 h'.roots := by
  have hretain : Retains h h' := by
    cases c with
    | map srcId dstId ipa sz =>
      obtain ⟨⟨e, g⟩, hrun, rfl⟩ := Option.map_eq_some_iff.mp hstep
      exact retains_shmemMap hrun
    | unmap ipa sz =>
      obtain rfl := Option.some.inj hstep
      exact retains_shmemUnmap h ipa sz
  rw [hretain.roots]
  exact (hretain.tables hshape).shape

theorem shape_of_shmemSteps {h₀ : Hyp} {calls : List ShmemCall} (hshape : Shape h₀.s2 h₀.roots)
    (hrun : exec shmemStep (shmemInit h₀) calls = some h) : Shape h.s2 h.roots := by
  have hstep : ∀ (g : Hyp) (c : ShmemCall) g', Shape g.s2 g.roots → shmemStep g c = some g' →
      Shape g'.s2 g'.roots := fun _ _ _ hg hs => shape_of_shmemStep hg hs
  have hinit : Shape (shmemInit h₀).s2 (shmemInit h₀).roots := hshape
  exact exec_invariant hstep hinit hrun

/-- One address of one VM of the region, before and after. -/
theorem ipaView_shmemUnmap {id : U32} (hshape : Shape h.s2 h.roots)
    (hok : (shmemUnmap h ipa sz).1 = .ok) (hr : regionAt h ipa = some r)
    (hid : id = r.src ∨ id = r.dst) (hvm : vmAt h id = some vm) (j : U64) :
    (j.toNat / 4096 ∈ unmapPages ipa sz →
      ipaView (shmemUnmap h ipa sz).2.s2 vm.s2Pgd j = none) ∧
    (j.toNat / 4096 ∉ unmapPages ipa sz →
      ipaView (shmemUnmap h ipa sz).2.s2 vm.s2Pgd j = ipaView h.s2 vm.s2Pgd j) := by
  by_cases hj : j.toNat < 2 ^ 39
  swap
  · simp only [ipaView_of_ge (Nat.not_lt.mp hj), implies_true, and_self]
  obtain ⟨w, hw, hvm⟩ := vmById_of_vmAt hvm
  have hone : OneOf h r.src r.dst w := oneOf_iff.mpr ⟨id, hid, hw⟩
  have hunmap := shmemUnmap_refines hshape.refines hok hr
  have hroot := Hyp.roots_of_vm hvm
  rw [ipaView_eq_none_iff hunmap hroot hj, ipaView_congr_iff hshape.refines hunmap hroot hj,
    if_pos hone]
  exact ⟨Space.drop_of_mem, Space.drop_of_notMem⟩

/-- **Unsharing is complete** exactly if the caller's size and the region
agree. -/
theorem unshared_iff (hshape : Shape h.s2 h.roots)
    (hok : (shmemUnmap h ipa sz).1 = .ok) (hr : regionAt h ipa = some r) :
    Unshared h (shmemUnmap h ipa sz).2 r ↔ Agrees h ipa sz r := by
  have hat : ∀ id vm, id = r.src ∨ id = r.dst → vmAt h id = some vm → ∀ j, _ :=
    fun id vm hid hvm j => ipaView_shmemUnmap hshape hok hr hid hvm j
  constructor
  · intro hun id vm hid hvm j hmapped
    obtain ⟨hgone, hkept⟩ := hun id vm hid hvm
    obtain ⟨hin, hout⟩ := hat id vm hid hvm j
    constructor
    · intro hp
      by_contra hrange
      exact hmapped ((hkept j hrange).symm.trans (hin hp))
    · intro hrange
      by_contra hp
      exact hmapped ((hout hp).symm.trans (hgone j hrange))
  · intro hagree id vm hid hvm
    refine ⟨fun j hrange => ?_, fun j hrange => ?_⟩
    · obtain ⟨hin, hout⟩ := hat id vm hid hvm j
      by_cases hp : j.toNat / 4096 ∈ unmapPages ipa sz
      · exact hin hp
      · rw [hout hp]
        by_contra hmapped
        exact hp ((hagree id vm hid hvm j hmapped).mpr hrange)
    · obtain ⟨hin, hout⟩ := hat id vm hid hvm j
      by_cases hp : j.toNat / 4096 ∈ unmapPages ipa sz
      · rw [hin hp]
        by_contra hmapped
        exact hrange ((hagree id vm hid hvm j (Ne.symm hmapped)).mp hp)
      · exact hout hp

/-- **`shmem_unmap` removes exactly its region**, whatever size it is
given and in every state that sharing and unsharing lead to, if and only if
the size and the region agree on what is mapped. -/
theorem unshare_exact_iff {h₀ : Hyp} (calls : List ShmemCall)
    (hshape : Shape h₀.s2 h₀.roots) (hrun : exec shmemStep (shmemInit h₀) calls = some h)
    (hok : (shmemUnmap h ipa sz).1 = .ok) (hr : regionAt h ipa = some r) :
    Unshared h (shmemUnmap h ipa sz).2 r ↔ Agrees h ipa sz r :=
  unshared_iff (shape_of_shmemSteps hshape hrun) hok hr

end Pool

/-! ## Two guests -/

/-- Two VMs, the first with a page of its own at address zero. -/
def guests [PtPool] : Option Hyp :=
  exec LifeOp.run Hyp.blank twoGuests

theorem exists_refused_share :
    letI := poolAt2M
    ∃ h h', guests = some h ∧ shmemMap h 1 2 0x50000000 1 = some (.inval, h') :=
  ⟨_, _, rfl, rfl⟩

theorem failed_share_unaligned_size :
    letI := poolAt2M
    ∃ h h', guests = some h ∧ shmemMap h 1 2 0x50000000 1 = some (.inval, h') ∧
      ((h'.shmem.cursor = h.shmem.cursor ∧ h'.shmem.regions = h.shmem.regions ∧
        ∀ vm ∈ h.vms, ∀ j, ipaView h'.s2 vm.s2Pgd j = ipaView h.s2 vm.s2Pgd j) ↔
      ¬ (Accepted h 1 2 1 ∧ (1 : U64) ≠ 0)) := by
  let _ := poolAt2M
  obtain ⟨h, h', hguests, hshare⟩ := exists_refused_share
  exact ⟨h, h', hguests, hshare, failed_share_iff hshare (by decide)⟩

/-- **A share at an address that is not a page's fails and keeps a page of
the pool.** -/
theorem failed_share_moves_cursor :
    letI := poolAt2M
    ∃ h h', guests = some h ∧ shmemMap h 1 2 0x50000001 0x1000 = some (.inval, h') ∧
      h.shmem.cursor = 0xA0000000 ∧ h'.shmem.cursor = 0xA0001000 :=
  ⟨_, _, rfl, rfl, rfl, rfl⟩

theorem exists_share :
    letI := poolAt2M
    ∃ h h', guests = some h ∧ shmemMap h 1 2 0x50000000 0x1000 = some (.ok, h') :=
  ⟨_, _, rfl, rfl⟩

theorem share_reversible_guests :
    letI := poolAt2M
    ∃ h h', guests = some h ∧ shmemMap h 1 2 0x50000000 0x1000 = some (.ok, h') ∧
      ((∀ vm ∈ h.vms, ∀ j, ipaView (shmemUnmap h' 0x50000000 0x1000).2.s2 vm.s2Pgd j =
        ipaView h.s2 vm.s2Pgd j) ↔
      Restorable h 1 2 0x50000000 0x1000 (found h 1 2 0x50000000 0x1000)) := by
  let _ := poolAt2M
  obtain ⟨h, h', hguests, hshare⟩ := exists_share
  exact ⟨h, h', hguests, hshare, share_reversible_iff (shape_of_lifeOps hguests) hshare⟩

/-- **A share over the first VM's own page takes it away for good.** -/
theorem share_over_memory_loses_it :
    letI := poolAt2M
    ∃ h h' vm, guests = some h ∧ shmemMap h 1 2 0 0x1000 = some (.ok, h') ∧
      h.vms[0]? = some vm ∧ (ipaView h.s2 vm.s2Pgd 0).map Prod.snd = some 0x60000000 ∧
      ipaView (shmemUnmap h' 0 0x1000).2.s2 vm.s2Pgd 0 = none :=
  ⟨_, _, _, rfl, rfl, rfl, rfl, rfl⟩

/-- Two pages shared. -/
def twoPages : List ShmemCall := [.map 1 2 0x50000000 0x2000]

theorem exists_shared :
    letI := poolAt2M
    ∃ h₀ h r, guests = some h₀ ∧ exec shmemStep (shmemInit h₀) twoPages = some h ∧
      (shmemUnmap h 0x50000000 0x2000).1 = .ok ∧ regionAt h 0x50000000 = some r :=
  ⟨_, _, _, rfl, rfl, rfl, rfl⟩

theorem unshare_exact_twoPages :
    letI := poolAt2M
    ∃ h₀ h r, guests = some h₀ ∧ exec shmemStep (shmemInit h₀) twoPages = some h ∧
      (shmemUnmap h 0x50000000 0x2000).1 = .ok ∧ regionAt h 0x50000000 = some r ∧
      (Unshared h (shmemUnmap h 0x50000000 0x2000).2 r ↔ Agrees h 0x50000000 0x2000 r) := by
  let _ := poolAt2M
  obtain ⟨h₀, h, r, hguests, hrun, hok, hr⟩ := exists_shared
  exact ⟨h₀, h, r, hguests, hrun, hok, hr,
    unshare_exact_iff twoPages (shape_of_lifeOps hguests) hrun hok hr⟩

/-- **A caller who passes half the size leaves the second page shared**,
in a region that is inactive from then on. -/
theorem unshare_leaves_page :
    letI := poolAt2M
    ∃ h₀ h vm, guests = some h₀ ∧ exec shmemStep (shmemInit h₀) twoPages = some h ∧
      (shmemUnmap h 0x50000000 0x1000).1 = .ok ∧ vmAt h 2 = some vm ∧
      (ipaView (shmemUnmap h 0x50000000 0x1000).2.s2 vm.s2Pgd 0x50001000).map Prod.snd =
        some 0xA0001000 :=
  ⟨_, _, _, rfl, rfl, rfl, rfl, rfl⟩

end Shmem

end HypervisorBase
