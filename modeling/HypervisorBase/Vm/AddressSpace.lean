import HypervisorBase.Vm.Regions
/-!
# The address space that `vm_finalize` builds

`vm_finalize` maps the regions of a VM one after another, so a page that
several of them name is left with the last. `Space.build` is the space
this makes of an old one, for any list of regions, and `lastWrite` says
what decides a page. For regions within the tables' range it is the last
region that contains the page (`lastWrite_eq`), and
`finalize_builds_declared` is the result: a finalized VM sees what its
regions declare, and stopping and finalizing it again gives the same
space, from the tables it already has.
-/

namespace HypervisorBase

open Stage2

/-! ## What a list of regions writes -/

namespace Stage2

/-- The last step of a loop over a range that is at page `p`. -/
def lastStep (x : U64) : ℕ → ℕ → Option ℕ
  | 0, _ => none
  | n + 1, p => if pageAt x n = p then some n else lastStep x n p

/-- The last write to a page decides. -/
theorem Space.put_eq (m : Space) (x : U64) (d : ℕ → Option U64) (n p : ℕ) :
    m.put x d n p = (lastStep x n p).elim (m p) d := by
  induction n with
  | zero => rfl
  | succ n ih =>
    rw [Space.put, lastStep, Function.update_apply]
    by_cases hlast : pageAt x n = p
    · rw [if_pos hlast.symm, if_pos hlast]
      rfl
    · rw [if_neg fun heq => hlast heq.symm, if_neg hlast, ih]

theorem lastStep_eq_none_iff {x : U64} {n p : ℕ} :
    lastStep x n p = none ↔ p ∉ visited x n := by
  induction n with
  | zero => exact ⟨fun _ ⟨k, hk, _⟩ => Nat.not_lt_zero k hk, fun _ => rfl⟩
  | succ n ih =>
    rw [lastStep]
    split
    · rename_i hlast
      refine ⟨fun hsome => ?_, fun hout => absurd ⟨n, Nat.lt_succ_self n, hlast⟩ hout⟩
      cases hsome
    · rename_i hlast
      rw [ih]
      constructor
      · rintro hout ⟨k, hk, heq⟩
        rcases Nat.lt_succ_iff_lt_or_eq.mp hk with hlt | rfl
        · exact hout ⟨k, hlt, heq⟩
        · exact hlast heq
      · rintro hout ⟨k, hk, heq⟩
        exact hout ⟨k, by omega, heq⟩

theorem lastStep_of_le {x : U64} {n : ℕ} (hle : x.toNat + n * 4096 ≤ 2 ^ 39) (p : ℕ) :
    lastStep x n p = if x.toNat / 4096 ≤ p ∧ p < x.toNat / 4096 + n
      then some (p - x.toNat / 4096) else none := by
  induction n with
  | zero => rw [lastStep, if_neg (by omega)]
  | succ n ih =>
    have hpage : pageAt x n = x.toNat / 4096 + n := pageAt_of_le hle (Nat.lt_succ_self n)
    have hle' : x.toNat + n * 4096 ≤ 2 ^ 39 :=
      Nat.le_trans (Nat.add_le_add_left (Nat.mul_le_mul_right 4096 (Nat.le_succ n)) _) hle
    rw [lastStep, hpage, ih hle']
    by_cases hlast : x.toNat / 4096 + n = p
    · rw [if_pos hlast, if_pos (by omega), ← hlast, Nat.add_sub_cancel_left]
    · rw [if_neg hlast]
      by_cases hin : x.toNat / 4096 ≤ p ∧ p < x.toNat / 4096 + n
      · rw [if_pos hin, if_pos (by omega)]
      · rw [if_neg hin, if_neg (by omega)]

end Stage2

theorem regionFlags_and_attrMask (r : MemRegion) : regionFlags r &&& attrMask = regionFlags r := by
  unfold regionFlags
  split <;> split <;> decide

/-- What `vm_finalize` stores at step `k` of a region. -/
def MemRegion.entryAt (r : MemRegion) (k : ℕ) : U64 :=
  pageDesc (r.paBase + BitVec.ofNat 64 (k * 4096)) (regionFlags r)

/-- A space after the regions are mapped, whatever they are. -/
def Stage2.Space.build (m : Space) (mem : List MemRegion) : Space :=
  mem.foldl (fun m r => m.put r.ipaBase (fun k => some (r.entryAt k)) (r.size.toNat / 4096)) m

/-- **The last write to a page**: the region and the step of its loop. -/
def lastWrite : List MemRegion → ℕ → Option (MemRegion × ℕ)
  | [], _ => none
  | r :: rs, p =>
    (lastWrite rs p).or ((lastStep r.ipaBase (r.size.toNat / 4096) p).map fun k => (r, k))

/-- So it does over the regions of a VM. -/
theorem Stage2.Space.build_eq (m : Space) (mem : List MemRegion) (p : ℕ) :
    m.build mem p = (lastWrite mem p).elim (m p) fun w => some (w.1.entryAt w.2) := by
  induction mem generalizing m with
  | nil => rfl
  | cons r rs ih =>
    change Space.build (m.put r.ipaBase (fun k => some (r.entryAt k)) (r.size.toNat / 4096)) rs p = _
    rw [ih, lastWrite, Space.put_eq]
    cases lastWrite rs p with
    | some w => rfl
    | none => cases lastStep r.ipaBase (r.size.toNat / 4096) p <;> rfl

theorem lastWrite_eq_none_iff {mem : List MemRegion} {p : ℕ} :
    lastWrite mem p = none ↔ ∀ r ∈ mem, p ∉ visited r.ipaBase (r.size.toNat / 4096) := by
  induction mem with
  | nil => exact ⟨fun _ _ hr => absurd hr List.not_mem_nil, fun _ => rfl⟩
  | cons r rs ih =>
    rw [lastWrite, Option.or_eq_none_iff, Option.map_eq_none_iff, ih, lastStep_eq_none_iff,
      List.forall_mem_cons, and_comm]

/-- The last region of a list that contains an address. -/
def lastRegion : List MemRegion → ℕ → Option MemRegion
  | [], _ => none
  | r :: rs, x => (lastRegion rs x).or (if r.Contains x then some r else none)

theorem mem_of_lastRegion {mem : List MemRegion} {x : ℕ} {r : MemRegion}
    (hr : lastRegion mem x = some r) : r ∈ mem ∧ r.Contains x := by
  induction mem with
  | nil => cases hr
  | cons r' rs ih =>
    rw [lastRegion, Option.or_eq_some_iff] at hr
    rcases hr with hr | ⟨-, hr⟩
    · exact ⟨List.mem_cons_of_mem _ (ih hr).1, (ih hr).2⟩
    · rw [Option.ite_none_right_eq_some, Option.some_inj] at hr
      obtain ⟨hin, rfl⟩ := hr
      exact ⟨List.mem_cons_self, hin⟩

/-- Page-aligned bases and sizes, guest addresses below `2 ^ 39` and
physical addresses below `2 ^ 48`. -/
structure MemRegion.Declared (r : MemRegion) : Prop where
  ipa : r.ipaBase.toNat % 4096 = 0
  pa : r.paBase.toNat % 4096 = 0
  size : r.size.toNat % 4096 = 0
  ipa_le : r.ipaBase.toNat + r.size.toNat ≤ 2 ^ 39
  pa_le : r.paBase.toNat + r.size.toNat ≤ 2 ^ 48

/-- **In range, the last region that contains a page decides it.** -/
theorem lastWrite_eq {mem : List MemRegion} (hdecl : ∀ r ∈ mem, r.Declared) {x : ℕ} :
    lastWrite mem (x / 4096) =
      (lastRegion mem x).map fun r => (r, x / 4096 - r.ipaBase.toNat / 4096) := by
  induction mem with
  | nil => rfl
  | cons r rs ih =>
    obtain ⟨hipa, -, hsize, hle, -⟩ := hdecl r List.mem_cons_self
    rw [lastWrite, lastRegion, ih fun r' hr' => hdecl r' (List.mem_cons_of_mem _ hr'),
      lastStep_of_le (by omega), Option.map_or]
    congr 1
    by_cases hin : r.Contains x
    · rw [if_pos hin]
      unfold MemRegion.Contains at hin
      rw [if_pos (by omega)]
      rfl
    · rw [if_neg hin]
      unfold MemRegion.Contains at hin
      rw [if_neg (by omega)]
      rfl

/-! ## What `vm_finalize` writes -/

/-- Where the extra page of a Linux VM is mapped to. -/
def faultPa (vm : Vm) : U64 := ((vm.mem[0]?).map MemRegion.paBase).getD 0 + linuxFaultIpa

def faultFlags : U64 := s2Af ||| s2ShInner ||| s2S2apRw ||| s2MemattrWb

def faultPage : ℕ := 0x2BF

/-- **The space that `vm_finalize` makes of an old one.** -/
def Stage2.Space.finalize (m : Space) (vm : Vm) : Space :=
  if vm.type = .linux
    then Function.update (m.build vm.mem) faultPage (some (pageDesc (faultPa vm) faultFlags))
    else m.build vm.mem

theorem Stage2.Space.finalize_congr {m : Space} {vm vm' : Vm} (hlayout : vm'.layout = vm.layout) :
    m.finalize vm' = m.finalize vm := by
  obtain ⟨-, hmem, htype⟩ : vm'.s2Pgd = vm.s2Pgd ∧ vm'.mem = vm.mem ∧ vm'.type = vm.type := by
    rw [Vm.layout, Vm.layout, Prod.mk.injEq, Prod.mk.injEq] at hlayout
    exact hlayout
  rw [Space.finalize, Space.finalize, faultPa, faultPa, hmem, htype]

/-- Only the fault page of Linux is mapped besides the regions. -/
theorem Stage2.Space.finalize_of_ne {m : Space} {vm : Vm} {p : ℕ}
    (hp : ¬ (vm.type = .linux ∧ p = faultPage)) : m.finalize vm p = m.build vm.mem p := by
  unfold Space.finalize
  split
  · rename_i hlinux
    exact Function.update_of_ne (fun heq => hp ⟨hlinux, heq⟩) _ _
  · rfl

/-- **What a stop drops, a second `vm_finalize` writes again.** -/
theorem Stage2.Space.finalize_drop (m : Space) (vm : Vm) :
    ((m.finalize vm).drop (regionPages vm.mem)).finalize vm = m.finalize vm := by
  have hbuild : ∀ p, ¬ (vm.type = .linux ∧ p = faultPage) →
      ((m.finalize vm).drop (regionPages vm.mem)).build vm.mem p = m.build vm.mem p := by
    intro p hp
    rw [Space.build_eq, Space.build_eq]
    cases hlast : lastWrite vm.mem p with
    | some w => rfl
    | none =>
      have hout : p ∉ regionPages vm.mem := fun ⟨reg, hreg, hin⟩ =>
        lastWrite_eq_none_iff.mp hlast reg hreg hin.2.2
      rw [Option.elim_none, Option.elim_none, Space.drop_of_notMem hout, Space.finalize_of_ne hp,
        Space.build_eq, hlast, Option.elim_none]
  funext p
  by_cases hp : vm.type = .linux ∧ p = faultPage
  · rw [Space.finalize, Space.finalize, if_pos hp.1, if_pos hp.1, hp.2, Function.update_self,
      Function.update_self]
  · rw [Space.finalize_of_ne hp, Space.finalize_of_ne hp, hbuild p hp]

section Tables

variable [P : PtPool]
variable {h h' : Hyp} {i v : ℕ} {vm : Vm} {s s' : S2State} {roots : List U64} {M : ℕ → Space}
variable {r : U64} {mem : List MemRegion}

/-- The bases and the size of a region are those of pages. -/
def MemRegion.Aligned (reg : MemRegion) : Prop :=
  reg.ipaBase.toNat % 4096 = 0 ∧ reg.paBase.toNat % 4096 = 0 ∧ reg.size.toNat % 4096 = 0

/-- **The loop over the regions**, when it succeeds. -/
theorem mapRegions_refines (href : Refines s roots M) (hr : roots[v]? = some r)
    (hrun : mapRegions r mem s = some (.ok, s')) :
    Refines s' roots (Function.update M v ((M v).build mem)) ∧ ∀ reg ∈ mem, reg.Aligned := by
  induction mem generalizing s M with
  | nil =>
    cases hrun
    refine ⟨?_, fun reg hreg => absurd hreg List.not_mem_nil⟩
    rw [Space.build, List.foldl_nil, Function.update_eq_self]
    exact href
  | cons reg mem ih =>
    obtain ⟨⟨e, s₁⟩, hmap, hrun⟩ := Option.bind_eq_some_iff.mp hrun
    dsimp only at hrun
    rcases s2Map_eq_some.1 hmap with ⟨rfl, -, -⟩ | ⟨rfl, ⟨hipa, hpa, hsz⟩, -⟩
    · cases hrun
    · obtain ⟨hrest, hal⟩ := ih (s2Map_refines_put href hr hmap) hrun
      rw [Function.update_idem, Function.update_self] at hrest
      exact ⟨hrest, List.forall_mem_cons.mpr ⟨⟨hipa, hpa, hsz⟩, hal⟩⟩

omit P in
theorem faultPa_aligned (hal : ∀ reg ∈ vm.mem, reg.Aligned) : (faultPa vm).toNat % 4096 = 0 := by
  have hbase : (((vm.mem[0]?).map MemRegion.paBase).getD 0).toNat % 4096 = 0 := by
    cases hmem : vm.mem[0]? with
    | none => rfl
    | some reg => exact (hal reg (List.mem_of_getElem? hmem)).2.1
  rw [faultPa, BitVec.toNat_add, show linuxFaultIpa.toNat = 0x2BF000 from rfl]
  omega

/-- The extra page, as the call of `s2_map` it is. -/
theorem mapLinuxFaultPage_inv (hal : ∀ reg ∈ vm.mem, reg.Aligned)
    (hrun : mapLinuxFaultPage vm s = some s') :
    (vm.type ≠ .linux ∧ s' = s) ∨ (vm.type = .linux ∧
      s2Map s vm.s2Pgd linuxFaultIpa (faultPa vm) 0x1000 faultFlags = some (.ok, s')) := by
  unfold mapLinuxFaultPage at hrun
  split at hrun
  · rename_i hlinux
    obtain ⟨⟨e, s₁⟩, hmap, hrun⟩ := Option.bind_eq_some_iff.mp hrun
    obtain rfl := Option.some.inj hrun
    refine .inr ⟨hlinux, ?_⟩
    rcases s2Map_eq_some.1 hmap with ⟨-, -, hnot⟩ | ⟨rfl, -, -⟩
    · exact absurd ⟨by decide, faultPa_aligned hal, by decide⟩ hnot
    · exact hmap
  · rename_i hother
    exact .inl ⟨hother, (Option.some.inj hrun).symm⟩

/-- **The fault page** is one more write. -/
theorem mapLinuxFaultPage_refines (hal : ∀ reg ∈ vm.mem, reg.Aligned) (href : Refines s roots M)
    (hr : roots[v]? = some vm.s2Pgd) (hrun : mapLinuxFaultPage vm s = some s') :
    Refines s' roots (Function.update M v (if vm.type = .linux
      then Function.update (M v) faultPage (some (pageDesc (faultPa vm) faultFlags)) else M v)) := by
  rcases mapLinuxFaultPage_inv hal hrun with ⟨hother, rfl⟩ | ⟨hlinux, hmap⟩
  · rw [if_neg hother, Function.update_eq_self]
    exact href
  · have hput := s2Map_refines_put href hr hmap
    have hpage : pageAt linuxFaultIpa 0 = faultPage := by decide
    rw [show (0x1000 : U64).toNat / 4096 = 1 from rfl, Space.put, Space.put, hpage, Nat.zero_mul,
      BitVec.add_zero] at hput
    rw [if_pos hlinux]
    exact hput

/-- **A successful `vm_finalize`**: the regions, the extra page, and a VM
that is ready with its layout as it was. -/
theorem vmFinalize_inv (hvm : h.vms[i]? = some vm) (hrun : vmFinalize h i = some (.ok, h')) :
    ∃ s₁ vm', mapRegions vm.s2Pgd vm.mem h.s2 = some (.ok, s₁) ∧
      mapLinuxFaultPage vm s₁ = some h'.s2 ∧ h'.vms[i]? = some vm' ∧
      vm'.layout = vm.layout ∧ vm'.state = .ready := by
  rcases vmFinalize_cases hrun with ⟨-, herr, -⟩ | ⟨vm', hvm', hcases⟩
  · cases herr
  obtain rfl := Option.some.inj (hvm.symm.trans hvm')
  rcases hcases with ⟨s₁, -, herr, -⟩ | ⟨s₁, s₂, vm', pool, hregions, hpage, hinit, rfl⟩
  · exact absurd rfl herr
  · have hi := (List.getElem?_eq_some_iff.mp hvm).1
    have hlayout := layout_initVcpus hinit
    exact ⟨s₁, _, hregions, hpage, List.getElem?_set_self hi, hlayout, rfl⟩

/-- **What `vm_finalize` leaves**, for any list of regions. -/
theorem vmFinalize_refines (href : Refines h.s2 h.roots M) (hvm : h.vms[i]? = some vm)
    (hrun : vmFinalize h i = some (.ok, h')) :
    Refines h'.s2 h.roots (Function.update M i ((M i).finalize vm)) ∧
      ∀ reg ∈ vm.mem, reg.Aligned := by
  obtain ⟨s₁, -, hregions, hpage, -⟩ := vmFinalize_inv hvm hrun
  have hr := Hyp.roots_of_vm hvm
  obtain ⟨hbuilt, hal⟩ := mapRegions_refines href hr hregions
  have hfinal := mapLinuxFaultPage_refines hal hbuilt hr hpage
  rw [Function.update_idem, Function.update_self] at hfinal
  exact ⟨hfinal, hal⟩

/-! ## What it takes from the pool -/

/-- The tables on the way to the pages of the regions. -/
def memPaths (mem : List MemRegion) : Finset (List Idx) :=
  mem.foldr (fun reg A => rangePaths reg.ipaBase (reg.size.toNat / 4096) ∪ A) ∅

/-- The tables on the way to the pages that `vm_finalize` maps. -/
def finalPaths (vm : Vm) : Finset (List Idx) :=
  memPaths vm.mem ∪ if vm.type = .linux then rangePaths linuxFaultIpa 1 else ∅

omit P in
theorem length_of_mem_memPaths {q : List Idx} (hq : q ∈ memPaths mem) : q.length ≤ 2 := by
  induction mem with
  | nil => exact absurd hq (Finset.notMem_empty q)
  | cons reg mem ih =>
    rcases Finset.mem_union.mp hq with hq | hq
    · exact length_of_mem_rangePaths hq
    · exact ih hq

omit P in
theorem length_of_mem_finalPaths {q : List Idx} (hq : q ∈ finalPaths vm) : q.length ≤ 2 := by
  rcases Finset.mem_union.mp hq with hq | hq
  · exact length_of_mem_memPaths hq
  · split at hq
    · exact length_of_mem_rangePaths hq
    · exact absurd hq (Finset.notMem_empty q)

/-- The tables for the regions, and no others. -/
theorem grows_mapRegions (hshape : Shape s roots) (hr : roots[v]? = some r)
    (hrun : mapRegions r mem s = some (.ok, s')) : Grows roots v r (memPaths mem) s s' := by
  induction mem generalizing s with
  | nil =>
    cases hrun
    exact .refl hshape
  | cons reg mem ih =>
    obtain ⟨⟨e, s₁⟩, hmap, hrun⟩ := Option.bind_eq_some_iff.mp hrun
    dsimp only at hrun
    split at hrun
    · rename_i hok
      subst hok
      have hfirst := grows_s2Map hshape hr hmap
      exact hfirst.trans hr (fun q hq => length_of_mem_memPaths hq) (ih hfirst.shape hrun)
    · rename_i hne
      cases hrun
      exact absurd rfl hne

/-- **`vm_finalize` takes the tables that are missing.** -/
theorem grows_vmFinalize (hshape : Shape h.s2 h.roots) (hvm : h.vms[i]? = some vm)
    (hrun : vmFinalize h i = some (.ok, h')) :
    Grows h.roots i vm.s2Pgd (finalPaths vm) h.s2 h'.s2 := by
  obtain ⟨s₁, -, hregions, hpage, -⟩ := vmFinalize_inv hvm hrun
  have hr := Hyp.roots_of_vm hvm
  have hal := (vmFinalize_refines hshape.refines hvm hrun).2
  have hfirst := grows_mapRegions hshape hr hregions
  unfold finalPaths
  rcases mapLinuxFaultPage_inv hal hpage with ⟨hother, hs⟩ | ⟨hlinux, hmap⟩
  · rw [if_neg hother, Finset.union_empty, hs]
    exact hfirst
  · rw [if_pos hlinux]
    exact hfirst.trans hr (fun q hq => length_of_mem_rangePaths hq)
      (grows_s2Map hfirst.shape hr hmap)

theorem grows_unmapRegions (hshape : Shape s roots) (hr : roots[v]? = some r)
    (mem : List MemRegion) : Grows roots v r ∅ s (unmapRegions r mem s) := by
  unfold unmapRegions
  induction mem generalizing s with
  | nil => exact .refl hshape
  | cons reg mem ih =>
    have hfirst := grows_s2Unmap hshape hr reg.ipaBase reg.size
    exact hfirst.quiet_trans hr (ih hfirst.shape)

/-! ## The declared space -/

/-- What a guest's access yields, as an address and attributes. -/
def ipaResult (s : S2State) (pgd ipa : U64) : Option (U64 × U64) :=
  if ipa.toNat < 2 ^ 39 then (s2Walk s pgd ipa).result else none

/-- **What the regions of a VM declare** for a guest address: the address
in the last region that contains it, with that region's attributes, and
for a Linux VM the extra page. -/
def declaredAt (vm : Vm) (j : U64) : Option (U64 × U64) :=
  if vm.type = .linux ∧ j.toNat / 4096 = faultPage
    then some (((vm.mem[0]?).map MemRegion.paBase).getD 0 + j, faultFlags)
    else (lastRegion vm.mem j.toNat).map fun reg => (reg.paBase + (j - reg.ipaBase), regionFlags reg)

/-- A VM whose regions are page aligned and in range, as is the physical
page of the extra one. -/
structure Vm.Declared (vm : Vm) : Prop where
  regions : ∀ reg ∈ vm.mem, reg.Declared
  fault : vm.type = .linux → ∀ reg, vm.mem[0]? = some reg → reg.paBase.toNat + 0x2C0000 ≤ 2 ^ 48

omit P in
/-- What a descriptor of a page yields. -/
theorem result_pageDesc {pa f j : U64} (hpa : pa.toNat % 4096 = 0) (hlt : pa.toNat < 2 ^ 48)
    (hf : f &&& attrMask = f) :
    ((pageDesc pa f &&& walkMask) ||| (j &&& 0xFFF), pageDesc pa f &&& attrMask) =
      (BitVec.ofNat 64 (pa.toNat + j.toNat % 4096), f) := by
  have hdesc : pageDesc pa f = descOf (pa.toNat / 4096, f) := by
    rw [descOf]
    congr 1
    apply BitVec.eq_of_toNat_eq
    rw [BitVec.toNat_ofNat]
    omega
  have hx : pa.toNat / 4096 < 2 ^ 36 := by omega
  rw [hdesc, descOf_and_walkMask hx hf, descOf_and_attrMask hx hf, page_or_offset hx]
  rw [show pa.toNat / 4096 * 4096 = pa.toNat by omega]

theorem ipaResult_eq (href : Refines s roots M) (hr : roots[v]? = some r) {j : U64}
    (hj : j.toNat < 2 ^ 39) : ipaResult s r j = (M v (j.toNat / 4096)).map fun e =>
      ((e &&& walkMask) ||| (j &&& 0xFFF), e &&& attrMask) := by
  rw [ipaResult, if_pos hj, Walk.result, s2Walk_mapped href hr, vpn_of_lt hj, Option.map_map]
  rfl

omit P in
theorem declaredAt_of_ge {j : U64} (hdecl : vm.Declared) (hge : 2 ^ 39 ≤ j.toNat) :
    declaredAt vm j = none := by
  have hnone : lastRegion vm.mem j.toNat = none := by
    by_contra hsome
    obtain ⟨reg, hreg⟩ := Option.ne_none_iff_exists'.mp hsome
    obtain ⟨hmem, -, hlt⟩ := mem_of_lastRegion hreg
    have := (hdecl.regions reg hmem).ipa_le
    omega
  have hpage : ¬ (vm.type = .linux ∧ j.toNat / 4096 = faultPage) := by
    rintro ⟨-, heq⟩
    have : faultPage = 0x2BF := rfl
    omega
  rw [declaredAt, if_neg hpage, hnone, Option.map_none]

omit P in
/-- The extra page of a Linux VM, as it is declared. -/
theorem fault_declared {j : U64} (hdecl : vm.Declared) (hlinux : vm.type = .linux)
    (hj : j.toNat / 4096 = faultPage) :
    ((pageDesc (faultPa vm) faultFlags &&& walkMask) ||| (j &&& 0xFFF),
        pageDesc (faultPa vm) faultFlags &&& attrMask) =
      (((vm.mem[0]?).map MemRegion.paBase).getD 0 + j, faultFlags) := by
  have hbase : (((vm.mem[0]?).map MemRegion.paBase).getD 0).toNat % 4096 = 0 ∧
      (((vm.mem[0]?).map MemRegion.paBase).getD 0).toNat + 0x2C0000 ≤ 2 ^ 48 := by
    cases hmem : vm.mem[0]? with
    | none => exact ⟨rfl, by decide⟩
    | some reg =>
      exact ⟨(hdecl.regions reg (List.mem_of_getElem? hmem)).pa, hdecl.fault hlinux reg hmem⟩
  obtain ⟨hal, hle⟩ := hbase
  have hfault : (faultPa vm).toNat =
      (((vm.mem[0]?).map MemRegion.paBase).getD 0).toNat + 0x2BF000 := by
    rw [faultPa, BitVec.toNat_add, show linuxFaultIpa.toNat = 0x2BF000 from rfl]
    omega
  have hpage : faultPage = 0x2BF := rfl
  have hsum : BitVec.ofNat 64 ((faultPa vm).toNat + j.toNat % 4096) =
      ((vm.mem[0]?).map MemRegion.paBase).getD 0 + j := by
    apply BitVec.eq_of_toNat_eq
    rw [BitVec.toNat_ofNat, BitVec.toNat_add]
    omega
  rw [result_pageDesc (by omega) (by omega) (by decide), hsum]

omit P in
/-- The entry of a page gives the declared address and flags. -/
theorem entry_declared {reg : MemRegion} {j : U64} (hdecl : reg.Declared)
    (hin : reg.Contains j.toNat) :
    ((reg.entryAt (j.toNat / 4096 - reg.ipaBase.toNat / 4096) &&& walkMask) ||| (j &&& 0xFFF),
        reg.entryAt (j.toNat / 4096 - reg.ipaBase.toNat / 4096) &&& attrMask) =
      (reg.paBase + (j - reg.ipaBase), regionFlags reg) := by
  obtain ⟨hipa, hpa, hsize, -, hle⟩ := hdecl
  unfold MemRegion.Contains at hin
  have hsum : (reg.paBase +
      BitVec.ofNat 64 ((j.toNat / 4096 - reg.ipaBase.toNat / 4096) * 4096)).toNat =
        reg.paBase.toNat + (j.toNat / 4096 - reg.ipaBase.toNat / 4096) * 4096 := by
    rw [BitVec.toNat_add, BitVec.toNat_ofNat]
    omega
  rw [MemRegion.entryAt, result_pageDesc (by omega) (by omega) (regionFlags_and_attrMask reg), hsum]
  congr 1
  apply BitVec.eq_of_toNat_eq
  rw [BitVec.toNat_ofNat, BitVec.toNat_add, BitVec.toNat_sub]
  omega

omit P in
/-- **An empty space is finalized to what the regions declare.** -/
theorem Stage2.Space.finalize_declared {m : Space} {j : U64} (hdecl : vm.Declared)
    (hm : m (j.toNat / 4096) = none) :
    (m.finalize vm (j.toNat / 4096)).map (fun e =>
      ((e &&& walkMask) ||| (j &&& 0xFFF), e &&& attrMask)) = declaredAt vm j := by
  by_cases hfault : vm.type = .linux ∧ j.toNat / 4096 = faultPage
  · rw [declaredAt, if_pos hfault, Space.finalize, if_pos hfault.1, hfault.2, Function.update_self,
      Option.map_some, fault_declared hdecl hfault.1 hfault.2]
  · rw [declaredAt, if_neg hfault, Space.finalize_of_ne hfault, Space.build_eq, lastWrite_eq hdecl.regions, hm]
    cases hlast : lastRegion vm.mem j.toNat with
    | none => rfl
    | some reg =>
      obtain ⟨hmem, hin⟩ := mem_of_lastRegion hlast
      exact congrArg some (entry_declared (hdecl.regions reg hmem) hin)

omit P in
/-- A stop of a VM that is not stopped. -/
theorem vmStop_inv (hvm : h.vms[i]? = some vm) (hst : vm.state ≠ .stopped) :
    (vmStop h i).2.s2 = unmapRegions vm.s2Pgd vm.mem h.s2 ∧
      (vmStop h i).2.vms[i]? = some { vm with state := .stopped } := by
  have hi := (List.getElem?_eq_some_iff.mp hvm).1
  unfold vmStop
  rw [hvm]
  dsimp only
  rw [if_neg hst]
  exact ⟨rfl, List.getElem?_set_self hi⟩

/-- **Stopping a finalized VM and finalizing it again** gives the space it
had, from the tables it has: each was there when the second `vm_finalize`
came to it. -/
theorem vmFinalize_again {h₁ h₂ : Hyp} (href : Refines h.s2 h.roots M)
    (hvm : h.vms[i]? = some vm) (hrun : vmFinalize h i = some (.ok, h₁))
    (hagain : vmFinalize (vmStop h₁ i).2 i = some (.ok, h₂)) :
    Refines h₂.s2 h.roots (Function.update M i ((M i).finalize vm)) ∧
      h₂.s2.ptIdx = h₁.s2.ptIdx := by
  have hr := Hyp.roots_of_vm hvm
  obtain ⟨hbuilt, -⟩ := vmFinalize_refines href hvm hrun
  obtain ⟨-, vm₁, -, -, hvm₁, hlayout, hready⟩ := vmFinalize_inv hvm hrun
  obtain ⟨hpgd, hmem, htype⟩ : vm₁.s2Pgd = vm.s2Pgd ∧ vm₁.mem = vm.mem ∧ vm₁.type = vm.type := by
    rw [Vm.layout, Vm.layout, Prod.mk.injEq, Prod.mk.injEq] at hlayout
    exact hlayout
  obtain ⟨hs2, hvm₂⟩ := vmStop_inv hvm₁ (by rw [hready]; decide)
  have hroots : (vmStop h₁ i).2.roots = h.roots :=
    (retains_vmStop h₁ i).roots.trans (retains_vmFinalize hrun).roots
  have hstopped : Refines (vmStop h₁ i).2.s2 (vmStop h₁ i).2.roots (Function.update M i
      (((M i).finalize vm).drop (regionPages vm.mem))) := by
    rw [hs2, hroots, hpgd, hmem]
    have hdrop := unmapRegions_refines hbuilt hr vm.mem
    rwa [Function.update_idem, Function.update_self] at hdrop
  constructor
  · obtain ⟨hrebuilt, -⟩ := vmFinalize_refines hstopped hvm₂ hagain
    rw [Function.update_idem, Function.update_self, hroots] at hrebuilt
    have hsame : Space.finalize (((M i).finalize vm).drop (regionPages vm.mem))
        { vm₁ with state := .stopped } = (M i).finalize vm := by
      refine (Space.finalize_congr ?_).trans (Space.finalize_drop (M i) vm)
      exact hlayout
    rwa [hsame] at hrebuilt
  · have hfirst := grows_vmFinalize href.shape hvm hrun
    have hstop := grows_unmapRegions hbuilt.shape hr vm.mem
    have hsecond := grows_vmFinalize hstopped.shape hvm₂ hagain
    have hpaths : finalPaths { vm₁ with state := .stopped } = finalPaths vm := by
      rw [finalPaths, finalPaths, hmem, htype]
    rw [hpaths, hs2, hroots, hpgd, hmem] at hsecond
    -- after the first time none of the tables is missing
    have hnone₁ : missing h₁.s2 vm.s2Pgd (finalPaths vm) = ∅ := by
      rw [hfirst.missing_eq hr fun q hq => length_of_mem_finalPaths hq,
        Finset.sdiff_eq_empty_iff_subset]
      exact Finset.filter_subset _ _
    have hnone₂ : missing (unmapRegions vm.s2Pgd vm.mem h₁.s2) vm.s2Pgd (finalPaths vm) = ∅ := by
      rw [hstop.missing_eq hr fun q hq => length_of_mem_finalPaths hq, hnone₁,
        Finset.empty_sdiff]
    rw [hsecond.idx_of_missing hnone₂, hstop.idx_of_missing (Finset.filter_empty _)]

/-- **`vm_finalize` builds the declared address space**, for every VM with
nothing mapped and every list of regions in range; and stopping the VM and
finalizing it again gives the same space without a page from the pool. -/
theorem finalize_builds_declared {h₁ : Hyp} (hshape : Shape h.s2 h.roots)
    (hvm : h.vms[i]? = some vm) (hfresh : ∀ j, ipaResult h.s2 vm.s2Pgd j = none)
    (hdecl : vm.Declared) (hrun : vmFinalize h i = some (.ok, h₁)) :
    (∀ j, ipaResult h₁.s2 vm.s2Pgd j = declaredAt vm j) ∧
    ∀ h₂, vmFinalize (vmStop h₁ i).2 i = some (.ok, h₂) →
      (∀ j, ipaResult h₂.s2 vm.s2Pgd j = ipaResult h₁.s2 vm.s2Pgd j) ∧
        h₂.s2.ptIdx = h₁.s2.ptIdx := by
  have hr := Hyp.roots_of_vm hvm
  have hbuilt := (vmFinalize_refines hshape.refines hvm hrun).1
  refine ⟨fun j => ?_, fun h₂ hagain => ?_⟩
  · by_cases hj : j.toNat < 2 ^ 39
    · have hnone := hfresh j
      rw [ipaResult_eq hshape.refines hr hj, Option.map_eq_none_iff] at hnone
      rw [ipaResult_eq hbuilt hr hj, Function.update_self, Space.finalize_declared hdecl hnone]
    · rw [ipaResult, if_neg hj, declaredAt_of_ge hdecl (Nat.not_lt.mp hj)]
  · obtain ⟨hrebuilt, hidx⟩ := vmFinalize_again hshape.refines hvm hrun hagain
    refine ⟨fun j => ?_, hidx⟩
    by_cases hj : j.toNat < 2 ^ 39
    · rw [ipaResult_eq hrebuilt hr hj, ipaResult_eq hbuilt hr hj]
    · rw [ipaResult, if_neg hj, ipaResult, if_neg hj]

/-! ## VMs that are not finalized yet -/

/-- The operations that make VMs and give them regions. -/
def LifeOp.SetsUp : LifeOp → Prop
  | .create _ => True
  | .addMem .. => True
  | _ => False

/-- **Setting VMs up maps nothing.** -/
theorem unbuilt_of_lifeOp {op : LifeOp} (hop : op.SetsUp)
    (href : Refines h.s2 h.roots fun _ _ => none) (hrun : op.run h = some h') :
    Refines h'.s2 h'.roots fun _ _ => none := by
  cases op with
  | create type =>
    obtain ⟨⟨e, g⟩, hcreate, rfl⟩ := Option.map_eq_some_iff.mp hrun
    rcases vmCreate_refines href hcreate with rfl | hnew
    · exact href
    · rwa [Function.update_eq_self_iff.mpr rfl] at hnew
  | addMem i pa ipa sz flags =>
    obtain ⟨⟨e, g⟩, hadd, rfl⟩ := Option.map_eq_some_iff.mp hrun
    obtain ⟨hs2, hroots⟩ := s2_of_vmAddMem hadd
    dsimp only
    rw [hs2, hroots]
    exact href
  | finalize => exact hop.elim
  | start => exact hop.elim
  | call => exact hop.elim

/-- Setting up VMs maps nothing yet. -/
theorem unbuilt_of_lifeOps {ops : List LifeOp} (hops : ∀ op ∈ ops, op.SetsUp)
    (href : Refines h.s2 h.roots fun _ _ => none) (hrun : exec LifeOp.run h ops = some h') :
    Refines h'.s2 h'.roots fun _ _ => none := by
  induction ops generalizing h with
  | nil =>
    obtain rfl := Option.some.inj hrun
    exact href
  | cons op ops ih =>
    obtain ⟨g, hop, hrun⟩ := Option.bind_eq_some_iff.mp hrun
    exact ih (fun op' hmem => hops op' (List.mem_cons_of_mem _ hmem))
      (unbuilt_of_lifeOp (hops op List.mem_cons_self) href hop) hrun

theorem ipaResult_of_unbuilt (href : Refines h.s2 h.roots fun _ _ => none)
    (hvm : h.vms[i]? = some vm) (j : U64) : ipaResult h.s2 vm.s2Pgd j = none := by
  by_cases hj : j.toNat < 2 ^ 39
  · rw [ipaResult_eq href (Hyp.roots_of_vm hvm) hj, Option.map_none]
  · rw [ipaResult, if_neg hj]

end Tables

/-- A Linux VM with two regions, the second over a page of the first. -/
def layeredVm : List LifeOp :=
  [.create .linux, .addMem 0 0x60000000 0 0x2000 (memR ||| memW ||| memX),
    .addMem 0 0x70000000 0x1000 0x1000 (memR ||| memW)]

theorem exists_layeredVm :
    letI := poolAt2M
    ∃ h vm h₁ h₂, exec LifeOp.run Hyp.blank layeredVm =
        some h ∧ h.vms[0]? = some vm ∧
      vm.mem = [⟨0x60000000, 0, 0x2000, memR ||| memW ||| memX⟩,
        ⟨0x70000000, 0x1000, 0x1000, memR ||| memW⟩] ∧
      vmFinalize h 0 = some (.ok, h₁) ∧ vmFinalize (vmStop h₁ 0).2 0 = some (.ok, h₂) :=
  ⟨_, _, _, _, rfl, rfl, rfl, rfl, rfl⟩

theorem finalize_builds_layeredVm :
    letI := poolAt2M
    ∃ h vm h₁ h₂, exec LifeOp.run Hyp.blank layeredVm =
        some h ∧ h.vms[0]? = some vm ∧ vmFinalize h 0 = some (.ok, h₁) ∧
      vmFinalize (vmStop h₁ 0).2 0 = some (.ok, h₂) ∧
      (∀ j, ipaResult h₁.s2 vm.s2Pgd j = declaredAt vm j) ∧
      (∀ j, ipaResult h₂.s2 vm.s2Pgd j = ipaResult h₁.s2 vm.s2Pgd j) ∧
      h₂.s2.ptIdx = h₁.s2.ptIdx := by
  let _ := poolAt2M
  obtain ⟨h, vm, h₁, h₂, hrun, hvm, hmem, hfinal, hagain⟩ := exists_layeredVm
  have hops : ∀ op ∈ layeredVm, op.SetsUp := by
    simp [layeredVm, LifeOp.SetsUp]
  have hdecl : vm.Declared := by
    refine ⟨fun reg hreg => ?_, fun _ reg hreg => ?_⟩
    · rw [hmem] at hreg
      rcases List.mem_pair.mp hreg with rfl | rfl
      · constructor <;> decide
      · constructor <;> decide
    · rw [hmem] at hreg
      obtain rfl := Option.some.inj hreg
      decide
  have hfresh := ipaResult_of_unbuilt (unbuilt_of_lifeOps hops (refines_tableInit _) hrun) hvm
  obtain ⟨hbuilt, hrebuilt⟩ :=
    finalize_builds_declared (shape_of_lifeOps hrun) hvm hfresh hdecl hfinal
  exact ⟨h, vm, h₁, h₂, hrun, hvm, hfinal, hagain, hbuilt, hrebuilt h₂ hagain⟩

end HypervisorBase
