import HypervisorBase.Boot.Started
import HypervisorBase.Hypercall.Dispatch
import HypervisorBase.Common.Run
import HypervisorBase.Vm.AddressSpace
/-!
# Isolation of the VMs

`Isolated` is what the memory map promises: two VMs share no physical page
except devices and the shared memory between them, and no VM reaches the
hypervisor's image or the failover backup. `linux_reaches`, `rtos_reaches`
and `android_reaches` read the pages the booted VMs reach off the profile.
Its second Linux region is 1 GiB long where the map leaves it 240 MiB, so
it covers the RAM of the other two and the backup, and the property fails
before the first hypercall (`platform_never_isolated`).
-/

namespace HypervisorBase

open Stage2

namespace Boot

/-- Some address of the VM leads to the physical page. -/
def ReachesPage (h : Hyp) (vm : Vm) (page : ℕ) : Prop :=
  ∃ ipa pa, ipaToPa h.s2 vm.s2Pgd ipa = some pa ∧ pa.toNat / 4096 = page

/-- The physical page has a byte of the range. -/
def InRange (base size : U64) (page : ℕ) : Prop :=
  base.toNat < (page + 1) * 4096 ∧ page * 4096 < base.toNat + size.toNat

instance (base size : U64) (page : ℕ) : Decidable (InRange base size page) := by
  unfold InRange; infer_instance

/-- A page of a profile entry with `MEM_IO`. -/
def IsDevicePage (page : ℕ) : Prop :=
  ∃ e ∈ profile, e.flags &&& memIo ≠ 0 ∧ InRange e.paBase e.size page

instance (page : ℕ) : Decidable (IsDevicePage page) := by unfold IsDevicePage; infer_instance

/-- A page of an active shared-memory region between the two VMs. -/
def IsSharedPage (h : Hyp) (a b : U32) (page : ℕ) : Prop :=
  ∃ r ∈ h.shmem.regions, r.active ∧ (r.src = a ∧ r.dst = b ∨ r.src = b ∧ r.dst = a) ∧
    InRange r.pa r.sz page

/-- Where the memory map puts the hypervisor. -/
def imageBase : U64 := 0x40000000

def imageSize : U64 := 0x01000000

/-- The page of the image that the profile exports to Linux. -/
def obdPage : ℕ := 0x40F00

/-- The backup image `hyp_main` registers for the RTOS. -/
def backupBase : U64 := 0x90000000

def backupSize : U64 := 0x2000

/-- The devices lie below the first 256 MiB. -/
theorem not_isDevicePage {page : ℕ} (hpage : 0x10000 ≤ page) : ¬ IsDevicePage page := by
  have hbelow : ∀ e ∈ profile, e.flags &&& memIo ≠ 0 →
      e.paBase.toNat + e.size.toNat ≤ 0x10000000 := by decide
  rintro ⟨e, he, hio, -, hlt⟩
  have := hbelow e he hio
  omega

/-- **Physical isolation.** -/
structure Isolated (h : Hyp) : Prop where
  apart : ∀ (i j : ℕ) a b page, i ≠ j → h.vms[i]? = some a → h.vms[j]? = some b →
    ReachesPage h a page → ReachesPage h b page →
      IsDevicePage page ∨ IsSharedPage h a.id b.id page
  image : ∀ vm ∈ h.vms, ∀ page, ReachesPage h vm page → InRange imageBase imageSize page →
    page = obdPage
  backup : ∀ vm ∈ h.vms, ∀ page, ReachesPage h vm page → ¬ InRange backupBase backupSize page

/-- A page that two VMs reach though it neither is a device nor is shared
between them. -/
def Overlap (h : Hyp) (i j : ℕ) (page : ℕ) : Prop :=
  ∃ a b, h.vms[i]? = some a ∧ h.vms[j]? = some b ∧ ReachesPage h a page ∧ ReachesPage h b page ∧
    ¬ (IsDevicePage page ∨ IsSharedPage h a.id b.id page)

/-- What the profile does to the three VMs, Linux being the first. -/
structure Breached (h : Hyp) : Prop where
  rtos : ∀ page, 0x60000 ≤ page → page < 0x69000 → Overlap h 0 1 page
  android : ∀ page, 0x70000 ≤ page → page < 0x79000 → Overlap h 0 2 page
  backup : ∃ linux, h.vms[0]? = some linux ∧
    ∀ page, InRange backupBase backupSize page → ReachesPage h linux page

theorem Breached.not_isolated {h : Hyp} (hbreach : Breached h) : ¬ Isolated h := by
  intro hisolated
  obtain ⟨a, b, ha, hb, hra, hrb, hnot⟩ := hbreach.rtos 0x60000 (by decide) (by decide)
  exact hnot (hisolated.apart 0 1 a b 0x60000 (by decide) ha hb hra hrb)

/-! ## What a region makes reachable -/

/-- A page that the regions do not cover keeps its entry. -/
theorem mapRegions_of_disjoint {m : Space} {rs : List MemRegion} {p : ℕ}
    (h : ∀ r ∈ rs, ¬ (r.ipaBase.toNat / 4096 ≤ p ∧
      p < r.ipaBase.toNat / 4096 + r.size.toNat / 4096)) :
    m.mapRegions rs p = m p := by
  induction rs generalizing m with
  | nil => rfl
  | cons r rs ih =>
    refine (ih fun x hx => h x (List.mem_cons_of_mem _ hx)).trans ?_
    exact if_neg (h r (List.mem_cons_self ..))

/-- **The last region that covers a page decides it.** -/
theorem mapRegions_of_last {m : Space} (before : List MemRegion) {after : List MemRegion}
    {r : MemRegion} {k : ℕ}
    (hk : k < r.size.toNat / 4096)
    (h : ∀ x ∈ after, ¬ (x.ipaBase.toNat / 4096 ≤ r.ipaBase.toNat / 4096 + k ∧
      r.ipaBase.toNat / 4096 + k < x.ipaBase.toNat / 4096 + x.size.toNat / 4096)) :
    m.mapRegions (before ++ r :: after) (r.ipaBase.toNat / 4096 + k) =
      some (pageDesc (r.paBase + BitVec.ofNat 64 (k * 4096)) (regionFlags r)) := by
  rw [Space.mapRegions, List.foldl_append, List.foldl_cons]
  refine (mapRegions_of_disjoint h).trans ?_
  rw [Space.mapRange, if_pos (by omega), Nat.add_sub_cancel_left]

section Reach

variable [P : PtPool]
variable {roots : List U64} {M : ℕ → Space}

/-- **An entry of a VM's space is a page it reaches.** -/
theorem reachesPage_of_space {h : Hyp} {vm : Vm} {i p : ℕ} {x : ℕ × U64}
    (href : Refines h.s2 roots M) (hr : roots[i]? = some vm.s2Pgd) (hp : p < 2 ^ 27)
    (hx : x.1 < 2 ^ 36) (hf : x.2 &&& attrMask = x.2) (hM : M i p = some (descOf x)) :
    ReachesPage h vm x.1 := by
  have hipa : (BitVec.ofNat 64 (p * 4096)).toNat = p * 4096 := toNat_ofNat_page (by omega)
  have hvpn : vpn (BitVec.ofNat 64 (p * 4096)) = p := by rw [vpn_of_lt (by omega), hipa]; omega
  refine ⟨BitVec.ofNat 64 (p * 4096), BitVec.ofNat 64 (x.1 * 4096), ?_, ?_⟩
  · rw [ipaToPa, if_pos (by omega), s2Walk_mapped href hr, hvpn, hM]
    simp only [Option.map_some, descOf_and_walkMask hx hf, page_or_offset hx, hipa,
      Nat.mul_mod_left, Nat.add_zero]
  · rw [toNat_ofNat_page hx]
    omega

/-- The region is mapped, and of its first `n` pages none is mapped again
by a later region or as the extra page of a Linux VM. -/
def OnTop (vm : Vm) (before after : List MemRegion) (r : MemRegion) (n : ℕ) : Prop :=
  vm.mem = before ++ r :: after ∧ r.Fits ∧ r.paBase.toNat + r.size.toNat ≤ 2 ^ 48 ∧
    n ≤ r.size.toNat / 4096 ∧ (vm.type = .linux → 0x2BF < r.ipaBase.toNat / 4096) ∧
    ∀ x ∈ after, x.ipaBase.toNat / 4096 + x.size.toNat / 4096 ≤ r.ipaBase.toNat / 4096 ∨
      r.ipaBase.toNat / 4096 + n ≤ x.ipaBase.toNat / 4096

/-- **A finalised VM reaches those pages.** -/
theorem reachesPage_of_onTop {h : Hyp} {vm : Vm} {i k n : ℕ} {before after : List MemRegion}
    {r : MemRegion} (htop : OnTop vm before after r n) (hk : k < n) (href : Refines h.s2 roots M)
    (hr : roots[i]? = some vm.s2Pgd) (hM : M i = finalSpace vm fun _ => none) :
    ReachesPage h vm (r.paBase.toNat / 4096 + k) := by
  obtain ⟨hmem, ⟨hipa, hpa', hsz, hpos, hle⟩, hpa, hn, hfault, hlast⟩ := htop
  have hdesc : pageDesc (r.paBase + BitVec.ofNat 64 (k * 4096)) (regionFlags r) =
      descOf (r.paBase.toNat / 4096 + k, regionFlags r) := by
    rw [descOf]
    congr 1
    apply BitVec.eq_of_toNat_eq
    simp only [BitVec.toNat_add, BitVec.toNat_ofNat]
    omega
  have hregion := mapRegions_of_last (m := fun _ => none) (k := k) before
    (show k < r.size.toNat / 4096 by omega) (fun x hx hin => by have := hlast x hx; omega)
  refine reachesPage_of_space (p := r.ipaBase.toNat / 4096 + k)
    (x := (r.paBase.toNat / 4096 + k, regionFlags r)) href hr (by omega) (by simp only; omega)
    (regionFlags_and_attrMask r) ?_
  rw [hM, finalSpace, hmem, ← hdesc, ← hregion]
  unfold faultSpace
  split
  · rename_i hlinux
    refine if_neg fun hin => ?_
    have hpage : linuxFaultIpa.toNat / 4096 = 0x2BF := rfl
    have := hfault hlinux
    omega
  · rfl

end Reach

/-! ## The booted VMs -/

section Booted

variable [P : PtPool]

variable {h₀ h : Hyp} {vm : Vm} {i page : ℕ}

/-- A VM reaches the pages of a region that nothing later covers. -/
theorem Booted.reaches {n : ℕ} {before after : List MemRegion} {r : MemRegion}
    (hb : Booted h₀ h) (hvm : h.vms[i]? = some vm) (htop : OnTop vm before after r n)
    (hlo : r.paBase.toNat / 4096 ≤ page) (hhi : page < r.paBase.toNat / 4096 + n) :
    ReachesPage h vm page := by
  obtain ⟨-, -, hspace, roots, href, hr⟩ := hb.vm_eq hvm
  have hreach := reachesPage_of_onTop (k := page - r.paBase.toNat / 4096) htop (by omega) href hr
    hspace
  rwa [Nat.add_sub_cancel' hlo] at hreach

/-- Linux reaches the whole of its second region. -/
theorem linux_reaches (hb : Booted h₀ h) (hvm : h.vms[0]? = some vm) (hlo : 0x51000 ≤ page)
    (hhi : page < 0x91000) : ReachesPage h vm page := by
  have hmem := (hb.vm_eq hvm).1.1
  have htop : OnTop vm ((regionsOf 1).take 1) ((regionsOf 1).drop 2)
      ⟨0x51000000, 0x10000000, 0x40000000, memR ||| memW ||| memX⟩ 0x40000 :=
    ⟨hmem, by decide, by decide, by decide, fun _ => by decide, by decide⟩
  exact hb.reaches hvm htop hlo hhi

/-- The RTOS reaches its RAM, at least up to the page its UART hides. -/
theorem rtos_reaches (hb : Booted h₀ h) (hvm : h.vms[1]? = some vm) (hlo : 0x60000 ≤ page)
    (hhi : page < 0x69000) : ReachesPage h vm page := by
  obtain ⟨⟨hmem, hlinux⟩, -⟩ := hb.vm_eq hvm
  have htop : OnTop vm [] ((regionsOf 2).drop 1)
      ⟨0x60000000, 0, 0x0F000000, memR ||| memW ||| memX⟩ 0x9000 :=
    ⟨hmem, by decide, by decide, by decide, fun h => absurd (hlinux h) (by decide), by decide⟩
  exact hb.reaches hvm htop hlo hhi

/-- And so does Android. -/
theorem android_reaches (hb : Booted h₀ h) (hvm : h.vms[2]? = some vm) (hlo : 0x70000 ≤ page)
    (hhi : page < 0x79000) : ReachesPage h vm page := by
  obtain ⟨⟨hmem, hlinux⟩, -⟩ := hb.vm_eq hvm
  have htop : OnTop vm [] ((regionsOf 3).drop 1)
      ⟨0x70000000, 0, 0x20000000, memR ||| memW ||| memX⟩ 0x9000 :=
    ⟨hmem, by decide, by decide, by decide, fun h => absurd (hlinux h) (by decide), by decide⟩
  exact hb.reaches hvm htop hlo hhi

/-- Booting registers no shared memory. -/
theorem Booted.not_isSharedPage (hb : Booted h₀ h) (hnone : h₀.shmem.regions = []) (a b : U32) :
    ¬ IsSharedPage h a b page := by
  obtain ⟨s2, vms, vcpus, power, rfl⟩ := hb.rest
  rintro ⟨r, hr, -⟩
  have hr : r ∈ h₀.shmem.regions := hr
  rw [hnone] at hr
  exact absurd hr (by simp)

/-- The VMs of the booted state, by their indices. -/
theorem Booted.exists_vms (hb : Booted h₀ h) : ∃ linux rtos android,
    h.vms[0]? = some linux ∧ h.vms[1]? = some rtos ∧ h.vms[2]? = some android := by
  obtain ⟨p₁, t₁, p₂, t₂, p₃, t₃, hvms, -⟩ := hb.vms
  rw [hvms]
  exact ⟨_, _, _, rfl, rfl, rfl⟩

/-- **The booted state breaches isolation three times**: Linux shares RAM
with the RTOS and with Android, and reaches the backup. -/
theorem Booted.breached (hb : Booted h₀ h) (hnone : h₀.shmem.regions = []) : Breached h := by
  obtain ⟨linux, rtos, android, hlinux, hrtos, handroid⟩ := hb.exists_vms
  have hplain : ∀ {page} a b, 0x10000 ≤ page →
      ¬ (IsDevicePage page ∨ IsSharedPage h a b page) := by
    rintro page a b hpage (hdev | hshared)
    · exact not_isDevicePage hpage hdev
    · exact hb.not_isSharedPage hnone a b hshared
  refine ⟨fun page hlo hhi => ?_, fun page hlo hhi => ?_, linux, hlinux, fun page hpage => ?_⟩
  · exact ⟨linux, rtos, hlinux, hrtos, linux_reaches hb hlinux (by omega) (by omega),
      rtos_reaches hb hrtos hlo hhi, hplain _ _ (by omega)⟩
  · exact ⟨linux, android, hlinux, handroid, linux_reaches hb hlinux (by omega) (by omega),
      android_reaches hb handroid hlo hhi, hplain _ _ (by omega)⟩
  · have hbase : backupBase.toNat = 0x90000000 := rfl
    have hsize : backupSize.toNat = 0x2000 := rfl
    unfold InRange at hpage
    exact linux_reaches hb hlinux (by omega) (by omega)

/-- **The platform is never isolated.** On every machine `platform_init`
returns `E_OK`, and no run of hypercalls from there is isolated, since none
starts so. -/
theorem platform_never_isolated (mem : U64 → U64) (phys : U64 → U8) (timer : ℕ → U64) :
    ∃ h, platformInit (Hyp.start mem phys timer) = some (.ok, h) ∧
      ∀ calls, ¬ Throughout Hypercall.hvcStep Isolated h calls := by
  obtain ⟨h, hboot, hb⟩ := exists_platformInit mem phys timer
  exact ⟨h, hboot, fun calls hrun => (hb.breached rfl).not_isolated hrun.head⟩

end Booted

/-- The page of the RTOS's entry point, on a machine whose memory is zero:
Linux reaches it too. -/
theorem linux_reaches_rtos_entry :
    letI := Stage2.poolAt2M
    ∃ h, platformInit Hyp.blank = some (.ok, h) ∧
      Overlap h 0 1 0x60008 := by
  let _ := Stage2.poolAt2M
  obtain ⟨h, hboot, hb⟩ := exists_platformInit (fun _ => 0) (fun _ => 0) fun _ => 0
  exact ⟨h, hboot, (hb.breached rfl).rtos 0x60008 (by decide) (by decide)⟩

end Boot

end HypervisorBase
