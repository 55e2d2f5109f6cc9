import HypervisorBase.Boot.Launch
import HypervisorBase.Crypto.Hmac
import HypervisorBase.Integrity.Model
import HypervisorBase.Login.Model
import HypervisorBase.Sched.Events
/-!
# From reset to the first guest

The model of `vse/guest_measure.c`, built to enforce, and of `hyp_main` of
`boot/main.c` as a whole. A guest is entered behind two gates, the checks
of the image and the operator's login. The measurement of the guests is
not a third one: it decides the level each VM starts with, and nothing
else (`hypMain_guest_iff`).
-/

namespace HypervisorBase

namespace Vse

open Crypto (Sha256Ctx hashRegion hmacVerify hmacSize)

/-- `guest_desc_t`. -/
structure GuestDesc where
  name : String
  loadPa : U64
  imageSize : U64
  provisioned : Bool
  golden : List U8
  deriving DecidableEq, Repr

/-- The bytes of a digest. -/
def digest (n : ℕ) : List U8 := (List.range 32).map fun i => BitVec.ofNat 8 (n / 256 ^ (31 - i))

/-- `_guests`. -/
def guests : List GuestDesc :=
  [ ⟨"linux", 0x41200000, 41656832, true,
      digest 0x27407cefc60ce56ce10bafbba40b843e6935e50e5d1df12e5758e1bc5ffff019⟩,
    ⟨"rtos", 0x60008000, 5176, true,
      digest 0x16750c2d7af2fe7c204653e2a4c38dd5190000d55d8d274b4da051043f619b4a⟩,
    ⟨"android", 0x70200000, 2376, true,
      digest 0x22040f7fe240415c5192cb78e3795d5c06895c3a1dd893f023bf5d64dc9ad03c⟩ ]

/-- `_find`. -/
def findGuest (name : String) : Option GuestDesc := guests.find? fun g => g.name = name

/-- `guest_measure_vm`, with what `_hash_region`'s context held before. -/
def guestMeasureVm (ctx : Sha256Ctx) (phys : U64 → U8) (name : String) : Gmeas :=
  match findGuest name with
  | none => .skip
  | some g =>
    let measured := hashRegion ctx phys g.loadPa g.imageSize
    if !g.provisioned then .learn
    else if hmacVerify g.golden measured hmacSize then .match else .mismatch

/-- The name `platform_init` creates a VM with. -/
def vmName : VmType → String
  | .linux => "linux"
  | .rtos => "rtos"
  | .android => "android"

/-- What `trust_init` has measured of the VM with an id. -/
def measureVm (ctx : Sha256Ctx) (h : Hyp) (vmId : U32) : Gmeas :=
  match vmAt h vmId with
  | none => .skip
  | some vm => guestMeasureVm ctx h.phys (vmName vm.type)

/-- **The image a descriptor asks for**: the standard's digest of it is
the golden one. -/
def Genuine (g : GuestDesc) (phys : U64 → U8) : Prop :=
  Fips.sha256 (bytesAt phys g.loadPa g.imageSize.toNat) = g.golden

instance (g : GuestDesc) (phys : U64 → U8) : Decidable (Genuine g phys) :=
  inferInstanceAs (Decidable (_ = _))

theorem hashRegion_eq (ctx : Sha256Ctx) (mem : U64 → U8) (pa len : U64) :
    hashRegion ctx mem pa len = Fips.sha256 (bytesAt mem pa len.toNat) :=
  Crypto.final_eq (Crypto.hashLoop_represents mem pa len.toNat 0 _ (Nat.zero_le _)
    (Crypto.init_represents ctx))

/-- Every descriptor is found by its name and has a golden value. -/
theorem findGuest_name : ∀ g ∈ guests,
    findGuest g.name = some g ∧ g.provisioned = true ∧ g.golden.length = hmacSize := by
  decide

/-- A guest with a descriptor is measured exactly. -/
theorem guestMeasureVm_name {g : GuestDesc} (hg : g ∈ guests) (ctx : Sha256Ctx) (phys : U64 → U8) :
    guestMeasureVm ctx phys g.name = if Genuine g phys then .match else .mismatch := by
  obtain ⟨hfind, hprov, hlen⟩ := findGuest_name g hg
  have hverify := Crypto.hmacVerify_eq_true hlen
    (Crypto.length_sha256 (bytesAt phys g.loadPa g.imageSize.toNat))
  rw [guestMeasureVm, hfind]
  dsimp only
  rw [hprov, Bool.not_true, if_neg Bool.false_ne_true, hashRegion_eq]
  exact if_congr (hverify.trans eq_comm) rfl rfl

theorem exists_guest (type : VmType) : ∃ g ∈ guests, g.name = vmName type := by
  cases type <;> decide

end Vse

namespace Boot

open Crypto (HmacCtx Sha256Ctx)

/-- **What a boot starts from**: the memory with the image in it, the
readings of the counters, the console, and what lies on the stack. The
login derives its secrets from the key in the image. -/
structure Machine where
  layout : Integrity.Layout
  mem : U64 → U64
  phys : U64 → U8
  timer : ℕ → U64
  cntpct : U64
  cntfrq : U64
  clock : ℕ → U64
  chars : List U8
  ctx : HmacCtx
  tmp : Sha256Ctx
  stack : Login.Stack
  secrets : Login.Provisioned
  masterKey : secrets.masterKey = Integrity.vseGetMasterKey layout phys

/-- `login_authenticate` after `totp_init`. -/
def Machine.login (m : Machine) : Option (Err × List U8) :=
  @Login.loginAuthenticate m.secrets m.stack (Login.totpInit m.cntpct m.cntfrq) m.clock m.chars

def Machine.checks (m : Machine) : Except Integrity.Panic Bool :=
  Integrity.bootChecks m.layout m.phys m.ctx m.tmp

variable [P : PtPool]

/-- **`hyp_main`**: it panics with a message or returns to a guest. `none`
is a wait without end, for the console or in `pt_alloc`. -/
def hypMain (m : Machine) : Option (Except String Hyp) :=
  match m.checks with
  | .error p => some (.error p.message)
  | .ok _ => do
      let (e, h) ← platformInit (Hyp.start m.mem m.phys m.timer)
      if e ≠ .ok then return .error "VM subsys init failed"
      let (e, _) ← m.login
      if e ≠ .ok then return .error "Operator login failed — system locked"
      let g ← launch h (Vse.measureVm m.tmp h)
      return .ok g

/-! ## The levels of the first guests -/

omit P in
theorem trust_schedRun {g g' : Hyp} (hrun : Sched.schedRun g = some g') : g'.trust = g.trust := by
  have hready : (Sched.startReady g).trust = g.trust := by rw [Sched.startReady_rest]
  obtain ⟨ch, vc, -, -, rfl⟩ := Sched.schedRun_cases hrun
  exact hready

omit P in
theorem trust_launch {h g : Hyp} {gm : U32 → Vse.Gmeas} (hrun : launch h gm = some g) :
    g.trust = (Vse.vseInit (Ipc.ipcInit (platformTables h)) gm).trust := by
  rw [trust_schedRun hrun, services, Vse.failoverRegister_rest]
  rfl

variable {h₀ h g : Hyp}

/-- **The level a VM is launched with** follows from its image. -/
theorem level_of_launch (hb : Booted h₀ h) (ctx : Sha256Ctx)
    (hrun : launch h (Vse.measureVm ctx h) = some g) {vm : Vm} (hvm : vm ∈ h.vms) :
    ∃ d ∈ Vse.guests, d.name = Vse.vmName vm.type ∧
      Vse.trustGet g vm.id = if Vse.Genuine d h₀.phys then .trusted else .quarantine := by
  have hr := Vse.roster_of_booted hb
  obtain ⟨i, hi⟩ := List.mem_iff_getElem?.mp hvm
  have him : i < maxVms := Nat.lt_of_lt_of_le (List.getElem?_eq_some_iff.mp hi).1 hr.length_le
  obtain ⟨m, p, r, htables⟩ := exists_platformTables h
  have hr' : Roster (Ipc.ipcInit (platformTables h)) := by
    rw [htables]
    exact ⟨hr.length_le, hr.ids, hr.alive⟩
  have hi' : (Ipc.ipcInit (platformTables h)).vms[i]? = some vm := by rw [htables]; exact hi
  obtain ⟨d, hd, hname⟩ := Vse.exists_guest vm.type
  -- what is measured is the memory the machine started with
  have hphys : h.phys = h₀.phys := by
    obtain ⟨s2, vms, vcpus, power, heq⟩ := hb.rest
    rw [heq]
  have hmeasure : Vse.measureVm ctx h vm.id =
      if Vse.Genuine d h₀.phys then .match else .mismatch := by
    rw [Vse.measureVm, vmAt, hr.ids i vm hi, hr.vmById_of_vm hi, Option.bind_some, hi]
    dsimp only
    rw [← hname, hphys, Vse.guestMeasureVm_name hd]
  have htrust := trust_launch hrun
  have hlevel : Vse.trustGet g vm.id =
      levelAt (Vse.vseInit (Ipc.ipcInit (platformTables h)) (Vse.measureVm ctx h)) i := by
    rw [hr.ids i vm hi, Vse.trustGet_eq (by rw [htrust]; rfl) him, levelAt, levelAt, htrust]
  refine ⟨d, hd, hname, ?_⟩
  rw [hlevel, Vse.levelAt_vseInit hr' hi', hmeasure]
  by_cases hgen : Vse.Genuine d h₀.phys <;> simp [hgen]

omit P in
/-- **How the first guest is entered**: the vCPU is the RTOS's, every VM is
running, and a VM is trusted or in quarantine as its image in memory has
the golden digest or not. -/
structure Entered (m : Machine) (g : Hyp) : Prop where
  current : g.current = some 1
  vms : g.vms.map (fun vm => (vm.type, vm.state)) =
    [(.linux, .running), (.rtos, .running), (.android, .running)]
  levels : ∀ vm ∈ g.vms, ∃ d ∈ Vse.guests, d.name = Vse.vmName vm.type ∧
    Vse.trustGet g vm.id = if Vse.Genuine d m.phys then .trusted else .quarantine

/-- **Two gates, and a measurement that is none.** On every machine
`hyp_main` enters a guest if and only if both checks of the image return
and the login succeeds. An image that is not the golden one runs all the
same, in quarantine. -/
theorem hypMain_guest_iff (m : Machine) :
    ((∃ g, hypMain m = some (.ok g)) ↔
      (∃ ok, m.checks = .ok ok) ∧ ∃ rest, m.login = some (.ok, rest)) ∧
    ∀ g, hypMain m = some (.ok g) → Entered m g := by
  obtain ⟨h, hboot, hb⟩ := exists_platformInit m.mem m.phys m.timer
  obtain ⟨g, vc, hrun, -, hcur, hvms, -⟩ := exists_launch hb (Vse.measureVm m.tmp h)
  obtain ⟨p₁, t₁, p₂, t₂, p₃, t₃, hthree, -⟩ := hb.vms
  have hentered : Entered m g := by
    refine ⟨hcur, by rw [hvms, hthree]; rfl, ?_⟩
    rw [hvms]
    exact fun vm hvm => level_of_launch hb m.tmp hrun hvm
  -- the platform boots and a guest is launched in any case
  have hgate : ∀ g', hypMain m = some (.ok g') ↔
      g' = g ∧ (∃ ok, m.checks = .ok ok) ∧ ∃ rest, m.login = some (.ok, rest) := by
    intro g'
    rw [hypMain, hboot]
    cases m.checks with
    | error p => simp
    | ok b =>
      cases m.login with
      | none => simp
      | some r =>
        obtain ⟨e, rest⟩ := r
        by_cases he : e = .ok <;> simp [he, hrun, eq_comm]
  refine ⟨⟨fun ⟨g', hg'⟩ => ((hgate g').mp hg').2,
    fun hpass => ⟨g, (hgate g).mpr ⟨rfl, hpass⟩⟩⟩, fun g' hg' => ?_⟩
  obtain ⟨rfl, -⟩ := (hgate g').mp hg'
  exact hentered

end Boot

end HypervisorBase
