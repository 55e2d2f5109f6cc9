import HypervisorBase.Vm.Lifecycle
/-!
# Platform initialisation

The model of `boot/platform_init.c` and of the device profile of
`boot/device_profile.c` it applies: three VMs are created, given the
regions of the profile, mapped and started. The device trees, the trap
table, the interrupt routes and the buses it also sets up keep state that
none of the modelled functions reads, and are left out.
-/

namespace HypervisorBase

namespace Boot

/-- `dev_profile_entry_t`, without the interrupt, stream and name. -/
structure ProfileEntry where
  vmId : U32
  paBase : U64
  ipaBase : U64
  size : U64
  flags : U32
  deriving DecidableEq, Repr

def uartBase : U64 := 0x09000000

def gicdBase : U64 := 0x08000000

def gicrBase : U64 := 0x080A0000

/-- `_profile`, in the order of the table. -/
def profile : List ProfileEntry :=
  [ -- Linux: low and extended RAM, UART, GIC distributor and redistributor
    ⟨1, 0x41000000, 0x00000000, 0x08000000, memR ||| memW ||| memX⟩,
    ⟨1, 0x51000000, 0x10000000, 0x40000000, memR ||| memW ||| memX⟩,
    ⟨1, uartBase, uartBase, 0x1000, memR ||| memW ||| memIo⟩,
    ⟨1, gicdBase, gicdBase, 0x00100000, memR ||| memW ||| memIo⟩,
    ⟨1, gicrBase, gicrBase, 0x00200000, memR ||| memW ||| memIo⟩,
    -- RTOS: RAM and UART
    ⟨2, 0x60000000, 0x00000000, 0x0F000000, memR ||| memW ||| memX⟩,
    ⟨2, uartBase, uartBase, 0x1000, memR ||| memW ||| memIo⟩,
    -- the OBD page the hypervisor exports to Linux
    ⟨1, 0x40F00000, 0x0A000000, 0x1000, memR ||| memW⟩,
    -- Android: RAM and UART
    ⟨3, 0x70000000, 0x00000000, 0x20000000, memR ||| memW ||| memX⟩,
    ⟨3, uartBase, uartBase, 0x1000, memR ||| memW ||| memIo⟩,
    -- one mailbox page for each VM
    ⟨1, 0x0B000000, 0x0B000000, 0x1000, memR ||| memW ||| memIo⟩,
    ⟨2, 0x0B001000, 0x0B001000, 0x1000, memR ||| memW ||| memIo⟩,
    ⟨3, 0x0B002000, 0x0B002000, 0x1000, memR ||| memW ||| memIo⟩ ]

/-- The rest of an initialisation, unless what came before it failed:
`if (FAIL(e)) return e`. -/
def andThen (r : Option (Err × Hyp)) (rest : Hyp → Option (Err × Hyp)) : Option (Err × Hyp) :=
  r.bind fun (e, h) => if e ≠ .ok then some (e, h) else rest h

@[simp] theorem andThen_ok (h : Hyp) (rest : Hyp → Option (Err × Hyp)) :
    andThen (some (.ok, h)) rest = rest h := rfl

variable [P : PtPool]

/-- `device_profile_init`: an entry for a VM that is not there is skipped,
one that `vm_add_mem` refuses ends it. -/
def deviceProfileInit : List ProfileEntry → Hyp → Option (Err × Hyp)
  | [], h => some (.ok, h)
  | e :: es, h =>
    match vmById h e.vmId with
    | none => deviceProfileInit es h
    | some i =>
      andThen (vmAddMem h i e.paBase e.ipaBase e.size e.flags) fun h => deviceProfileInit es h

/-- `create_linux_vm`, `create_rtos_vm` and `create_android_vm`. -/
def createVm (h : Hyp) (type : VmType) (entryIpa dtbIpa : U64) : Option (Err × Hyp) :=
  andThen (vmCreate h type) fun h' =>
    some (.ok, { h' with vms := h'.vms.modify h.vms.length fun vm =>
      { vm with entryIpa := entryIpa, dtbIpa := dtbIpa } })

/-- One VM of `platform_init`'s last loop. -/
def finalizeStart (h : Hyp) (i : ℕ) : Option (Err × Hyp) :=
  andThen (vmFinalize h i) fun h => some (vmStart h i)

/-- That loop, over `n` VMs from index `i` on. -/
def startVms : ℕ → ℕ → Hyp → Option (Err × Hyp)
  | 0, _, h => some (.ok, h)
  | n + 1, i, h => andThen (finalizeStart h i) fun h => startVms n (i + 1) h

/-- **`platform_init`.** -/
def platformInit (h : Hyp) : Option (Err × Hyp) :=
  let h := { h with power := h.power.powerInit }
  andThen (createVm h .linux 0x00200000 0x04000000) fun h =>
  andThen (createVm h .rtos 0x00008000 0) fun h =>
  andThen (createVm h .android 0x00200000 0x02000000) fun h =>
  andThen (deviceProfileInit profile h) fun h =>
  startVms h.vms.length 0 h

end Boot

end HypervisorBase
