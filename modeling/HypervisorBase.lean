import HypervisorBase.Common.Word
import HypervisorBase.Common.Forest
import HypervisorBase.Common.Run
import HypervisorBase.Common.Blocks
import HypervisorBase.Common.Retry
import HypervisorBase.Common.Ring
import HypervisorBase.Common.RoundRobin
import HypervisorBase.Common.Machine
import HypervisorBase.Common.Routine
import HypervisorBase.Common.Stage1
import HypervisorBase.Common.Windows
import HypervisorBase.Common.Streak
import HypervisorBase.Common.Copy
import HypervisorBase.Common.Fields
import HypervisorBase.Common.Store
import HypervisorBase.Common.Fdt.Format
import HypervisorBase.Common.Fdt.RoundTrip
import HypervisorBase.Config
import HypervisorBase.Stage2.Model
import HypervisorBase.Stage2.Shape
import HypervisorBase.Stage2.Refinement
import HypervisorBase.Stage2.Queries
import HypervisorBase.Stage2.Aliasing
import HypervisorBase.Stage2.Ranges
import HypervisorBase.Stage2.Ownership
import HypervisorBase.Stage2.Capacity
import HypervisorBase.Stage2.Supply
import HypervisorBase.State
import HypervisorBase.Vm.Lifecycle
import HypervisorBase.Vm.Teardown
import HypervisorBase.Vm.Regions
import HypervisorBase.Vm.AddressSpace
import HypervisorBase.Vm.Permissions
import HypervisorBase.Vm.Gating
import HypervisorBase.Vcpu.Pmu
import HypervisorBase.Vcpu.Privacy
import HypervisorBase.Vcpu.Registers
import HypervisorBase.Vcpu.Cycles
import HypervisorBase.Shmem.Model
import HypervisorBase.Shmem.Confinement
import HypervisorBase.Shmem.Sharing
import HypervisorBase.Ipc.Model
import HypervisorBase.Ipc.Confinement
import HypervisorBase.Ipc.Delivery
import HypervisorBase.Ipc.Fifo
import HypervisorBase.Vse.Trust
import HypervisorBase.Vse.Ids
import HypervisorBase.Vse.Outcomes
import HypervisorBase.Vse.Footprint
import HypervisorBase.Vse.Enforcement
import HypervisorBase.Vse.Bookkeeping
import HypervisorBase.Vse.Storm
import HypervisorBase.Vse.Operations
import HypervisorBase.Vse.Levels
import HypervisorBase.Vse.Log
import HypervisorBase.Vse.Budget
import HypervisorBase.Vse.Powered
import HypervisorBase.Vse.Record
import HypervisorBase.Vse.Handover
import HypervisorBase.Vse.Window
import HypervisorBase.Vse.Chronicle
import HypervisorBase.Vse.Audit
import HypervisorBase.Vse.Repeat
import HypervisorBase.Vse.Drops
import HypervisorBase.Vse.Clock
import HypervisorBase.Vse.Rapid
import HypervisorBase.Vse.Rescue
import HypervisorBase.Vse.Restart
import HypervisorBase.Sched.Model
import HypervisorBase.Sched.Switch
import HypervisorBase.Sched.Events
import HypervisorBase.Sched.Fairness
import HypervisorBase.Sched.Accounting
import HypervisorBase.Dma.Guard
import HypervisorBase.Dma.Soundness
import HypervisorBase.Dma.Physical
import HypervisorBase.Dma.Smmu
import HypervisorBase.Hypercall.Drivers
import HypervisorBase.Hypercall.Dispatch
import HypervisorBase.Hypercall.Parts
import HypervisorBase.Hypercall.Tables
import HypervisorBase.Hypercall.Pool
import HypervisorBase.Hypercall.Returns
import HypervisorBase.Hypercall.Board
import HypervisorBase.Device.Mmio
import HypervisorBase.Device.Ownership
import HypervisorBase.Device.Pcie
import HypervisorBase.Irq.Model
import HypervisorBase.Irq.Delivery
import HypervisorBase.Irq.Distributor
import HypervisorBase.Irq.Lists
import HypervisorBase.Irq.Routes
import HypervisorBase.Irq.Preemption
import HypervisorBase.Boot.Platform
import HypervisorBase.Boot.Started
import HypervisorBase.Boot.Isolation
import HypervisorBase.Boot.Launch
import HypervisorBase.Boot.Main
import HypervisorBase.Dtb.Model
import HypervisorBase.Dtb.Emitter
import HypervisorBase.Dtb.RoundTrip
import HypervisorBase.Dtb.Linux
import HypervisorBase.Dtb.Capacity
import HypervisorBase.Dtb.Contents
import HypervisorBase.Trap.Model
import HypervisorBase.Trap.Parts
import HypervisorBase.Trap.Decode
import HypervisorBase.Trap.Retire
import HypervisorBase.Trap.Aborts
import HypervisorBase.Trap.Runnable
import HypervisorBase.Trap.Termination
import HypervisorBase.Trap.Mask
import HypervisorBase.Trap.Regime
import HypervisorBase.Guest.Engine
import HypervisorBase.Guest.Obd
import HypervisorBase.Arch.Model
import HypervisorBase.Arch.Transparency
import HypervisorBase.Arch.El2Map
import HypervisorBase.Arch.Image
import HypervisorBase.Crypto.Fips
import HypervisorBase.Crypto.Model
import HypervisorBase.Crypto.Streaming
import HypervisorBase.Crypto.Hmac
import HypervisorBase.Login.Model
import HypervisorBase.Login.Codes
import HypervisorBase.Login.Tool
import HypervisorBase.Login.Exactness
import HypervisorBase.Seal.Model
import HypervisorBase.Seal.Binding
import HypervisorBase.Integrity.Model
import HypervisorBase.Integrity.Evidence
