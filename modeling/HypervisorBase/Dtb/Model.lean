import HypervisorBase.Common.Fdt.Format
import HypervisorBase.Config
/-!
# Building a device tree blob

The model of `boot/dtb/dtb_gen.c`. Memory is the bytes from a pointer on,
and a context has the bytes from `c->buf` on and those of its string
table. A C string is the list of its bytes before the terminating zero; a
string list is the array its pointer points to.
-/

namespace HypervisorBase

namespace Dtb

open Cells

/-- The characters of a literal, without the zero after them. -/
def text (s : String) : List U8 := s.toList.map fun c => BitVec.ofNat 8 c.toNat

def fdtMagic : U32 := 0xD00DFEED

def fdtBeginNode : U32 := 0x00000001

def fdtEndNode : U32 := 0x00000002

def fdtProp : U32 := 0x00000003

def fdtEnd : U32 := 0x00000009

def be32 (mem : ℕ → U8) (p : ℕ) (v : U32) : ℕ → U8 :=
  store mem p [(v >>> 24).setWidth 8, (v >>> 16).setWidth 8, (v >>> 8).setWidth 8, v.setWidth 8]

def be64 (mem : ℕ → U8) (p : ℕ) (v : U64) : ℕ → U8 :=
  be32 (be32 mem p ((v >>> 32).setWidth 32)) (p + 4) (v.setWidth 32)

/-- `fdt_ctx_t`. -/
structure FdtCtx where
  buf : ℕ → U8
  cap : U64
  pos : U64
  strPos : U64
  strtab : ℕ → U8
  strtabCap : U64

/-! ## The emitters -/

def emit32 (c : FdtCtx) (v : U32) : FdtCtx :=
  { c with
    buf := if c.pos + 4 ≤ c.cap then be32 c.buf c.pos.toNat v else c.buf
    pos := c.pos + 4 }

/-- The body of the loop that pads to a multiple of four. -/
def padOne (c : FdtCtx) : FdtCtx :=
  { c with
    buf := if c.pos < c.cap then store c.buf c.pos.toNat [0] else c.buf
    pos := c.pos + 1 }

/-- `while (c->pos & 3)`. -/
def padLoop : ℕ → FdtCtx → FdtCtx
  | 0, c => c
  | n + 1, c => if c.pos &&& 3 = 0 then c else padLoop n (padOne c)

/-- The loop takes at most three steps. -/
def pad (c : FdtCtx) : FdtCtx := padLoop 3 c

/-- What `emit_str`, `prop_str` and `prop_stringlist` do with `len` bytes
at a pointer: copy them if there is room, and pad. -/
def copyPadded (c : FdtCtx) (val : List U8) (len : U64) : FdtCtx :=
  pad { c with
    buf := if c.pos + len ≤ c.cap then store c.buf c.pos.toNat (val.take len.toNat) else c.buf
    pos := c.pos + len }

/-- `strlen(s) + 1`. -/
def sizeOfStr (s : List U8) : U64 := BitVec.ofNat 64 s.length + 1

def emitStr (c : FdtCtx) (s : List U8) : FdtCtx := copyPadded c (s ++ [0]) (sizeOfStr s)

def strtabAdd (c : FdtCtx) (s : List U8) : U32 × FdtCtx :=
  let off : U32 := c.strPos.setWidth 32
  let len := sizeOfStr s
  (off, { c with
    strtab := if c.strPos + len ≤ c.strtabCap then store c.strtab c.strPos.toNat (s ++ [0])
      else c.strtab
    strPos := c.strPos + len })

def beginNode (c : FdtCtx) (name : List U8) : FdtCtx := emitStr (emit32 c fdtBeginNode) name

def endNode (c : FdtCtx) : FdtCtx := emit32 c fdtEndNode

/-- How every property starts: its token, the length of its value, and the
offset of its name. -/
def propHead (c : FdtCtx) (name : List U8) (len : U32) : FdtCtx :=
  let c := emit32 c fdtProp
  let c := emit32 c len
  let (off, c) := strtabAdd c name
  emit32 c off

def propStr (c : FdtCtx) (name val : List U8) : FdtCtx :=
  copyPadded (propHead c name ((sizeOfStr val).setWidth 32)) (val ++ [0]) (sizeOfStr val)

def propStringlist (c : FdtCtx) (name val : List U8) (totalLen : U64) : FdtCtx :=
  copyPadded (propHead c name (totalLen.setWidth 32)) val totalLen

def propU32 (c : FdtCtx) (name : List U8) (val : U32) : FdtCtx :=
  emit32 (propHead c name 4) val

/-- `prop_cells2`, whose two stores are not checked against the capacity. -/
def propCells2 (c : FdtCtx) (name : List U8) (hi lo : U64) : FdtCtx :=
  let c := propHead c name 16
  -- unlike the others, not compared with the capacity
  let c := { c with buf := be64 c.buf c.pos.toNat hi, pos := c.pos + 8 }
  { c with buf := be64 c.buf c.pos.toNat lo, pos := c.pos + 8 }

def propEmpty (c : FdtCtx) (name : List U8) : FdtCtx := propHead c name 0

/-- The blocks of `dtb_build_linux` that emit a property cell by cell. -/
def propCells (c : FdtCtx) (name : List U8) (len : U32) (cells : List U32) : FdtCtx :=
  cells.foldl emit32 (propHead c name len)

/-! ## Calls -/

/-- The value of a property, by the function that emits it. -/
inductive Value
  | str (val : List U8)
  | stringlist (val : List U8) (totalLen : U64)
  | u32 (val : U32)
  | cells2 (hi lo : U64)
  | empty
  | cells (len : U32) (cells : List U32)

/-- A call of the builder. -/
inductive Call
  | beginNode (name : List U8)
  | prop (name : List U8) (value : Value)
  | endNode

def emitProp (c : FdtCtx) (name : List U8) : Value → FdtCtx
  | .str val => propStr c name val
  | .stringlist val totalLen => propStringlist c name val totalLen
  | .u32 val => propU32 c name val
  | .cells2 hi lo => propCells2 c name hi lo
  | .empty => propEmpty c name
  | .cells len cells => propCells c name len cells

def FdtCtx.call (c : FdtCtx) : Call → FdtCtx
  | .beginNode name => Dtb.beginNode c name
  | .prop name value => emitProp c name value
  | .endNode => Dtb.endNode c

/-! ## The blob for Linux -/

open Fdt (Property)

/-- The calls for the properties of a node. -/
def propCalls (props : List (Property Value)) : List Call :=
  props.map fun p => .prop p.name p.value

/-- The calls for a node without subnodes. -/
def nodeCalls (name : List U8) (props : List (Property Value)) : List Call :=
  .beginNode name :: (propCalls props ++ [.endNode])

def rootProps : List (Property Value) :=
  [⟨text "#address-cells", .u32 2⟩,
    ⟨text "#size-cells", .u32 2⟩,
    ⟨text "compatible", .str (text "linux,dummy-virt")⟩,
    ⟨text "model", .str (text "Tessolve-Hypervisor-Guest")⟩,
    ⟨text "ranges", .empty⟩]

def aliasesProps : List (Property Value) := [⟨text "serial0", .str (text "/pl011@9000000")⟩]

/-- The boot arguments and the initial file system, whose addresses are cut
to 32 bits. -/
def chosenProps (initrdStartIpa initrdEndIpa : U64) : List (Property Value) :=
  [⟨text "bootargs", .str (text "console=ttyAMA0,115200 earlycon=pl011,mmio32,0x09000000 " ++
      text "init=/init loglevel=8 ignore_loglevel")⟩,
    ⟨text "stdout-path", .str (text "serial0:115200n8")⟩,
    ⟨text "linux,initrd-start", .u32 (initrdStartIpa.setWidth 32)⟩,
    ⟨text "linux,initrd-end", .u32 (initrdEndIpa.setWidth 32)⟩]

/-- Memory below the devices. -/
def memoryLowProps : List (Property Value) :=
  [⟨text "device_type", .str (text "memory")⟩,
    ⟨text "reg", .cells2 0x00000000 0x08000000⟩]

/-- Memory above the devices. -/
def memoryHighProps : List (Property Value) :=
  [⟨text "device_type", .str (text "memory")⟩,
    ⟨text "reg", .cells2 0x10000000 0x40000000⟩]

def intcProps : List (Property Value) :=
  [⟨text "compatible", .str (text "arm,gic-v3")⟩,
    ⟨text "#interrupt-cells", .u32 3⟩,
    ⟨text "interrupt-controller", .empty⟩,
    ⟨text "reg", .cells 32 [0x00000000, 0x08000000, 0x00000000, 0x00010000,
      0x00000000, 0x080A0000, 0x00000000, 0x00F60000]⟩,
    ⟨text "phandle", .u32 1⟩]

def apbClkProps : List (Property Value) :=
  [⟨text "compatible", .str (text "fixed-clock")⟩,
    ⟨text "#clock-cells", .u32 0⟩,
    ⟨text "clock-frequency", .u32 24000000⟩,
    ⟨text "phandle", .u32 2⟩]

/-- The UART. The length given with the first string list is one less than
the array has. -/
def pl011Props (uartBase : U64) (uartIrq : U32) : List (Property Value) :=
  [⟨text "compatible", .stringlist (text "arm,pl011" ++ [0] ++ text "arm,primecell" ++ [0]) 23⟩,
    ⟨text "reg", .cells2 uartBase 0x1000⟩,
    ⟨text "interrupt-parent", .u32 1⟩,
    ⟨text "interrupts", .cells 12 [0, uartIrq - 32, 4]⟩,
    ⟨text "clocks", .cells 8 [2, 2]⟩,
    ⟨text "clock-names", .stringlist (text "uartclk" ++ [0] ++ text "apb_pclk" ++ [0]) 17⟩]

def timerProps : List (Property Value) :=
  [⟨text "compatible", .str (text "arm,armv8-timer")⟩,
    ⟨text "always-on", .empty⟩,
    ⟨text "interrupt-parent", .u32 1⟩,
    ⟨text "interrupts", .cells 48 [1, 13, 8, 1, 14, 8, 1, 11, 8, 1, 10, 8]⟩]

def psciProps : List (Property Value) :=
  [⟨text "compatible", .str (text "arm,psci-0.2")⟩,
    ⟨text "method", .str (text "hvc")⟩]

def cpusProps : List (Property Value) :=
  [⟨text "#address-cells", .u32 1⟩,
    ⟨text "#size-cells", .u32 0⟩]

def cpu0Props : List (Property Value) :=
  [⟨text "device_type", .str (text "cpu")⟩,
    ⟨text "compatible", .str (text "arm,cortex-a57")⟩,
    ⟨text "enable-method", .str (text "psci")⟩,
    ⟨text "reg", .u32 0⟩]

/-- The calls of `dtb_build_linux` before `FDT_END`, in order. -/
def linuxCalls (uartBase : U64) (uartIrq : U32) (initrdStartIpa initrdEndIpa : U64) : List Call :=
  .beginNode (text "") :: propCalls rootProps ++
    nodeCalls (text "aliases") aliasesProps ++
    nodeCalls (text "chosen") (chosenProps initrdStartIpa initrdEndIpa) ++
    nodeCalls (text "memory@0") memoryLowProps ++
    nodeCalls (text "memory@10000000") memoryHighProps ++
    nodeCalls (text "intc@8000000") intcProps ++
    nodeCalls (text "apb-clk") apbClkProps ++
    nodeCalls (text "pl011@9000000") (pl011Props uartBase uartIrq) ++
    nodeCalls (text "timer") timerProps ++
    nodeCalls (text "psci") psciProps ++
    (.beginNode (text "cpus") :: propCalls cpusProps ++ nodeCalls (text "cpu@0") cpu0Props ++
      [.endNode]) ++
    [.endNode]

/-- The ten words of the header, from the start of the blob on. -/
def putHeader (mem : ℕ → U8) (total structSz strSz : U64) : ℕ → U8 :=
  let mem := be32 mem 0 fdtMagic
  let mem := be32 mem 4 (total.setWidth 32)
  let mem := be32 mem 8 (48 + 16)
  let mem := be32 mem 12 ((48 + 16 + structSz).setWidth 32)
  let mem := be32 mem 16 48
  let mem := be32 mem 20 17
  let mem := be32 mem 24 16
  let mem := be32 mem 28 0
  let mem := be32 mem 32 (strSz.setWidth 32)
  be32 mem 36 (structSz.setWidth 32)

/-- The context `dtb_build_linux` starts with: the structure block comes
after the header and the reservation block. -/
def linuxCtx (mem : ℕ → U8) (bufSz : U64) : FdtCtx where
  buf := fun i => mem (48 + 16 + i)
  -- wraps around for a buffer of less than 1088 bytes
  cap := bufSz - 48 - 16 - 1024
  pos := 0
  strPos := 0
  strtab := fun _ => 0
  strtabCap := 1024

/-- What `dtb_build_linux` does once the structure block is complete: the
strings after it, the header and the reservation block before it. The
first 64 bytes are not the context's. -/
def putBlob (mem : ℕ → U8) (c : FdtCtx) : U64 × (ℕ → U8) :=
  let structSz := c.pos
  let strSz := c.strPos
  let mem : ℕ → U8 := fun i => if i < 48 + 16 then mem i else c.buf (i - (48 + 16))
  -- none of the stores from here on looks at the size of the buffer
  let mem := store mem (48 + 16 + structSz.toNat) (load c.strtab 0 strSz.toNat)
  let total := 48 + 16 + structSz + strSz
  let total := (total + 3) &&& ~~~3
  let mem := putHeader mem total structSz strSz
  let mem := be64 mem 48 0
  let mem := be64 mem 56 0
  (total, mem)

/-- `dtb_build_linux`, with `*out_sz` if it is set. The two RAM arguments
are not read. -/
def dtbBuildLinux (mem : ℕ → U8) (bufSz _ramBase _ramSize uartBase : U64) (uartIrq : U32)
    (initrdStartIpa initrdEndIpa : U64) : Err × Option U64 × (ℕ → U8) :=
  if bufSz = 0 then (.inval, none, mem)
  else
    let mem : ℕ → U8 := fun i => if i < bufSz.toNat then 0 else mem i
    let c := (linuxCalls uartBase uartIrq initrdStartIpa initrdEndIpa).foldl FdtCtx.call
      (linuxCtx mem bufSz)
    let c := emit32 c fdtEnd
    let (total, mem) := putBlob mem c
    (.ok, some total, mem)

end Dtb

end HypervisorBase
