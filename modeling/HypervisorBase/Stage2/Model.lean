import HypervisorBase.Config
/-!
# Stage-2 translation tables

The model of `vre/mmu/stage2.c` and of the walk of `arch/arm64/s2_debug.c`.
Tables are pages of one static pool and descriptors are raw words, so the
state is a word-addressed memory, the pool's bump index and the next VMID.

`pt_alloc` on an exhausted pool never returns; a function that may reach
it returns an `Option`, and `none` is that endless loop. TLB maintenance
and logging leave no trace in this state and are not modelled.
-/

namespace HypervisorBase

def ptPoolPages : ℕ := 1024

/-- **Where the linker puts `_pt_pool`.** The array is page aligned and
part of the image, which `hypervisor.ld` keeps between `0x40000000` and
`0x80000000`. -/
class PtPool where
  base : U64
  aligned : base.toNat % 4096 = 0
  lower : 0x40000000 ≤ base.toNat
  upper : base.toNat + 4096 * ptPoolPages ≤ 0x80000000

/-- The 64-bit word stored at each address, `_pt_idx` and `_vmid`. -/
structure S2State where
  mem : U64 → U64
  ptIdx : ℕ
  vmid : U8

namespace Stage2

/-! ## Descriptors

The bits of `stage2.h`: the two type bits, and the attributes `vm_finalize`
and `shmem_map` ask for. -/

def s2DescValid : U64 := 1

def s2DescTable : U64 := 2

def s2DescPage : U64 := 2

def s2Af : U64 := 1 <<< 10

def s2ShInner : U64 := 3 <<< 8

def s2S2apRw : U64 := 3 <<< 6

def s2Xn : U64 := 2 <<< 53

def s2MemattrWb : U64 := 0xF <<< 2

def s2MemattrDev : U64 := 0x1 <<< 2

/-- The address bits of a table pointer, `~0xFFFULL`. -/
def addrMask : U64 := ~~~(0xFFF : U64)

/-- What `s2_map` writes into an L1 or L2 slot. -/
def tableDesc (p : U64) : U64 := (p &&& addrMask) ||| s2DescValid ||| s2DescTable

/-- What `s2_map` writes into an L3 slot. -/
def pageDesc (pa flags : U64) : U64 := (pa &&& addrMask) ||| flags ||| s2DescValid ||| s2DescPage

/-- The index of a slot in a table of 512. -/
abbrev Idx := BitVec 9

def i1 (ipa : U64) : Idx := ((ipa >>> 30) &&& 0x1FF).setWidth 9

def i2 (ipa : U64) : Idx := ((ipa >>> 21) &&& 0x1FF).setWidth 9

def i3 (ipa : U64) : Idx := ((ipa >>> 12) &&& 0x1FF).setWidth 9

/-- The address of a slot of the table at `t`. -/
def slot (t : U64) (i : Idx) : U64 := t + 8 * i.setWidth 64

def entry (s : S2State) (t : U64) (i : Idx) : U64 := s.mem (slot t i)

def setEntry (s : S2State) (t : U64) (i : Idx) (e : U64) : S2State :=
  { s with mem := fun a => if a = slot t i then e else s.mem a }

/-- `memset` of one page to zero. -/
def zeroPage (mem : U64 → U64) (p : U64) : U64 → U64 :=
  fun a => if p.toNat ≤ a.toNat ∧ a.toNat < p.toNat + 4096 then 0 else mem a

section Pool

variable [P : PtPool]

/-- The address of page `k` of the pool. -/
def poolPage (k : ℕ) : U64 := P.base + 4096 * BitVec.ofNat 64 k

/-- `pt_alloc`: the next page of the pool, cleared. -/
def ptAlloc (s : S2State) : Option (U64 × S2State) :=
  if ptPoolPages ≤ s.ptIdx then none
  else some (poolPage s.ptIdx,
    { s with mem := zeroPage s.mem (poolPage s.ptIdx), ptIdx := s.ptIdx + 1 })

/-- `s2_create`: the root and the VTTBR value it stores in the VM. -/
def s2Create (s : S2State) : Option ((U64 × U64) × S2State) := do
  let (pgd, s) ← ptAlloc s
  let vttbr := (s.vmid.setWidth 64 <<< 48) ||| (pgd &&& addrMask)
  pure ((pgd, vttbr), { s with vmid := s.vmid + 1 })

/-! ## Mapping -/

/-- One level of `s2_map`'s descent: the table a slot points to, allocated
on the way if the slot is not valid. -/
def tableAt (s : S2State) (t : U64) (i : Idx) : Option (U64 × S2State) := do
  let s ← if entry s t i &&& 1 = 0 then do
      let (p, s) ← ptAlloc s
      pure (setEntry s t i (tableDesc p))
    else pure s
  pure (entry s t i &&& addrMask, s)

def mapPage (s : S2State) (pgd cIpa cPa flags : U64) : Option S2State := do
  let (l2, s) ← tableAt s pgd (i1 cIpa)
  let (l3, s) ← tableAt s l2 (i2 cIpa)
  pure (setEntry s l3 (i3 cIpa) (pageDesc cPa flags))

/-- The loop of `s2_map`, from offset `off` on for `n` more pages. -/
def mapLoop (pgd ipa pa flags : U64) : ℕ → U64 → S2State → Option S2State
  | 0, _, s => some s
  | n + 1, off, s => do
      let s ← mapPage s pgd (ipa + off) (pa + off) flags
      mapLoop pgd ipa pa flags n (off + 4096) s

/-- `s2_map`. The size is page aligned when the loop is reached, so
`off < sz` holds for exactly `sz / 4096` steps and `off` never wraps. -/
def s2Map (s : S2State) (pgd ipa pa sz flags : U64) : Option (Err × S2State) :=
  if !isAligned ipa 4096 || !isAligned pa 4096 || !isAligned sz 4096 then some (.inval, s)
  else do
    let s ← mapLoop pgd ipa pa flags (sz.toNat / 4096) 0 s
    pure (.ok, s)

/-! ## Unmapping -/

def unmapPage (s : S2State) (pgd cIpa : U64) : S2State :=
  if entry s pgd (i1 cIpa) &&& 1 = 0 then s
  else
    let l2 := entry s pgd (i1 cIpa) &&& addrMask
    if entry s l2 (i2 cIpa) &&& 1 = 0 then s
    else
      let l3 := entry s l2 (i2 cIpa) &&& addrMask
      if entry s l3 (i3 cIpa) &&& 1 = 0 then s else setEntry s l3 (i3 cIpa) 0

def unmapLoop (pgd ipa : U64) : ℕ → U64 → S2State → S2State
  | 0, _, s => s
  | n + 1, off, s => unmapLoop pgd ipa n (off + 4096) (unmapPage s pgd (ipa + off))

def s2Unmap (s : S2State) (pgd ipa sz : U64) : Err × S2State :=
  if !isAligned ipa 4096 || !isAligned sz 4096 then (.inval, s)
  else (.ok, unmapLoop pgd ipa (sz.toNat / 4096) 0 s)

end Pool

/-! ## Queries -/

/-- The body of `s2_ipa_is_mapped`'s loop: whether this page ends the
search. -/
def pageMapped (s : S2State) (pgd cIpa : U64) : Bool :=
  let e1 := entry s pgd (i1 cIpa)
  if e1 &&& 1 = 0 then false
  else
    let l2 := e1 &&& addrMask
    let e2 := entry s l2 (i2 cIpa)
    if e2 &&& 1 = 0 then false
    else if e2 &&& 2 = 0 then true
    else
      let l3 := e2 &&& addrMask
      entry s l3 (i3 cIpa) &&& 1 ≠ 0

/-- The loop of `s2_ipa_is_mapped`, with a bound on its steps. -/
def isMappedLoop (s : S2State) (pgd ipa sz : U64) : ℕ → U64 → Option Bool
  | 0, _ => none
  | n + 1, off =>
    if off < sz then
      if pageMapped s pgd (ipa + off) then some true
      else isMappedLoop s pgd ipa sz n (off + 4096)
    else some false

/-- `s2_ipa_is_mapped`. The offset returns to zero after `2 ^ 52` steps,
so a search that is still going then goes on for ever: that is `none`. -/
def s2IpaIsMapped (s : S2State) (pgd ipa sz : U64) : Option Bool :=
  isMappedLoop s pgd ipa sz (2 ^ 52 + 1) 0

/-- What `s2_walk` reports: the descriptors it read, and the address it
prints if the last one is a valid page. -/
inductive Walk
  | l1Invalid (l1e : U64)
  | l2Invalid (l1e l2e : U64)
  | l3Invalid (l1e l2e l3e : U64)
  | page (l1e l2e l3e mappedPa : U64)
  deriving DecidableEq, Repr

/-- The address bits `s2_walk` keeps of a descriptor. -/
def walkMask : U64 := 0x0000FFFFFFFFF000

def s2Walk (s : S2State) (root ipa : U64) : Walk :=
  let l1e := entry s root (i1 ipa)
  if l1e &&& 3 ≠ 3 then .l1Invalid l1e
  else
    let l2e := entry s (l1e &&& walkMask) (i2 ipa)
    if l2e &&& 3 ≠ 3 then .l2Invalid l1e l2e
    else
      let l3e := entry s (l2e &&& walkMask) (i3 ipa)
      if l3e &&& 3 = 3 then .page l1e l2e l3e ((l3e &&& walkMask) ||| (ipa &&& 0xFFF))
      else .l3Invalid l1e l2e l3e

/-- The last descriptor of a walk that ended at a page, with the address
printed. -/
def Walk.mapped : Walk → Option (U64 × U64)
  | .page _ _ l3e mappedPa => some (l3e, mappedPa)
  | _ => none

/-- The physical address a guest reaches at `ipa`: inside the 39 bits that
`VTCR_EL2` gives Stage 2, the one the walk ends at. -/
def ipaToPa (s : S2State) (pgd ipa : U64) : Option U64 :=
  if ipa.toNat < 2 ^ 39 then (s2Walk s pgd ipa).mapped.map Prod.snd else none

end Stage2

end HypervisorBase
