import Mathlib.Data.BitVec
import HypervisorBase.Common.Store
import HypervisorBase.Common.Word
/-!
# Flattened device trees

Version 17 of the format: a structure block of 32-bit big-endian tokens at
multiples of four, and a strings block that property names are offsets
into. `parse` reads the two blocks as a tree, by position and within their
sizes; a node has its properties before its subnodes. `flatten` is a tree's
structure block if every property puts its name at the end of the strings
block, as the simplest writers do.
-/

namespace HypervisorBase

namespace Fdt

open Cells

abbrev Byte := BitVec 8

/-! ## Trees -/

/-- A property of a node. -/
structure Property (α : Type*) where
  name : List Byte
  value : α

/-- Nodes next to each other, in order: the first, with its properties and
the nodes below it, and those after it. -/
inductive Nodes (α : Type*)
  | nil
  | node (name : List Byte) (props : List (Property α)) (sub next : Nodes α)

/-- A device tree: its root. -/
structure DeviceTree (α : Type*) where
  name : List Byte
  props : List (Property α)
  sub : Nodes α

variable {α β γ : Type*}

def Property.map (f : α → β) (p : Property α) : Property β := ⟨p.name, f p.value⟩

namespace Nodes

def map (f : α → β) : Nodes α → Nodes β
  | nil => nil
  | node name props sub next => node name (props.map (Property.map f)) (sub.map f) (next.map f)

/-- All properties, in the order of the structure block. -/
def properties : Nodes α → List (Property α)
  | nil => []
  | node _ props sub next => props ++ (sub.properties ++ next.properties)

/-- All node names. -/
def names : Nodes α → List (List Byte)
  | nil => []
  | node name _ sub next => name :: (sub.names ++ next.names)

theorem names_map (f : α → β) (t : Nodes α) : (t.map f).names = t.names := by
  induction t with
  | nil => rfl
  | node name props sub next ihsub ihnext => rw [map, names, names, ihsub, ihnext]

theorem properties_map (f : α → β) (t : Nodes α) :
    (t.map f).properties = t.properties.map (Property.map f) := by
  induction t with
  | nil => rfl
  | node name props sub next ihsub ihnext =>
    rw [map, properties, properties, ihsub, ihnext, List.map_append, List.map_append]

theorem map_map (f : α → β) (g : β → γ) (t : Nodes α) : (t.map f).map g = t.map (g ∘ f) := by
  induction t with
  | nil => rfl
  | node name props sub next ihsub ihnext =>
    rw [map, map, map, ihsub, ihnext, List.map_map]
    rfl

theorem map_congr {f g : α → β} {t : Nodes α} (h : ∀ p ∈ t.properties, f p.value = g p.value) :
    t.map f = t.map g := by
  induction t with
  | nil => rfl
  | node name props sub next ihsub ihnext =>
    simp only [properties, List.forall_mem_append] at h
    obtain ⟨hprops, hsub, hnext⟩ := h
    have heq : props.map (Property.map f) = props.map (Property.map g) :=
      List.map_congr_left fun p hp => congrArg (Property.mk p.name) (hprops p hp)
    rw [map, map, heq, ihsub hsub, ihnext hnext]

/-- The first node of a name. -/
def find? (name : List Byte) : Nodes α → Option (List (Property α) × Nodes α)
  | nil => none
  | node name' props sub next => if name' = name then some (props, sub) else next.find? name

/-- The properties of each of these nodes. -/
def siblings : Nodes α → List (List (Property α))
  | nil => []
  | node _ props _ next => props :: next.siblings

end Nodes

/-- The value of a property of a node. -/
def lookup (name : List Byte) (props : List (Property α)) : Option α :=
  (props.find? fun p => p.name = name).map Property.value

namespace DeviceTree

/-- The root, as a list of one node. -/
def nodes (t : DeviceTree α) : Nodes α := .node t.name t.props t.sub .nil

def map (f : α → β) (t : DeviceTree α) : DeviceTree β :=
  ⟨t.name, t.props.map (Property.map f), t.sub.map f⟩

theorem nodes_map (f : α → β) (t : DeviceTree α) : (t.map f).nodes = t.nodes.map f := rfl

/-- The value of a property of a node below the root. -/
def value? (t : DeviceTree α) (node prop : List Byte) : Option α :=
  (t.sub.find? node).bind fun n => lookup prop n.1

/-- All properties of the tree. -/
def properties (t : DeviceTree α) : List (Property α) := t.nodes.properties

end DeviceTree

/-! ## Words -/

/-- A word, most significant byte first. -/
def bytes32 (w : BitVec 32) : List Byte :=
  [(w >>> 24).setWidth 8, (w >>> 16).setWidth 8, (w >>> 8).setWidth 8, w.setWidth 8]

def bytes64 (w : BitVec 64) : List Byte :=
  bytes32 ((w >>> 32).setWidth 32) ++ bytes32 (w.setWidth 32)

/-- The number that bytes denote, most significant first. -/
def number (bs : List Byte) : ℕ := bs.foldl (fun n b => n * 256 + b.toNat) 0

/-- The word at an address. -/
def wordAt (mem : ℕ → Byte) (a : ℕ) : BitVec 32 :=
  (mem a).setWidth 32 <<< 24 ||| (mem (a + 1)).setWidth 32 <<< 16 |||
    (mem (a + 2)).setWidth 32 <<< 8 ||| (mem (a + 3)).setWidth 32

@[simp] theorem length_bytes32 (w : BitVec 32) : (bytes32 w).length = 4 := rfl

@[simp] theorem length_bytes64 (w : BitVec 64) : (bytes64 w).length = 8 := rfl

theorem word_of_bytes (w : BitVec 32) :
    ((w >>> 24).setWidth 8).setWidth 32 <<< 24 ||| ((w >>> 16).setWidth 8).setWidth 32 <<< 16 |||
      ((w >>> 8).setWidth 8).setWidth 32 <<< 8 ||| (w.setWidth 8).setWidth 32 = w := by
  have hswap : ∀ a b c d : BitVec 32, a ||| b ||| c ||| d = d ||| c ||| b ||| a := by
    intro a b c d
    ac_rfl
  rw [hswap, Word.of_bytes]

/-- **A word that stands in memory is read.** -/
theorem wordAt_of_holds {mem : ℕ → Byte} {a : ℕ} {w : BitVec 32} (h : Holds mem a (bytes32 w)) :
    wordAt mem a = w := by
  have h0 : mem a = (w >>> 24).setWidth 8 := h 0 _ rfl
  have h1 : mem (a + 1) = (w >>> 16).setWidth 8 := h 1 _ rfl
  have h2 : mem (a + 2) = (w >>> 8).setWidth 8 := h 2 _ rfl
  have h3 : mem (a + 3) = w.setWidth 8 := h 3 _ rfl
  rw [wordAt, h0, h1, h2, h3, word_of_bytes]

theorem number_bytes32 (w : BitVec 32) : number (bytes32 w) = w.toNat := by
  have hw := w.isLt
  simp only [number, bytes32, List.foldl_cons, List.foldl_nil, BitVec.toNat_setWidth,
    BitVec.toNat_ushiftRight, Nat.shiftRight_eq_div_pow]
  omega

theorem number_bytes64 (w : BitVec 64) : number (bytes64 w) = w.toNat := by
  have hw := w.isLt
  simp only [number, bytes64, bytes32, List.cons_append, List.nil_append, List.foldl_cons,
    List.foldl_nil, BitVec.toNat_setWidth, BitVec.toNat_ushiftRight, Nat.shiftRight_eq_div_pow]
  omega

/-! ## Padding -/

/-- The next multiple of four. -/
def align4 (n : ℕ) : ℕ := (n + 3) / 4 * 4

/-- Bytes, with zeros up to the next multiple of four. -/
def padded (bs : List Byte) : List Byte := bs ++ List.replicate (align4 bs.length - bs.length) 0

theorem le_align4 (n : ℕ) : n ≤ align4 n := by
  unfold align4
  omega

@[simp] theorem align4_mod (n : ℕ) : align4 n % 4 = 0 := Nat.mul_mod_left ..

@[simp] theorem length_padded (bs : List Byte) : (padded bs).length = align4 bs.length := by
  have hle := le_align4 bs.length
  rw [padded, List.length_append, List.length_replicate]
  omega

/-! ## The two blocks -/

def tokBegin : BitVec 32 := 1

def tokEndNode : BitVec 32 := 2

def tokProp : BitVec 32 := 3

def tokNop : BitVec 32 := 4

def tokEnd : BitVec 32 := 9

/-- The structure block and the strings block. -/
structure Blob where
  mem : ℕ → Byte
  size : ℕ
  strings : ℕ → Byte
  stringsSize : ℕ

/-- The bytes up to a zero, among the next `n`. -/
def scan (mem : ℕ → Byte) : ℕ → ℕ → Option (List Byte)
  | 0, _ => none
  | n + 1, a => if mem a = 0 then some [] else (scan mem n (a + 1)).map fun s => mem a :: s

namespace Blob

/-- A token or a field: at a multiple of four, within the block. -/
def word (b : Blob) (pos : ℕ) : Option (BitVec 32) :=
  if pos % 4 = 0 ∧ pos + 4 ≤ b.size then some (wordAt b.mem pos) else none

def bytes (b : Blob) (pos n : ℕ) : Option (List Byte) :=
  if pos + n ≤ b.size then some (load b.mem pos n) else none

def nodeName (b : Blob) (pos : ℕ) : Option (List Byte) := scan b.mem (b.size - pos) pos

def propName (b : Blob) (off : ℕ) : Option (List Byte) :=
  scan b.strings (b.stringsSize - off) off

end Blob

/-- The properties from a position on, up to a token of another kind, and
the position of that token. -/
def parseProps (b : Blob) : ℕ → ℕ → Option (List (Property (List Byte)) × ℕ)
  | 0, _ => none
  | n + 1, pos => do
      let tok ← b.word pos
      if tok = tokProp then
        let len ← b.word (pos + 4)
        let off ← b.word (pos + 8)
        let value ← b.bytes (pos + 12) len.toNat
        let name ← b.propName off.toNat
        let (props, pos) ← parseProps b n (pos + 12 + align4 len.toNat)
        return (⟨name, value⟩ :: props, pos)
      else if tok = tokNop then parseProps b n (pos + 4)
      else return ([], pos)

/-- The nodes from a position on, up to a token of another kind, and the
position of that token. -/
def parseNodes (b : Blob) : ℕ → ℕ → Option (Nodes (List Byte) × ℕ)
  | 0, _ => none
  | n + 1, pos => do
      let tok ← b.word pos
      if tok = tokBegin then
        let name ← b.nodeName (pos + 4)
        let (props, pos) ← parseProps b n (pos + 4 + align4 (name.length + 1))
        let (sub, pos) ← parseNodes b n pos
        let tok ← b.word pos
        if tok = tokEndNode then
          let (next, pos) ← parseNodes b n (pos + 4)
          return (.node name props sub next, pos)
        else none
      else if tok = tokNop then parseNodes b n (pos + 4)
      else return (.nil, pos)

/-- **The tree of the two blocks**: one node, and then the end of the
structure block. -/
def parse (b : Blob) : Option (DeviceTree (List Byte)) := do
  let (nodes, pos) ← parseNodes b (b.size + 1) 0
  let tok ← b.word pos
  match nodes with
  | .node name props sub .nil =>
    if tok = tokEnd ∧ pos + 4 = b.size then some ⟨name, props, sub⟩ else none
  | _ => none

/-- The words of the header, by their number. -/
def headerWord (mem : ℕ → Byte) (i : ℕ) : ℕ := (wordAt mem (4 * i)).toNat

def magic : ℕ := 0xD00DFEED

/-- The blocks that a header of version 17 points to. -/
def blobAt (mem : ℕ → Byte) : Blob where
  mem := fun i => mem (headerWord mem 2 + i)
  size := headerWord mem 9
  strings := fun i => mem (headerWord mem 3 + i)
  stringsSize := headerWord mem 8

/-- **The tree of a blob** of `n` bytes: both blocks lie within its size. -/
def read (mem : ℕ → Byte) (n : ℕ) : Option (DeviceTree (List Byte)) :=
  if headerWord mem 0 = magic ∧ headerWord mem 5 = 17 ∧ headerWord mem 6 ≤ 17 ∧
      headerWord mem 1 ≤ n ∧ headerWord mem 2 % 4 = 0 ∧
      headerWord mem 2 + headerWord mem 9 ≤ headerWord mem 1 ∧
      headerWord mem 3 + headerWord mem 8 ≤ headerWord mem 1 then
    parse (blobAt mem)
  else none

/-! ## Writing -/

/-- A property whose name stands at `off`. -/
def flattenProp (off : ℕ) (p : Property (List Byte)) : List Byte :=
  bytes32 tokProp ++ (bytes32 (BitVec.ofNat 32 p.value.length) ++
    (bytes32 (BitVec.ofNat 32 off) ++ padded p.value))

/-- The name of a property as the strings block has it. -/
def Property.entry (p : Property α) : List Byte := p.name ++ [0]

/-- Properties whose names stand one after the other from `off` on. -/
def flattenProps (off : ℕ) : List (Property (List Byte)) → List Byte
  | [] => []
  | p :: ps => flattenProp off p ++ flattenProps (off + p.entry.length) ps

/-- The strings block of these properties. -/
def entries (props : List (Property α)) : List Byte := props.flatMap Property.entry

/-- The strings block of these nodes. -/
def Nodes.strings : Nodes α → List Byte
  | .nil => []
  | .node _ props sub next => entries props ++ (sub.strings ++ next.strings)

theorem entries_map (f : α → β) (props : List (Property α)) :
    entries (props.map (Property.map f)) = entries props := List.flatMap_map ..

theorem Nodes.strings_map (f : α → β) (t : Nodes α) : (t.map f).strings = t.strings := by
  induction t with
  | nil => rfl
  | node name props sub next ihsub ihnext =>
    rw [map, strings, strings, entries_map, ihsub, ihnext]

/-- The structure block of nodes whose names stand from `off` on. -/
def Nodes.flatten (off : ℕ) : Nodes (List Byte) → List Byte
  | .nil => []
  | .node name props sub next =>
    bytes32 tokBegin ++ (padded (name ++ [0]) ++ (flattenProps off props ++
      (sub.flatten (off + (entries props).length) ++ (bytes32 tokEndNode ++
        next.flatten (off + ((entries props).length + sub.strings.length))))))

/-- The structure block of a tree. -/
def DeviceTree.flatten (t : DeviceTree (List Byte)) : List Byte :=
  t.nodes.flatten 0 ++ bytes32 tokEnd

/-- The strings block of a tree. -/
def DeviceTree.strings (t : DeviceTree α) : List Byte := t.nodes.strings

theorem DeviceTree.strings_map (f : α → β) (t : DeviceTree α) : (t.map f).strings = t.strings :=
  Nodes.strings_map f t.nodes

end Fdt

end HypervisorBase
