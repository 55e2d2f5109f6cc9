import HypervisorBase.Dtb.Emitter
/-!
# The emitter round-trips

A tree of typed values, emitted with `begin_node`, the property functions
and `end_node` into a context that has room for it, and parsed by the rules
of version 17, is the tree again, and every value read as what it was
written as is that value (`fdt_round_trip`). The capacities of a context
have 64 bits and the lengths and offsets that it emits have 32: a value of
`2 ^ 32` bytes fits a context and is lost (`long_value_lost`).
-/

namespace HypervisorBase

namespace Dtb

open Cells Fdt

/-! ## Typed values -/

/-- A value, as the caller means it. -/
inductive Typed
  | str (s : List U8)
  | strings (ss : List (List U8))
  | u32 (v : U32)
  | cells (vs : List U32)
  | cells2 (hi lo : U64)
  | empty

/-- What a reader has to know to read a value. -/
inductive Kind
  | str
  | strings
  | u32
  | cells
  | cells2
  | empty

namespace Typed

def kind : Typed → Kind
  | str _ => .str
  | strings _ => .strings
  | u32 _ => .u32
  | cells _ => .cells
  | cells2 _ _ => .cells2
  | empty => .empty

/-- The strings of a list, each with its zero. -/
def joined (ss : List (List U8)) : List U8 := ss.flatMap fun s => s ++ [0]

/-- The arguments of the function that emits it. -/
def value : Typed → Value
  | str s => .str s
  | strings ss => .stringlist (joined ss) (BitVec.ofNat 64 (joined ss).length)
  | u32 v => .u32 v
  | cells vs => .cells (BitVec.ofNat 32 (vs.flatMap bytes32).length) vs
  | cells2 hi lo => .cells2 hi lo
  | empty => .empty

/-- Its bytes. -/
def bytes : Typed → List U8
  | str s => s ++ [0]
  | strings ss => joined ss
  | u32 v => bytes32 v
  | cells vs => vs.flatMap bytes32
  | cells2 hi lo => bytes64 hi ++ bytes64 lo
  | empty => []

/-- Its strings have no zero in them. -/
def Ok : Typed → Prop
  | str s => NoNul s
  | strings ss => ∀ s ∈ ss, NoNul s
  | _ => True

instance : DecidablePred Ok
  | str s => inferInstanceAs (Decidable (NoNul s))
  | strings ss => inferInstanceAs (Decidable (∀ s ∈ ss, NoNul s))
  | u32 _ => .isTrue trivial
  | cells _ => .isTrue trivial
  | cells2 _ _ => .isTrue trivial
  | empty => .isTrue trivial

theorem fits_value (v : Typed) : v.value.Fits := by
  cases v with
  | strings ss =>
    change (BitVec.ofNat 64 (joined ss).length).toNat ≤ (joined ss).length
    rw [BitVec.toNat_ofNat]
    exact Nat.mod_le ..
  | cells vs => exact rfl
  | _ => trivial

theorem bytes_value {v : Typed} (h : v.bytes.length < 2 ^ 64) : v.value.bytes = v.bytes := by
  cases v with
  | strings ss =>
    have hlen : (joined ss).length < 2 ^ 64 := h
    change (joined ss).take (BitVec.ofNat 64 (joined ss).length).toNat = joined ss
    rw [BitVec.toNat_ofNat, Nat.mod_eq_of_lt hlen, List.take_length]
  | _ => rfl

end Typed

/-! ## Reading values -/

/-- The strings between the zeros. -/
def splitNul : List U8 → List (List U8)
  | [] => []
  | b :: bs =>
    if b = 0 then [] :: splitNul bs
    else
      match splitNul bs with
      | [] => [[b]]
      | s :: ss => (b :: s) :: ss

/-- The cells of a value, four bytes each. -/
def splitCells : List U8 → List U32
  | b0 :: b1 :: b2 :: b3 :: bs => BitVec.ofNat 32 (number [b0, b1, b2, b3]) :: splitCells bs
  | _ => []

/-- A value read as a kind. -/
def Kind.read : Kind → List U8 → Typed
  | str, bs => .str bs.dropLast
  | strings, bs => .strings (splitNul bs)
  | u32, bs => .u32 (BitVec.ofNat 32 (number bs))
  | cells, bs => .cells (splitCells bs)
  | cells2, bs =>
    .cells2 (BitVec.ofNat 64 (number (bs.take 8))) (BitVec.ofNat 64 (number (bs.drop 8)))
  | empty, _ => .empty

theorem splitNul_append {s : List U8} (hs : NoNul s) (bs : List U8) :
    splitNul (s ++ [0] ++ bs) = s :: splitNul bs := by
  induction s with
  | nil => exact if_pos rfl
  | cons b s ih =>
    have hne : b ≠ 0 := hs b List.mem_cons_self
    rw [List.cons_append, List.cons_append, splitNul, if_neg hne,
      ih fun b hb => hs b (List.mem_cons_of_mem _ hb)]

/-- Joined strings are split again. -/
theorem splitNul_joined {ss : List (List U8)} (hss : ∀ s ∈ ss, NoNul s) :
    splitNul (Typed.joined ss) = ss := by
  induction ss with
  | nil => rfl
  | cons s ss ih =>
    have hrest := ih fun s hs => hss s (List.mem_cons_of_mem _ hs)
    rw [Typed.joined, List.flatMap_cons, splitNul_append (hss s List.mem_cons_self)]
    rw [Typed.joined] at hrest
    rw [hrest]

theorem splitCells_flatMap (vs : List U32) : splitCells (vs.flatMap bytes32) = vs := by
  induction vs with
  | nil => rfl
  | cons v vs ih =>
    have hword : BitVec.ofNat 32 (number (bytes32 v)) = v := by
      rw [number_bytes32, BitVec.ofNat_toNat, BitVec.setWidth_eq]
    rw [List.flatMap_cons]
    exact congrArg₂ List.cons hword ih

/-- **A value is read back** as what it was written as. -/
theorem read_bytes {v : Typed} (h : v.Ok) : v.kind.read v.bytes = v := by
  have hword : ∀ v : U64, BitVec.ofNat 64 (number (bytes64 v)) = v := by
    intro v
    rw [number_bytes64, BitVec.ofNat_toNat, BitVec.setWidth_eq]
  cases v with
  | str s => exact congrArg Typed.str List.dropLast_concat
  | strings ss => exact congrArg Typed.strings (splitNul_joined h)
  | u32 v =>
    refine congrArg Typed.u32 ?_
    rw [Typed.bytes, number_bytes32, BitVec.ofNat_toNat, BitVec.setWidth_eq]
  | cells vs => exact congrArg Typed.cells (splitCells_flatMap vs)
  | cells2 hi lo =>
    refine congrArg₂ Typed.cells2 ?_ ?_
    · rw [Typed.bytes, List.take_left' (length_bytes64 hi), hword]
    · rw [Typed.bytes, List.drop_left' (length_bytes64 hi), hword]
  | empty => rfl

/-! ## Trees of typed values -/

/-- Emits a tree, and `FDT_END` after it. -/
def emitTree (c : FdtCtx) (t : DeviceTree Typed) : FdtCtx :=
  emit32 ((calls (t.map Typed.value).nodes).foldl FdtCtx.call c) fdtEnd

/-- The structure block and the string table of a context. -/
def blobOf (c : FdtCtx) : Blob := ⟨c.buf, c.pos.toNat, c.strtab, c.strPos.toNat⟩

/-- **A tree and a fresh context with room for it.** No name and no string
has a zero in it. -/
structure Emittable (t : DeviceTree Typed) (c : FdtCtx) : Prop where
  pos : c.pos = 0
  strPos : c.strPos = 0
  nodeNames : ∀ s ∈ t.nodes.names, NoNul s
  propNames : ∀ p ∈ t.properties, NoNul p.name
  values : ∀ p ∈ t.properties, p.value.Ok
  room : (t.map Typed.bytes).flatten.length ≤ c.cap.toNat
  strRoom : t.strings.length ≤ c.strtabCap.toNat

/-- Lengths and offsets have 32 bits. -/
structure Short (t : DeviceTree Typed) : Prop where
  values : ∀ p ∈ t.properties, p.value.bytes.length < 2 ^ 32
  strings : t.strings.length ≤ 2 ^ 32

variable {t : DeviceTree Typed} {c : FdtCtx}

theorem map_bytes_value (hshort : Short t) :
    (t.map Typed.value).nodes.map Value.bytes = (t.map Typed.bytes).nodes := by
  rw [DeviceTree.nodes_map, DeviceTree.nodes_map, Nodes.map_map]
  refine Nodes.map_congr fun p hp => Typed.bytes_value ?_
  have hlt := hshort.values p hp
  omega

/-- **What emitting a tree does.** -/
theorem emits_emitTree (hpos : c.pos = 0) (hstr : c.strPos = 0) (hshort : Short t) :
    Emits (t.map Typed.bytes).flatten t.strings c (emitTree c t) := by
  have hfits : ∀ p ∈ (t.map Typed.value).nodes.properties, p.value.Fits := by
    rw [DeviceTree.nodes_map, Nodes.properties_map, List.forall_mem_map]
    exact fun p _ => p.value.fits_value
  have hnodes := emits_nodes (c := c) _ hfits (by rw [hpos]; rfl) hstr
  have hall := hnodes.trans (emits_emit32 _ fdtEnd)
  have hstrings : (t.map Typed.value).nodes.strings = t.strings := DeviceTree.strings_map ..
  rw [map_bytes_value hshort, List.append_nil, hstrings] at hall
  exact hall

/-- **The emitter round-trips**: what it has emitted is parsed as the tree,
every token at a multiple of four and every name found at its offset, and
each value is read back as what it was written as. -/
theorem fdt_round_trip (hemit : Emittable t c) (hshort : Short t) :
    parse (blobOf (emitTree c t)) = some (t.map Typed.bytes) ∧
      ∀ p ∈ t.properties, p.value.kind.read p.value.bytes = p.value := by
  refine ⟨?_, fun p hp => read_bytes (hemit.values p hp)⟩
  have hemits := emits_emitTree hemit.pos hemit.strPos hshort
  have hcap := c.cap.isLt
  have hstrCap := c.strtabCap.isLt
  have hpos : c.pos.toNat = 0 := by rw [hemit.pos]; rfl
  have hstrPos : c.strPos.toNat = 0 := by rw [hemit.strPos]; rfl
  have hroom := hemit.room
  have hstrRoom := hemit.strRoom
  have hbuf := hemits.buf (by omega)
  have hstrtab := hemits.strtab (by omega)
  rw [hpos] at hbuf
  rw [hstrPos] at hstrtab
  have hok : (t.map Typed.bytes).nodes.Ok := by
    constructor
    · rw [DeviceTree.nodes_map, Nodes.names_map]
      exact hemit.nodeNames
    · rw [DeviceTree.nodes_map, Nodes.properties_map, List.forall_mem_map]
      exact fun p hp => ⟨hemit.propNames p hp, hshort.values p hp⟩
  have hstrings : (t.map Typed.bytes).strings = t.strings := DeviceTree.strings_map ..
  refine parse_flatten _ hok ?_ ?_ ?_ ?_ ?_
  · change Holds (emitTree c t).buf 0 _
    rw [hbuf]
    exact holds_store _ _ _
  · change (emitTree c t).pos.toNat = _
    rw [hemits.pos, toNat_add_ofNat (by omega), hpos, Nat.zero_add]
  · change Holds (emitTree c t).strtab 0 _
    rw [hstrtab, hstrings]
    exact holds_store _ _ _
  · change (emitTree c t).strPos.toNat = _
    rw [hemits.strPos, toNat_add_ofNat (by omega), hstrPos, Nat.zero_add, hstrings]
  · rw [hstrings]
    exact hshort.strings

/-- A root with a list of strings and a subnode. -/
def smallTree : DeviceTree Typed where
  name := []
  props := [⟨[97], .strings [[98], []]⟩]
  sub := .node [99] [⟨[100], .cells2 1 2⟩, ⟨[101], .empty⟩] .nil .nil

/-- A fresh context. -/
def freshCtx (cap strtabCap : U64) : FdtCtx := ⟨fun _ => 0, cap, 0, 0, fun _ => 0, strtabCap⟩

theorem fdt_round_trip_smallTree :
    Emittable smallTree (freshCtx 128 64) ∧
      parse (blobOf (emitTree (freshCtx 128 64) smallTree)) = some (smallTree.map Typed.bytes) := by
  have hemit : Emittable smallTree (freshCtx 128 64) :=
    ⟨rfl, rfl, by decide, by decide, by decide, by decide, by decide⟩
  exact ⟨hemit, (fdt_round_trip hemit ⟨by decide, by decide⟩).1⟩

/-- A root with one string. -/
def oneString (s : List U8) : DeviceTree Typed := ⟨[], [⟨text "a", .str s⟩], .nil⟩

theorem length_oneString (s : List U8) : ((oneString s).map Typed.bytes).flatten.length =
    28 + align4 (s.length + 1) := by
  have hbytes : (Typed.str s).bytes.length = s.length + 1 := List.length_append
  simp only [DeviceTree.flatten, DeviceTree.nodes, DeviceTree.map, oneString, Nodes.map,
    Nodes.flatten, flattenProps, List.map_cons, List.map_nil, Property.map, List.length_append,
    length_bytes32, length_padded, length_flattenProp, List.length_nil, List.length_singleton,
    List.append_nil, hbytes]
  have hname : align4 (0 + 1) = 4 := rfl
  omega

theorem emittable_oneString {s : List U8} (hs : NoNul s) (hlen : s.length ≤ 2 ^ 32) :
    Emittable (oneString s) (freshCtx 0x200000000 1024) := by
  refine ⟨rfl, rfl, ?_, ?_, ?_, ?_, ?_⟩
  · exact List.forall_mem_singleton.mpr (show NoNul [] by decide)
  · exact List.forall_mem_singleton.mpr (show NoNul (text "a") by decide)
  · exact List.forall_mem_singleton.mpr hs
  · rw [length_oneString, show (freshCtx 0x200000000 1024).cap.toNat = 2 ^ 33 from rfl]
    unfold align4
    omega
  · exact show (text "a" ++ [0]).length ≤ 1024 by decide

/-- A string with no room for its length is not parsed back. -/
theorem oneString_lost {s : List U8} (hlen : 2 ^ 32 ≤ s.length) (b : Blob) :
    parse b ≠ some ((oneString s).map Typed.bytes) := by
  intro hparse
  have hlt : (Typed.str s).bytes.length < 2 ^ 32 :=
    parse_value_lt hparse ⟨text "a", (Typed.str s).bytes⟩ List.mem_cons_self
  rw [Typed.bytes, List.length_append] at hlt
  omega

/-- **A string of `2 ^ 32` characters** fits a context of eight gigabytes
and is lost: its length is emitted as one. -/
theorem long_value_lost :
    Emittable (oneString (List.replicate (2 ^ 32) 97)) (freshCtx 0x200000000 1024) ∧
      parse (blobOf (emitTree (freshCtx 0x200000000 1024)
          (oneString (List.replicate (2 ^ 32) 97)))) ≠
        some ((oneString (List.replicate (2 ^ 32) 97)).map Typed.bytes) := by
  have hnoNul : NoNul (List.replicate (2 ^ 32) (97 : U8)) := by
    intro ch hch
    rw [List.eq_of_mem_replicate hch]
    decide
  have hlength : (List.replicate (2 ^ 32) (97 : U8)).length = 2 ^ 32 := List.length_replicate
  exact ⟨emittable_oneString hnoNul (by omega), oneString_lost (by omega) _⟩

end Dtb

end HypervisorBase
