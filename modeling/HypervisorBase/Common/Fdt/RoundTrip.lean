import HypervisorBase.Common.Fdt.Format
/-!
# A flattened tree is parsed back

If the two blocks hold what `flatten` and `strings` say, then `parse` gives
the tree back (`parse_flatten`), as long as lengths and offsets have 32
bits. The format has no room for longer values: no tree that `parse`
returns has one (`parse_value_lt`).
-/

namespace HypervisorBase

namespace Fdt

open Cells

variable {b : Blob} {off pos n : ℕ} {tok : BitVec 32}

/-- No byte is zero. -/
def NoNul (s : List Byte) : Prop := ∀ c ∈ s, c ≠ 0

instance : DecidablePred NoNul := fun s => inferInstanceAs (Decidable (∀ c ∈ s, c ≠ 0))

/-- What the format can say about a property. -/
structure Property.Ok (p : Property (List Byte)) : Prop where
  name : NoNul p.name
  value : p.value.length < 2 ^ 32

/-- What the format can say about nodes. -/
structure Nodes.Ok (t : Nodes (List Byte)) : Prop where
  names : ∀ s ∈ t.names, NoNul s
  props : ∀ p ∈ t.properties, p.Ok

/-- A test for `NoNul` that evaluates well. -/
def noNul (s : List Byte) : Bool := s.all fun c => Nat.ble 1 c.toNat

theorem noNul_iff {s : List Byte} : noNul s = true ↔ NoNul s := by
  rw [noNul, List.all_eq_true]
  refine forall₂_congr fun c _ => ?_
  rw [Nat.ble_eq, Nat.one_le_iff_ne_zero, ne_eq, ne_eq, ← BitVec.toNat_inj]
  rfl

/-! ## Reading what is there -/

theorem Blob.word_eq_some (h : b.word pos = some tok) : pos % 4 = 0 ∧ pos + 4 ≤ b.size := by
  unfold Blob.word at h
  split at h
  · assumption
  · cases h

theorem Blob.word_of_holds (hpos : pos % 4 = 0) (hsize : pos + 4 ≤ b.size)
    (h : Holds b.mem pos (bytes32 tok)) : b.word pos = some tok := by
  rw [Blob.word, if_pos ⟨hpos, hsize⟩, wordAt_of_holds h]

theorem Blob.bytes_of_holds {bs : List Byte} (hsize : pos + bs.length ≤ b.size)
    (h : Holds b.mem pos bs) : b.bytes pos bs.length = some bs := by
  rw [Blob.bytes, if_pos hsize, load_of_holds h]

variable {a : ℕ} {mem : ℕ → Byte}

/-- **A string is read up to its end.** -/
theorem scan_of_holds {s : List Byte} (hs : NoNul s)
    (h : Holds mem a (s ++ [0])) (hn : s.length < n) : scan mem n a = some s := by
  induction s generalizing n a with
  | nil =>
    obtain ⟨n, rfl⟩ : ∃ m, n = m + 1 := ⟨n - 1, by omega⟩
    have hend : mem a = 0 := h 0 0 rfl
    rw [scan, if_pos hend]
  | cons c s ih =>
    obtain ⟨n, rfl⟩ : ∃ m, n = m + 1 := ⟨n - 1, by omega⟩
    obtain ⟨hc, hrest⟩ := holds_cons.mp h
    have hne : mem a ≠ 0 := by
      rw [hc]
      exact hs c List.mem_cons_self
    rw [List.length_cons] at hn
    rw [scan, if_neg hne, ih (fun c hc => hs c (List.mem_cons_of_mem _ hc)) hrest (by omega), hc,
      Option.map_some]

theorem holds_of_padded {bs : List Byte} (h : Holds mem a (padded bs)) :
    Holds mem a bs := (holds_append.mp h).1

theorem toNat_ofNat_of_lt (h : n < 2 ^ 32) : (BitVec.ofNat 32 n).toNat = n := by
  rw [BitVec.toNat_ofNat, Nat.mod_eq_of_lt h]

/-! ## Properties -/

@[simp] theorem length_flattenProp (off : ℕ) (p : Property (List Byte)) :
    (flattenProp off p).length = 12 + align4 p.value.length := by
  rw [flattenProp, List.length_append, List.length_append, List.length_append, length_padded,
    length_bytes32, length_bytes32, length_bytes32]
  omega

theorem length_flattenProp_mod (off : ℕ) (p : Property (List Byte)) :
    (flattenProp off p).length % 4 = 0 := by
  have halign := align4_mod p.value.length
  rw [length_flattenProp]
  omega

theorem length_le_flattenProps (off : ℕ) (props : List (Property (List Byte))) :
    props.length ≤ (flattenProps off props).length := by
  induction props generalizing off with
  | nil => exact Nat.le_refl 0
  | cons p ps ih =>
    have hrest := ih (off + p.entry.length)
    rw [flattenProps, List.length_append, length_flattenProp, List.length_cons]
    omega

theorem length_flattenProps_mod (off : ℕ) (props : List (Property (List Byte))) :
    (flattenProps off props).length % 4 = 0 := by
  induction props generalizing off with
  | nil => rfl
  | cons p ps ih =>
    have hfirst := length_flattenProp_mod off p
    have hrest := ih (off + p.entry.length)
    rw [flattenProps, List.length_append]
    omega

/-- The fields of one property. -/
theorem prop_fields {p : Property (List Byte)} (hok : p.Ok) (hpos : pos % 4 = 0)
    (hmem : Holds b.mem pos (flattenProp off p))
    (hsize : pos + (12 + align4 p.value.length) ≤ b.size)
    (hstr : Holds b.strings off p.entry) (hend : off + p.entry.length ≤ b.stringsSize)
    (hsmall : b.stringsSize ≤ 2 ^ 32) :
    b.word pos = some tokProp ∧ b.word (pos + 4) = some (BitVec.ofNat 32 p.value.length) ∧
      b.word (pos + 8) = some (BitVec.ofNat 32 off) ∧
      b.bytes (pos + 12) (BitVec.ofNat 32 p.value.length).toNat = some p.value ∧
      b.propName (BitVec.ofNat 32 off).toNat = some p.name := by
  obtain ⟨htok, hmem⟩ := holds_append.mp hmem
  obtain ⟨hlen, hmem⟩ := holds_append.mp hmem
  obtain ⟨hoff, hvalue⟩ := holds_append.mp hmem
  have hentry : p.entry.length = p.name.length + 1 := List.length_append
  have hle := le_align4 p.value.length
  refine ⟨Blob.word_of_holds hpos (by omega) htok, Blob.word_of_holds (by omega) (by omega) hlen,
    Blob.word_of_holds (by omega) (by omega) hoff, ?_, ?_⟩
  · rw [toNat_ofNat_of_lt hok.value]
    exact Blob.bytes_of_holds (by omega) (holds_of_padded hvalue)
  · rw [toNat_ofNat_of_lt (by omega)]
    exact scan_of_holds hok.name hstr (by omega)

/-- The parser of properties stops at another token. -/
theorem parseProps_stop (hstop : b.word pos = some tok) (hprop : tok ≠ tokProp)
    (hnop : tok ≠ tokNop) : parseProps b (n + 1) pos = some ([], pos) := by
  simp only [parseProps, hstop, Option.bind_eq_bind, Option.bind_some, if_neg hprop, if_neg hnop]
  rfl

variable {pos' : ℕ}

/-- One property, and those after it. -/
theorem parseProps_cons {p : Property (List Byte)} {ps : List (Property (List Byte))}
    {len offset : BitVec 32} (htok : b.word pos = some tokProp)
    (hlength : b.word (pos + 4) = some len) (hoffset : b.word (pos + 8) = some offset)
    (hvalue : b.bytes (pos + 12) len.toNat = some p.value)
    (hname : b.propName offset.toNat = some p.name)
    (hrest : parseProps b n (pos + 12 + align4 len.toNat) = some (ps, pos')) :
    parseProps b (n + 1) pos = some (p :: ps, pos') := by
  simp only [parseProps, htok, hlength, hoffset, hvalue, hname, Option.bind_eq_bind,
    Option.bind_some, if_true, hrest]
  rfl

/-- **Properties are parsed back**, up to a token that is none. -/
theorem parseProps_flatten (props : List (Property (List Byte))) (hok : ∀ p ∈ props, p.Ok)
    (hpos : pos % 4 = 0) (hmem : Holds b.mem pos (flattenProps off props))
    (hstr : Holds b.strings off (entries props))
    (hend : off + (entries props).length ≤ b.stringsSize) (hsmall : b.stringsSize ≤ 2 ^ 32)
    (hn : props.length < n) (hstop : b.word (pos + (flattenProps off props).length) = some tok)
    (hprop : tok ≠ tokProp) (hnop : tok ≠ tokNop) :
    parseProps b n pos = some (props, pos + (flattenProps off props).length) := by
  induction props generalizing off pos n with
  | nil =>
    obtain ⟨n, rfl⟩ : ∃ m, n = m + 1 := ⟨n - 1, by omega⟩
    exact parseProps_stop hstop hprop hnop
  | cons p ps ih =>
    obtain ⟨n, rfl⟩ : ∃ m, n = m + 1 := ⟨n - 1, by omega⟩
    rw [List.length_cons] at hn
    have hpok := hok p List.mem_cons_self
    have hentries : (entries (p :: ps)).length = p.entry.length + (entries ps).length :=
      List.length_append
    have halign := align4_mod p.value.length
    have hbound := (Blob.word_eq_some hstop).2
    rw [flattenProps, List.length_append, length_flattenProp, ← Nat.add_assoc] at hstop hbound ⊢
    obtain ⟨hfirst, hrest⟩ := holds_append.mp hmem
    obtain ⟨hname, hnames⟩ := holds_append.mp hstr
    rw [length_flattenProp] at hrest
    obtain ⟨htok, hlength, hoffset, hvalue, hpname⟩ :=
      prop_fields hpok hpos hfirst (by omega) hname (by omega) hsmall
    have hnext := ih (fun q hq => hok q (List.mem_cons_of_mem p hq)) (by omega) hrest hnames
      (by omega) (show ps.length < n by omega) hstop
    refine parseProps_cons htok hlength hoffset hvalue hpname ?_
    rw [toNat_ofNat_of_lt hpok.value, Nat.add_assoc pos]
    exact hnext

/-! ## Nodes -/

variable {t : Nodes (List Byte)} {name : List Byte} {props : List (Property (List Byte))}
  {sub next : Nodes (List Byte)}

/-- A structure block is a whole number of words. -/
theorem length_flatten_mod (t : Nodes (List Byte)) (off : ℕ) : (t.flatten off).length % 4 = 0 := by
  induction t generalizing off with
  | nil => rfl
  | node name props sub next ihsub ihnext =>
    have hprops := length_flattenProps_mod off props
    have hsub := ihsub (off + (entries props).length)
    have hnext := ihnext (off + ((entries props).length + sub.strings.length))
    have halign := align4_mod (name.length + [(0 : Byte)].length)
    simp only [Nodes.flatten, List.length_append, length_bytes32, length_padded]
    omega

/-- What follows the properties of a node: a subnode or the end. -/
theorem word_after_props (sub : Nodes (List Byte)) {rest : List Byte} (hpos : pos % 4 = 0)
    (hmem : Holds b.mem pos (sub.flatten off ++ (bytes32 tokEndNode ++ rest)))
    (hsize : pos + (sub.flatten off).length + 4 ≤ b.size) :
    ∃ tok, b.word pos = some tok ∧ tok ≠ tokProp ∧ tok ≠ tokNop := by
  cases sub with
  | nil =>
    rw [Nodes.flatten, List.nil_append] at hmem
    exact ⟨tokEndNode, Blob.word_of_holds hpos (by omega) (holds_append.mp hmem).1, by decide,
      by decide⟩
  | node name props sub next =>
    have hfirst := (holds_append.mp (holds_append.mp hmem).1).1
    exact ⟨tokBegin, Blob.word_of_holds hpos (by omega) hfirst, by decide, by decide⟩

theorem Nodes.Ok.parts (hok : (Nodes.node name props sub next).Ok) :
    NoNul name ∧ (∀ p ∈ props, p.Ok) ∧ sub.Ok ∧ next.Ok := by
  obtain ⟨hnames, hprops⟩ := hok
  simp only [Nodes.names, List.forall_mem_cons, List.forall_mem_append] at hnames
  simp only [Nodes.properties, List.forall_mem_append] at hprops
  exact ⟨hnames.1, hprops.1, ⟨hnames.2.1, hprops.2.1⟩, ⟨hnames.2.2, hprops.2.2⟩⟩

theorem length_flatten_node : ((Nodes.node name props sub next).flatten off).length =
    4 + align4 (name.length + 1) + (flattenProps off props).length +
      (sub.flatten (off + (entries props).length)).length + 4 +
      (next.flatten (off + ((entries props).length + sub.strings.length))).length := by
  simp only [Nodes.flatten, List.length_append, length_bytes32, length_padded, ← Nat.add_assoc]
  rfl

/-- The pieces of a node in the structure block, and where they are. -/
theorem holds_node
    (h : Holds mem pos ((Nodes.node name props sub next).flatten off)) :
    Holds mem pos (bytes32 tokBegin) ∧ Holds mem (pos + 4) (name ++ [0]) ∧
      Holds mem (pos + 4 + align4 (name.length + 1)) (flattenProps off props) ∧
      Holds mem (pos + 4 + align4 (name.length + 1) + (flattenProps off props).length)
        (sub.flatten (off + (entries props).length) ++ (bytes32 tokEndNode ++
          next.flatten (off + ((entries props).length + sub.strings.length)))) := by
  rw [Nodes.flatten] at h
  obtain ⟨htok, h⟩ := holds_append.mp h
  obtain ⟨hname, h⟩ := holds_append.mp h
  obtain ⟨hprops, hrest⟩ := holds_append.mp h
  rw [length_padded, List.length_append] at hprops hrest
  exact ⟨htok, holds_of_padded hname, hprops, hrest⟩

/-- The parser of nodes stops at another token. -/
theorem parseNodes_stop (hstop : b.word pos = some tok) (hbegin : tok ≠ tokBegin)
    (hnop : tok ≠ tokNop) : parseNodes b (n + 1) pos = some (.nil, pos) := by
  simp only [parseNodes, hstop, Option.bind_eq_bind, Option.bind_some, if_neg hbegin, if_neg hnop]
  rfl

/-- One node with what is in it, and those after it. -/
theorem parseNodes_node {pos₁ pos₂ pos₃ : ℕ} (htok : b.word pos = some tokBegin)
    (hname : b.nodeName (pos + 4) = some name)
    (hprops : parseProps b n (pos + 4 + align4 (name.length + 1)) = some (props, pos₁))
    (hsub : parseNodes b n pos₁ = some (sub, pos₂)) (hend : b.word pos₂ = some tokEndNode)
    (hnext : parseNodes b n (pos₂ + 4) = some (next, pos₃)) :
    parseNodes b (n + 1) pos = some (.node name props sub next, pos₃) := by
  simp only [parseNodes, htok, hname, hprops, hsub, hend, hnext, Option.bind_eq_bind,
    Option.bind_some, if_true]
  rfl

/-- **Nodes are parsed back**, up to a token that begins none. The
induction is on the nodes; those below a node end at its end token. -/
theorem parseNodes_flatten (t : Nodes (List Byte)) (hok : t.Ok) (hpos : pos % 4 = 0)
    (hmem : Holds b.mem pos (t.flatten off)) (hstr : Holds b.strings off t.strings)
    (hend : off + t.strings.length ≤ b.stringsSize) (hsmall : b.stringsSize ≤ 2 ^ 32)
    (hn : (t.flatten off).length < n) (hstop : b.word (pos + (t.flatten off).length) = some tok)
    (hbegin : tok ≠ tokBegin) (hnop : tok ≠ tokNop) :
    parseNodes b n pos = some (t, pos + (t.flatten off).length) := by
  induction t generalizing off pos n tok with
  | nil =>
    obtain ⟨n, rfl⟩ : ∃ m, n = m + 1 := ⟨n - 1, by omega⟩
    exact parseNodes_stop hstop hbegin hnop
  | node name props sub next ihsub ihnext =>
    obtain ⟨n, rfl⟩ : ∃ m, n = m + 1 := ⟨n - 1, by omega⟩
    obtain ⟨hname, hprops, hsub, hnext⟩ := hok.parts
    have hbound := (Blob.word_eq_some hstop).2
    rw [Nodes.strings, List.length_append, List.length_append] at hend
    rw [length_flatten_node] at hn hbound
    -- the pieces of the two blocks
    obtain ⟨htok, hnameMem, hpropsMem, hrest⟩ := holds_node hmem
    obtain ⟨hpropsStr, hstr⟩ := holds_append.mp hstr
    obtain ⟨hsubStr, hnextStr⟩ := holds_append.mp hstr
    rw [Nat.add_assoc off] at hnextStr
    have hfew := length_le_flattenProps off props
    have hmod := length_flattenProps_mod off props
    have hsubMod := length_flatten_mod sub (off + (entries props).length)
    have halign := align4_mod (name.length + 1)
    have hle := le_align4 (name.length + 1)
    have hpos' : (pos + 4 + align4 (name.length + 1) + (flattenProps off props).length) % 4 = 0 := by
      omega
    obtain ⟨tok', htok', htokProp, htokNop⟩ := word_after_props sub hpos' hrest (by omega)
    obtain ⟨hsubMem, hrest⟩ := holds_append.mp hrest
    obtain ⟨hendMem, hnextMem⟩ := holds_append.mp hrest
    have hendTok := Blob.word_of_holds (by omega) (by omega) hendMem
    have hlast : pos + ((Nodes.node name props sub next).flatten off).length =
        pos + 4 + align4 (name.length + 1) + (flattenProps off props).length +
          (sub.flatten (off + (entries props).length)).length + 4 +
          (next.flatten (off + ((entries props).length + sub.strings.length))).length := by
      rw [length_flatten_node]
      omega
    rw [hlast] at hstop ⊢
    -- what is read
    have hparseProps := parseProps_flatten (n := n) props hprops (by omega) hpropsMem hpropsStr
      (by omega) hsmall (by omega) htok' htokProp htokNop
    refine parseNodes_node (Blob.word_of_holds hpos (by omega) htok)
      (scan_of_holds hname hnameMem (by omega)) hparseProps ?_ hendTok ?_
    · exact ihsub hsub hpos' hsubMem hsubStr (by omega) (by omega) hendTok (by decide) (by decide)
    · exact ihnext hnext (by omega) hnextMem hnextStr (by omega) (by omega) hstop hbegin hnop

/-! ## Sizes

The length of the structure block depends on the lengths of names and
values only. -/

/-- The size of properties whose values have these lengths. -/
def sizeProps : List (Property ℕ) → ℕ
  | [] => 0
  | p :: ps => 12 + align4 p.value + sizeProps ps

/-- The size of nodes whose values have these lengths. -/
def Nodes.size : Nodes ℕ → ℕ
  | .nil => 0
  | .node name props sub next =>
    8 + align4 (name.length + 1) + sizeProps props + sub.size + next.size

theorem length_flattenProps (off : ℕ) (props : List (Property (List Byte))) :
    (flattenProps off props).length = sizeProps (props.map (Property.map List.length)) := by
  induction props generalizing off with
  | nil => rfl
  | cons p ps ih =>
    rw [flattenProps, List.length_append, length_flattenProp, ih]
    rfl

/-- The length depends on the lengths of the values only. -/
theorem length_flatten_nodes (t : Nodes (List Byte)) (off : ℕ) :
    (t.flatten off).length = (t.map List.length).size := by
  induction t generalizing off with
  | nil => rfl
  | node name props sub next ihsub ihnext =>
    simp only [Nodes.flatten, Nodes.map, Nodes.size, List.length_append, length_bytes32,
      length_padded, length_flattenProps, ihsub, ihnext, List.length_singleton]
    omega

/-! ## Trees -/

theorem length_flatten (t : DeviceTree (List Byte)) :
    t.flatten.length = (t.nodes.flatten 0).length + 4 :=
  List.length_append

/-- **A tree is parsed back** from blocks that hold its flattened form. -/
theorem parse_flatten (t : DeviceTree (List Byte)) (hok : t.nodes.Ok)
    (hmem : Holds b.mem 0 t.flatten)
    (hsize : b.size = t.flatten.length) (hstr : Holds b.strings 0 t.strings)
    (hstrSize : b.stringsSize = t.strings.length) (hsmall : t.strings.length ≤ 2 ^ 32) :
    parse b = some t := by
  have hlen := length_flatten t
  have hmod := length_flatten_mod t.nodes 0
  obtain ⟨hnodes, hend⟩ := holds_append.mp hmem
  have hstop : b.word (0 + (t.nodes.flatten 0).length) = some tokEnd :=
    Blob.word_of_holds (by omega) (by omega) hend
  have hparse := parseNodes_flatten (n := b.size + 1) t.nodes hok rfl hnodes hstr
    (show 0 + t.strings.length ≤ b.stringsSize by omega) (by omega) (by omega) hstop (by decide)
    (by decide)
  have hlast : 0 + (t.nodes.flatten 0).length + 4 = b.size := by omega
  simp only [parse, hparse, hstop, Option.bind_eq_bind, Option.bind_some]
  exact if_pos ⟨trivial, hlast⟩

/-- **A blob is read back** if its header points to the two blocks. -/
theorem read_flatten (t : DeviceTree (List Byte)) (hok : t.nodes.Ok)
    (hmagic : headerWord mem 0 = magic) (hversion : headerWord mem 5 = 17)
    (hcomp : headerWord mem 6 ≤ 17) (htotal : headerWord mem 1 ≤ n)
    (halign : headerWord mem 2 % 4 = 0)
    (hin : headerWord mem 2 + headerWord mem 9 ≤ headerWord mem 1)
    (hstrIn : headerWord mem 3 + headerWord mem 8 ≤ headerWord mem 1)
    (hmem : Holds mem (headerWord mem 2) t.flatten) (hsize : headerWord mem 9 = t.flatten.length)
    (hstr : Holds mem (headerWord mem 3) t.strings)
    (hstrSize : headerWord mem 8 = t.strings.length) : read mem n = some t := by
  have hword : headerWord mem 8 < 2 ^ 32 := (wordAt mem (4 * 8)).isLt
  rw [read, if_pos ⟨hmagic, hversion, hcomp, htotal, halign, hin, hstrIn⟩]
  refine parse_flatten t hok ?_ hsize ?_ hstrSize (by omega)
  · exact hmem.congr fun k _ => by rw [Nat.zero_add]; rfl
  · exact hstr.congr fun k _ => by rw [Nat.zero_add]; rfl

/-- Words next to each other are read one by one. -/
theorem wordAt_words {i : ℕ} {ws : List (BitVec 32)} {w : BitVec 32}
    (h : Holds mem a (ws.flatMap bytes32)) (hi : ws[i]? = some w) : wordAt mem (a + 4 * i) = w := by
  induction ws generalizing a i with
  | nil => cases hi
  | cons v ws ih =>
    rw [List.flatMap_cons] at h
    obtain ⟨hv, hws⟩ := holds_append.mp h
    cases i with
    | zero =>
      rw [List.getElem?_cons_zero, Option.some.injEq] at hi
      rw [Nat.mul_zero, Nat.add_zero, wordAt_of_holds hv, hi]
    | succ i =>
      rw [List.getElem?_cons_succ] at hi
      have hword := ih hws hi
      have hnext : a + 4 + 4 * i = a + 4 * (i + 1) := by omega
      rwa [length_bytes32, hnext] at hword

/-! ## What the format cannot say -/

theorem parseProps_value_lt {ps : List (Property (List Byte))}
    (h : parseProps b n pos = some (ps, pos')) : ∀ p ∈ ps, p.value.length < 2 ^ 32 := by
  induction n generalizing pos ps with
  | zero => cases h
  | succ n ih =>
    obtain ⟨tok, -, h⟩ := Option.bind_eq_some_iff.mp h
    split at h
    · obtain ⟨len, -, h⟩ := Option.bind_eq_some_iff.mp h
      obtain ⟨off, -, h⟩ := Option.bind_eq_some_iff.mp h
      obtain ⟨value, hvalue, h⟩ := Option.bind_eq_some_iff.mp h
      obtain ⟨name, -, h⟩ := Option.bind_eq_some_iff.mp h
      obtain ⟨⟨rest, pos''⟩, hrest, h⟩ := Option.bind_eq_some_iff.mp h
      cases h
      rw [List.forall_mem_cons]
      refine ⟨?_, ih hrest⟩
      unfold Blob.bytes at hvalue
      split at hvalue
      · obtain rfl := Option.some.inj hvalue
        rw [length_load]
        exact len.isLt
      · cases hvalue
    · split at h
      · exact ih h
      · cases h
        exact fun p (hp : p ∈ []) => absurd hp List.not_mem_nil

/-- No value that is read is longer than its length field can say. -/
theorem parseNodes_value_lt {t : Nodes (List Byte)}
    (h : parseNodes b n pos = some (t, pos')) : ∀ p ∈ t.properties, p.value.length < 2 ^ 32 := by
  induction n generalizing pos t pos' with
  | zero => cases h
  | succ n ih =>
    obtain ⟨tok, -, h⟩ := Option.bind_eq_some_iff.mp h
    split at h
    · obtain ⟨name, -, h⟩ := Option.bind_eq_some_iff.mp h
      obtain ⟨⟨props, pos1⟩, hprops, h⟩ := Option.bind_eq_some_iff.mp h
      obtain ⟨⟨sub, pos2⟩, hsub, h⟩ := Option.bind_eq_some_iff.mp h
      obtain ⟨tok', -, h⟩ := Option.bind_eq_some_iff.mp h
      split at h
      · obtain ⟨⟨next, pos3⟩, hnext, h⟩ := Option.bind_eq_some_iff.mp h
        cases h
        simp only [Nodes.properties, List.forall_mem_append]
        exact ⟨parseProps_value_lt hprops, ih hsub, ih hnext⟩
      · cases h
    · split at h
      · exact ih h
      · cases h
        exact fun p (hp : p ∈ []) => absurd hp List.not_mem_nil

/-- **No parsed value has `2 ^ 32` bytes**: its length is a word. -/
theorem parse_value_lt {t : DeviceTree (List Byte)} (h : parse b = some t) :
    ∀ p ∈ t.properties, p.value.length < 2 ^ 32 := by
  obtain ⟨⟨nodes, pos⟩, hnodes, h⟩ := Option.bind_eq_some_iff.mp h
  obtain ⟨tok, -, h⟩ := Option.bind_eq_some_iff.mp h
  split at h
  · split at h
    · obtain rfl := Option.some.inj h
      exact parseNodes_value_lt hnodes
    · cases h
  · cases h

end Fdt

end HypervisorBase
