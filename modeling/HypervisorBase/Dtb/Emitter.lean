import HypervisorBase.Common.Fdt.RoundTrip
import HypervisorBase.Dtb.Model
/-!
# What the emitters write

`Emits` says what a call does to a context, by the bytes it is to put into
the structure block and the characters it is to put into the string table:
both positions move past them whether there is room or not, they are stored
where there is room, and no other byte of the structure block is touched.
Calls one after the other emit one after the other, so the calls of a tree
emit its flattened form (`emits_nodes`).
-/

namespace HypervisorBase

namespace Dtb

open Cells Fdt

variable {c c' c'' : FdtCtx} {bs bs' ns ns' : List U8}

/-- **What a call emits**: bytes of the structure block and characters of
the string table. -/
structure Emits (bs ns : List U8) (c c' : FdtCtx) : Prop where
  cap : c'.cap = c.cap
  strtabCap : c'.strtabCap = c.strtabCap
  pos : c'.pos = c.pos + BitVec.ofNat 64 bs.length
  strPos : c'.strPos = c.strPos + BitVec.ofNat 64 ns.length
  buf : c.pos.toNat + bs.length ≤ c.cap.toNat → c'.buf = store c.buf c.pos.toNat bs
  strtab : c.strPos.toNat + ns.length ≤ c.strtabCap.toNat →
    c'.strtab = store c.strtab c.strPos.toNat ns
  frame : c.pos.toNat + bs.length < 2 ^ 64 →
    ∀ i, i < c.pos.toNat ∨ c.pos.toNat + bs.length ≤ i → c'.buf i = c.buf i

theorem toNat_add_ofNat {x : U64} {n : ℕ} (h : x.toNat + n < 2 ^ 64) :
    (x + BitVec.ofNat 64 n).toNat = x.toNat + n := by
  rw [BitVec.toNat_add, BitVec.toNat_ofNat]
  omega

theorem Emits.refl (c : FdtCtx) : Emits [] [] c c where
  cap := rfl
  strtabCap := rfl
  pos := (BitVec.add_zero _).symm
  strPos := (BitVec.add_zero _).symm
  buf := fun _ => (store_nil ..).symm
  strtab := fun _ => (store_nil ..).symm
  frame := fun _ _ _ => rfl

/-- **Calls one after the other** emit one after the other. -/
theorem Emits.trans (a : Emits bs ns c c') (b : Emits bs' ns' c' c'') :
    Emits (bs ++ bs') (ns ++ ns') c c'' where
  cap := b.cap.trans a.cap
  strtabCap := b.strtabCap.trans a.strtabCap
  pos := by rw [b.pos, a.pos, List.length_append, BitVec.ofNat_add, BitVec.add_assoc]
  strPos := by rw [b.strPos, a.strPos, List.length_append, BitVec.ofNat_add, BitVec.add_assoc]
  buf := by
    intro hroom
    rw [List.length_append] at hroom
    have hcap := c.cap.isLt
    have hpos : c'.pos.toNat = c.pos.toNat + bs.length := by
      rw [a.pos, toNat_add_ofNat (by omega)]
    rw [b.buf (by rw [hpos, a.cap]; omega), hpos, a.buf (by omega), store_store]
  strtab := by
    intro hroom
    rw [List.length_append] at hroom
    have hcap := c.strtabCap.isLt
    have hpos : c'.strPos.toNat = c.strPos.toNat + ns.length := by
      rw [a.strPos, toNat_add_ofNat (by omega)]
    rw [b.strtab (by rw [hpos, a.strtabCap]; omega), hpos, a.strtab (by omega), store_store]
  frame := by
    intro hsmall i hi
    rw [List.length_append] at hsmall hi
    have hpos : c'.pos.toNat = c.pos.toNat + bs.length := by
      rw [a.pos, toNat_add_ofNat (by omega)]
    rw [b.frame (by omega) i (by omega), a.frame (by omega) i (by omega)]

/-- Positions stay multiples of four. -/
theorem Emits.aligned (a : Emits bs ns c c') (hpos : c.pos.toNat % 4 = 0)
    (hlen : bs.length % 4 = 0) : c'.pos.toNat % 4 = 0 := by
  rw [a.pos, BitVec.toNat_add, BitVec.toNat_ofNat]
  omega

/-! ## Words, characters and padding -/

/-- **A write into the buffer**, if it is made wherever there is room. -/
theorem emits_write {buf' : ℕ → U8} (hroom : c.pos.toNat + bs.length ≤ c.cap.toNat →
      buf' = store c.buf c.pos.toNat bs)
    (helse : c.pos.toNat + bs.length < 2 ^ 64 →
      buf' = store c.buf c.pos.toNat bs ∨ buf' = c.buf) :
    Emits bs [] c { c with buf := buf', pos := c.pos + BitVec.ofNat 64 bs.length } where
  cap := rfl
  strtabCap := rfl
  pos := rfl
  strPos := (BitVec.add_zero _).symm
  buf := hroom
  strtab := fun _ => (store_nil ..).symm
  frame := by
    intro hsmall i hi
    dsimp only
    rcases helse hsmall with hstore | hsame
    · rw [hstore, store_of_outside hi]
    · rw [hsame]

/-- A word goes to the structure block, most significant byte first. -/
theorem emits_emit32 (c : FdtCtx) (v : U32) : Emits (bytes32 v) [] c (emit32 c v) := by
  refine emits_write (fun hroom => if_pos ?_) fun _ => ite_eq_or_eq ..
  have hcap := c.cap.isLt
  rw [length_bytes32] at hroom
  rw [BitVec.le_def, BitVec.toNat_add, show (4 : U64).toNat = 4 from rfl]
  omega

theorem sizeOfStr_eq (s : List U8) : sizeOfStr s = BitVec.ofNat 64 (s ++ [0]).length := by
  rw [List.length_append, BitVec.ofNat_add]
  rfl

/-- A name goes to the string table, with its end. -/
theorem emits_strtabAdd (c : FdtCtx) (s : List U8) : Emits [] (s ++ [0]) c (strtabAdd c s).2 where
  cap := rfl
  strtabCap := rfl
  pos := (BitVec.add_zero _).symm
  strPos := by rw [← sizeOfStr_eq]; rfl
  buf := fun _ => (store_nil ..).symm
  strtab := by
    intro hroom
    have hcap := c.strtabCap.isLt
    have hlen : (s ++ [0]).length = s.length + 1 := List.length_append
    have hfits : c.strPos + sizeOfStr s ≤ c.strtabCap := by
      rw [BitVec.le_def, sizeOfStr_eq, toNat_add_ofNat (by omega)]
      exact hroom
    rw [strtabAdd]
    exact if_pos hfits
  frame := fun _ _ _ => rfl

theorem emits_padOne (c : FdtCtx) : Emits [0] [] c (padOne c) :=
  emits_write (fun hroom => if_pos (BitVec.lt_def.mpr hroom)) fun _ => ite_eq_or_eq ..

theorem and_three_eq_zero_iff (x : U64) : x &&& 3 = 0 ↔ x.toNat % 4 = 0 := by
  have hmask : (x &&& 3).toNat = x.toNat % 4 := Word.toNat_and_lowMask x (k := 2) (by decide)
  rw [← BitVec.toNat_inj, hmask]
  rfl

/-- How far it is to the next multiple of four. -/
def gap (x : U64) : ℕ := align4 x.toNat - x.toNat

/-- The loop, by induction on the steps it may still take. -/
theorem emits_padLoop (n : ℕ) (c : FdtCtx) (hn : gap c.pos ≤ n) :
    Emits (List.replicate (gap c.pos) 0) [] c (padLoop n c) := by
  induction n generalizing c with
  | zero =>
    rw [Nat.le_zero.mp hn]
    exact Emits.refl c
  | succ n ih =>
    rw [padLoop]
    by_cases hdone : c.pos &&& 3 = 0
    · have hzero : gap c.pos = 0 := by
        rw [and_three_eq_zero_iff] at hdone
        unfold gap align4
        omega
      rw [if_pos hdone, hzero]
      exact Emits.refl c
    · -- At the largest position the next one is zero, which is a multiple of four too.
      have hnext : gap c.pos = gap (padOne c).pos + 1 := by
        have hlt := c.pos.isLt
        rw [and_three_eq_zero_iff] at hdone
        have hone : (padOne c).pos.toNat = (c.pos.toNat + 1) % 2 ^ 64 := BitVec.toNat_add ..
        unfold gap align4
        rw [hone]
        omega
      rw [if_neg hdone, hnext, List.replicate_succ]
      exact (emits_padOne c).trans (ih (padOne c) (by omega))

/-- The loop has ended after three steps. -/
theorem emits_pad (c : FdtCtx) : Emits (List.replicate (gap c.pos) 0) [] c (pad c) := by
  refine emits_padLoop 3 c ?_
  unfold gap align4
  omega

/-- **A copy** of `xs`, padded. -/
theorem emits_copyPadded {val xs : List U8} {len : U64} (hpos : c.pos.toNat % 4 = 0)
    (hlen : len = BitVec.ofNat 64 xs.length)
    (htake : xs.length < 2 ^ 64 → val.take len.toNat = xs) :
    Emits (padded xs) [] c (copyPadded c val len) := by
  obtain ⟨g, hg⟩ : ∃ g : FdtCtx, g = { c with
    buf := if c.pos + len ≤ c.cap then store c.buf c.pos.toNat (val.take len.toNat) else c.buf
    pos := c.pos + len } := ⟨_, rfl⟩
  have hcopy : Emits xs [] c g := by
    rw [hg, hlen]
    rw [hlen] at htake
    refine emits_write (fun hroom => ?_) fun hsmall => ?_
    · have hcap := c.cap.isLt
      have hfits : c.pos + BitVec.ofNat 64 xs.length ≤ c.cap := by
        rw [BitVec.le_def, toNat_add_ofNat (by omega)]
        exact hroom
      rw [if_pos hfits, htake (by omega)]
    · rw [htake (by omega)]
      exact ite_eq_or_eq ..
  have hgap : gap g.pos = align4 xs.length - xs.length := by
    have hg' : g.pos.toNat = (c.pos.toNat + xs.length % 2 ^ 64) % 2 ^ 64 := by
      rw [hcopy.pos, BitVec.toNat_add, BitVec.toNat_ofNat]
    unfold gap align4
    rw [hg']
    omega
  have hboth := hcopy.trans (emits_pad g)
  rw [hgap] at hboth
  rw [copyPadded, ← hg]
  exact hboth

/-- A string with its zero, padded. -/
theorem emits_string (s : List U8) (hpos : c.pos.toNat % 4 = 0) :
    Emits (padded (s ++ [0])) [] c (copyPadded c (s ++ [0]) (sizeOfStr s)) := by
  refine emits_copyPadded hpos (sizeOfStr_eq s) fun hlt => ?_
  rw [sizeOfStr_eq, BitVec.toNat_ofNat, Nat.mod_eq_of_lt hlt, List.take_length]

/-! ## Properties -/

/-- The bytes of a value. -/
def Value.bytes : Value → List U8
  | .str val => val ++ [0]
  | .stringlist val totalLen => val.take totalLen.toNat
  | .u32 val => bytes32 val
  | .cells2 hi lo => bytes64 hi ++ bytes64 lo
  | .empty => []
  | .cells _ vals => vals.flatMap bytes32

/-- The length a call is told is that of its value. -/
def Value.Fits : Value → Prop
  | .stringlist val totalLen => totalLen.toNat ≤ val.length
  | .cells len vals => len = BitVec.ofNat 32 (vals.flatMap bytes32).length
  | _ => True

variable {name : List U8} {off : ℕ}

theorem setWidth_ofNat (n : ℕ) : (BitVec.ofNat 64 n).setWidth 32 = BitVec.ofNat 32 n := by
  apply BitVec.eq_of_toNat_eq
  rw [BitVec.toNat_setWidth, BitVec.toNat_ofNat, BitVec.toNat_ofNat]
  omega

/-- How a property starts. -/
theorem emits_propHead (name : List U8) (len : U32) (hoff : c.strPos = BitVec.ofNat 64 off) :
    Emits (bytes32 tokProp ++ (bytes32 len ++ bytes32 (BitVec.ofNat 32 off))) (name ++ [0]) c
      (propHead c name len) := by
  have hword : c.strPos.setWidth 32 = BitVec.ofNat 32 off := by rw [hoff, setWidth_ofNat]
  obtain ⟨g, hg⟩ : ∃ g, g = emit32 (emit32 c fdtProp) len := ⟨_, rfl⟩
  have htokens : Emits (bytes32 tokProp ++ bytes32 len) [] c g := by
    rw [hg]
    exact (emits_emit32 c fdtProp).trans (emits_emit32 _ len)
  have hname := emits_strtabAdd g name
  have hstr : (strtabAdd g name).1 = BitVec.ofNat 32 off := by
    rw [hg]
    exact hword
  have hall := (htokens.trans hname).trans (emits_emit32 _ (strtabAdd g name).1)
  rw [hstr, List.append_nil, List.append_assoc, List.nil_append, List.append_nil] at hall
  rw [propHead, ← hg]
  dsimp only
  rw [hstr]
  exact hall

/-- The value after the head. -/
theorem emits_flattenProp {bytes : List U8} {len : U32} (hoff : c.strPos = BitVec.ofNat 64 off)
    (hlen : len = BitVec.ofNat 32 bytes.length)
    (hvalue : Emits (padded bytes) [] (propHead c name len) c') :
    Emits (flattenProp off ⟨name, bytes⟩) (name ++ [0]) c c' := by
  have hall := (emits_propHead name len hoff).trans hvalue
  rw [List.append_nil, List.append_assoc, List.append_assoc, hlen] at hall
  exact hall

theorem padded_of_mod {bytes : List U8} (h : bytes.length % 4 = 0) : padded bytes = bytes := by
  have hzero : align4 bytes.length - bytes.length = 0 := by
    unfold align4
    omega
  rw [padded, hzero]
  exact List.append_nil bytes

theorem length_flatMap_bytes32 (cells : List U32) :
    (cells.flatMap bytes32).length = 4 * cells.length := by
  induction cells with
  | nil => rfl
  | cons v cells ih =>
    rw [List.flatMap_cons, List.length_append, length_bytes32, ih, List.length_cons]
    omega

theorem emits_cells (cells : List U32) (c : FdtCtx) :
    Emits (cells.flatMap bytes32) [] c (cells.foldl emit32 c) := by
  induction cells generalizing c with
  | nil => exact Emits.refl c
  | cons v cells ih => exact (emits_emit32 c v).trans (ih (emit32 c v))

/-- A store of 64 bits, which is not checked. -/
theorem emits_be64 (c : FdtCtx) (v : U64) : Emits (bytes64 v) [] c
    { c with buf := be64 c.buf c.pos.toNat v, pos := c.pos + 8 } := by
  have hstore : be64 c.buf c.pos.toNat v = store c.buf c.pos.toNat (bytes64 v) :=
    store_store c.buf c.pos.toNat (bytes32 ((v >>> 32).setWidth 32)) (bytes32 (v.setWidth 32))
  exact emits_write (fun _ => hstore) fun _ => .inl hstore

/-- **A property** emits its flattened form and its name, whichever
function emits it. -/
theorem emits_emitProp {v : Value} (hfits : v.Fits) (hpos : c.pos.toNat % 4 = 0)
    (hoff : c.strPos = BitVec.ofNat 64 off) :
    Emits (flattenProp off ⟨name, v.bytes⟩) (name ++ [0]) c (emitProp c name v) := by
  have haligned : ∀ len, (propHead c name len).pos.toNat % 4 = 0 := fun len =>
    (emits_propHead name len hoff).aligned hpos (by simp only [List.length_append, length_bytes32])
  cases v with
  | str val =>
    refine emits_flattenProp hoff ?_ (emits_string val (haligned _))
    rw [sizeOfStr_eq, setWidth_ofNat]
    rfl
  | stringlist val totalLen =>
    -- The value is what the caller counts of the array, with or without the last zero.
    have hlength : (val.take totalLen.toNat).length = totalLen.toNat :=
      List.length_take_of_le hfits
    refine emits_flattenProp hoff ?_ (emits_copyPadded (haligned _) ?_ fun _ => rfl)
    · rw [Value.bytes, hlength, ← setWidth_ofNat, BitVec.ofNat_toNat, BitVec.setWidth_eq]
    · rw [Value.bytes, hlength, BitVec.ofNat_toNat, BitVec.setWidth_eq]
  | u32 val =>
    refine emits_flattenProp hoff rfl ?_
    rw [Value.bytes, padded_of_mod (by rw [length_bytes32])]
    exact emits_emit32 _ val
  | cells2 hi lo =>
    refine emits_flattenProp hoff rfl ?_
    rw [Value.bytes, padded_of_mod (by rw [List.length_append, length_bytes64, length_bytes64])]
    exact (emits_be64 _ hi).trans (emits_be64 _ lo)
  | empty => exact emits_flattenProp hoff rfl (Emits.refl _)
  | cells len vals =>
    refine emits_flattenProp hoff hfits ?_
    rw [Value.bytes, padded_of_mod (by rw [length_flatMap_bytes32]; omega)]
    exact emits_cells vals _

/-! ## Trees -/

/-- The calls that emit nodes: properties before subnodes. -/
def calls : Nodes Value → List Call
  | .nil => []
  | .node name props sub next =>
    .beginNode name :: (props.map (fun p => .prop p.name p.value) ++ (calls sub ++
      (.endNode :: calls next)))

theorem emits_beginNode (name : List U8) (hpos : c.pos.toNat % 4 = 0) :
    Emits (bytes32 tokBegin ++ padded (name ++ [0])) [] c (beginNode c name) := by
  have htok := emits_emit32 c fdtBeginNode
  exact htok.trans (emits_string name (htok.aligned hpos rfl))

/-- The position in the string table after a call. -/
theorem Emits.strPos_eq (a : Emits bs ns c c') (hoff : c.strPos = BitVec.ofNat 64 off) :
    c'.strPos = BitVec.ofNat 64 (off + ns.length) := by
  rw [a.strPos, hoff, BitVec.ofNat_add]

/-- **The properties of a node**, by induction on them. -/
theorem emits_props (props : List (Property Value)) (hfits : ∀ p ∈ props, p.value.Fits)
    (hpos : c.pos.toNat % 4 = 0) (hoff : c.strPos = BitVec.ofNat 64 off) :
    Emits (flattenProps off (props.map (Property.map Value.bytes))) (entries props) c
      ((props.map fun p => Call.prop p.name p.value).foldl FdtCtx.call c) := by
  induction props generalizing c off with
  | nil => exact Emits.refl c
  | cons p ps ih =>
    have hfirst : Emits (flattenProp off ⟨p.name, p.value.bytes⟩) (p.name ++ [0]) c
      (emitProp c p.name p.value) := emits_emitProp (hfits p List.mem_cons_self) hpos hoff
    have haligned := hfirst.aligned hpos (length_flattenProp_mod ..)
    exact hfirst.trans (ih (fun q hq => hfits q (List.mem_cons_of_mem p hq)) haligned
      (hfirst.strPos_eq hoff))

/-- **The calls of nodes** emit their flattened form and the names of their
properties, by induction on the nodes. -/
theorem emits_nodes (t : Nodes Value) (hfits : ∀ p ∈ t.properties, p.value.Fits)
    (hpos : c.pos.toNat % 4 = 0) (hoff : c.strPos = BitVec.ofNat 64 off) :
    Emits ((t.map Value.bytes).flatten off) t.strings c ((calls t).foldl FdtCtx.call c) := by
  induction t generalizing c off with
  | nil => exact Emits.refl c
  | node name props sub next ihsub ihnext =>
    simp only [Nodes.properties, List.forall_mem_append] at hfits
    obtain ⟨hprops, hsub, hnext⟩ := hfits
    -- The four parts of a node; each starts where the one before it has ended.
    have hbegin := emits_beginNode name hpos
    have hpos1 := hbegin.aligned hpos (by
      have halign := align4_mod (name.length + [(0 : U8)].length)
      rw [List.length_append, length_bytes32, length_padded, List.length_append]
      omega)
    have hprops' := emits_props props hprops hpos1 (hbegin.strPos_eq hoff)
    have hpos2 := hprops'.aligned hpos1 (length_flattenProps_mod ..)
    have hsub' := ihsub hsub hpos2 (hprops'.strPos_eq (hbegin.strPos_eq hoff))
    have hpos3 := hsub'.aligned hpos2 (length_flatten_mod ..)
    have hend := emits_emit32 ((calls sub).foldl FdtCtx.call ((props.map fun p =>
      Call.prop p.name p.value).foldl FdtCtx.call (beginNode c name))) fdtEndNode
    have hpos4 := hend.aligned hpos3 rfl
    have hoff3 := hsub'.strPos_eq (hprops'.strPos_eq (hbegin.strPos_eq hoff))
    have hnext' := ihnext hnext hpos4 (hend.strPos_eq hoff3)
    have hall := hbegin.trans (hprops'.trans (hsub'.trans (hend.trans hnext')))
    simp only [List.length_nil, Nat.add_zero, List.nil_append, List.append_assoc] at hall
    rw [Nodes.map, Nodes.flatten, Nodes.strings, entries_map, Nodes.strings_map, calls,
      List.foldl_cons, List.foldl_append, List.foldl_append, List.foldl_cons,
      ← Nat.add_assoc off]
    exact hall

end Dtb

end HypervisorBase
