import HypervisorBase.Dtb.Emitter
/-!
# The blob of `dtb_build_linux`

The calls of `dtb_build_linux` are those of a tree (`linuxTree`), whatever
its arguments, and their sizes do not depend on them: the structure block
has 1244 bytes and the string table 454. So what it leaves in memory is
known for every buffer: `dtbBuildLinux_eq`, and in a buffer with room for
the structure block and 1024 characters the whole blob is there
(`dtbBuildLinux_of_room`), which is read back as that tree.
-/

namespace HypervisorBase

namespace Dtb

open Cells Fdt

/-! ## The tree -/

/-- The nodes below the root. -/
def linuxNodes (uartBase : U64) (uartIrq : U32) (initrdStartIpa initrdEndIpa : U64) : Nodes Value :=
  .node (text "aliases") aliasesProps .nil <|
  .node (text "chosen") (chosenProps initrdStartIpa initrdEndIpa) .nil <|
  .node (text "memory@0") memoryLowProps .nil <|
  .node (text "memory@10000000") memoryHighProps .nil <|
  .node (text "intc@8000000") intcProps .nil <|
  .node (text "apb-clk") apbClkProps .nil <|
  .node (text "pl011@9000000") (pl011Props uartBase uartIrq) .nil <|
  .node (text "timer") timerProps .nil <|
  .node (text "psci") psciProps .nil <|
  .node (text "cpus") cpusProps (.node (text "cpu@0") cpu0Props .nil .nil) .nil

/-- **The tree that `dtb_build_linux` emits.** -/
def linuxTree (uartBase : U64) (uartIrq : U32) (initrdStartIpa initrdEndIpa : U64) :
    DeviceTree Value where
  name := text ""
  props := rootProps
  sub := linuxNodes uartBase uartIrq initrdStartIpa initrdEndIpa

section Arguments

variable (uartBase : U64) (uartIrq : U32) (initrdStartIpa initrdEndIpa : U64)

theorem calls_linuxTree : calls (linuxTree uartBase uartIrq initrdStartIpa initrdEndIpa).nodes =
    linuxCalls uartBase uartIrq initrdStartIpa initrdEndIpa := rfl

/-- The lengths of its values, which the arguments do not change. -/
def linuxShape : Nodes ℕ := (linuxTree 0 0 0 0).nodes.map (List.length ∘ Value.bytes)

theorem linuxTree_shape : (linuxTree uartBase uartIrq initrdStartIpa initrdEndIpa).nodes.map
    (List.length ∘ Value.bytes) = linuxShape := rfl

-- With variables for the arguments nothing below would evaluate, so the shape is that of fixed ones.
theorem linuxShape_size : linuxShape.size = 1240 := by decide +kernel

theorem linuxShape_strings : linuxShape.strings.length = 454 := by decide +kernel

theorem linuxShape_names : linuxShape.names.all noNul = true := by decide +kernel

theorem linuxShape_props :
    (linuxShape.properties.all fun p => noNul p.name && Nat.blt p.value (2 ^ 32)) = true := by
  decide +kernel

/-- Its bytes. -/
def linuxBlob : DeviceTree (List U8) :=
  (linuxTree uartBase uartIrq initrdStartIpa initrdEndIpa).map Value.bytes

/-- **Its structure block has 1240 bytes before `FDT_END`.** -/
theorem length_linuxNodes :
    ((linuxBlob uartBase uartIrq initrdStartIpa initrdEndIpa).nodes.flatten 0).length = 1240 := by
  rw [length_flatten_nodes, linuxBlob, DeviceTree.nodes_map, Nodes.map_map, linuxTree_shape,
    linuxShape_size]

theorem length_linuxStrings :
    (linuxBlob uartBase uartIrq initrdStartIpa initrdEndIpa).strings.length = 454 := by
  have hshape := linuxTree_shape uartBase uartIrq initrdStartIpa initrdEndIpa
  have hstrings := Nodes.strings_map (List.length ∘ Value.bytes)
    (linuxTree uartBase uartIrq initrdStartIpa initrdEndIpa).nodes
  rw [linuxBlob, DeviceTree.strings_map, DeviceTree.strings, ← hstrings, hshape, linuxShape_strings]

/-- The tree for Linux is well formed. -/
theorem ok_linuxBlob : (linuxBlob uartBase uartIrq initrdStartIpa initrdEndIpa).nodes.Ok := by
  have hshape := linuxTree_shape uartBase uartIrq initrdStartIpa initrdEndIpa
  rw [linuxBlob, DeviceTree.nodes_map]
  constructor
  · rw [Nodes.names_map, ← Nodes.names_map (List.length ∘ Value.bytes), hshape]
    exact fun s hs => noNul_iff.mp (List.all_eq_true.mp linuxShape_names s hs)
  · rw [Nodes.properties_map, List.forall_mem_map]
    intro p hp
    have hmem : p.map (List.length ∘ Value.bytes) ∈ linuxShape.properties := by
      rw [← hshape, Nodes.properties_map]
      exact List.mem_map_of_mem hp
    have hboth := List.all_eq_true.mp linuxShape_props _ hmem
    rw [Bool.and_eq_true, noNul_iff, Nat.blt_eq] at hboth
    exact ⟨hboth.1, hboth.2⟩

/-- Every call is told the right length, if not all of the string list. -/
theorem fits_linuxTree : ∀ p ∈
    (linuxTree uartBase uartIrq initrdStartIpa initrdEndIpa).nodes.properties, p.value.Fits := by
  simp only [linuxTree, linuxNodes, DeviceTree.nodes, Nodes.properties, rootProps, aliasesProps,
    chosenProps, memoryLowProps, memoryHighProps, intcProps, apbClkProps, pl011Props, timerProps,
    psciProps, cpusProps, cpu0Props, List.forall_mem_append, List.forall_mem_cons,
    List.not_mem_nil, Value.Fits, true_and, and_true, IsEmpty.forall_iff, implies_true]
  exact ⟨rfl, ⟨by decide, rfl, rfl, by decide⟩, rfl⟩

/-! ## What is emitted -/

variable (mem : ℕ → U8) (bufSz : U64)

/-- The context after the last call. -/
def linuxEnd : FdtCtx :=
  emit32 ((linuxCalls uartBase uartIrq initrdStartIpa initrdEndIpa).foldl FdtCtx.call
    (linuxCtx mem bufSz)) fdtEnd

/-- **The calls of the builder** emit the flattened tree. -/
theorem emits_linuxCalls :
    Emits ((linuxBlob uartBase uartIrq initrdStartIpa initrdEndIpa).nodes.flatten 0)
      (linuxBlob uartBase uartIrq initrdStartIpa initrdEndIpa).strings (linuxCtx mem bufSz)
      ((linuxCalls uartBase uartIrq initrdStartIpa initrdEndIpa).foldl FdtCtx.call
        (linuxCtx mem bufSz)) := by
  have hstart : (linuxCtx mem bufSz).strPos = BitVec.ofNat 64 0 := rfl
  have hnodes := emits_nodes (linuxTree uartBase uartIrq initrdStartIpa initrdEndIpa).nodes
    (fits_linuxTree _ _ _ _) (c := linuxCtx mem bufSz) rfl hstart
  rw [calls_linuxTree] at hnodes
  rw [linuxBlob, DeviceTree.strings_map, DeviceTree.nodes_map]
  exact hnodes

theorem emits_linuxEnd : Emits (linuxBlob uartBase uartIrq initrdStartIpa initrdEndIpa).flatten
    (linuxBlob uartBase uartIrq initrdStartIpa initrdEndIpa).strings (linuxCtx mem bufSz)
    (linuxEnd uartBase uartIrq initrdStartIpa initrdEndIpa mem bufSz) := by
  have hall := (emits_linuxCalls uartBase uartIrq initrdStartIpa initrdEndIpa mem bufSz).trans
    (emits_emit32 _ fdtEnd)
  rw [List.append_nil] at hall
  exact hall

theorem length_linuxBlob :
    (linuxBlob uartBase uartIrq initrdStartIpa initrdEndIpa).flatten.length = 1244 := by
  rw [length_flatten, length_linuxNodes]

/-- **Both positions after the last call**, whatever the buffer. -/
theorem linuxEnd_pos :
    (linuxEnd uartBase uartIrq initrdStartIpa initrdEndIpa mem bufSz).pos = 1244 ∧
      (linuxEnd uartBase uartIrq initrdStartIpa initrdEndIpa mem bufSz).strPos = 454 := by
  have hemits := emits_linuxEnd uartBase uartIrq initrdStartIpa initrdEndIpa mem bufSz
  refine ⟨?_, ?_⟩
  · rw [hemits.pos, length_linuxBlob]
    rfl
  · rw [hemits.strPos, length_linuxStrings]
    rfl

/-- The string table always has room. -/
theorem linuxEnd_strtab :
    load (linuxEnd uartBase uartIrq initrdStartIpa initrdEndIpa mem bufSz).strtab 0 454 =
      (linuxBlob uartBase uartIrq initrdStartIpa initrdEndIpa).strings := by
  have hemits := emits_linuxEnd uartBase uartIrq initrdStartIpa initrdEndIpa mem bufSz
  have hlength := length_linuxStrings uartBase uartIrq initrdStartIpa initrdEndIpa
  have hroom : (linuxCtx mem bufSz).strPos.toNat + 454 ≤ (linuxCtx mem bufSz).strtabCap.toNat := by
    change 0 + 454 ≤ 1024
    decide
  rw [hemits.strtab (by rw [hlength]; exact hroom), ← hlength]
  exact load_of_holds (holds_store _ _ _)

/-! ## What is left in memory -/

/-- The words of the header. -/
def headerWords : List U32 := [0xD00DFEED, 1764, 64, 1308, 48, 17, 16, 0, 454, 1244]

theorem putHeader_eq (mem : ℕ → U8) :
    putHeader mem 1764 1244 454 = store mem 0 (headerWords.flatMap bytes32) := by
  simp only [headerWords, List.flatMap_cons, List.flatMap_nil, ← store_store, length_bytes32,
    store_nil]
  rfl

/-- The last steps: the strings, the header, and the reservation block. -/
def finish (mem : ℕ → U8) (strings : List U8) : ℕ → U8 :=
  store (store (store (store mem 1308 strings) 0 (headerWords.flatMap bytes32)) 48 (bytes64 0)) 56
    (bytes64 0)

/-- `memset` of the buffer. -/
def cleared : ℕ → U8 := fun i => if i < bufSz.toNat then 0 else mem i

theorem putBlob_eq {c : FdtCtx} {strings : List U8} (mem : ℕ → U8) (hpos : c.pos = 1244)
    (hstrPos : c.strPos = 454) (hstrings : load c.strtab 0 454 = strings) :
    putBlob mem c = (1764, finish (fun i => if i < 64 then mem i else c.buf (i - 64)) strings) := by
  have hzero : ∀ (m : ℕ → U8) p, be64 m p 0 = store m p (bytes64 0) := fun m p =>
    store_store m p (bytes32 0) (bytes32 0)
  unfold putBlob
  rw [hpos, hstrPos]
  dsimp only
  rw [hzero, hzero, finish, ← putHeader_eq, ← hstrings]
  rfl

variable {bufSz}

/-- **The result for every buffer**: always `E_OK`, and always the same
size. -/
theorem dtbBuildLinux_eq (ramBase ramSize : U64) (hbuf : bufSz ≠ 0) :
    dtbBuildLinux mem bufSz ramBase ramSize uartBase uartIrq initrdStartIpa initrdEndIpa =
      (.ok, some 1764, finish (fun i => if i < 64 then cleared mem bufSz i else
        (linuxEnd uartBase uartIrq initrdStartIpa initrdEndIpa (cleared mem bufSz) bufSz).buf
          (i - 64))
        (linuxBlob uartBase uartIrq initrdStartIpa initrdEndIpa).strings) := by
  obtain ⟨hpos, hstrPos⟩ :=
    linuxEnd_pos uartBase uartIrq initrdStartIpa initrdEndIpa (cleared mem bufSz) bufSz
  have hput := putBlob_eq (cleared mem bufSz) hpos hstrPos (linuxEnd_strtab ..)
  unfold dtbBuildLinux
  -- No later step of the function can fail.
  rw [if_neg hbuf]
  exact congrArg (fun r => (Err.ok, some r.1, r.2)) hput

theorem toNat_cap (h : 1088 ≤ bufSz.toNat) :
    (linuxCtx mem bufSz).cap.toNat = bufSz.toNat - 1088 := by
  change (bufSz - 48 - 16 - 1024).toNat = _
  bv_omega

theorem store_linuxCtx (xs : List U8) :
    store (linuxCtx mem bufSz).buf (linuxCtx mem bufSz).pos.toNat xs =
      store (fun i => mem (64 + i)) 0 xs := rfl

/-- **In a buffer with room** for the structure block and 1024 characters
all of it is there. -/
theorem dtbBuildLinux_of_room (ramBase ramSize : U64) (hroom : 2332 ≤ bufSz.toNat) :
    dtbBuildLinux mem bufSz ramBase ramSize uartBase uartIrq initrdStartIpa initrdEndIpa =
      (.ok, some 1764, finish (store (cleared mem bufSz) 64
        (linuxBlob uartBase uartIrq initrdStartIpa initrdEndIpa).flatten)
        (linuxBlob uartBase uartIrq initrdStartIpa initrdEndIpa).strings) := by
  have hbuf : bufSz ≠ 0 := by
    rintro rfl
    exact absurd hroom (by decide)
  have hemits := emits_linuxEnd uartBase uartIrq initrdStartIpa initrdEndIpa (cleared mem bufSz)
    bufSz
  have hcap := toNat_cap (cleared mem bufSz) (show 1088 ≤ bufSz.toNat by omega)
  have hstore := hemits.buf (by
    rw [length_linuxBlob, hcap]
    change 0 + 1244 ≤ _
    omega)
  rw [dtbBuildLinux_eq _ _ _ _ mem ramBase ramSize hbuf, hstore, store_linuxCtx, store_shift]

/-! ## Reading it back -/

theorem holds_header (strings : List U8) :
    Holds (finish mem strings) 0 (headerWords.flatMap bytes32) := by
  have hstored : Holds (store (store mem 1308 strings) 0 (headerWords.flatMap bytes32)) 0
    (headerWords.flatMap bytes32) := holds_store _ _ _
  exact (hstored.store (.inr (by decide))).store (.inr (by decide))

theorem headerWord_finish {i : ℕ} {w : U32} (strings : List U8) (hi : headerWords[i]? = some w) :
    headerWord (finish mem strings) i = w.toNat := by
  have hword := wordAt_words (holds_header mem strings) hi
  rw [Nat.zero_add] at hword
  rw [headerWord, hword]

/-- What lies from 64 on is not written by the last three steps. -/
theorem holds_finish {strings xs : List U8} {a : ℕ} (ha : 64 ≤ a)
    (h : Holds (store mem 1308 strings) a xs) : Holds (finish mem strings) a xs := by
  refine ((h.store (.inl ?_)).store (.inl ?_)).store (.inl ?_)
  · exact Nat.le_trans (by decide) ha
  · exact Nat.le_trans (by decide) ha
  · exact Nat.le_trans (by decide) ha

/-- The structure block stays as it is. -/
theorem holds_structure {strings xs : List U8} (hlength : xs.length = 1244) :
    Holds (finish (store mem 64 xs) strings) 64 xs := by
  refine holds_finish _ (Nat.le_refl 64) ((holds_store _ _ _).store (.inr ?_))
  rw [hlength]

/-- **The blob is read back** as the tree. -/
theorem read_linuxBlob : Fdt.read (finish (store mem 64
      (linuxBlob uartBase uartIrq initrdStartIpa initrdEndIpa).flatten)
      (linuxBlob uartBase uartIrq initrdStartIpa initrdEndIpa).strings) 1764 =
    some (linuxBlob uartBase uartIrq initrdStartIpa initrdEndIpa) := by
  have hok := ok_linuxBlob uartBase uartIrq initrdStartIpa initrdEndIpa
  have hlength := length_linuxBlob uartBase uartIrq initrdStartIpa initrdEndIpa
  have hstrLength := length_linuxStrings uartBase uartIrq initrdStartIpa initrdEndIpa
  generalize linuxBlob uartBase uartIrq initrdStartIpa initrdEndIpa = t at hok hlength hstrLength
  have hword := fun {i : ℕ} {w : U32} (hi : headerWords[i]? = some w) =>
    headerWord_finish (store mem 64 t.flatten) t.strings hi
  have h1 := hword (i := 1) rfl
  have h2 := hword (i := 2) rfl
  have h3 := hword (i := 3) rfl
  have h8 := hword (i := 8) rfl
  have h9 := hword (i := 9) rfl
  refine read_flatten t hok (hword (i := 0) rfl) (hword (i := 5) rfl) ?_ ?_ ?_ ?_ ?_ ?_ ?_ ?_ ?_
  · rw [hword (i := 6) rfl]
    decide
  · rw [h1]
    decide
  · rw [h2]
    decide
  · rw [h1, h2, h9]
    decide
  · rw [h1, h3, h8]
    decide
  · rw [h2]
    exact holds_structure mem hlength
  · rw [h9, hlength]
    rfl
  · rw [h3]
    exact holds_finish _ (by decide) (holds_store _ _ _)
  · rw [h8, hstrLength]
    rfl

end Arguments

end Dtb

end HypervisorBase
