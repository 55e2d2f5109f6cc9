import HypervisorBase.Dtb.Linux
/-!
# A buffer that is too small for the blob

`dtb_build_linux` leaves 1024 bytes of the buffer for the strings and emits
into what is before them, as far as it goes, but it never says that it did
not go far enough: it returns `E_OK` and 1764 for every buffer. What it
returns is right for a buffer of 2332 bytes and more, and wrong for every
smaller one (`dtb_reports_iff`): below 1764 the blob does not fit, and up to
2332 `FDT_END` is not written.
-/

namespace HypervisorBase

namespace Dtb

open Cells Fdt

/-- **A result that can be relied on**: `E_OK` comes with a size within the
buffer, those bytes are the ones an ample buffer gets, and nothing beyond
the buffer has changed. -/
def Reports (mem : ℕ → U8) (bufSz : U64) (r ample : Err × Option U64 × (ℕ → U8)) : Prop :=
  r.1 = .ok → ∃ out, r.2.1 = some out ∧ ample.2.1 = some out ∧ out.toNat ≤ bufSz.toNat ∧
    (∀ i < out.toNat, r.2.2 i = ample.2.2 i) ∧ ∀ i, bufSz.toNat ≤ i → r.2.2 i = mem i

/-! ## The last steps, byte by byte -/

section Finish

variable {mem mem' : ℕ → U8} {strings : List U8} {i : ℕ}

theorem finish_congr (h : mem i = mem' i) : finish mem strings i = finish mem' strings i :=
  store_congr (store_congr (store_congr (store_congr h)))

/-- From 64 on only the strings are written. -/
theorem finish_of_outside (hi : 64 ≤ i) (hout : i < 1308 ∨ 1308 + strings.length ≤ i) :
    finish mem strings i = mem i := by
  have hheader : 0 + (headerWords.flatMap bytes32).length ≤ i := Nat.le_trans (by decide) hi
  have hlow : 48 + (bytes64 0).length ≤ i := Nat.le_trans (by decide) hi
  have hhigh : 56 + (bytes64 0).length ≤ i := hi
  rw [finish, store_of_outside (.inr hhigh), store_of_outside (.inr hlow),
    store_of_outside (.inr hheader), store_of_outside hout]

/-- The second byte of the header. -/
theorem finish_one : finish mem strings 1 = 0x0D := holds_header mem strings 1 0x0D rfl

end Finish

section Arguments

variable (uartBase : U64) (uartIrq : U32) (initrdStartIpa initrdEndIpa : U64)
variable (mem : ℕ → U8) {bufSz : U64}

/-! ## The last byte of the structure block -/

/-- The last byte of `FDT_END`. -/
theorem getElem?_linuxBlob :
    (linuxBlob uartBase uartIrq initrdStartIpa initrdEndIpa).flatten[1243]? = some 9 := by
  have hlength := length_linuxNodes uartBase uartIrq initrdStartIpa initrdEndIpa
  rw [DeviceTree.flatten, List.getElem?_append_right (by rw [hlength]; decide), hlength]
  rfl

/-- With room for the structure block it is there. -/
theorem end_of_room : finish (store mem 64
      (linuxBlob uartBase uartIrq initrdStartIpa initrdEndIpa).flatten)
      (linuxBlob uartBase uartIrq initrdStartIpa initrdEndIpa).strings 1307 = 9 :=
  holds_structure mem (length_linuxBlob ..) 1243 9 (getElem?_linuxBlob ..)

/-- **Without room for it**, it is what it was: the token is skipped, and the
calls before it do not go that far. -/
theorem linuxEnd_of_small (hbuf : 1088 ≤ bufSz.toNat) (hsmall : bufSz.toNat < 2332) :
    (linuxEnd uartBase uartIrq initrdStartIpa initrdEndIpa mem bufSz).buf 1243 = mem 1307 := by
  have hemits := emits_linuxCalls uartBase uartIrq initrdStartIpa initrdEndIpa mem bufSz
  have hlength := length_linuxNodes uartBase uartIrq initrdStartIpa initrdEndIpa
  have hstart : (linuxCtx mem bufSz).pos = 0 := rfl
  have hold : (linuxCtx mem bufSz).buf 1243 = mem 1307 := rfl
  have hend : ((0 : U64) + BitVec.ofNat 64 1240 + 4).toNat = 1244 := by decide
  have hskip : ¬ (0 : U64) + BitVec.ofNat 64 1240 + 4 ≤ (linuxCtx mem bufSz).cap := by
    rw [BitVec.le_def, hend, toNat_cap mem hbuf]
    omega
  have hframe := hemits.frame
  rw [hlength, hstart, show (0 : U64).toNat = 0 from rfl] at hframe
  rw [linuxEnd, emit32, hemits.cap, hemits.pos, hlength, hstart]
  dsimp only
  rw [if_neg hskip, hframe (by omega) 1243 (.inr (by omega)), hold]

/-! ## The two sides of the bound -/

/-- With room, the bytes are those of every other buffer with room, and
nothing is written beyond the string table. -/
theorem reports_of_room (ramBase ramSize : U64) (mem' : ℕ → U8) {big : U64}
    (hbig : 2332 ≤ big.toNat) (hroom : 2332 ≤ bufSz.toNat) :
    Reports mem bufSz
      (dtbBuildLinux mem bufSz ramBase ramSize uartBase uartIrq initrdStartIpa initrdEndIpa)
      (dtbBuildLinux mem' big ramBase ramSize uartBase uartIrq initrdStartIpa initrdEndIpa) := by
  have hlength := length_linuxBlob uartBase uartIrq initrdStartIpa initrdEndIpa
  have hstrings := length_linuxStrings uartBase uartIrq initrdStartIpa initrdEndIpa
  have htotal : (1764 : U64).toNat = 1764 := rfl
  rw [dtbBuildLinux_of_room uartBase uartIrq initrdStartIpa initrdEndIpa mem ramBase ramSize hroom,
    dtbBuildLinux_of_room uartBase uartIrq initrdStartIpa initrdEndIpa mem' ramBase ramSize hbig]
  refine fun _ => ⟨1764, rfl, rfl, ?_, fun i hi => ?_, fun i hi => ?_⟩
  · omega
  · -- What the emitters do not write, the last two bytes, has been cleared.
    refine finish_congr (store_congr ?_)
    rw [cleared, cleared, if_pos (by omega), if_pos (by omega)]
  · dsimp only
    rw [finish_of_outside (by omega) (.inr (by omega)), store_of_outside (.inr (by omega)),
      cleared, if_neg (by omega)]

/-- Without room, either the blob does not fit or the last token is not in
it. -/
theorem not_reports_of_small (ramBase ramSize : U64) (mem' : ℕ → U8) {big : U64}
    (hbig : 2332 ≤ big.toNat) (hbuf : bufSz ≠ 0) (hsmall : bufSz.toNat < 2332) :
    ¬ Reports mem bufSz
      (dtbBuildLinux mem bufSz ramBase ramSize uartBase uartIrq initrdStartIpa initrdEndIpa)
      (dtbBuildLinux mem' big ramBase ramSize uartBase uartIrq initrdStartIpa initrdEndIpa) := by
  intro hreports
  rw [dtbBuildLinux_eq _ _ _ _ mem ramBase ramSize hbuf,
    dtbBuildLinux_of_room uartBase uartIrq initrdStartIpa initrdEndIpa mem' ramBase ramSize hbig]
    at hreports
  obtain ⟨out, hout, -, hle, hbytes, -⟩ := hreports rfl
  obtain rfl : 1764 = out := Option.some_inj.mp hout
  have htotal : (1764 : U64).toNat = 1764 := rfl
  rw [htotal] at hle hbytes
  -- The blob fits, so the buffer goes beyond `FDT_END`, which was not emitted.
  have hend := hbytes 1307 (by decide)
  dsimp only at hend
  rw [end_of_room, finish_of_outside (by decide) (.inl (by decide)), if_neg (by decide)] at hend
  have hold := linuxEnd_of_small uartBase uartIrq initrdStartIpa initrdEndIpa (cleared mem bufSz)
    (by omega) hsmall
  rw [cleared, if_pos (by omega)] at hold
  exact absurd (hold.symm.trans hend) (by decide)

/-- **What is returned is right** if the buffer has room for the structure
block and 1024 characters, and otherwise it is not. -/
theorem dtb_reports_iff (ramBase ramSize : U64) (mem' : ℕ → U8) {big : U64}
    (hbig : 2332 ≤ big.toNat) :
    Reports mem bufSz
        (dtbBuildLinux mem bufSz ramBase ramSize uartBase uartIrq initrdStartIpa initrdEndIpa)
        (dtbBuildLinux mem' big ramBase ramSize uartBase uartIrq initrdStartIpa initrdEndIpa) ↔
      bufSz = 0 ∨ 2332 ≤ bufSz.toNat := by
  constructor
  · intro hreports
    by_contra hnot
    obtain ⟨hbuf, hsmall⟩ := not_or.mp hnot
    exact not_reports_of_small _ _ _ _ mem ramBase ramSize mem' hbig hbuf
      (Nat.lt_of_not_le hsmall) hreports
  · rintro (rfl | hroom)
    · -- No buffer is `E_INVAL`.
      exact fun hok => nomatch hok
    · exact reports_of_room _ _ _ _ mem ramBase ramSize mem' hbig hroom

end Arguments

/-- At boot the buffer has room. -/
theorem dtb_reports_at_boot : 2332 ≤ (0x10000 : U64).toNat ∧
    Reports (fun _ => 0xFF) 0x10000
      (dtbBuildLinux (fun _ => 0xFF) 0x10000 0x41000000 0x08000000 0x09000000 33 0x06000000
        0x06200000)
      (dtbBuildLinux (fun _ => 0) 0x100000 0x41000000 0x08000000 0x09000000 33 0x06000000
        0x06200000) :=
  ⟨by decide, (dtb_reports_iff _ _ _ _ _ _ _ _ (by decide)).mpr (.inr (by decide))⟩

/-- **A buffer of one byte** gets `E_OK`, a size of 1764 and the header
beyond its end, and one of 2000 bytes gets a structure block without an
end. -/
theorem small_buffer_ok :
    (let r := dtbBuildLinux (fun _ => 0xFF) 1 0x41000000 0x08000000 0x09000000 33 0x06000000
       0x06200000
     r.1 = .ok ∧ r.2.1 = some 1764 ∧ r.2.2 1 = 0x0D) ∧
    (let r := dtbBuildLinux (fun _ => 0xFF) 2000 0x41000000 0x08000000 0x09000000 33 0x06000000
       0x06200000
     r.1 = .ok ∧ r.2.1 = some 1764 ∧ r.2.2 1307 = 0) ∧
    (dtbBuildLinux (fun _ => 0xFF) 0x10000 0x41000000 0x08000000 0x09000000 33 0x06000000
      0x06200000).2.2 1307 = 9 := by
  refine ⟨?_, ?_, ?_⟩
  · rw [dtbBuildLinux_eq _ _ _ _ _ _ _ (by decide)]
    refine ⟨rfl, rfl, ?_⟩
    dsimp only
    exact finish_one
  · rw [dtbBuildLinux_eq _ _ _ _ _ _ _ (by decide)]
    refine ⟨rfl, rfl, ?_⟩
    dsimp only
    rw [finish_of_outside (by decide) (.inl (by decide)), if_neg (by decide)]
    exact linuxEnd_of_small _ _ _ _ _ (by decide) (by decide)
  · rw [dtbBuildLinux_of_room _ _ _ _ _ _ _ (by decide)]
    dsimp only
    exact end_of_room _ _ _ _ _

end Dtb

end HypervisorBase
