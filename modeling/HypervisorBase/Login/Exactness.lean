import HypervisorBase.Common.Retry
import HypervisorBase.Login.Codes
/-!
# How exact the login is

The characters of the console fall into lines, and the lines into pairs of
a password and a code. `typed` is what an operator has typed after
editing; `kept` is what a buffer keeps of it, since `uart_getline` drops
characters that do not fit but lets a backspace remove one that did.

`login_authenticate` is a bounded loop over the pairs that judges what its
buffers keep (`login_eq_retry`), and of the code line only the first six
characters. So it is exact as long as no line that it reads was cut or was
longer than a code (`login_exact_of_unspoilt`).
-/

namespace HypervisorBase

namespace Login

open Crypto (HmacCtx Sha256Ctx)

/-! ## Lines -/

def IsEnd (c : U8) : Prop := c = 0x0d ∨ c = 0x0a

instance (c : U8) : Decidable (IsEnd c) := inferInstanceAs (Decidable (_ ∨ _))

def IsErase (c : U8) : Prop := c = 0x7f ∨ c = 0x08

instance (c : U8) : Decidable (IsErase c) := inferInstanceAs (Decidable (_ ∨ _))

/-- The keystrokes of the first line, and the characters behind it. -/
def splitLine : List U8 → Option (List U8 × List U8)
  | [] => none
  | c :: cs => if IsEnd c then some ([], cs) else (splitLine cs).map fun r => (c :: r.1, r.2)

/-- One keystroke of an editor without a bound. -/
def edit (l : List U8) (c : U8) : List U8 := if IsErase c then l.dropLast else l ++ [c]

/-- **The line as typed**, after backspace editing. -/
def typed (keys : List U8) : List U8 := keys.foldl edit []

/-- One keystroke of an editor that drops what exceeds `cap`. -/
def keep (cap : ℕ) (l : List U8) (c : U8) : List U8 :=
  if IsErase c then l.dropLast else if l.length < cap then l ++ [c] else l

/-- **The line as a buffer keeps it.** -/
def kept (cap : ℕ) (keys : List U8) : List U8 := keys.foldl (keep cap) []

/-- A buffer that starts with a line. -/
structure Begins (len : ℕ) (buf line : List U8) : Prop where
  size : buf.length = len
  fits : line.length ≤ len - 1
  take : buf.take line.length = line

variable {buf line : List U8} {len : ℕ}

theorem Begins.set (h : Begins len buf line) (c : U8)
    (hroom : line.length < len - 1) : Begins len (buf.set line.length c) (line ++ [c]) := by
  have hsize := h.size
  have hlt : line.length < (buf.set line.length c).length := by
    rw [List.length_set]
    omega
  refine ⟨by rw [List.length_set, hsize], by simp; omega, ?_⟩
  rw [List.length_append, List.length_singleton, ← List.take_concat_get hlt,
    List.getElem_set_self, List.take_set_of_le (Nat.le_refl _), h.take, List.concat_eq_append]

theorem Begins.dropLast (h : Begins len buf line) :
    Begins len buf line.dropLast := by
  have hfits := h.fits
  refine ⟨h.size, by rw [List.length_dropLast]; omega, ?_⟩
  have htake := congrArg (List.take (line.length - 1)) h.take
  rw [List.take_take, Nat.min_eq_left (Nat.sub_le _ _)] at htake
  rw [List.length_dropLast, List.dropLast_eq_take, htake]

/-- A line in its buffer, with the terminator. -/
structure Stored (len : ℕ) (buf line : List U8) : Prop extends Begins len buf line where
  terminated : buf.getD line.length 0 = 0

theorem Begins.stored (h : Begins len buf line) (hlen : 0 < len) :
    Stored len (buf.set line.length 0) line := by
  have hsize := h.size
  have hfits := h.fits
  refine ⟨⟨by rw [List.length_set, hsize], hfits, ?_⟩, ?_⟩
  · rw [List.take_set_of_le (Nat.le_refl _), h.take]
  · rw [List.getD_eq_getElem _ _ (by rw [List.length_set]; omega), List.getElem_set_self]

/-- **The loop of `uart_getline` is the bounded editor**, by induction on
the characters: the buffer starts with the line so far. -/
theorem getlineLoop_eq (hlen : 0 < len) (chars : List U8)
    (h : Begins len buf line) :
    (splitLine chars = none → getlineLoop len buf line.length chars = none) ∧
      ∀ keys rest, splitLine chars = some (keys, rest) →
        ∃ buf', getlineLoop len buf line.length chars =
            some ((buf', (keys.foldl (keep (len - 1)) line).length), rest) ∧
          Stored len buf' (keys.foldl (keep (len - 1)) line) := by
  induction chars generalizing buf line with
  | nil =>
    refine ⟨fun _ => rfl, ?_⟩
    intro keys rest hsplit
    cases hsplit
  | cons c cs ih =>
    by_cases hend : IsEnd c
    · rw [splitLine, if_pos hend, getlineLoop, if_pos (show c = 0x0d ∨ c = 0x0a from hend)]
      refine ⟨fun hnone => (by cases hnone), ?_⟩
      intro keys rest hsplit
      cases hsplit
      exact ⟨_, rfl, h.stored hlen⟩
    · -- one keystroke, then the rest of the line
      obtain ⟨buf₁, hstep, hbegins⟩ : ∃ buf₁, getlineLoop len buf line.length (c :: cs) =
          getlineLoop len buf₁ (keep (len - 1) line c).length cs ∧
          Begins len buf₁ (keep (len - 1) line c) := by
        rw [getlineLoop, if_neg (show ¬(c = 0x0d ∨ c = 0x0a) from hend)]
        by_cases herase : IsErase c
        · refine ⟨buf, ?_, ?_⟩
          · rw [if_pos (show c = 0x7f ∨ c = 0x08 from herase), keep, if_pos herase,
              List.length_dropLast]
            split
            · rfl
            · rename_i hzero
              rw [show line.length - 1 = line.length by omega]
          · rw [keep, if_pos herase]
            exact h.dropLast
        · rw [if_neg (show ¬(c = 0x7f ∨ c = 0x08) from herase), keep, if_neg herase]
          by_cases hroom : line.length < len - 1
          · rw [if_pos hroom, if_pos hroom]
            exact ⟨_, by rw [List.length_append]; rfl, h.set c hroom⟩
          · rw [if_neg hroom, if_neg hroom]
            exact ⟨buf, rfl, h⟩
      obtain ⟨hnone, hsome⟩ := ih hbegins
      rw [splitLine, if_neg hend, hstep]
      refine ⟨?_, ?_⟩
      · intro hsplit
        exact hnone (Option.map_eq_none_iff.mp hsplit)
      · intro keys rest hsplit
        obtain ⟨r, hr, heq⟩ := Option.map_eq_some_iff.mp hsplit
        cases heq
        exact hsome r.1 r.2 hr

theorem begins_nil (h : buf.length = len) : Begins len buf [] :=
  ⟨h, Nat.zero_le _, rfl⟩

theorem uartGetline_none (hlen : 0 < len) {chars : List U8} (hbuf : buf.length = len)
    (h : splitLine chars = none) : uartGetline buf len chars = none := by
  rw [uartGetline, if_neg (by omega)]
  exact (getlineLoop_eq hlen chars (begins_nil hbuf)).1 h

/-- **Reading a line** stores what the edits leave, as far as it fits. -/
theorem uartGetline_some (hlen : 0 < len) {chars keys rest : List U8}
    (hbuf : buf.length = len) (h : splitLine chars = some (keys, rest)) :
    ∃ buf', uartGetline buf len chars = some ((buf', (kept (len - 1) keys).length), rest) ∧
      Stored len buf' (kept (len - 1) keys) := by
  rw [uartGetline, if_neg (by omega)]
  exact (getlineLoop_eq hlen chars (begins_nil hbuf)).2 keys rest h

/-! ## Pairs -/

/-- The keystrokes of a password line and of a code line. -/
abbrev Pair := List U8 × List U8

def readPair (chars : List U8) : Option (Pair × List U8) :=
  (splitLine chars).bind fun pw => (splitLine pw.2).map fun otp => ((pw.1, otp.1), otp.2)

theorem length_splitLine {chars keys rest : List U8} (h : splitLine chars = some (keys, rest)) :
    rest.length < chars.length := by
  induction chars generalizing keys with
  | nil => cases h
  | cons c cs ih =>
    rw [splitLine] at h
    split at h
    · cases h
      rw [List.length_cons]
      omega
    · obtain ⟨r, hr, heq⟩ := Option.map_eq_some_iff.mp h
      cases heq
      have hlt := ih hr
      rw [List.length_cons]
      omega

theorem length_readPair (chars : List U8) (p : Pair) (rest : List U8)
    (h : readPair chars = some (p, rest)) : rest.length < chars.length := by
  obtain ⟨pw, hpw, hmap⟩ := Option.bind_eq_some_iff.mp h
  obtain ⟨otp, hotp, heq⟩ := Option.map_eq_some_iff.mp hmap
  cases heq
  have h₁ := length_splitLine hpw
  have h₂ := length_splitLine hotp
  omega

section Device

variable [P : Provisioned]

/-- **What the code accepts at a time**: its buffers keep the password,
and characters that begin with a good code. -/
def Passes (now : ℕ) (p : Pair) : Prop :=
  IsPassword (kept (loginPwMax - 1) p.1) ∧ InWindow now ((kept (codeSize - 1) p.2).take 6)

/-- **What an exact login accepts at a time**: the password and a good
code, as typed. -/
def Exact (now : ℕ) (p : Pair) : Prop := IsPassword (typed p.1) ∧ InWindow now (typed p.2)

/-- `totp_verify` of a line in its buffer. A line that is too short has
its terminator among the first six bytes, and no code has one there. -/
theorem totpVerify_stored (ctx : HmacCtx) (tmp : Sha256Ctx) {s : TotpState}
    (hs : s.initialized = true) (cntpct : U64) (h : Stored codeSize buf line) :
    totpVerify ctx tmp s cntpct buf = .ok ↔
      InWindow (rtcUnixNow s cntpct).toNat (line.take 6) := by
  have hsize : buf.length = 16 := h.size
  rw [totpVerify_iff ctx tmp hs cntpct (by omega)]
  by_cases hlong : 6 ≤ line.length
  · have htake : buf.take 6 = line.take 6 := by
      rw [← h.take, List.take_take, Nat.min_eq_left hlong]
    rw [htake]
  · constructor
    · -- the terminator would be a digit
      rintro ⟨step, _, hcode⟩
      have hget : (buf.take 6).getD line.length 0 = 0 := by
        have hterm := h.terminated
        rw [List.getD_eq_getElem _ _ (by omega)] at hterm
        rw [List.getD_eq_getElem _ _ (by rw [List.length_take]; omega), List.getElem_take, hterm]
      have hlt : line.length < (hotpCode hotpSecret step).length := by
        rw [length_hotpCode]
        omega
      rw [hcode, List.getD_eq_getElem _ _ hlt] at hget
      have hdigit := hotpCode_digit (List.getElem_mem hlt)
      rw [hget] at hdigit
      exact absurd hdigit.1 (by decide)
    · intro hwin
      have hlen := hwin.length
      rw [List.length_take] at hlen
      omega

/-! ## The loop -/

/-- The time of an attempt. -/
def nowAt (s : TotpState) (clock : ℕ → U64) (k : ℕ) : ℕ := (rtcUnixNow s (clock k)).toNat

/-- What the loop returns, from whether a pair passed. -/
def verdict (r : Bool × List U8) : Err × List U8 := (if r.1 then .ok else .denied, r.2)

open scoped Classical in
/-- **The loop of `login_authenticate` is a bounded loop over the pairs**
that accepts those its buffers let pass. What the buffers held before does
not matter. -/
theorem loginLoop_eq_retry (stack : Stack) {s : TotpState} (hs : s.initialized = true)
    (clock : ℕ → U64) (n k : ℕ) {pw code : List U8} (hpw : pw.length = loginPwMax)
    (hcode : code.length = codeSize) (chars : List U8) :
    loginLoop stack s clock n k pw code chars =
      (Retry.retry readPair (fun k p => Passes (nowAt s clock k) p) n k chars).map verdict := by
  induction n generalizing k pw code chars with
  | zero => rfl
  | succ n ih =>
    rw [loginLoop, Retry.retry, readPair]
    cases hline : splitLine chars with
    | none =>
      rw [uartGetline_none (by decide) hpw hline]
      rfl
    | some line =>
      obtain ⟨buf, hread, hstored⟩ := uartGetline_some (by decide) hpw hline
      cases hline₂ : splitLine line.2 with
      | none =>
        rw [hread, Option.bind_some, hline₂]
        dsimp only [bind, Option.bind]
        rw [uartGetline_none (by decide) hcode hline₂]
        rfl
      | some line₂ =>
        obtain ⟨buf₂, hread₂, hstored₂⟩ := uartGetline_some (by decide) hcode hline₂
        rw [hread, Option.bind_some, hline₂]
        dsimp only [bind, Option.bind]
        rw [hread₂]
        dsimp only [Option.map_some]
        have hiff : (checkPassword stack.ctx stack.tmp buf
              (kept (loginPwMax - 1) line.1).length = true ∧
            totpVerify stack.ctx stack.tmp s (clock k) buf₂ = .ok) ↔
            Passes (nowAt s clock k) (line.1, line₂.1) := by
          rw [checkPassword_iff, hstored.take,
            totpVerify_stored stack.ctx stack.tmp hs (clock k) hstored₂]
          rfl
        by_cases hpass : Passes (nowAt s clock k) (line.1, line₂.1)
        · rw [if_pos (hiff.mpr hpass), if_pos hpass]
          rfl
        · rw [if_neg fun h => hpass (hiff.mp h), if_neg hpass]
          exact ih (k + 1) List.length_replicate List.length_replicate line₂.2

/-! ## Exactness -/

/-- **An exact login**: it grants access if and only if one of the first
`LOGIN_MAX_TRIES` pairs is exact as typed, the pair it grants access on is
such a one, and it reads no more pairs than that. -/
structure LoginExact (stack : Stack) (s : TotpState) (clock : ℕ → U64) (chars : List U8) : Prop where
  granted_iff : (∃ rest, loginAuthenticate stack s clock chars = some (.ok, rest)) ↔
    ∃ k < loginMaxTries, ∃ p, Retry.entry readPair k chars = some p ∧ Exact (nowAt s clock k) p
  granted_at : ∀ rest, loginAuthenticate stack s clock chars = some (.ok, rest) →
    ∃ k < loginMaxTries, Retry.after readPair (k + 1) chars = some rest ∧
      ∃ p, Retry.entry readPair k chars = some p ∧ Exact (nowAt s clock k) p
  consumed : ∀ e rest, loginAuthenticate stack s clock chars = some (e, rest) →
    ∃ k ≤ loginMaxTries, Retry.after readPair k chars = some rest

omit P in
/-- **A pair whose lines are not what is judged**: a buffer did not keep
one of them, or the second is longer than a code. -/
def Overrun (p : Pair) : Prop :=
  kept (loginPwMax - 1) p.1 ≠ typed p.1 ∨ kept (codeSize - 1) p.2 ≠ typed p.2 ∨
    6 < (typed p.2).length

variable {now : ℕ} {p : Pair}

/-- Without an overrun the two judgements are the same. -/
theorem passes_iff_exact (h : ¬Overrun p) : Passes now p ↔ Exact now p := by
  simp only [Overrun, not_or, not_not, Nat.not_lt] at h
  obtain ⟨hpw, hotp, hlen⟩ := h
  rw [Passes, Exact, hpw, hotp, List.take_of_length_le hlen]

/-- A pair that an exact login reads: none of those before it is exact. -/
def IsRead (s : TotpState) (clock : ℕ → U64) (chars : List U8) (k : ℕ) (p : Pair) : Prop :=
  Retry.entry readPair k chars = some p ∧
    ∀ j < k, ∀ q, Retry.entry readPair j chars = some q → ¬Exact (nowAt s clock j) q

/-- **A console without overruns**: no pair that an exact login reads is
overrun. -/
def Unspoilt (s : TotpState) (clock : ℕ → U64) (chars : List U8) : Prop :=
  ∀ k < loginMaxTries, ∀ p, IsRead s clock chars k p → ¬Overrun p

/-- **The password and too long a code**: both lines fit their buffers, and
the second goes on behind a good code. -/
structure LongCode (now : ℕ) (p : Pair) : Prop where
  password : IsPassword (typed p.1)
  pw_fits : kept (loginPwMax - 1) p.1 = typed p.1
  code_fits : kept (codeSize - 1) p.2 = typed p.2
  long : 6 < (typed p.2).length
  code : InWindow now ((typed p.2).take 6)

theorem LongCode.passes (h : LongCode now p) : Passes now p := by
  rw [Passes, h.pw_fits, h.code_fits]
  exact ⟨h.password, h.code⟩

theorem LongCode.not_exact (h : LongCode now p) : ¬Exact now p := by
  intro hexact
  have hsix := hexact.2.length
  have hlong := h.long
  omega

variable (stack : Stack) {s : TotpState} (hs : s.initialized = true) (clock : ℕ → U64)
  {chars rest : List U8}

include hs

/-- Where access is granted: at the first pair that passes. -/
theorem login_granted_iff :
    loginAuthenticate stack s clock chars = some (.ok, rest) ↔
      ∃ k < loginMaxTries, Retry.after readPair (k + 1) chars = some rest ∧
        Retry.FirstPass readPair (fun k p => Passes (nowAt s clock k) p) 0 k chars := by
  classical
  rw [loginAuthenticate, loginLoop_eq_retry stack hs clock _ _ stack.pw_length stack.code_length,
    ← Retry.retry_eq_true_iff, Option.map_eq_some_iff]
  constructor
  · rintro ⟨⟨b, r⟩, hretry, hverdict⟩
    cases b with
    | true =>
      cases hverdict
      exact hretry
    | false => cases hverdict
  · intro hretry
    exact ⟨_, hretry, rfl⟩

/-- A login reads at most three pairs. -/
theorem login_consumed {e : Err} (h : loginAuthenticate stack s clock chars = some (e, rest)) :
    ∃ k ≤ loginMaxTries, Retry.after readPair k chars = some rest := by
  classical
  rw [loginAuthenticate, loginLoop_eq_retry stack hs clock _ _ stack.pw_length stack.code_length,
    Option.map_eq_some_iff] at h
  obtain ⟨⟨b, r⟩, hretry, hverdict⟩ := h
  cases hverdict
  exact Retry.exists_after_of_retry hretry

/-- Without overruns, access is granted on an exact pair: the first pair
that passes is one an exact login reads. -/
theorem Unspoilt.granted_at (h : Unspoilt s clock chars)
    (hok : loginAuthenticate stack s clock chars = some (.ok, rest)) :
    ∃ k < loginMaxTries, Retry.after readPair (k + 1) chars = some rest ∧
      ∃ p, Retry.entry readPair k chars = some p ∧ Exact (nowAt s clock k) p := by
  obtain ⟨k, hk, hafter, ⟨p, hp, hpass⟩, hfirst⟩ := (login_granted_iff stack hs clock).mp hok
  simp only [Nat.zero_add] at hpass hfirst
  refine ⟨k, hk, hafter, p, hp, ?_⟩
  -- by strong induction no pair before it is exact, so each of them is read
  have hread : ∀ j ≤ k, ∀ q, Retry.entry readPair j chars = some q → IsRead s clock chars j q := by
    intro j
    induction j using Nat.strong_induction_on with
    | _ j ih =>
      intro hj q hq
      refine ⟨hq, fun i hi r hr hexact => hfirst i (by omega) r hr ?_⟩
      exact (passes_iff_exact (h i (by omega) r (ih i hi (by omega) r hr))).mpr hexact
  exact (passes_iff_exact (h k hk p (hread k (Nat.le_refl k) p hp))).mp hpass

/-- Without overruns, an exact pair brings access: the first of them is
read, and passes. -/
theorem Unspoilt.granted (h : Unspoilt s clock chars) {k : ℕ} (hk : k < loginMaxTries)
    (hp : Retry.entry readPair k chars = some p) (hexact : Exact (nowAt s clock k) p) :
    ∃ rest, loginAuthenticate stack s clock chars = some (.ok, rest) := by
  obtain ⟨i, hi, ⟨q, hq, hqexact⟩, hfirst⟩ : ∃ i < loginMaxTries,
      Retry.FirstPass readPair (fun k p => Exact (nowAt s clock k) p) 0 i chars :=
    Retry.exists_firstPass hk hp (by rw [Nat.zero_add]; exact hexact)
  simp only [Nat.zero_add] at hqexact hfirst
  have hpass := (passes_iff_exact (h i hi q ⟨hq, hfirst⟩)).mpr hqexact
  obtain ⟨j, hj, hfirst'⟩ : ∃ j < loginMaxTries,
      Retry.FirstPass readPair (fun k p => Passes (nowAt s clock k) p) 0 j chars :=
    Retry.exists_firstPass hi hq (by rw [Nat.zero_add]; exact hpass)
  obtain ⟨a, ha, _⟩ := hfirst'.1
  obtain ⟨rest, hrest⟩ := Retry.exists_after_of_entry readPair ha
  exact ⟨rest, (login_granted_iff stack hs clock).mpr ⟨j, hj, hrest, hfirst'⟩⟩

/-- **Too long a code brings access**, if none of the pairs before it was
overrun or exact; and then the login is not exact. -/
theorem LongCode.granted {k : ℕ} (hk : k < loginMaxTries)
    (hp : IsRead s clock chars k p)
    (hbefore : ∀ j < k, ∀ q, Retry.entry readPair j chars = some q → ¬Overrun q)
    (h : LongCode (nowAt s clock k) p) :
    (∃ rest, loginAuthenticate stack s clock chars = some (.ok, rest)) ∧
      ¬LoginExact stack s clock chars := by
  obtain ⟨rest, hrest⟩ := Retry.exists_after_of_entry readPair hp.1
  have hok := (login_granted_iff stack hs clock).mpr ⟨k, hk, hrest,
    ⟨p, hp.1, by rw [Nat.zero_add]; exact h.passes⟩, fun j hj q hq hpass =>
      hp.2 j hj q hq ((passes_iff_exact (hbefore j hj q hq)).mp
        (by rw [Nat.zero_add] at hpass; exact hpass))⟩
  refine ⟨⟨rest, hok⟩, fun hlogin => ?_⟩
  obtain ⟨k', _, hafter, p', hp', hexact⟩ := hlogin.granted_at rest hok
  have hsame : k' + 1 = k + 1 := Retry.after_inj readPair length_readPair hafter hrest
  obtain rfl : k' = k := by omega
  rw [hp.1] at hp'
  cases hp'
  exact h.not_exact hexact

omit hs

/-- **Login is exact on a console without overruns**, on every device,
whatever the clock reads and the stack held. And it is not exact as soon as
the first overrun pair that it reads has the password and too long a
code. -/
theorem login_exact_of_unspoilt (cntpct cntfrq : U64) (chars : List U8) :
    (Unspoilt (totpInit cntpct cntfrq) clock chars →
      LoginExact stack (totpInit cntpct cntfrq) clock chars) ∧
    ∀ k < loginMaxTries, ∀ p, IsRead (totpInit cntpct cntfrq) clock chars k p →
      (∀ j < k, ∀ q, Retry.entry readPair j chars = some q → ¬Overrun q) →
      LongCode (nowAt (totpInit cntpct cntfrq) clock k) p →
      ¬LoginExact stack (totpInit cntpct cntfrq) clock chars := by
  have hs : (totpInit cntpct cntfrq).initialized = true := rfl
  refine ⟨fun h => ⟨⟨?_, ?_⟩, fun rest hok => h.granted_at stack hs clock hok,
    fun e rest he => login_consumed stack hs clock he⟩,
    fun k hk p hp hbefore hlong => (hlong.granted stack hs clock hk hp hbefore).2⟩
  · rintro ⟨rest, hok⟩
    obtain ⟨k, hk, _, hexact⟩ := h.granted_at stack hs clock hok
    exact ⟨k, hk, hexact⟩
  · rintro ⟨k, hk, p, hp, hexact⟩
    exact h.granted stack hs clock hk hp hexact

end Device

/-! ## A line that is too long -/

/-- A character that stands for itself. -/
def Plain (c : U8) : Prop := ¬IsEnd c ∧ ¬IsErase c

instance (c : U8) : Decidable (Plain c) := inferInstanceAs (Decidable (_ ∧ _))

variable {l : List U8}

theorem splitLine_of_plain (h : ∀ c ∈ l, Plain c) (rest : List U8) :
    splitLine (l ++ 0x0a :: rest) = some (l, rest) := by
  induction l with
  | nil => rfl
  | cons c cs ih =>
    rw [List.cons_append, splitLine, if_neg (h c (by simp)).1,
      ih fun d hd => h d (by simp [hd])]
    rfl

/-- Plain characters are kept as typed. -/
theorem foldl_edit_of_plain (h : ∀ c ∈ l, Plain c) (acc : List U8) :
    l.foldl edit acc = acc ++ l := by
  induction l generalizing acc with
  | nil => rw [List.foldl_nil, List.append_nil]
  | cons c cs ih =>
    rw [List.foldl_cons, ih fun d hd => h d (by simp [hd]), edit, if_neg (h c (by simp)).2,
      List.append_assoc, List.singleton_append]

theorem foldl_keep_of_plain {cap : ℕ} (h : ∀ c ∈ l, Plain c) (acc : List U8)
    (hcap : acc.length + l.length ≤ cap) : l.foldl (keep cap) acc = acc ++ l := by
  induction l generalizing acc with
  | nil => rw [List.foldl_nil, List.append_nil]
  | cons c cs ih =>
    rw [List.length_cons] at hcap
    have hroom : acc.length < cap := by omega
    have hkeep : keep cap acc c = acc ++ [c] := by
      rw [keep, if_neg (h c (by simp)).2, if_pos hroom]
    rw [List.foldl_cons, hkeep, ih (fun d hd => h d (by simp [hd])) _
      (by rw [List.length_append, List.length_singleton]; omega), List.append_assoc,
      List.singleton_append]

theorem typed_of_plain (h : ∀ c ∈ l, Plain c) : typed l = l :=
  (foldl_edit_of_plain h []).trans (List.nil_append l)

theorem kept_of_plain {cap : ℕ} (h : ∀ c ∈ l, Plain c) (hcap : l.length ≤ cap) :
    kept cap l = l :=
  (foldl_keep_of_plain h [] (by rw [List.length_nil]; omega)).trans (List.nil_append l)

theorem plain_of_digit {c : U8} (h : 0x30 ≤ c.toNat ∧ c.toNat ≤ 0x39) : Plain c := by
  refine ⟨?_, ?_⟩
  · rintro (rfl | rfl)
    · exact absurd h.1 (by decide)
    · exact absurd h.1 (by decide)
  · rintro (rfl | rfl)
    · exact absurd h.2 (by decide)
    · exact absurd h.1 (by decide)

/-- The development password, `changeme`. -/
def changeme : List U8 := [0x63, 0x68, 0x61, 0x6e, 0x67, 0x65, 0x6d, 0x65]

/-- A device with a given master key, provisioned for a password. -/
@[reducible] def deviceFor (key w : List U8) (hkey : key.length = vseMasterKeyLen) : Provisioned where
  masterKey := key
  pwVerifier := Fips.hmac (Fips.hmac key loginPepperLabel) w
  masterKey_length := hkey
  pwVerifier_length := Crypto.length_hmac _ _

theorem isPassword_deviceFor (key w : List U8) (hkey : key.length = vseMasterKeyLen) :
    letI := deviceFor key w hkey
    IsPassword w := rfl

/-- The one with the development key and password. -/
@[reducible] def devDevice : Provisioned := deviceFor devMasterKey changeme rfl

theorem length_blankPw : (List.replicate 64 (0 : U8)).length = loginPwMax := rfl

/-- A stack of zeros. -/
def blankStack : Stack where
  ctx := Crypto.blankCtx
  tmp := Crypto.blankCtx.inner
  pw := List.replicate 64 0
  code := List.replicate 16 0
  pw_length := length_blankPw
  code_length := rfl

/-- The code of step 58377600 with an `x` behind it. -/
def longCode : List U8 :=
  let _ := devDevice
  hotpCode hotpSecret 58377600 ++ [0x78]

/-- Five seconds after the provisioned epoch, the password and that line:
access is granted, though no line is exact. -/
theorem login_accepts_long_code :
    letI := devDevice
    (∃ rest, loginAuthenticate blankStack (totpInit 0 62500000) (fun _ => 312500000)
        (changeme ++ 0x0a :: (longCode ++ 0x0a :: [])) = some (.ok, rest)) ∧
      ¬LoginExact blankStack (totpInit 0 62500000) (fun _ => 312500000)
        (changeme ++ 0x0a :: (longCode ++ 0x0a :: [])) := by
  let _ := devDevice
  obtain ⟨chars, hchars⟩ : ∃ chars, chars = changeme ++ 0x0a :: (longCode ++ 0x0a :: []) :=
    ⟨_, rfl⟩
  obtain ⟨s, hs⟩ : ∃ s, s = totpInit 0 62500000 := ⟨_, rfl⟩
  have hcode : ∀ c ∈ longCode, Plain c := by
    intro c hc
    rcases List.mem_append.mp hc with hdigit | hx
    · exact plain_of_digit (hotpCode_digit hdigit)
    · rw [List.mem_singleton.mp hx]
      decide
  have hlen : longCode.length = 7 := by
    rw [longCode, List.length_append, length_hotpCode]
    rfl
  have hpw : ∀ c ∈ changeme, Plain c := by decide
  have hread : readPair chars = some ((changeme, longCode), []) := by
    rw [hchars, readPair, splitLine_of_plain hpw, Option.bind_some, splitLine_of_plain hcode]
    rfl
  have hnow : nowAt s (fun _ => 312500000) 0 = 1751328005 := by
    rw [hs]
    decide
  have htyped := typed_of_plain hcode
  have hlong : LongCode (nowAt s (fun _ => 312500000) 0) (changeme, longCode) := by
    refine ⟨?_, by decide, (kept_of_plain hcode (by rw [hlen]; decide)).trans htyped.symm, ?_, ?_⟩
    · have hplain : typed changeme = changeme := by decide
      rw [hplain]
      exact isPassword_deviceFor devMasterKey changeme rfl
    · rw [htyped, hlen]
      decide
    · rw [htyped, hnow]
      refine ⟨58377600, Or.inr (Or.inl (by decide)), ?_⟩
      rw [longCode, ← length_hotpCode hotpSecret 58377600, List.take_left]
  have hentry : Retry.entry readPair 0 chars = some (changeme, longCode) := by
    rw [Retry.entry_zero, hread]
    rfl
  rw [← hchars, ← hs]
  exact hlong.granted blankStack (by rw [hs]; rfl) _ (by decide)
    ⟨hentry, fun j hj => absurd hj (Nat.not_lt_zero j)⟩ fun j hj => absurd hj (Nat.not_lt_zero j)

end Login

end HypervisorBase
