import LibGda.Rfc1738
import LibGda.TerminatedBuffer
import Mathlib.Algebra.Order.Ring.Int
import Mathlib.Tactic.Cases

/-! The text which stands for binary data, and its reading. -/

namespace LibGda

open TerminatedBuffer

def backslash : UInt8 := byte '\\'

def newline : UInt8 := byte '\n'

def asciiIsPrint (b : UInt8) : Bool := 0x20 ≤ b && b ≤ 0x7e

inductive BlockFault where
  /-- an `int` leaves its range -/
  | intOverflow
  /-- a write behind the block which was allocated -/
  | beyondBlock
  deriving DecidableEq

def checkedGint (n : Nat) : Except BlockFault Nat :=
  if n < 2 ^ 31 then .ok n else .error .intOverflow

def writeBlock (size : Nat) (text : Bytes) : Except BlockFault Bytes :=
  if text.length < size then .ok text else .error .beyondBlock

/-- The bytes which `gda_binary_to_string` counts in `nb_rewrites`. -/
def isRewritten (b : UInt8) : Bool := b != newline && (b == backslash || !asciiIsPrint b)

/-- What `gda_binary_to_string` writes for a byte. -/
def writtenByte (b : UInt8) : Bytes :=
  if b = newline ∨ (b ≠ backslash ∧ asciiIsPrint b = true) then [b]
  else if b = backslash then [backslash, backslash]
  else [backslash, b / 64 + byte '0', b % 64 / 8 + byte '0', b % 64 % 8 + byte '0']

def written (data : Bytes) : Bytes := data.flatMap writtenByte

def mymin (a b : Nat) : Nat := if 0 < b then (if a < b then a else b) else a

def binaryToString (bin : Bytes) (maxlen : Nat) : Except BlockFault Bytes :=
  let data := bin.take (mymin bin.length maxlen)
  if bin = [] then .ok []
  else do
    let nbRewrites ← checkedGint (data.countP isRewritten)
    let more ← checkedGint (nbRewrites * 4)
    writeBlock (mymin bin.length maxlen + more + 1) (written data)

def isOctal (d : UInt8) : Bool := byte '0' ≤ d && d ≤ byte '7'

def octalDigit (d : UInt8) : Nat := d.toNat - (byte '0').toNat

def octalByte (d₁ d₂ d₃ : UInt8) : UInt8 :=
  UInt8.ofNat ((octalDigit d₁ * 64 + octalDigit d₂ * 8 + octalDigit d₃) % 256)

def readOctal (str : Bytes) (sptr : Nat) : Except ScanFault (Option UInt8) := do
  let d₁ ← peek 0 str (sptr + 1)
  if isOctal d₁ then do
    let d₂ ← peek 0 str (sptr + 2)
    if isOctal d₂ then do
      let d₃ ← peek 0 str (sptr + 3)
      if isOctal d₃ then pure (some (octalByte d₁ d₂ d₃)) else pure none
    else pure none
  else pure none

def stringToBinaryLoop (str : Bytes) : Nat → Nat → Bytes → Except ScanFault (Option Bytes)
  | 0, _, _ => .error .outOfFuel
  | fuel + 1, sptr, data => do
    let c ← peek 0 str sptr
    if c = 0 then pure (some data)
    else if c = backslash then do
      let d ← peek 0 str (sptr + 1)
      if d = backslash then stringToBinaryLoop str fuel (sptr + 2) (data ++ [backslash])
      else do
        match ← readOctal str sptr with
        | some b => stringToBinaryLoop str fuel (sptr + 4) (data ++ [b])
        | none => pure none
    else stringToBinaryLoop str fuel (sptr + 1) (data ++ [c])

def stringToBinary : Option CBytes → Except ScanFault (Option Bytes)
  | none => .ok (some [])
  | some str => stringToBinaryLoop str.1 (str.1.length + 1) 0 []

inductive Denotes : Bytes → Bytes → Prop
  | nil : Denotes [] []
  | plain {c : UInt8} {s data : Bytes} :
    c ≠ backslash → Denotes s data → Denotes (c :: s) (c :: data)
  | doubled {s data : Bytes} :
    Denotes s data → Denotes (backslash :: backslash :: s) (backslash :: data)
  | octal {d₁ d₂ d₃ : UInt8} {s data : Bytes} : isOctal d₁ = true → isOctal d₂ = true →
    isOctal d₃ = true → Denotes s data →
    Denotes (backslash :: d₁ :: d₂ :: d₃ :: s) (octalByte d₁ d₂ d₃ :: data)

inductive StartsEscape : Bytes → Prop
  | doubled (s : Bytes) : StartsEscape (backslash :: backslash :: s)
  | octal {d₁ d₂ d₃ : UInt8} (s : Bytes) : isOctal d₁ = true → isOctal d₂ = true →
    isOctal d₃ = true → StartsEscape (backslash :: d₁ :: d₂ :: d₃ :: s)

inductive HasBadEscape : Bytes → Prop
  | here {s : Bytes} : ¬ StartsEscape (backslash :: s) → HasBadEscape (backslash :: s)
  | plain {c : UInt8} {s : Bytes} : c ≠ backslash → HasBadEscape s → HasBadEscape (c :: s)
  | doubled {s : Bytes} : HasBadEscape s → HasBadEscape (backslash :: backslash :: s)
  | octal {d₁ d₂ d₃ : UInt8} {s : Bytes} : isOctal d₁ = true → isOctal d₂ = true →
    isOctal d₃ = true → HasBadEscape s → HasBadEscape (backslash :: d₁ :: d₂ :: d₃ :: s)

section Reading

variable {before rest s data data' : Bytes} {c d d₁ d₂ d₃ : UInt8}

theorem isOctal_ne (h : isOctal d = true) : d ≠ backslash := by
  rintro rfl
  exact absurd h (by decide)

theorem peek_behind (before rest : Bytes) (k : Nat) :
    peek 0 (before ++ rest) (before.length + k) = peek 0 rest k := by
  simp only [peek, List.length_append, Nat.add_le_add_iff_left]
  rw [List.getD_append_right _ _ _ _ (Nat.le_add_right _ _), Nat.add_sub_cancel_left]

theorem peek_succ (c : UInt8) (rest : Bytes) (k : Nat) :
    peek 0 (c :: rest) (k + 1) = peek 0 rest k := by
  simp only [peek, List.length_cons, Nat.add_le_add_iff_right, List.getD_cons_succ]

theorem readOctal_digits (before : Bytes) (c : UInt8) (rest : Bytes) (h₁ : isOctal d₁ = true)
    (h₂ : isOctal d₂ = true)
    (h₃ : isOctal d₃ = true) :
    readOctal (before ++ c :: d₁ :: d₂ :: d₃ :: rest) before.length =
      .ok (some (octalByte d₁ d₂ d₃)) := by
  simp [readOctal, peek_behind, peek_succ, h₁, h₂, h₃, bind, Except.bind, pure, Except.pure]

theorem readOctal_other (h : ∀ d₁ d₂ d₃ s, isOctal d₁ = true → isOctal d₂ = true →
    isOctal d₃ = true → rest ≠ d₁ :: d₂ :: d₃ :: s) :
    readOctal (before ++ c :: rest) before.length = .ok none := by
  have hend : isOctal 0 = false := by decide
  rw [readOctal, peek_behind, peek_succ]
  match rest with
  | [] => rfl
  | d₁ :: rest =>
    rw [peek_zero_cons, peek_behind, peek_succ, peek_succ]
    cases h₁ : isOctal d₁ with
    | false => simp [h₁, bind, Except.bind, pure, Except.pure]
    | true =>
      match rest with
      | [] => simp [h₁, hend, bind, Except.bind, pure, Except.pure]
      | d₂ :: rest =>
        rw [peek_zero_cons, peek_behind, peek_succ, peek_succ, peek_succ]
        cases h₂ : isOctal d₂ with
        | false => simp [h₁, h₂, bind, Except.bind, pure, Except.pure]
        | true =>
          match rest with
          | [] => simp [h₁, h₂, hend, bind, Except.bind, pure, Except.pure]
          | d₃ :: rest =>
            cases h₃ : isOctal d₃ with
            | false => simp [h₁, h₂, h₃, bind, Except.bind, pure, Except.pure]
            | true => exact absurd rfl (h d₁ d₂ d₃ rest h₁ h₂ h₃)

theorem stringToBinaryLoop_rest (fuel : Nat) (before rest data : Bytes) (hfuel : rest.length < fuel)
    (hnul : 0 ∉ rest) :
    (∃ more, Denotes rest more ∧ stringToBinaryLoop (before ++ rest) fuel before.length data =
      .ok (some (data ++ more))) ∨
    (HasBadEscape rest ∧
      stringToBinaryLoop (before ++ rest) fuel before.length data = .ok none) := by
  induction fuel generalizing before rest data with
  | zero => omega
  | succ fuel ih =>
    have hhead : peek 0 (before ++ rest) before.length = peek 0 rest 0 := peek_behind before rest 0
    have hnext : peek 0 (before ++ rest) (before.length + 1) = peek 0 rest 1 :=
      peek_behind before rest 1
    match rest with
    | [] =>
      refine .inl ⟨[], .nil, ?_⟩
      rw [stringToBinaryLoop, hhead, List.append_nil data]
      rfl
    | c :: rest =>
      have hc : c ≠ 0 := fun h => hnul (h ▸ List.mem_cons_self)
      have hrest : 0 ∉ rest := fun h => hnul (List.mem_cons_of_mem _ h)
      rw [peek_zero_cons] at hhead
      -- the loop goes on behind the characters of `token`
      have hgo : ∀ (token s : Bytes) (b : UInt8), c :: rest = token ++ s → 0 < token.length →
          stringToBinaryLoop (before ++ c :: rest) (fuel + 1) before.length data =
            stringToBinaryLoop (before ++ c :: rest) fuel (before.length + token.length)
              (data ++ [b]) →
          (∀ more, Denotes s more → Denotes (c :: rest) (b :: more)) →
          (HasBadEscape s → HasBadEscape (c :: rest)) →
          (∃ more, Denotes (c :: rest) more ∧
            stringToBinaryLoop (before ++ c :: rest) (fuel + 1) before.length data =
              .ok (some (data ++ more))) ∨
          (HasBadEscape (c :: rest) ∧
            stringToBinaryLoop (before ++ c :: rest) (fuel + 1) before.length data = .ok none) := by
        intro token s b hsplit hpos hstep hdenotes hbad
        have hlen := congrArg List.length hsplit
        rw [List.length_append] at hlen
        have hs : 0 ∉ s := fun h => hnul (hsplit ▸ List.mem_append_right token h)
        have := ih (before ++ token) s (data ++ [b]) (by omega) hs
        rw [List.append_assoc, ← hsplit, List.length_append, ← hstep] at this
        rcases this with ⟨more, hmore, heq⟩ | ⟨hmore, heq⟩
        · exact .inl ⟨b :: more, hdenotes more hmore, by rw [heq, List.append_assoc]; rfl⟩
        · exact .inr ⟨hbad hmore, heq⟩
      by_cases hback : c = backslash
      · subst hback
        match rest with
        | [] =>
          refine .inr ⟨.here nofun, ?_⟩
          have hother : readOctal (before ++ [backslash]) before.length = .ok none :=
            readOctal_other nofun
          rw [stringToBinaryLoop, hhead, hnext, hother]
          rfl
        | d :: rest =>
          rw [peek_one_cons] at hnext
          by_cases hd : d = backslash
          · subst hd
            refine hgo [backslash, backslash] rest backslash rfl (by decide) ?_ ?_ ?_
            · rw [stringToBinaryLoop, hhead, hnext]
              rfl
            · exact fun _ => .doubled
            · exact .doubled
          · by_cases hoctal : StartsEscape (backslash :: d :: rest)
            · cases hoctal with
              | doubled => exact absurd rfl hd
              | octal s h₁ h₂ h₃ =>
                rename_i d₂ d₃
                have hread := readOctal_digits before backslash s h₁ h₂ h₃
                refine hgo [backslash, d, d₂, d₃] s (octalByte d d₂ d₃) rfl (by simp) ?_ ?_ ?_
                · rw [stringToBinaryLoop, hhead, hnext, hread]
                  simp [bind, Except.bind, hc, hd]
                · exact fun _ => .octal h₁ h₂ h₃
                · exact .octal h₁ h₂ h₃
            · refine .inr ⟨.here hoctal, ?_⟩
              have hother : readOctal (before ++ backslash :: d :: rest) before.length =
                .ok none := by
                apply readOctal_other
                intro d₁ d₂ d₃ s h₁ h₂ h₃ heq
                apply hoctal
                rw [heq]
                exact .octal s h₁ h₂ h₃
              rw [stringToBinaryLoop, hhead, hnext, hother]
              simp [bind, Except.bind, hc, hd, pure, Except.pure]
      · refine hgo [c] rest c rfl (by simp) ?_ ?_ ?_
        · rw [stringToBinaryLoop, hhead]
          simp [bind, Except.bind, hc, hback]
        · exact fun _ => .plain hback
        · exact .plain hback

theorem Denotes.not_bad (h : Denotes s data) : ¬ HasBadEscape s := by
  induction h with
  | nil => exact nofun
  | plain hc _ ih =>
    intro hbad
    cases hbad with
    | here => exact hc rfl
    | plain _ hbad => exact ih hbad
    | doubled => exact hc rfl
    | octal => exact hc rfl
  | doubled _ ih =>
    intro hbad
    cases hbad with
    | here hnot => exact hnot (.doubled _)
    | plain hne => exact hne rfl
    | doubled hbad => exact ih hbad
    | octal h₁ => exact isOctal_ne h₁ rfl
  | octal h₁ h₂ h₃ _ ih =>
    intro hbad
    cases hbad with
    | here hnot => exact hnot (.octal _ h₁ h₂ h₃)
    | plain hne => exact hne rfl
    | doubled => exact isOctal_ne h₁ rfl
    | octal _ _ _ hbad => exact ih hbad

theorem Denotes.unique (h : Denotes s data) (h' : Denotes s data') : data = data' := by
  induction h generalizing data' with
  | nil =>
    cases h'
    rfl
  | plain hc _ ih =>
    cases h' with
    | plain _ h' => rw [ih h']
    | doubled => exact absurd rfl hc
    | octal => exact absurd rfl hc
  | doubled _ ih =>
    cases h' with
    | plain hne => exact absurd rfl hne
    | doubled h' => rw [ih h']
    | octal h₁ => exact absurd rfl (isOctal_ne h₁)
  | octal h₁ _ _ _ ih =>
    cases h' with
    | plain hne => exact absurd rfl hne
    | doubled => exact absurd rfl (isOctal_ne h₁)
    | octal _ _ _ h' => rw [ih h']

theorem stringToBinary_cases (str : CBytes) :
    (∃ data, Denotes str.1 data ∧ stringToBinary (some str) = .ok (some data)) ∨
    (HasBadEscape str.1 ∧ stringToBinary (some str) = .ok none) :=
  stringToBinaryLoop_rest (str.1.length + 1) [] str.1 [] (Nat.lt_succ_self _) str.2

theorem stringToBinary_eq_some (str : CBytes) :
    stringToBinary (some str) = .ok (some data) ↔ Denotes str.1 data := by
  rcases stringToBinary_cases str with ⟨data', hdenotes, heq⟩ | ⟨hbad, heq⟩
  · rw [heq, Except.ok.injEq, Option.some.injEq]
    exact ⟨fun h => h ▸ hdenotes, fun h => hdenotes.unique h⟩
  · rw [heq]
    exact ⟨nofun, fun h => absurd hbad h.not_bad⟩

theorem stringToBinary_eq_none (str : CBytes) :
    stringToBinary (some str) = .ok none ↔ HasBadEscape str.1 := by
  rcases stringToBinary_cases str with ⟨data', hdenotes, heq⟩ | ⟨hbad, heq⟩
  · rw [heq]
    exact ⟨nofun, fun h => absurd h hdenotes.not_bad⟩
  · exact ⟨fun _ => hbad, fun _ => heq⟩

end Reading

section Writing

variable {b : UInt8} {data : Bytes}

theorem writtenByte_plain (h : isRewritten b = false) : writtenByte b = [b] := by
  rw [writtenByte, if_pos]
  rw [isRewritten, Bool.and_eq_false_iff, bne_eq_false_iff_eq, Bool.or_eq_false_iff,
    beq_eq_false_iff_ne, Bool.not_eq_false'] at h
  exact h

theorem writtenByte_backslash : writtenByte backslash = [backslash, backslash] := rfl

theorem writtenByte_octal (h : isRewritten b = true) (hb : b ≠ backslash) :
    ∃ d₁ d₂ d₃, writtenByte b = [backslash, d₁, d₂, d₃] ∧ isOctal d₁ = true ∧ isOctal d₂ = true ∧
      isOctal d₃ = true ∧ octalByte d₁ d₂ d₃ = b := by
  refine ⟨b / 64 + byte '0', b % 64 / 8 + byte '0', b % 64 % 8 + byte '0', ?_, ?_⟩
  · rw [isRewritten, Bool.and_eq_true, bne_iff_ne, Bool.or_eq_true, beq_iff_eq,
      Bool.not_eq_true'] at h
    have hprint : asciiIsPrint b ≠ true := by
      rw [h.2.resolve_left hb]
      exact nofun
    rw [writtenByte, if_neg, if_neg hb]
    rintro (hnewline | ⟨-, hprinted⟩)
    · exact h.1 hnewline
    · exact hprint hprinted
  · have hlt := b.toNat_lt
    have hdigit : ∀ n : UInt8, n.toNat < 8 →
        isOctal (n + byte '0') = true ∧ octalDigit (n + byte '0') = n.toNat := by
      intro n hn
      have hsum : (n + byte '0').toNat = n.toNat + 48 := by
        rw [UInt8.toNat_add]
        show (n.toNat + 48) % 256 = _
        omega
      constructor
      · rw [isOctal, Bool.and_eq_true, decide_eq_true_iff, decide_eq_true_iff,
          UInt8.le_iff_toNat_le,
          UInt8.le_iff_toNat_le, hsum]
        show 48 ≤ _ ∧ _ ≤ 55
        omega
      · rw [octalDigit, hsum]
        exact Nat.add_sub_cancel _ _
    have h₁ := hdigit (b / 64) (by simp; omega)
    have h₂ := hdigit (b % 64 / 8) (by simp; omega)
    have h₃ := hdigit (b % 64 % 8) (by simp; omega)
    refine ⟨h₁.1, h₂.1, h₃.1, ?_⟩
    rw [octalByte, h₁.2, h₂.2, h₃.2]
    apply UInt8.toNat_inj.1
    simp
    omega

theorem Denotes.writtenByte_append (b : UInt8) {s : Bytes} (h : Denotes s data) :
    Denotes (writtenByte b ++ s) (b :: data) := by
  cases hb : isRewritten b with
  | false =>
    rw [writtenByte_plain hb]
    refine .plain ?_ h
    rintro rfl
    exact absurd hb (by decide)
  | true =>
    by_cases hback : b = backslash
    · subst hback
      exact .doubled h
    · obtain ⟨d₁, d₂, d₃, hwritten, h₁, h₂, h₃, hoctal⟩ := writtenByte_octal hb hback
      rw [hwritten, ← hoctal]
      exact .octal h₁ h₂ h₃ h

theorem written_cons (b : UInt8) (data : Bytes) : written (b :: data) = writtenByte b ++
    written data :=
  List.flatMap_cons

theorem denotes_written (data : Bytes) : Denotes (written data) data := by
  induction data with
  | nil => exact .nil
  | cons b data ih =>
    rw [written_cons]
    exact ih.writtenByte_append b

theorem printed_of_mem_written {c : UInt8} (h : c ∈ written data) :
    c = backslash ∨ isRewritten c = false := by
  obtain ⟨b, -, hc⟩ := List.mem_flatMap.1 h
  have hoctal : ∀ d : UInt8, isOctal d = true → isRewritten d = false := by
    intro d hd
    rw [isOctal, Bool.and_eq_true, decide_eq_true_iff, decide_eq_true_iff, UInt8.le_iff_toNat_le,
      UInt8.le_iff_toNat_le] at hd
    have hlow : 48 ≤ d.toNat := hd.1
    have hhigh : d.toNat ≤ 55 := hd.2
    have hprint : asciiIsPrint d = true := by
      rw [asciiIsPrint, Bool.and_eq_true, decide_eq_true_iff, decide_eq_true_iff,
        UInt8.le_iff_toNat_le, UInt8.le_iff_toNat_le]
      show 32 ≤ _ ∧ _ ≤ 126
      omega
    have hback : (d == backslash) = false := by
      rw [beq_eq_false_iff_ne]
      rintro rfl
      have : (92 : Nat) ≤ 55 := hhigh
      omega
    rw [isRewritten, hprint, hback]
    exact Bool.and_false _
  cases hb : isRewritten b with
  | false =>
    rw [writtenByte_plain hb, List.mem_singleton] at hc
    exact .inr (hc ▸ hb)
  | true =>
    by_cases hback : b = backslash
    · subst hback
      rw [writtenByte_backslash] at hc
      exact .inl (by simpa using hc)
    · obtain ⟨d₁, d₂, d₃, hwritten, h₁, h₂, h₃, -⟩ := writtenByte_octal hb hback
      rw [hwritten] at hc
      simp only [List.mem_cons, List.not_mem_nil, or_false] at hc
      rcases hc with rfl | rfl | rfl | rfl
      · exact .inl rfl
      · exact .inr (hoctal c h₁)
      · exact .inr (hoctal c h₂)
      · exact .inr (hoctal c h₃)

theorem zero_notMem_written (data : Bytes) : 0 ∉ written data := by
  intro h
  exact absurd (printed_of_mem_written h) (by decide)

theorem length_writtenByte (b : UInt8) :
    (writtenByte b).length ≤ 1 + if isRewritten b = true then 3 else 0 := by
  cases hb : isRewritten b with
  | false => rw [writtenByte_plain hb]; exact le_rfl
  | true =>
    by_cases hback : b = backslash
    · subst hback
      decide
    · obtain ⟨d₁, d₂, d₃, hwritten, -⟩ := writtenByte_octal hb hback
      rw [hwritten]
      exact le_rfl

theorem length_written (data : Bytes) :
    (written data).length ≤ data.length + 3 * data.countP isRewritten := by
  induction data with
  | nil => exact le_rfl
  | cons b data ih =>
    have hbyte := length_writtenByte b
    rw [written_cons, List.length_append, List.length_cons, List.countP_cons]
    split at hbyte <;> rename_i hb
    · rw [if_pos hb]
      omega
    · rw [if_neg hb]
      omega

theorem mymin_eq_min {n : Nat} (hn : 0 < n) (a : Nat) : mymin a n = min n a := by
  rw [mymin, if_pos hn]
  split <;> omega

theorem binaryToString_zero_of_fits (h : data.countP isRewritten * 4 < 2 ^ 31) :
    binaryToString data 0 = .ok (written data) := by
  by_cases hdata : data = []
  · subst hdata
    rfl
  · have hall : data.take (mymin data.length 0) = data := List.take_length
    have hcount : data.countP isRewritten < 2 ^ 31 := by omega
    have hroom : (written data).length < mymin data.length 0 + data.countP isRewritten * 4 + 1 := by
      have := length_written data
      show _ < data.length + _ + 1
      omega
    simp only [binaryToString, if_neg hdata, hall, checkedGint, if_pos hcount, if_pos h, bind,
      Except.bind, writeBlock, if_pos hroom]

theorem binaryToString_zero_of_overflows (h : ¬ data.countP isRewritten * 4 < 2 ^ 31) :
    binaryToString data 0 = .error .intOverflow := by
  have hdata : data ≠ [] := by
    rintro rfl
    exact h (by decide)
  have hall : data.take (mymin data.length 0) = data := List.take_length
  by_cases hcount : data.countP isRewritten < 2 ^ 31
  · simp only [binaryToString, if_neg hdata, hall, checkedGint, if_pos hcount, if_neg h, bind,
      Except.bind]
  · simp only [binaryToString, if_neg hdata, hall, checkedGint, if_neg hcount, bind, Except.bind]

theorem binaryToString_limited {n : Nat} (hn : 0 < n) (data : Bytes) :
    binaryToString data n = binaryToString (data.take (min n data.length)) 0 := by
  by_cases hdata : data = []
  · subst hdata
    rw [List.take_nil]
    rfl
  · have hlen : (data.take (min n data.length)).length = mymin data.length n := by
      rw [mymin_eq_min hn, List.length_take]
      omega
    have hne : data.take (min n data.length) ≠ [] := by
      rw [← List.length_pos_iff, hlen, mymin_eq_min hn]
      have := List.length_pos_iff.2 hdata
      omega
    have hmin : mymin (data.take (min n data.length)).length 0 = mymin data.length n := hlen
    rw [binaryToString, binaryToString, if_neg hdata, if_neg hne, hmin, mymin_eq_min hn,
      List.take_take, Nat.min_self]

end Writing

end LibGda
