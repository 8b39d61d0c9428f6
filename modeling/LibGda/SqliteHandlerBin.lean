import LibGda.BinaryText
import LibGda.Gint

/-! The handler of SQLite's binary values: the `x'...'` texts, the texts of digits only, and what
the two readers make of them. -/

namespace LibGda

namespace SqliteBin

open TerminatedBuffer

/-- `GdaBinary`: the block of `data`, and the number of bytes which the users of it read. -/
structure GdaBinary where
  data : Bytes
  binaryLength : Int
  deriving DecidableEq

inductive HexFault where
  /-- an index of the text leaves `int` -/
  | intOverflow
  /-- a read behind the block of `data` -/
  | beyondData
  deriving DecidableEq

def quote : UInt8 := byte '\''

def digitOf (n : UInt8) : UInt8 := if n ≤ 9 then n + byte '0' else n + byte 'A' - 10

theorem toNat_halves (b : UInt8) :
    (b >>> 4).toNat = b.toNat / 16 ∧ (b &&& 0xF).toNat = b.toNat % 16 := by
  constructor
  · simp [Nat.shiftRight_eq_div_pow]
  · have h := Nat.and_two_pow_sub_one_eq_mod b.toNat 4
    simpa using h

theorem digitOf_half (b : UInt8) : digitOf (b >>> 4) ≠ 0 ∧ digitOf (b &&& 0xF) ≠ 0 := by
  have hdigits : ∀ n < 16, digitOf (UInt8.ofNat n) ≠ 0 := by decide
  have hb := b.toNat_lt
  obtain ⟨hhigh, hlow⟩ := toNat_halves b
  have hdigitHigh := hdigits (b >>> 4).toNat (by omega)
  have hdigitLow := hdigits (b &&& 0xF).toNat (by omega)
  rw [UInt8.ofNat_toNat] at hdigitHigh hdigitLow
  exact ⟨hdigitHigh, hdigitLow⟩

theorem zero_notMem_noDigits : (0 : UInt8) ∉ ([] : Bytes) := List.not_mem_nil

theorem zero_notMem_digits (b : UInt8) (text : CBytes) :
    0 ∉ digitOf (b >>> 4) :: digitOf (b &&& 0xF) :: text.1 := by
  simp only [List.mem_cons, not_or]
  have h := digitOf_half b
  exact ⟨h.1.symm, h.2.symm, text.2⟩

theorem zero_notMem_quoted (text : CBytes) : 0 ∉ byte 'x' :: quote :: (text.1 ++ [quote]) := by
  have hx : (0 : UInt8) ≠ byte 'x' := by decide
  have hq : (0 : UInt8) ≠ quote := by decide
  have htext := text.2
  simp [hx, hq, htext]

/-- The loop which writes the digits; `shift` is where the text's digits start. -/
def writeDigits (shift : Nat) : Nat → Nat → Bytes → Except HexFault CBytes
  | 0, _, _ => .ok ⟨[], zero_notMem_noDigits⟩
  | _ + 1, _, [] => .error .beyondData
  | count + 1, i, b :: rest =>
    if 2 * i + shift + 1 < 2 ^ 31 then do
      let text ← writeDigits shift count (i + 1) rest
      pure ⟨digitOf (b >>> 4) :: digitOf (b &&& 0xF) :: text.1, zero_notMem_digits b text⟩
    else .error .intOverflow

def getSqlFromValue (bin : GdaBinary) : Except HexFault CBytes := do
  let text ← writeDigits 2 bin.binaryLength.toNat 0 bin.data
  pure ⟨byte 'x' :: quote :: (text.1 ++ [quote]), zero_notMem_quoted text⟩

def getStrFromValue (bin : GdaBinary) : Except HexFault CBytes :=
  writeDigits 0 bin.binaryLength.toNat 0 bin.data

def hexToInt (h : UInt8) : UInt8 :=
  if byte '0' ≤ h ∧ h ≤ byte '9' then h - byte '0'
  else if byte 'a' ≤ h ∧ h ≤ byte 'f' then h - byte 'a' + 10
  else if byte 'A' ≤ h ∧ h ≤ byte 'F' then h - byte 'A' + 10
  else 0

/-- The loop which reads `count` pairs of digits, from the index `start` on. -/
def readDigits (s : Bytes) (start count : Nat) : Bytes :=
  (List.range count).map fun k =>
    hexToInt (s.getD (start + 2 * k) 0) <<< 4 ||| hexToInt (s.getD (start + 2 * k + 1) 0)

def getValueFromSql (sql : CBytes) : Option GdaBinary :=
  let n := gint sql.1.length
  if sql.1 = [] then none
  -- the byte at `n` is the one behind the text, where the last one is at `n - 1`
  else if 3 ≤ n ∧ (n - 3) % 2 = 0 ∧ (sql.1.getD 0 0 = byte 'x' ∨ sql.1.getD 0 0 = byte 'X') ∧
      sql.1.getD 1 0 = quote ∧ sql.1.getD n.toNat 0 = quote then
    if 3 < n then some ⟨readDigits sql.1 2 ((n - 3) / 2).toNat, n - 3⟩ else some ⟨[], 0⟩
  else none

def getValueFromStr (str : CBytes) : Option GdaBinary :=
  let n := gint str.1.length
  -- `gda_string_to_binary` of an empty string
  if str.1 = [] then some ⟨[], 0⟩
  else if n % 2 = 0 then
    if 0 < n then some ⟨readDigits str.1 0 (n / 2).toNat, n⟩ else some ⟨[], 0⟩
  else none

def binaryOf (b : Bytes) : GdaBinary := ⟨b, b.length⟩

def SqlGivesBack (b : Bytes) : Prop :=
  ∃ sql, getSqlFromValue (binaryOf b) = .ok sql ∧ getValueFromSql sql = some (binaryOf b)

def StrGivesBack (b : Bytes) : Prop :=
  ∃ str, getStrFromValue (binaryOf b) = .ok str ∧ getValueFromStr str = some (binaryOf b)

def LengthRight (bin : GdaBinary) : Prop := bin.binaryLength = bin.data.length

def IsHexDigit (h : UInt8) : Prop :=
  (byte '0' ≤ h ∧ h ≤ byte '9') ∨ (byte 'a' ≤ h ∧ h ≤ byte 'f') ∨ (byte 'A' ≤ h ∧ h ≤ byte 'F')

/-- `x'...'` with an even number of hexadecimal digits. -/
def IsBlobText (sql : Bytes) : Prop :=
  ∃ x digits, (x = byte 'x' ∨ x = byte 'X') ∧ (∀ d ∈ digits, IsHexDigit d) ∧
    digits.length % 2 = 0 ∧ sql = x :: quote :: (digits ++ [quote])

/-- A text whose length does not fit in `int`, with a quote where the reader looks for it. -/
def QuoteInside (sql : Bytes) : Prop :=
  2 ^ 32 ≤ sql.length ∧ 3 ≤ gint sql.length ∧ gint sql.length % 2 = 1 ∧
    (sql.getD 0 0 = byte 'x' ∨ sql.getD 0 0 = byte 'X') ∧ sql.getD 1 0 = quote ∧
    sql.getD (gint sql.length).toNat 0 = quote

section Digits

variable {b : UInt8} {s data : Bytes} {shift count i n : Nat} {text : CBytes}

theorem hexToInt_digitOf : ∀ n < 16, hexToInt (digitOf (UInt8.ofNat n)) = UInt8.ofNat n := by
  decide

theorem readByte_written (b : UInt8) :
    hexToInt (digitOf (b >>> 4)) <<< 4 ||| hexToInt (digitOf (b &&& 0xF)) = b := by
  have hb := b.toNat_lt
  obtain ⟨hhigh, hlow⟩ := toNat_halves b
  have hreadHigh := hexToInt_digitOf (b >>> 4).toNat (by omega)
  have hreadLow := hexToInt_digitOf (b &&& 0xF).toNat (by omega)
  rw [UInt8.ofNat_toNat] at hreadHigh hreadLow
  rw [hreadHigh, hreadLow]
  apply UInt8.toNat_inj.mp
  rw [UInt8.toNat_or, UInt8.toNat_shiftLeft, hhigh, hlow]
  have hshift : (b.toNat / 16) <<< ((4 : UInt8).toNat % 8) % 2 ^ 8 = (b.toNat / 16) <<< 4 := by
    have hfour : (4 : UInt8).toNat % 8 = 4 := rfl
    rw [hfour, Nat.shiftLeft_eq]
    exact Nat.mod_eq_of_lt (by omega)
  rw [hshift, ← Nat.shiftLeft_add_eq_or_of_lt (by omega), Nat.shiftLeft_eq]
  omega

theorem readDigits_cons (high low : UInt8) (s : Bytes) (count : Nat) :
    readDigits (high :: low :: s) 0 (count + 1) =
      (hexToInt high <<< 4 ||| hexToInt low) :: readDigits s 0 count := by
  simp only [readDigits, List.range_succ_eq_map, List.map_cons, List.map_map]
  refine congrArg₂ _ (by simp) (List.map_congr_left ?_)
  intro k _
  have hk : 2 * (k + 1) = 2 * k + 1 + 1 := by omega
  simp [hk]

theorem length_readDigits : (readDigits s n count).length = count := by
  simp [readDigits]

theorem writeDigits_ok (h : writeDigits shift data.length i data = .ok text) :
    text.1.length = 2 * data.length ∧ readDigits text.1 0 data.length = data ∧
      (data ≠ [] → 2 * (i + data.length) + shift ≤ 2 ^ 31 + 1) := by
  induction data generalizing i text with
  | nil =>
    simp only [List.length_nil, writeDigits, Except.ok.injEq] at h
    subst h
    simp [readDigits]
  | cons b rest ih =>
    rw [List.length_cons, writeDigits] at h
    by_cases hi : 2 * i + shift + 1 < 2 ^ 31
    · rw [if_pos hi] at h
      cases hrest : writeDigits shift rest.length (i + 1) rest with
      | error fault => simp [hrest, bind, Except.bind] at h
      | ok more =>
        simp only [hrest, bind, Except.bind, pure, Except.pure, Except.ok.injEq] at h
        subst h
        have hmore := ih hrest
        refine ⟨by simp [hmore.1]; omega, ?_, ?_⟩
        · rw [List.length_cons, readDigits_cons, readByte_written, hmore.2.1]
        · intro _
          rw [List.length_cons]
          by_cases hnil : rest = []
          · subst hnil
            simp only [List.length_nil]
            omega
          · have hbound := hmore.2.2 hnil
            omega
    · rw [if_neg hi] at h
      simp at h

theorem writeDigits_total (shift i : Nat) (data : Bytes)
    (h : 2 * (i + data.length) + shift ≤ 2 ^ 31) :
    ∃ text, writeDigits shift data.length i data = .ok text := by
  induction data generalizing i with
  | nil => exact ⟨_, rfl⟩
  | cons b rest ih =>
    rw [List.length_cons] at h ⊢
    obtain ⟨text, htext⟩ := ih (i + 1) (by omega)
    have hi : 2 * i + shift + 1 < 2 ^ 31 := by omega
    refine ⟨⟨_, zero_notMem_digits b text⟩, ?_⟩
    rw [writeDigits, if_pos hi, htext]
    rfl

theorem writeDigits_beyond (h : data.length < count) :
    ∀ text, writeDigits shift count i data ≠ .ok text := by
  induction data generalizing i count with
  | nil =>
    obtain ⟨k, rfl⟩ : ∃ k, count = k + 1 := ⟨count - 1, by simp at h; omega⟩
    simp [writeDigits]
  | cons b rest ih =>
    obtain ⟨k, rfl⟩ : ∃ k, count = k + 1 := ⟨count - 1, by simp at h; omega⟩
    intro text hok
    rw [writeDigits] at hok
    split at hok
    · cases hrest : writeDigits shift k (i + 1) rest with
      | error fault => simp [hrest, bind, Except.bind] at hok
      | ok more => exact ih (by simpa using h) more hrest
    · simp at hok

end Digits

section Readers

variable {b : Bytes} {sql str : CBytes} {bin : GdaBinary}

theorem gint_of_even_bound {n : Nat} (h : n < 2 ^ 32) :
    gint n = n ∨ gint n < 0 := by
  simp only [gint, Int.bmod_def]
  omega

theorem getValueFromSql_none (h : sql.1.length < 2 ^ 32) : getValueFromSql sql = none := by
  unfold getValueFromSql
  split
  · rfl
  · refine if_neg ?_
    rintro ⟨hn, -, -, -, hquote⟩
    obtain hgint | hneg := gint_of_even_bound h
    · rw [hgint, Int.toNat_natCast, List.getD_eq_default _ _ (Nat.le_refl _)] at hquote
      exact absurd hquote (by decide)
    · omega

theorem getValueFromSql_inside (h : QuoteInside sql.1) : getValueFromSql sql =
    if 3 < gint sql.1.length then
      some ⟨readDigits sql.1 2 ((gint sql.1.length - 3) / 2).toNat, gint sql.1.length - 3⟩
    else some ⟨[], 0⟩ := by
  obtain ⟨hlen, hn, hodd, hx, hopen, hclose⟩ := h
  have hne : sql.1 ≠ [] := by
    intro hnil
    simp [hnil] at hlen
  have hdiff : (gint sql.1.length - 3) % 2 = 0 := by omega
  unfold getValueFromSql
  rw [if_neg hne, if_pos ⟨hn, hdiff, hx, hopen, hclose⟩]

theorem isSome_getValueFromSql : (getValueFromSql sql).isSome = true ↔ QuoteInside sql.1 := by
  constructor
  · intro h
    by_cases hlen : sql.1.length < 2 ^ 32
    · simp [getValueFromSql_none hlen] at h
    · unfold getValueFromSql at h
      by_cases htest : 3 ≤ gint sql.1.length ∧ (gint sql.1.length - 3) % 2 = 0 ∧
          (sql.1.getD 0 0 = byte 'x' ∨ sql.1.getD 0 0 = byte 'X') ∧
          sql.1.getD 1 0 = quote ∧ sql.1.getD (gint sql.1.length).toNat 0 = quote
      · obtain ⟨hn, hodd, hx, hopen, hclose⟩ := htest
        exact ⟨by omega, hn, by omega, hx, hopen, hclose⟩
      · simp only [if_neg htest] at h
        simp at h
  · intro h
    rw [getValueFromSql_inside h]
    split <;> simp

theorem not_quoteInside_of_blob (h : IsBlobText sql.1) : ¬ QuoteInside sql.1 := by
  obtain ⟨x, digits, -, hdigits, -, htext⟩ := h
  rintro ⟨hlen, hn, -, -, -, hquote⟩
  have hlength : sql.1.length = digits.length + 3 := by simp [htext]
  have hsmall : (gint sql.1.length).toNat < 2 ^ 31 := by
    simp only [gint, Int.bmod_def]
    omega
  obtain ⟨k, hk⟩ : ∃ k, (gint sql.1.length).toNat = k + 2 :=
    ⟨(gint sql.1.length).toNat - 2, by omega⟩
  have hlt : k < digits.length := by omega
  rw [hk, htext, List.getD_cons_succ, List.getD_cons_succ, List.getD_append _ _ _ _ hlt,
    List.getD_eq_getElem _ _ hlt] at hquote
  have hdigit := hdigits _ (List.getElem_mem hlt)
  rw [hquote] at hdigit
  exact absurd hdigit (by simp only [IsHexDigit]; decide)

theorem lengthRight_sql (h : getValueFromSql sql = some bin) :
    LengthRight bin ↔ gint sql.1.length = 3 := by
  have hinside := isSome_getValueFromSql.mp (by rw [h]; rfl)
  rw [getValueFromSql_inside hinside] at h
  obtain ⟨-, hn, -⟩ := hinside
  by_cases hmore : 3 < gint sql.1.length
  · rw [if_pos hmore, Option.some.injEq] at h
    subst h
    simp only [LengthRight, length_readDigits]
    omega
  · rw [if_neg hmore, Option.some.injEq] at h
    subst h
    have hthree : gint sql.1.length = 3 := by omega
    simp [LengthRight, hthree]

theorem getValueFromStr_some (h : getValueFromStr str = some bin) :
    (gint str.1.length ≤ 0 ∧ bin = ⟨[], 0⟩) ∨
    (0 < gint str.1.length ∧ bin.binaryLength = 2 * bin.data.length ∧
      bin.binaryLength = gint str.1.length) := by
  unfold getValueFromStr at h
  by_cases hnil : str.1 = []
  · rw [if_pos hnil, Option.some.injEq] at h
    exact Or.inl ⟨by simp [hnil, gint], h.symm⟩
  · rw [if_neg hnil] at h
    by_cases heven : gint str.1.length % 2 = 0
    · rw [if_pos heven] at h
      by_cases hpos : 0 < gint str.1.length
      · rw [if_pos hpos, Option.some.injEq] at h
        subst h
        refine Or.inr ⟨hpos, ?_, by dsimp only⟩
        simp only [length_readDigits]
        omega
      · rw [if_neg hpos, Option.some.injEq] at h
        exact Or.inl ⟨by omega, h.symm⟩
    · rw [if_neg heven] at h
      simp at h

theorem lengthRight_str (h : getValueFromStr str = some bin) :
    LengthRight bin ↔ gint str.1.length ≤ 0 := by
  obtain ⟨hle, rfl⟩ | ⟨hpos, hdouble, hlen⟩ := getValueFromStr_some h
  · simp [LengthRight, hle]
  · simp only [LengthRight]
    omega

theorem getSqlFromValue_length (h : getSqlFromValue (binaryOf b) = .ok sql) :
    sql.1.length < 2 ^ 32 := by
  simp only [getSqlFromValue, binaryOf, Int.toNat_natCast] at h
  cases htext : writeDigits 2 b.length 0 b with
  | error fault => simp [htext, bind, Except.bind] at h
  | ok text =>
    simp only [htext, bind, Except.bind, pure, Except.pure, Except.ok.injEq] at h
    subst h
    have hwritten := writeDigits_ok htext
    simp only [List.length_cons, List.length_append, List.length_nil, hwritten.1]
    by_cases hnil : b = []
    · simp [hnil]
    · have hbound := hwritten.2.2 hnil
      omega

theorem getValueFromStr_written (hb : b ≠ []) (h : b.length < 2 ^ 30) :
    ∃ str, getStrFromValue (binaryOf b) = .ok str ∧
      getValueFromStr str = some ⟨b, 2 * b.length⟩ := by
  obtain ⟨str, hstr⟩ := writeDigits_total 0 0 b (by omega)
  obtain ⟨hlen, hread, -⟩ := writeDigits_ok hstr
  refine ⟨str, by simpa [getStrFromValue, binaryOf] using hstr, ?_⟩
  have hpos := List.length_pos_of_ne_nil hb
  have hgint : gint str.1.length = 2 * b.length := by
    rw [hlen, gint_of_bounds] <;> push_cast <;> omega
  have hne : str.1 ≠ [] := by
    apply List.ne_nil_of_length_pos
    omega
  have heven : (2 * (b.length : Int)) % 2 = 0 := by omega
  have hgt : 0 < 2 * (b.length : Int) := by omega
  have hhalf : (2 * (b.length : Int) / 2).toNat = b.length := by omega
  simp [getValueFromStr, hne, hgint, heven, hread, hb]

theorem strGivesBack_iff : StrGivesBack b ↔ b = [] := by
  constructor
  · rintro ⟨str, hstr, hread⟩
    obtain ⟨-, hbin⟩ | ⟨-, hdouble, -⟩ := getValueFromStr_some hread
    · exact congrArg GdaBinary.data hbin
    · simp only [binaryOf] at hdouble
      apply List.length_eq_zero_iff.mp
      omega
  · rintro rfl
    exact ⟨_, rfl, rfl⟩

theorem not_sqlGivesBack (b : Bytes) : ¬ SqlGivesBack b := by
  rintro ⟨sql, hsql, hread⟩
  rw [getValueFromSql_none (getSqlFromValue_length hsql)] at hread
  simp at hread

theorem getStrFromValue_wrongLength (h : getValueFromStr str = some bin)
    (hpos : 0 < gint str.1.length) : ∀ text, getStrFromValue bin ≠ .ok text := by
  obtain ⟨hle, -⟩ | ⟨-, hdouble, hlen⟩ := getValueFromStr_some h
  · omega
  · exact writeDigits_beyond (by omega)

end Readers

theorem sqliteHandlerBin_run (b : Bytes) (sql str : CBytes) (bin : GdaBinary) :
    ¬ SqlGivesBack b ∧ (StrGivesBack b ↔ b = []) ∧
    (b ≠ [] → b.length < 2 ^ 30 → ∃ str, getStrFromValue (binaryOf b) = .ok str ∧
      getValueFromStr str = some ⟨b, 2 * b.length⟩) ∧
    (getValueFromSql sql = some bin → (LengthRight bin ↔ gint sql.1.length = 3)) ∧
    (getValueFromStr str = some bin → (LengthRight bin ↔ gint str.1.length ≤ 0) ∧
      (0 < gint str.1.length → ∀ text, getStrFromValue bin ≠ .ok text)) ∧
    (((getValueFromSql sql).isSome = true ↔ IsBlobText sql.1) ↔
      ¬ IsBlobText sql.1 ∧ ¬ QuoteInside sql.1) := by
  refine ⟨not_sqlGivesBack b, strGivesBack_iff, getValueFromStr_written, lengthRight_sql,
    fun h => ⟨lengthRight_str h, getStrFromValue_wrongLength h⟩, ?_⟩
  rw [isSome_getValueFromSql]
  constructor
  · intro h
    have hblob : ¬ IsBlobText sql.1 := by
      intro hblob
      exact not_quoteInside_of_blob hblob (h.mpr hblob)
    exact ⟨hblob, fun hinside => hblob (h.mp hinside)⟩
  · rintro ⟨hblob, hinside⟩
    exact iff_of_false hinside hblob

theorem sqliteHandlerBin_run_byte : ¬ StrGivesBack [0xAB] ∧
    getValueFromStr ⟨bytes "AB", by decide⟩ = some ⟨[0xAB], 2⟩ ∧ ¬ LengthRight ⟨[0xAB], 2⟩ := by
  obtain ⟨-, hstr, -, -, hlength, -⟩ :=
    sqliteHandlerBin_run [0xAB] ⟨bytes "AB", by decide⟩ ⟨bytes "AB", by decide⟩ ⟨[0xAB], 2⟩
  have hread : getValueFromStr ⟨bytes "AB", by decide⟩ = some ⟨[0xAB], 2⟩ := by decide
  refine ⟨fun h => ?_, hread, fun h => ?_⟩
  · have hnil := hstr.mp h
    simp at hnil
  · have hle := (hlength hread).1.mp h
    exact absurd hle (by decide)

theorem emptyBlob_refused : let sql : CBytes := ⟨bytes "x''", by decide⟩
    getSqlFromValue (binaryOf []) = .ok sql ∧ getValueFromSql sql = none ∧ IsBlobText sql.1 ∧
      ¬ SqlGivesBack [] := by
  refine ⟨rfl, getValueFromSql_none (by decide), ⟨byte 'x', [], Or.inl rfl, by simp, rfl, rfl⟩,
    not_sqlGivesBack []⟩

end SqliteBin

end LibGda
