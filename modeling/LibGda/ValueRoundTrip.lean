import LibGda.ValueText

/-! Values which are read back from their texts, or from XML. -/

namespace LibGda

open DecimalText TerminatedBuffer

section Numbers

theorem isSpace_of_isDigit {b : UInt8} (h : IsDigit b) : cIsSpace b = false := by
  have hne : b ≠ 32 := by
    rintro rfl
    exact absurd h (by decide)
  have hlt : ¬ b ≤ 13 := by
    intro hle
    have hnat : b.toNat ≤ 13 := hle
    have hdigit : 48 ≤ b.toNat := h.1
    omega
  simp [cIsSpace, hne, hlt]

theorem strtolParts_digits {digits : Bytes} (hne : digits ≠ []) (h : ∀ b ∈ digits, IsDigit b) :
    strtolParts digits = (false, digits, []) := by
  cases digits with
  | nil => exact absurd rfl hne
  | cons b rest =>
    have hb : IsDigit b := h b List.mem_cons_self
    have hspace := isSpace_of_isDigit hb
    have hplus : b ≠ byte '+' := by
      rintro rfl
      exact absurd hb (by decide)
    have hminus : b ≠ byte '-' := by
      rintro rfl
      exact absurd hb (by decide)
    have hdrop : (b :: rest).dropWhile cIsSpace = b :: rest := by
      rw [List.dropWhile_cons, hspace]
      rfl
    have htake : (b :: rest).takeWhile (fun b => decide (IsDigit b)) = b :: rest :=
      List.takeWhile_eq_self_iff.2 fun c hc => decide_eq_true (h c hc)
    have hrest : (b :: rest).dropWhile (fun b => decide (IsDigit b)) = [] :=
      List.dropWhile_eq_nil_iff.2 fun c hc => decide_eq_true (h c hc)
    rw [strtolParts, hdrop]
    simp only [if_neg hminus, if_neg hplus, htake, hrest]

theorem strtolParts_negative {digits : Bytes} (h : ∀ b ∈ digits, IsDigit b) :
    strtolParts (byte '-' :: digits) = (true, digits, []) := by
  have hdrop : (byte '-' :: digits).dropWhile cIsSpace = byte '-' :: digits := rfl
  have htake : digits.takeWhile (fun b => decide (IsDigit b)) = digits :=
    List.takeWhile_eq_self_iff.2 fun c hc => decide_eq_true (h c hc)
  have hrest : digits.dropWhile (fun b => decide (IsDigit b)) = [] :=
    List.dropWhile_eq_nil_iff.2 fun c hc => decide_eq_true (h c hc)
  rw [strtolParts, hdrop]
  simp only [if_pos, htake, hrest]

theorem strtol_decimalInt {n : Int} (hlow : -2 ^ 63 ≤ n) (hhigh : n < 2 ^ 63) :
    strtol (decimalInt n) = (n, []) := by
  have hnumber := number_decimal n.natAbs
  rw [decimalInt]
  by_cases hneg : n < 0
  · rw [if_pos hneg, strtol]
    have hparts : strtolParts (45 :: decimal n.natAbs) = (true, decimal n.natAbs, []) :=
      strtolParts_negative (isDigit_of_mem_decimal _)
    simp only [hparts, if_neg (decimal_ne_nil _), hnumber, if_true]
    congr 1
    omega
  · rw [if_neg hneg, strtol]
    simp only [strtolParts_digits (decimal_ne_nil _) (isDigit_of_mem_decimal _),
      if_neg (decimal_ne_nil _), hnumber]
    congr 1
    simp only [Bool.false_eq_true, if_false]
    omega

theorem strtoul_decimal {n : Nat} (h : n < 2 ^ 64) : strtoul (decimal n) = ((n : Int), []) := by
  have hlt : ¬ (2 : Int) ^ 64 ≤ n := by omega
  rw [strtoul]
  simp only [strtolParts_digits (decimal_ne_nil _) (isDigit_of_mem_decimal _),
    if_neg (decimal_ne_nil _), number_decimal, if_neg hlt]
  rfl

theorem NumberType.cast_self {type : NumberType} (i : type.Carrier) : type.cast i.1 = i := by
  apply Subtype.ext
  have hmod : (i.1 - type.lowest) % 2 ^ type.bits = i.1 - type.lowest :=
    Int.emod_eq_of_lt (by have := i.2.1; omega) (by have := i.2.2; omega)
  show type.lowest + (i.1 - type.lowest) % 2 ^ type.bits = i.1
  rw [hmod]
  omega

theorem NumberType.signed_bounds {type : NumberType} (h : type.isSigned = true) :
    -2 ^ 63 ≤ type.lowest ∧ type.lowest + 2 ^ type.bits ≤ 2 ^ 63 := by
  cases type <;> first | decide | cases h

theorem NumberType.unsigned_bounds {type : NumberType} (h : type.isSigned = false) :
    type.lowest = 0 ∧ (2 : Int) ^ type.bits ≤ 2 ^ 64 := by
  cases type <;> first | decide | cases h

theorem numberFromString_of_read {type : NumberType} {s : Bytes} {n : Int} (hne : s ≠ [])
    (hread : (if type.isSigned then strtol s else strtoul s) = (n, [])) :
    numberFromString type s = some (type.cast n) := by
  rw [numberFromString, hread]
  exact if_pos ⟨hne, rfl⟩

theorem numberFromString_text (type : NumberType) (i : type.Carrier) :
    numberFromString type (numberText type i.1) = some i ↔ type ≠ .ushort := by
  by_cases hushort : type = .ushort
  · subst hushort
    refine iff_of_false ?_ (not_not.2 rfl)
    have hnone : numberFromString .ushort nullText = none := by decide
    rw [numberText, if_pos rfl, hnone]
    exact nofun
  · refine iff_of_true ?_ hushort
    obtain ⟨hlow, hhigh⟩ := i.2
    rw [numberText, if_neg hushort]
    cases hsigned : type.isSigned with
    | true =>
      obtain ⟨hlowest, hhighest⟩ := NumberType.signed_bounds hsigned
      have hne : decimalInt i.1 ≠ [] := by
        rw [decimalInt]
        by_cases hneg : i.1 < 0
        · rw [if_pos hneg]
          exact List.cons_ne_nil _ _
        · rw [if_neg hneg]
          exact decimal_ne_nil _
      have hread : (if type.isSigned then strtol (decimalInt i.1) else strtoul (decimalInt i.1)) =
          (i.1, []) := by
        rw [hsigned]
        exact strtol_decimalInt (by omega) (by omega)
      rw [if_pos rfl, numberFromString_of_read hne hread, NumberType.cast_self]
    | false =>
      obtain ⟨hlowest, hhighest⟩ := NumberType.unsigned_bounds hsigned
      have hcast : ((i.1.toNat : Nat) : Int) = i.1 := Int.toNat_of_nonneg (by omega)
      have hread : (if type.isSigned then strtol (decimal i.1.toNat)
          else strtoul (decimal i.1.toNat)) = (i.1, []) := by
        rw [hsigned]
        refine (strtoul_decimal (by omega)).trans ?_
        rw [hcast]
      rw [if_neg Bool.false_ne_true, numberFromString_of_read (decimal_ne_nil _) hread,
        NumberType.cast_self]

end Numbers

section Times

variable {zoneOffset : Bytes → Option Int64}

theorem parseIso8601Date_text (d : DmyDate) :
    parseIso8601Date (dateText d) = some d ↔ d.valid = true := by
  have hyear := d.year.toNat_lt
  have hmonth := d.month.isLt
  have hday := d.day.isLt
  have hparse := @parseFormattedDate_text d.year.toNat d.month d.day [] (by omega) (by omega)
    (by omega) nofun
  rw [List.append_nil, Nat.mod_eq_of_lt hyear, dateOfNumbers_eq] at hparse
  rw [parseIso8601Date, dateText, hparse, DmyDate.valid]
  by_cases hvalid : dateValidDmy d.day d.month d.year.toNat = true
  · rw [if_pos hvalid]
    refine iff_of_true ?_ hvalid
    obtain ⟨day, month, year⟩ := d
    simp
  · rw [if_neg hvalid]
    exact iff_of_false nofun hvalid

def clockValid (hour minute second : UInt16) : Bool :=
  hour.toNat ≤ 23 && minute.toNat ≤ 59 && second.toNat ≤ 59

theorem clockValid_bounds {hour minute second : UInt16} (h : clockValid hour minute second = true) :
    hour.toNat ≤ 23 ∧ minute.toNat ≤ 59 ∧ second.toNat ≤ 59 := by
  rw [clockValid, Bool.and_eq_true, Bool.and_eq_true] at h
  exact ⟨of_decide_eq_true h.1.1, of_decide_eq_true h.1.2, of_decide_eq_true h.2⟩

theorem parseIso8601Time_text {hour minute second : UInt16} (fraction : UInt64) (timezone : Int64)
    (h : clockValid hour minute second = true) :
    parseIso8601Time zoneOffset (clockText hour.toNat minute.toNat second.toNat ++
        (fractionText fraction ++ zoneText timezone)) =
      (zoneRead timezone).map fun zone => ⟨hour, minute, second, fraction, zone⟩ := by
  obtain ⟨hhour, hminute, hsecond⟩ := clockValid_bounds h
  rw [parseIso8601Time, parseFormattedTime, parseTime_text fraction timezone hhour hminute hsecond]
  cases zoneRead timezone <;> rfl

theorem parseIso8601Time_timeText {t : GdaTime} (h : clockValid t.hour t.minute t.second = true) :
    parseIso8601Time zoneOffset (timeText t) = some t ↔ ZoneKept t.timezone := by
  rw [timeText, parseIso8601Time_text t.fraction t.timezone h, ← zoneRead_eq_iff]
  cases zoneRead t.timezone with
  | none => exact iff_of_false nofun nofun
  | some zone =>
    rw [Option.map_some, Option.some_inj, Option.some_inj]
    constructor
    · intro heq
      exact congrArg GdaTime.timezone heq
    · rintro rfl
      rfl

theorem printedYear_mod (year : Int16) : printedYear year % 2 ^ 16 = year.toUInt16.toNat := by
  have htoInt : year.toInt = Int.bmod year.toUInt16.toNat (2 ^ 16) :=
    BitVec.toInt_eq_toNat_bmod year.toBitVec
  have hlt := year.toUInt16.toNat_lt
  rw [printedYear, htoInt, Int.bmod_def]
  split <;> omega

/-- The year which `gda_timestamp_valid` checks. -/
def GdaTimestamp.dateYear (ts : GdaTimestamp) : Nat := ts.year.toUInt16.toNat

theorem clockText_ne_nil (hour minute second : Nat) (rest : Bytes) :
    clockText hour minute second ++ rest ≠ [] := by
  rw [clockText]
  simp

theorem parseIso8601Timestamp_text {ts : GdaTimestamp}
    (h : clockValid ts.hour ts.minute ts.second = true) :
    parseIso8601Timestamp zoneOffset (timestampText ts) = some ts ↔
      dateValidDmy ts.day.toNat ts.month.toNat ts.dateYear = true ∧ ZoneKept ts.timezone := by
  have hmonth := ts.month.toNat_lt
  have hday := ts.day.toNat_lt
  have hyear : printedYear ts.year < 2 ^ 64 := by
    rw [printedYear]
    omega
  have hspace : ∀ b ∈ (byte ' ' :: (clockText ts.hour.toNat ts.minute.toNat ts.second.toNat ++
      (fractionText ts.fraction ++ zoneText ts.timezone))).head?, ¬ IsDigit b := by
    intro b hb
    obtain rfl := Option.some.inj hb
    decide
  rw [parseIso8601Timestamp, timestampText, parseFormattedDate_text hyear hmonth hday hspace,
    printedYear_mod, dateOfNumbers_eq, GdaTimestamp.dateYear]
  by_cases hvalid : dateValidDmy ts.day.toNat ts.month.toNat ts.year.toUInt16.toNat = true
  · obtain ⟨-, hmonth', -, hday'⟩ := dateValidDmy_bounds hvalid
    have htime := @parseIso8601Time_text zoneOffset _ _ _ ts.fraction ts.timezone h
    rw [if_pos hvalid, and_iff_right hvalid, ← zoneRead_eq_iff]
    simp only [Option.map_some, ne_eq, not_true_eq_false, if_false, clockText_ne_nil]
    rw [parseIso8601Time] at htime
    rw [htime]
    have hdayMod : ts.day.toNat % 64 = ts.day.toNat := Nat.mod_eq_of_lt (by omega)
    have hmonthMod : ts.month.toNat % 16 = ts.month.toNat := Nat.mod_eq_of_lt (by omega)
    cases zoneRead ts.timezone with
    | none => exact iff_of_false nofun nofun
    | some zone =>
      obtain ⟨year, month, day, hour, minute, second, fraction, timezone⟩ := ts
      simp [Fin.ofNat, hdayMod, hmonthMod]
  · rw [if_neg hvalid]
    exact iff_of_false nofun fun hand => hvalid hand.1

end Times

section Terminated

theorem zero_notMem_of_digits {text : Bytes} (h : ∀ b ∈ text, IsDigit b) : 0 ∉ text := by
  intro hmem
  exact absurd (h 0 hmem) (by decide)

theorem zero_notMem_padded (width n : Nat) : 0 ∉ padded width n :=
  zero_notMem_of_digits (isDigit_of_mem_padded width n)

theorem zero_notMem_decimal (n : Nat) : 0 ∉ decimal n :=
  zero_notMem_of_digits (isDigit_of_mem_decimal n)

theorem zero_notMem_decimalInt (n : Int) : 0 ∉ decimalInt n := by
  rw [decimalInt]
  split
  · rw [List.mem_cons, not_or]
    exact ⟨by decide, zero_notMem_decimal _⟩
  · exact zero_notMem_decimal _

theorem zero_notMem_fractionText (fraction : UInt64) : 0 ∉ fractionText fraction := by
  rw [fractionText]
  split
  · exact List.not_mem_nil
  · rw [List.mem_cons, not_or]
    exact ⟨by decide, zero_notMem_decimal _⟩

theorem zero_notMem_zoneText (timezone : Int64) : 0 ∉ zoneText timezone := by
  rw [zoneText]
  split
  · exact List.not_mem_nil
  · rw [signed, List.mem_cons, not_or]
    refine ⟨?_, zero_notMem_decimal _⟩
    split <;> decide

theorem zero_notMem_clockText (hour minute second : Nat) : 0 ∉ clockText hour minute second := by
  have hcolon : (0 : UInt8) ≠ byte ':' := by decide
  simp only [clockText, List.mem_append, List.mem_cons, not_or]
  exact ⟨zero_notMem_padded _ _, hcolon, zero_notMem_padded _ _, hcolon, zero_notMem_padded _ _⟩

theorem zero_notMem_timeText (t : GdaTime) : 0 ∉ timeText t := by
  simp only [timeText, List.mem_append, not_or]
  exact ⟨zero_notMem_clockText _ _ _, zero_notMem_fractionText _, zero_notMem_zoneText _⟩

theorem zero_notMem_dateText (d : DmyDate) : 0 ∉ dateText d := by
  have hdash : (0 : UInt8) ≠ byte '-' := by decide
  simp only [dateText, List.mem_append, List.mem_cons, not_or]
  exact ⟨zero_notMem_padded _ _, hdash, zero_notMem_padded _ _, hdash, zero_notMem_padded _ _⟩

theorem zero_notMem_timestampText (ts : GdaTimestamp) : 0 ∉ timestampText ts := by
  have hdash : (0 : UInt8) ≠ byte '-' := by decide
  have hspace : (0 : UInt8) ≠ byte ' ' := by decide
  simp only [timestampText, List.mem_append, List.mem_cons, not_or]
  exact ⟨zero_notMem_padded _ _, hdash, zero_notMem_padded _ _, hdash, zero_notMem_padded _ _,
    hspace, zero_notMem_clockText _ _ _, zero_notMem_fractionText _, zero_notMem_zoneText _⟩

theorem zero_notMem_nullText : 0 ∉ nullText := by decide

theorem zero_notMem_numberText (type : NumberType) (i : Int) : 0 ∉ numberText type i := by
  rw [numberText]
  split
  · exact zero_notMem_nullText
  · split
    · exact zero_notMem_decimalInt i
    · exact zero_notMem_decimal _

end Terminated

def SerialValue.valid : SerialValue → Bool
  | .time (some t) => clockValid t.hour t.minute t.second
  | .timestamp (some ts) =>
    dateValidDmy (ts.day.toNat % 256) ts.month.toNat ts.dateYear &&
      clockValid ts.hour ts.minute ts.second
  | _ => true

def TextRoundTrips (zoneOffset : Bytes → Option Int64) (v : SerialValue) : Prop :=
  ∃ text : CBytes, stringify v = .ok (some text.1) ∧
    setFromString zoneOffset v.type text = .ok (some v)

def XmlRoundTrips (zoneOffset : Bytes → Option Int64) (typeFromString : String → Option SerialType)
    (setContent : Option Bytes → CBytes) (v : SerialValue) : Prop :=
  ∃ node, valueToXml setContent v = .ok node ∧
    valueNewFromXml zoneOffset typeFromString node = .ok (some (some v))

def TextKept : SerialValue → Prop
  | .number type _ => type ≠ .ushort
  | .boolean _ => True
  | .date d => ∃ date ∈ d, date.valid = true
  | .time t => ∃ time ∈ t, ZoneKept time.timezone
  | .timestamp ts => ∃ timestamp ∈ ts, timestamp.day.toNat < 256 ∧ ZoneKept timestamp.timezone
  | .binary data => ∃ bin ∈ data, bin.countP isRewritten * 4 < 2 ^ 31
  | .string s => s ≠ none

section RoundTrip

variable {zoneOffset : Bytes → Option Int64}

theorem textRoundTrips_iff_read {v : SerialValue} {text : Bytes} (h0 : 0 ∉ text)
    (htext : stringify v = .ok (some text)) :
    TextRoundTrips zoneOffset v ↔
      setFromString zoneOffset v.type ⟨text, h0⟩ = .ok (some v) := by
  constructor
  · rintro ⟨text', htext', hread⟩
    rw [htext, Except.ok.injEq, Option.some_inj] at htext'
    have heq : text' = ⟨text, h0⟩ := Subtype.ext htext'.symm
    rw [← heq]
    exact hread
  · intro hread
    exact ⟨⟨text, h0⟩, htext, hread⟩

theorem not_textRoundTrips_null {v : SerialValue} (htext : stringify v = .ok (some nullText))
    (hread : setFromString zoneOffset v.type ⟨nullText, zero_notMem_nullText⟩ = .ok none) :
    ¬ TextRoundTrips zoneOffset v := by
  rw [textRoundTrips_iff_read zero_notMem_nullText htext, hread]
  exact nofun

theorem textRoundTrips_iff (v : SerialValue) (hvalid : v.valid = true) :
    TextRoundTrips zoneOffset v ↔ TextKept v := by
  cases v with
  | number type i =>
    rw [textRoundTrips_iff_read (zero_notMem_numberText type i.1) rfl, TextKept,
      ← numberFromString_text type i]
    simp only [SerialValue.type, setFromString, Except.ok.injEq]
    cases numberFromString type (numberText type i.1) with
    | none => exact iff_of_false (fun hno => by cases hno) (fun hno => by cases hno)
    | some j => simp
  | boolean b =>
    refine iff_of_true ?_ trivial
    cases b with
    | false => exact ⟨⟨bytes "FALSE", by decide⟩, rfl, rfl⟩
    | true => exact ⟨⟨bytes "TRUE", by decide⟩, rfl, rfl⟩
  | date d =>
    cases d with
    | none => exact iff_of_false (not_textRoundTrips_null rfl rfl) (by rintro ⟨_, h, -⟩; cases h)
    | some d =>
      rw [textRoundTrips_iff_read (zero_notMem_dateText d) rfl]
      simp only [SerialValue.type, setFromString, TextKept, Except.ok.injEq, Option.mem_some_iff,
        exists_eq_left', ← parseIso8601Date_text]
      cases parseIso8601Date (dateText d) with
      | none => exact iff_of_false (fun hno => by cases hno) (fun hno => by cases hno)
      | some d' => simp
  | time t =>
    cases t with
    | none => exact iff_of_false (not_textRoundTrips_null rfl rfl) (by rintro ⟨_, h, -⟩; cases h)
    | some t =>
      rw [textRoundTrips_iff_read (zero_notMem_timeText t) rfl]
      simp only [SerialValue.type, setFromString, TextKept, Except.ok.injEq, Option.mem_some_iff,
        exists_eq_left', ← @parseIso8601Time_timeText zoneOffset t hvalid]
      cases parseIso8601Time zoneOffset (timeText t) with
      | none => exact iff_of_false (fun hno => by cases hno) (fun hno => by cases hno)
      | some t' => simp
  | timestamp ts =>
    cases ts with
    | none => exact iff_of_false (not_textRoundTrips_null rfl rfl) (by rintro ⟨_, h, -⟩; cases h)
    | some ts =>
      have hboth : dateValidDmy (ts.day.toNat % 256) ts.month.toNat ts.dateYear = true ∧
          clockValid ts.hour ts.minute ts.second = true := Bool.and_eq_true_iff.1 hvalid
      have hday : dateValidDmy ts.day.toNat ts.month.toNat ts.dateYear = true ↔
          ts.day.toNat < 256 := by
        constructor
        · intro h
          have hbounds := dateValidDmy_bounds h
          omega
        · intro h
          rw [← Nat.mod_eq_of_lt h]
          exact hboth.1
      rw [textRoundTrips_iff_read (zero_notMem_timestampText ts) rfl]
      simp only [SerialValue.type, setFromString, TextKept, Except.ok.injEq, Option.mem_some_iff,
        exists_eq_left', ← hday, ← @parseIso8601Timestamp_text zoneOffset ts hboth.2]
      cases parseIso8601Timestamp zoneOffset (timestampText ts) with
      | none => exact iff_of_false (fun hno => by cases hno) (fun hno => by cases hno)
      | some ts' => simp
  | binary data =>
    cases data with
    | none =>
      refine iff_of_false ?_ (by rintro ⟨_, h, -⟩; cases h)
      rintro ⟨_, htext, -⟩
      cases htext
    | some data =>
      simp only [TextKept, Option.mem_some_iff, exists_eq_left']
      by_cases hfits : data.countP isRewritten * 4 < 2 ^ 31
      · have htext : stringify (.binary (some data)) = .ok (some (written data)) := by
          rw [stringify, binaryToString_zero_of_fits hfits]
        rw [textRoundTrips_iff_read (zero_notMem_written data) htext]
        refine iff_of_true ?_ hfits
        have hread := (stringToBinary_eq_some ⟨written data, zero_notMem_written data⟩).2
          (denotes_written data)
        rw [SerialValue.type, setFromString, hread]
        rfl
      · refine iff_of_false ?_ hfits
        rintro ⟨text, htext, -⟩
        rw [stringify, binaryToString_zero_of_overflows hfits] at htext
        cases htext
  | string s =>
    cases s with
    | none =>
      refine iff_of_false ?_ (not_not.2 rfl)
      rintro ⟨text, htext, -⟩
      cases htext
    | some s => exact iff_of_true ⟨s, rfl, rfl⟩ (fun hno => by cases hno)

theorem not_xmlRoundTrips {typeFromString : String → Option SerialType}
    {setContent : Option Bytes → CBytes} (v : SerialValue) :
    ¬ XmlRoundTrips zoneOffset typeFromString setContent v := by
  rintro ⟨node, hwrite, hread⟩
  cases hserialize : serialize v with
  | error fault =>
    rw [valueToXml, hserialize] at hwrite
    cases hwrite
  | ok text =>
    rw [valueToXml, hserialize] at hwrite
    obtain rfl := Except.ok.inj hwrite
    have hnone : valueNewFromXml zoneOffset typeFromString
        { name := "value", props := [("type", v.type.typeName)], content := setContent text } =
          .ok (some none) := rfl
    rw [hnone] at hread
    cases hread

/-- No value is read from its XML node, and one is read from its text exactly when that keeps it. -/
theorem valueRoundTrips_never (zoneOffset : Bytes → Option Int64)
    (typeFromString : String → Option SerialType) (setContent : Option Bytes → CBytes)
    (v : SerialValue) (hvalid : v.valid = true) :
    ¬ (TextRoundTrips zoneOffset v ∧ XmlRoundTrips zoneOffset typeFromString setContent v) ∧
      (TextRoundTrips zoneOffset v ↔ TextKept v) ∧
      ¬ XmlRoundTrips zoneOffset typeFromString setContent v :=
  ⟨fun h => not_xmlRoundTrips v h.2, textRoundTrips_iff v hvalid, not_xmlRoundTrips v⟩

def exampleTime : SerialValue := .time (some ⟨12, 34, 56, 7, -18000⟩)

theorem exampleTime_roundTrips :
    ¬ (TextRoundTrips (fun _ => none) exampleTime ∧
        XmlRoundTrips (fun _ => none) (fun _ => none) (fun _ => ⟨[], List.not_mem_nil⟩)
          exampleTime) ∧
      (TextRoundTrips (fun _ => none) exampleTime ↔ TextKept exampleTime) ∧
      ¬ XmlRoundTrips (fun _ => none) (fun _ => none) (fun _ => ⟨[], List.not_mem_nil⟩)
        exampleTime :=
  valueRoundTrips_never _ _ _ exampleTime (by decide)

/-- A `gushort` has no text, and a boolean has no type in XML. -/
theorem ushort_boolean_lost :
    ¬ TextRoundTrips (fun _ => none) (.number .ushort ⟨7, by decide⟩) ∧
      ¬ XmlRoundTrips (fun _ => none) (fun _ => some .boolean)
        (fun _ => ⟨bytes "true", by decide⟩) (.boolean true) := by
  refine ⟨?_, not_xmlRoundTrips _⟩
  intro h
  exact absurd rfl ((textRoundTrips_iff _ rfl).1 h)

end RoundTrip

end LibGda
