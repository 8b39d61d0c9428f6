import LibGda.DecimalText
import LibGda.ValueCompare

/-! The texts of dates and times, and `gda_parse_iso8601_date` and its siblings. -/

namespace LibGda

open DecimalText

inductive GDateDmy where
  | day
  | month
  | year
  deriving DecidableEq

structure DmyDate where
  day : Fin 64
  month : Fin 16
  year : UInt16
  deriving DecidableEq

def isLeapYear (year : Nat) : Bool := year % 4 == 0 && (year % 100 != 0 || year % 400 == 0)

def daysInMonth (month year : Nat) : Nat :=
  if month = 2 then (if isLeapYear year then 29 else 28)
  else if month = 4 ∨ month = 6 ∨ month = 9 ∨ month = 11 then 30 else 31

def dateValidDmy (day month year : Nat) : Bool :=
  0 < month && month < 13 && 0 < day && 0 < year && day ≤ daysInMonth month year

def DmyDate.valid (d : DmyDate) : Bool := dateValidDmy d.day d.month d.year.toNat

def timezoneInvalid : Int64 := 86400

section Reading

/-- One of the numbers of a date; an `unsigned long` takes it. -/
def dateDigit (n d : Nat) : Option Nat := some ((n * 10 + d) % 2 ^ 64)

/-- A number of a date, and what is behind it, as a `guint16`. -/
def readDatePart (s : Bytes) : Option (Nat × Bytes) :=
  (readDigits dateDigit s.length 0 s).map fun r => (r.1 % 2 ^ 16, r.2)

def skipByte (sep : UInt8) : Bytes → Option Bytes
  | b :: s => if b = sep then some s else none
  | [] => none

def datePart (first second : GDateDmy) (parts : Nat × Nat × Nat) (part : GDateDmy) : Nat :=
  if first = part then parts.1 else if second = part then parts.2.1 else parts.2.2

def dateOfNumbers (day month year : Nat) : Option DmyDate :=
  if 0 < month ∧ month ≤ 12 ∧ 0 < day ∧ day ≤ 255 ∧ dateValidDmy day month year = true then
    some ⟨Fin.ofNat 64 day, Fin.ofNat 16 month, UInt16.ofNat year⟩
  else none

def parseFormattedDate (first second third : GDateDmy) (sep : UInt8) (value : Bytes) :
    Option (DmyDate × Bytes) :=
  if first = second ∨ first = third ∨ second = third then none
  else if IsDigit sep then none
  else do
    let (n₁, s) ← readDatePart value
    let s ← skipByte sep s
    let (n₂, s) ← readDatePart s
    let s ← skipByte sep s
    let (n₃, s) ← readDatePart s
    let part := datePart first second (n₁, n₂, n₃)
    (dateOfNumbers (part .day) (part .month) (part .year)).map fun d => (d, s)

def parseIso8601Date (value : Bytes) : Option DmyDate :=
  match parseFormattedDate .year .month .day (byte '-') value with
  | some (d, []) => some d
  | _ => none

def atMost (max n d : Nat) : Option Nat := if max < n * 10 + d then none else some (n * 10 + d)

def readTimePart (max : Nat) (s : Bytes) : Option (Nat × Bytes) := readDigits (atMost max) 2 0 s

def skipSeparator (sep : UInt8) (s : Bytes) : Option Bytes :=
  if s = [] then none else if sep = 0 then some s else skipByte sep s

def fractionDigit (n d : Nat) : Option Nat :=
  if (2 ^ 64 - 1) / 10 < n then none else some ((n * 10 + d) % 2 ^ 64)

def readFraction (s : Bytes) : Option (Nat × Bytes) :=
  match s with
  | b :: digits =>
    if b = byte '.' then
      (if digits = [] then none else readDigits fractionDigit digits.length 0 digits)
    else some (0, s)
  | [] => some (0, s)

def zoneDigit (n d : Nat) : Option Nat := if 24 ≤ n * 10 + d then none else some (n * 10 + d)

def asciiIsSpace (b : UInt8) : Bool := b == 32 || b == 9 || b == 10 || b == 12 || b == 13

def eitherCase (upper lower : Char) (b : UInt8) : Bool := b == byte upper || b == byte lower

def readZoneName (zoneOffset : Bytes → Option Int64) (name : Bytes) : Option Int64 :=
  match name with
  | [b₁, b₂, b₃] =>
    if (eitherCase 'G' 'g' b₁ && eitherCase 'M' 'm' b₂ && eitherCase 'T' 't' b₃) ||
        (eitherCase 'U' 'u' b₁ && eitherCase 'T' 't' b₂ && eitherCase 'C' 'c' b₃) then some 0
    else systemZone name
  | [b₁, b₂] => if eitherCase 'T' 'u' b₁ && eitherCase 'U' 'u' b₂ then some 0 else systemZone name
  | [b] => if eitherCase 'Z' 'z' b then some 0 else systemZone name
  | _ => systemZone name
where
  systemZone (name : Bytes) : Option Int64 :=
    match zoneOffset name with
    | some offset => if offset = 0 then none else some offset
    | none => none

def readZone (zoneOffset : Bytes → Option Int64) (timezone : Int64) (s : Bytes) :
    Option (Int64 × Bytes) :=
  match s with
  | [] => some (timezone, [])
  | b :: rest =>
    if b = byte '+' ∨ b = byte '-' then
      (readDigits zoneDigit rest.length 0 rest).map fun r =>
        (Int64.ofInt ((if b = byte '-' then -1 else 1) * (r.1 * 3600 : Nat)), r.2)
    else (readZoneName zoneOffset (s.dropWhile asciiIsSpace)).map fun offset => (offset, [])

def continuesTime (s : Bytes) : Bool :=
  match s with
  | [] => true
  | b :: _ => b == byte '.' || b == byte '+' || b == byte '-'

/-- `_parse_iso8601_time`; `sep` is 0 when there is no separator. -/
def parseTime (zoneOffset : Bytes → Option Int64) (value : Bytes) (sep : UInt8) (timezone : Int64) :
    Option (GdaTime × Bytes) := do
  if ¬ ∃ b ∈ value.head?, IsDigit b then none
  else
    let (hour, s) ← readTimePart 23 value
    let s ← skipSeparator sep s
    let (minute, s) ← readTimePart 59 s
    let s ← skipSeparator sep s
    let (second, s) ← readTimePart 59 s
    let time := ⟨UInt16.ofNat hour, UInt16.ofNat minute, UInt16.ofNat second, 0, timezone⟩
    if continuesTime s = false then some (time, s)
    else
      let (fraction, s) ← readFraction s
      let (timezone, s) ← readZone zoneOffset timezone s
      some ({ time with fraction := UInt64.ofNat fraction, timezone }, s)

def parseFormattedTime (zoneOffset : Bytes → Option Int64) (value : Bytes) (sep : UInt8) :
    Option GdaTime :=
  match parseTime zoneOffset value sep timezoneInvalid with
  | some (t, []) => some t
  | _ => none

def parseIso8601Time (zoneOffset : Bytes → Option Int64) (value : Bytes) : Option GdaTime :=
  parseFormattedTime zoneOffset value (byte ':')

end Reading

section Writing

def clockText (hour minute second : Nat) : Bytes :=
  padded 2 hour ++ byte ':' :: (padded 2 minute ++ byte ':' :: padded 2 second)

def fractionText (fraction : UInt64) : Bytes :=
  if fraction = 0 then [] else byte '.' :: decimal fraction.toNat

/-- The hours of a time zone, which is an `int` here. -/
def zoneHours (timezone : Int64) : Int := timezone.toInt32.toInt.tdiv 3600

/-- `%+02d`, if there is a time zone. -/
def zoneText (timezone : Int64) : Bytes :=
  if timezone = timezoneInvalid then [] else signed (zoneHours timezone)

end Writing

section Dates

theorem readDatePart_padded {width n : Nat} {rest : Bytes} (hn : n < 2 ^ 64)
    (hrest : ∀ b ∈ rest.head?, ¬ IsDigit b) :
    readDatePart (padded width n ++ rest) = some (n % 2 ^ 16, rest) := by
  have hends : EndsDigits (padded width n ++ rest).length (padded width n) rest := by
    rw [List.length_append]
    rcases Nat.eq_zero_or_pos rest.length with hzero | hpos
    · exact .inl (by omega)
    · exact .inr ⟨by omega, hrest⟩
  have hnext : ∀ k d, k * 10 + d ≤ 2 ^ 64 - 1 → dateDigit k d = some (k * 10 + d) := by
    intro k d hle
    rw [dateDigit, Nat.mod_eq_of_lt (by omega)]
  have hnumber := number_padded width n
  have hfolded : DecimalText.folded dateDigit 0 (padded width n) = some (number 0 (padded width n)) :=
    folded_of_le hnext (by omega)
  rw [readDatePart, readDigits_append 0 (isDigit_of_mem_padded width n) hends, hfolded, hnumber]
  rfl

theorem dateText_part {width n : Nat} {sep : UInt8} {rest : Bytes} (hn : n < 2 ^ 64)
    (hsep : ¬ IsDigit sep) :
    readDatePart (padded width n ++ sep :: rest) = some (n % 2 ^ 16, sep :: rest) :=
  readDatePart_padded hn fun _ hb => Option.some.inj hb ▸ hsep

theorem skipByte_cons (sep : UInt8) (s : Bytes) : skipByte sep (sep :: s) = some s := if_pos rfl

theorem daysInMonth_le (month year : Nat) : daysInMonth month year ≤ 31 := by
  rw [daysInMonth]
  split
  · split <;> omega
  · split <;> omega

theorem dateValidDmy_bounds {day month year : Nat} (h : dateValidDmy day month year = true) :
    0 < month ∧ month ≤ 12 ∧ 0 < day ∧ day ≤ 31 := by
  rw [dateValidDmy] at h
  simp only [Bool.and_eq_true, decide_eq_true_eq] at h
  obtain ⟨⟨⟨⟨hmonth, hmonth'⟩, hday⟩, -⟩, hdays⟩ := h
  have hle := daysInMonth_le month year
  exact ⟨hmonth, by omega, hday, by omega⟩

theorem dateOfNumbers_eq (day month year : Nat) :
    dateOfNumbers day month year = if dateValidDmy day month year = true then
      some ⟨Fin.ofNat 64 day, Fin.ofNat 16 month, UInt16.ofNat year⟩ else none := by
  rw [dateOfNumbers]
  by_cases hvalid : dateValidDmy day month year = true
  · obtain ⟨hmonth, hmonth', hday, hday'⟩ := dateValidDmy_bounds hvalid
    rw [if_pos ⟨hmonth, hmonth', hday, by omega, hvalid⟩, if_pos hvalid]
  · rw [if_neg fun h => hvalid h.2.2.2.2, if_neg hvalid]

theorem parseFormattedDate_text {year month day : Nat} {rest : Bytes} (hyear : year < 2 ^ 64)
    (hmonth : month < 2 ^ 16) (hday : day < 2 ^ 16) (hrest : ∀ b ∈ rest.head?, ¬ IsDigit b) :
    parseFormattedDate .year .month .day (byte '-')
        (padded 4 year ++ byte '-' :: (padded 2 month ++ byte '-' :: (padded 2 day ++ rest))) =
      (dateOfNumbers day month (year % 2 ^ 16)).map fun d => (d, rest) := by
  have hsep : ¬ IsDigit (byte '-') := by decide
  rw [parseFormattedDate, if_neg (by decide), if_neg hsep, dateText_part hyear hsep]
  simp only [Option.bind_eq_bind, Option.bind_some, skipByte_cons]
  rw [dateText_part (by omega) hsep]
  simp only [Option.bind_some, skipByte_cons]
  rw [readDatePart_padded (by omega) hrest]
  simp only [Option.bind_some]
  rw [Nat.mod_eq_of_lt hmonth, Nat.mod_eq_of_lt hday]
  rfl

end Dates

section Times

variable {zoneOffset : Bytes → Option Int64}

theorem readTimePart_padded {max n : Nat} (rest : Bytes) (hmax : max < 100) (hn : n ≤ max) :
    readTimePart max (padded 2 n ++ rest) = some (n, rest) := by
  have hlength : (padded 2 n).length = 2 := length_padded (by omega)
  have hnext : ∀ k d, k * 10 + d ≤ max → atMost max k d = some (k * 10 + d) := by
    intro k d hle
    exact if_neg (by omega)
  have hnumber := number_padded 2 n
  have hfolded : DecimalText.folded (atMost max) 0 (padded 2 n) = some (number 0 (padded 2 n)) :=
    folded_of_le hnext (by omega)
  rw [readTimePart, readDigits_append 0 (isDigit_of_mem_padded 2 n) (.inl hlength), hfolded,
    hnumber]
  rfl

theorem readFraction_text (fraction : UInt64) {rest : Bytes}
    (hrest : ∀ b ∈ rest.head?, ¬ IsDigit b ∧ b ≠ byte '.') :
    readFraction (fractionText fraction ++ rest) = some (fraction.toNat, rest) := by
  by_cases hzero : fraction = 0
  · rw [fractionText, if_pos hzero, List.nil_append, hzero]
    cases rest with
    | nil => rfl
    | cons b rest => exact if_neg (hrest b rfl).2
  · have hends : EndsDigits (decimal fraction.toNat ++ rest).length (decimal fraction.toNat)
      rest := by
      rw [List.length_append]
      rcases Nat.eq_zero_or_pos rest.length with hnil | hpos
      · exact .inl (by omega)
      · exact .inr ⟨by omega, fun b hb => (hrest b hb).1⟩
    have hnext : ∀ k d, k * 10 + d ≤ 2 ^ 64 - 1 → fractionDigit k d = some (k * 10 + d) := by
      intro k d hle
      rw [fractionDigit, if_neg (by omega), Nat.mod_eq_of_lt (by omega)]
    have hbound := fraction.toNat_lt
    have hnumber := number_decimal fraction.toNat
    have hfolded : DecimalText.folded fractionDigit 0 (decimal fraction.toNat) =
        some (number 0 (decimal fraction.toNat)) := folded_of_le hnext (by omega)
    have hne : decimal fraction.toNat ++ rest ≠ [] := by simp [decimal_ne_nil]
    rw [fractionText, if_neg hzero, List.cons_append, readFraction, if_pos rfl, if_neg hne,
      readDigits_append 0 (isDigit_of_mem_decimal _) hends, hfolded, hnumber]
    rfl

def zoneRead (timezone : Int64) : Option Int64 :=
  if timezone = timezoneInvalid then some timezone
  else if (zoneHours timezone).natAbs < 24 then some (Int64.ofInt (zoneHours timezone * 3600))
  else none

theorem folded_zoneDigit_of_ge {digits : Bytes} {n : Nat} (h : 24 ≤ number n digits) (hn : n < 24) :
    DecimalText.folded zoneDigit n digits = none := by
  induction digits generalizing n with
  | nil => exact absurd h (Nat.not_le_of_lt hn)
  | cons b digits ih =>
    rw [DecimalText.folded, zoneDigit]
    by_cases hle : 24 ≤ n * 10 + digitValue b
    · rw [if_pos hle]
    · rw [if_neg hle]
      exact ih h (by omega)

theorem readZone_text (timezone : Int64) :
    readZone zoneOffset timezoneInvalid (zoneText timezone) =
      (zoneRead timezone).map fun zone => (zone, []) := by
  rw [zoneText, zoneRead]
  by_cases hinvalid : timezone = timezoneInvalid
  · rw [if_pos hinvalid, if_pos hinvalid, hinvalid]
    rfl
  · rw [if_neg hinvalid, if_neg hinvalid, signed, readZone]
    have hsign : (if zoneHours timezone < 0 then (45 : UInt8) else 43) = byte '+' ∨
        (if zoneHours timezone < 0 then (45 : UInt8) else 43) = byte '-' := by
      split
      · exact .inr (by decide)
      · exact .inl (by decide)
    have hends : EndsDigits (decimal (zoneHours timezone).natAbs).length
        (decimal (zoneHours timezone).natAbs) [] := .inl rfl
    have hread := @readDigits_append zoneDigit _ _ _ 0
      (isDigit_of_mem_decimal (zoneHours timezone).natAbs) hends
    rw [List.append_nil] at hread
    have hnumber := number_decimal (zoneHours timezone).natAbs
    rw [if_pos hsign, hread]
    by_cases hhours : (zoneHours timezone).natAbs < 24
    · have hnext : ∀ k d, k * 10 + d ≤ 23 → zoneDigit k d = some (k * 10 + d) := by
        intro k d hle
        exact if_neg (by omega)
      have hfolded : DecimalText.folded zoneDigit 0 (decimal (zoneHours timezone).natAbs) =
          some (number 0 (decimal (zoneHours timezone).natAbs)) := folded_of_le hnext (by omega)
      rw [if_pos hhours, hfolded, hnumber]
      simp only [Option.map_some]
      congr 2
      by_cases hneg : zoneHours timezone < 0
      · rw [if_pos hneg, if_pos (by decide)]
        congr 1
        omega
      · rw [if_neg hneg, if_neg (by decide)]
        congr 1
        omega
    · rw [if_neg hhours, folded_zoneDigit_of_ge (by omega) (by decide)]
      rfl

theorem zoneText_head (timezone : Int64) :
    ∀ b ∈ (zoneText timezone).head?, b = byte '+' ∨ b = byte '-' := by
  intro b hb
  rw [zoneText] at hb
  by_cases hinvalid : timezone = timezoneInvalid
  · rw [if_pos hinvalid] at hb
    cases hb
  · rw [if_neg hinvalid, signed] at hb
    obtain rfl := Option.some.inj hb
    split
    · exact .inr (by decide)
    · exact .inl (by decide)

theorem continuesTime_text (fraction : UInt64) (timezone : Int64) :
    continuesTime (fractionText fraction ++ zoneText timezone) = true := by
  rw [fractionText]
  by_cases hzero : fraction = 0
  · rw [if_pos hzero, List.nil_append]
    have hhead := zoneText_head timezone
    cases hzone : zoneText timezone with
    | nil => rfl
    | cons b rest =>
      rw [hzone] at hhead
      rcases hhead b rfl with rfl | rfl
      · rfl
      · rfl
  · rw [if_neg hzero]
    rfl

theorem parseTime_text {hour minute second : UInt16} (fraction : UInt64) (timezone : Int64)
    (hhour : hour.toNat ≤ 23) (hminute : minute.toNat ≤ 59) (hsecond : second.toNat ≤ 59) :
    parseTime zoneOffset (clockText hour.toNat minute.toNat second.toNat ++
        (fractionText fraction ++ zoneText timezone)) (byte ':') timezoneInvalid =
      (zoneRead timezone).map fun zone => (⟨hour, minute, second, fraction, zone⟩, []) := by
  have hrest : ∀ b ∈ (zoneText timezone).head?, ¬ IsDigit b ∧ b ≠ byte '.' := by
    intro b hb
    rcases zoneText_head timezone b hb with rfl | rfl <;> decide
  have hskip : ∀ s, skipSeparator (byte ':') (byte ':' :: s) = some s := by
    intro s
    rw [skipSeparator, if_neg (List.cons_ne_nil _ _), if_neg (by decide), skipByte_cons]
  have hhead : ∃ b ∈ (padded 2 hour.toNat ++ byte ':' :: (padded 2 minute.toNat ++ byte ':' ::
      (padded 2 second.toNat ++ (fractionText fraction ++ zoneText timezone)))).head?,
        IsDigit b := by
    cases hpadded : padded 2 hour.toNat with
    | nil => exact absurd hpadded (padded_ne_nil 2 _)
    | cons b rest =>
      refine ⟨b, rfl, isDigit_of_mem_padded 2 hour.toNat b ?_⟩
      rw [hpadded]
      exact List.mem_cons_self
  have htext : clockText hour.toNat minute.toNat second.toNat ++
      (fractionText fraction ++ zoneText timezone) =
        padded 2 hour.toNat ++ byte ':' :: (padded 2 minute.toNat ++ byte ':' ::
          (padded 2 second.toNat ++ (fractionText fraction ++ zoneText timezone))) := by
    simp only [clockText, List.append_assoc, List.cons_append]
  rw [htext, parseTime, if_neg (not_not.2 hhead), readTimePart_padded _ (by decide) hhour]
  simp only [Option.bind_eq_bind, Option.bind_some, hskip]
  rw [readTimePart_padded _ (by decide) hminute]
  simp only [Option.bind_some, hskip]
  rw [readTimePart_padded _ (by decide) hsecond]
  simp only [Option.bind_some, continuesTime_text]
  rw [if_neg (by decide), readFraction_text fraction hrest]
  simp only [Option.bind_some]
  rw [readZone_text]
  cases zoneRead timezone with
  | none => rfl
  | some zone => simp

def ZoneKept (timezone : Int64) : Prop :=
  timezone = timezoneInvalid ∨ timezone.toInt % 3600 = 0 ∧ timezone.toInt.natAbs < 86400

theorem zoneHours_eq {timezone : Int64} (h : timezone.toInt.natAbs < 86400) :
    zoneHours timezone = timezone.toInt.tdiv 3600 := by
  rw [zoneHours, Int64.toInt_toInt32, Int.bmod_eq_of_le (by omega) (by omega)]

theorem zoneRead_eq_iff (timezone : Int64) :
    zoneRead timezone = some timezone ↔ ZoneKept timezone := by
  rw [zoneRead, ZoneKept]
  by_cases hinvalid : timezone = timezoneInvalid
  · rw [if_pos hinvalid]
    exact iff_of_true rfl (.inl hinvalid)
  · rw [if_neg hinvalid, or_iff_right hinvalid]
    by_cases hhours : (zoneHours timezone).natAbs < 24
    · rw [if_pos hhours, Option.some_inj, ← Int64.toInt_inj,
        Int64.toInt_ofInt_of_le (by omega) (by omega)]
      constructor
      · intro heq
        omega
      · rintro ⟨hwhole, hday⟩
        have hzone := zoneHours_eq hday
        have hdvd : (3600 : Int) ∣ timezone.toInt := Int.dvd_of_emod_eq_zero hwhole
        rw [hzone, Int.tdiv_mul_cancel hdvd]
    · rw [if_neg hhours]
      refine iff_of_false nofun ?_
      rintro ⟨-, hday⟩
      have hzone := zoneHours_eq hday
      rw [hzone, Int.natAbs_tdiv] at hhours
      have hlt : timezone.toInt.natAbs / 3600 < 24 := Nat.div_lt_of_lt_mul hday
      exact hhours hlt

end Times

end LibGda
