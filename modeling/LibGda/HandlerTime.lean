import LibGda.ValueRoundTrip

/-! `GdaHandlerTime`: dates and times as SQL and as texts for a locale. -/

namespace LibGda

open DecimalText

structure LocaleSetting where
  first : GDateDmy := .month
  second : GDateDmy := .day
  third : GDateDmy := .year
  twodigitYears : Bool := false
  currentOffset : Int32 := 0
  separator : UInt8 := byte '-'
  distinct : first ≠ second ∧ second ≠ third ∧ first ≠ third := by decide

structure GdaHandlerTime where
  sqlLocale : LocaleSetting := {}
  strLocale : LocaleSetting := {}

inductive TimeValue where
  | date (d : DmyDate)
  | time (t : GdaTime)
  | timestamp (ts : GdaTimestamp)
  deriving DecidableEq

inductive TimeType where
  | date
  | time
  | timestamp
  deriving DecidableEq

def TimeValue.type : TimeValue → TimeType
  | date _ => .date
  | time _ => .time
  | timestamp _ => .timestamp

def quoteByte : UInt8 := byte '\''

def cText (text : Bytes) : Bytes := text.takeWhile (· ≠ 0)

namespace LocaleSetting

variable (locale : LocaleSetting)

def inCentury (year : Nat) : Bool :=
  locale.currentOffset.toInt ≤ year && (year : Int) < gint (locale.currentOffset.toInt + 100)

def printedYear (year : Nat) : Nat × Nat :=
  if locale.twodigitYears && locale.inCentury year then
    (2, ((year : Int) - locale.currentOffset.toInt).toNat)
  else (4, year)

def partText (d : DmyDate) : GDateDmy → Bytes
  | .day => padded 2 d.day
  | .month => padded 2 d.month
  | .year => padded (locale.printedYear d.year.toNat).1 (locale.printedYear d.year.toNat).2

def dateParts (d : DmyDate) : Bytes :=
  locale.partText d locale.first ++ locale.separator :: (locale.partText d locale.second ++
    locale.separator :: locale.partText d locale.third)

def renderDate (d : DmyDate) : Bytes := cText (locale.dateParts d)

end LocaleSetting

/-- `g_date_new_dmy`, of the numbers of a timestamp; the day is cast to a byte. -/
theorem neZero_days : NeZero 64 := inferInstance

theorem neZero_months : NeZero 16 := inferInstance

def timestampDate (ts : GdaTimestamp) : Option DmyDate :=
  if dateValidDmy (ts.day.toNat % 256) ts.month.toNat ts.year.toUInt16.toNat then
    some ⟨@Fin.ofNat 64 neZero_days (ts.day.toNat % 256), @Fin.ofNat 16 neZero_months ts.month.toNat,
      ts.year.toUInt16⟩
  else none

def renderTimestamp (locale : LocaleSetting) (ts : GdaTimestamp) : Option Bytes :=
  (timestampDate ts).map fun d => locale.renderDate d ++ byte ' ' ::
    (clockText ts.hour.toNat ts.minute.toNat ts.second.toNat ++
      (fractionText ts.fraction ++ zoneText ts.timezone))

namespace GdaHandlerTime

variable (hdl : GdaHandlerTime)

def sqlFromValue : TimeValue → Bytes
  | .date d => quoteByte :: (hdl.sqlLocale.renderDate d ++ [quoteByte])
  | .time t =>
    quoteByte :: (clockText t.hour.toNat t.minute.toNat t.second.toNat ++ zoneText t.timezone ++
      [quoteByte])
  | .timestamp ts =>
    match renderTimestamp hdl.sqlLocale ts with
    | some text => quoteByte :: (text ++ [quoteByte])
    | none => bytes "NULL"

def stripQuotes (s : Bytes) : Bytes :=
  let s := if s.head? = some quoteByte then s.tail else s
  if s.getLast? = some quoteByte then s.dropLast else s

def strFromValue : TimeValue → Bytes
  | .date d => hdl.strLocale.renderDate d
  | .time t => stripQuotes (hdl.sqlFromValue (.time t))
  | .timestamp ts => (renderTimestamp hdl.strLocale ts).getD []

/-- Some digits, whose number is a `guint16`. -/
def readUint (s : Bytes) : Option (Nat × Bytes) :=
  let digits := s.takeWhile fun b => IsDigit b
  if digits = [] then none
  else if number 0 digits ≤ 65535 then some (number 0 digits, s.dropWhile fun b => IsDigit b)
  else none

def yearRead (locale : LocaleSetting) (n : Nat) : Nat :=
  if n < 100 then ((n + locale.currentOffset.toInt) % 2 ^ 16).toNat else n

def dateRead (locale : LocaleSetting) (day month yearNumber : Nat) : Option DmyDate :=
  let year := yearRead locale yearNumber
  if day ≤ 255 ∧ 0 < day ∧ day < 32 ∧ month ≤ 12 ∧ 0 < month ∧ 0 < year ∧
      dateValidDmy day month year = true then
    some ⟨@Fin.ofNat 64 neZero_days day, @Fin.ofNat 16 neZero_months month, UInt16.ofNat year⟩
  else none

def makeDate (locale : LocaleSetting) (value : Bytes) : Option (DmyDate × Bytes) := do
  let (n₁, s) ← readUint value
  let s ← skipByte locale.separator s
  let (n₂, s) ← readUint s
  let s ← skipByte locale.separator s
  let (n₃, s) ← readUint s
  let part := datePart locale.first locale.second (n₁, n₂, n₃)
  (dateRead locale (part .day) (part .month) (part .year)).map fun d => (d, s)

def makeTime (zoneOffset : Bytes → Option Int64) (value : Bytes) : Option GdaTime :=
  match parseIso8601Time zoneOffset value with
  | some t => some t
  | none => parseFormattedTime zoneOffset value 0

def makeTimestamp (zoneOffset : Bytes → Option Int64) (locale : LocaleSetting) (value : Bytes) :
    Option GdaTimestamp := do
  let (d, s) ← makeDate locale value
  let s ← skipByte (byte ' ') s
  let t ← makeTime zoneOffset s
  pure ⟨d.year.toInt16, UInt16.ofNat d.month, UInt16.ofNat d.day, t.hour, t.minute, t.second,
    t.fraction, t.timezone⟩

def valueFromLocale (zoneOffset : Bytes → Option Int64) (locale : LocaleSetting) (s : Bytes) :
    TimeType → Option TimeValue
  | .date =>
    match makeDate locale s with
    | some (d, []) => some (.date d)
    | _ => none
  | .time => (makeTime zoneOffset s).map .time
  | .timestamp => (makeTimestamp zoneOffset locale s).map .timestamp

/-- `gda_handler_time_get_value_from_sql`, when it gives a value which is not NULL. -/
def valueFromSql (zoneOffset : Bytes → Option Int64) (sql : Bytes) (type : TimeType) :
    Option TimeValue :=
  if 2 ≤ sql.length ∧ sql.head? = some quoteByte ∧ sql.getLast? = some quoteByte then
    valueFromLocale zoneOffset hdl.sqlLocale sql.tail.dropLast type
  else none

def valueFromStr (zoneOffset : Bytes → Option Int64) (s : Bytes) (type : TimeType) :
    Option TimeValue :=
  if s.head? = some quoteByte then none else valueFromLocale zoneOffset hdl.strLocale s type

end GdaHandlerTime

end LibGda

/-! Dates and times which a `GdaHandlerTime` reads back. -/

namespace LibGda

open DecimalText GdaHandlerTime

section Numbers

theorem span_digits {digits rest : Bytes} (hdigits : ∀ b ∈ digits, IsDigit b)
    (hrest : ∀ b ∈ rest.head?, ¬ IsDigit b) :
    (digits ++ rest).takeWhile (fun b => decide (IsDigit b)) = digits ∧
      (digits ++ rest).dropWhile (fun b => decide (IsDigit b)) = rest := by
  induction digits with
  | nil =>
    cases rest with
    | nil => exact ⟨rfl, rfl⟩
    | cons b rest =>
      have hb : decide (IsDigit b) = false := decide_eq_false (hrest b rfl)
      rw [List.nil_append, List.takeWhile_cons, List.dropWhile_cons, hb]
      exact ⟨rfl, rfl⟩
  | cons b digits ih =>
    obtain ⟨hb, hdigits⟩ := List.forall_mem_cons.1 hdigits
    obtain ⟨htake, hdrop⟩ := ih hdigits
    rw [List.cons_append, List.takeWhile_cons, List.dropWhile_cons, decide_eq_true hb, htake, hdrop]
    exact ⟨rfl, rfl⟩

theorem readUint_padded {width n : Nat} {rest : Bytes} (hn : n ≤ 65535)
    (hrest : ∀ b ∈ rest.head?, ¬ IsDigit b) : readUint (padded width n ++ rest) =
      some (n, rest) := by
  obtain ⟨htake, hdrop⟩ := span_digits (isDigit_of_mem_padded width n) hrest
  have hnumber := number_padded width n
  rw [readUint, htake, hdrop, if_neg (padded_ne_nil width n), hnumber, if_pos hn]

end Numbers

section Dates

variable {locale : LocaleSetting} {d : DmyDate} {rest : Bytes}

def LocaleSetting.partNumber (locale : LocaleSetting) (d : DmyDate) : GDateDmy → Nat
  | .day => d.day
  | .month => d.month
  | .year => (locale.printedYear d.year.toNat).2

theorem partText_eq (part : GDateDmy) :
    ∃ width, locale.partText d part = padded width (locale.partNumber d part) := by
  cases part with
  | day => exact ⟨2, rfl⟩
  | month => exact ⟨2, rfl⟩
  | year => exact ⟨(locale.printedYear d.year.toNat).1, rfl⟩

theorem inCentury_bounds {year : Nat} (h : locale.inCentury year = true) :
    locale.currentOffset.toInt ≤ year ∧ (year : Int) < locale.currentOffset.toInt + 100 := by
  rw [LocaleSetting.inCentury, Bool.and_eq_true] at h
  have hlow : locale.currentOffset.toInt ≤ year := of_decide_eq_true h.1
  have hhigh : (year : Int) < gint (locale.currentOffset.toInt + 100) := of_decide_eq_true h.2
  have hmin := locale.currentOffset.le_toInt
  have hmax := locale.currentOffset.toInt_lt
  refine ⟨hlow, ?_⟩
  by_cases hbound : locale.currentOffset.toInt + 100 < 2 ^ 31
  · rw [gint_of_bounds (by omega) hbound] at hhigh
    exact hhigh
  · rw [gint, Int.bmod_def] at hhigh
    omega

theorem partNumber_le (part : GDateDmy) : locale.partNumber d part ≤ 65535 := by
  have hday := d.day.isLt
  have hmonth := d.month.isLt
  have hyear := d.year.toNat_lt
  cases part with
  | day => exact Nat.le_trans (Nat.le_of_lt hday) (by decide)
  | month => exact Nat.le_trans (Nat.le_of_lt hmonth) (by decide)
  | year =>
    rw [LocaleSetting.partNumber, LocaleSetting.printedYear]
    split
    · rename_i hcentury
      rw [Bool.and_eq_true] at hcentury
      have hbounds := inCentury_bounds hcentury.2
      show ((d.year.toNat : Int) - locale.currentOffset.toInt).toNat ≤ 65535
      omega
    · exact Nat.le_of_lt_succ hyear

theorem readUint_partText (part : GDateDmy) (hrest : ∀ b ∈ rest.head?, ¬ IsDigit b) :
    readUint (locale.partText d part ++ rest) = some (locale.partNumber d part, rest) := by
  obtain ⟨width, htext⟩ := @partText_eq locale d part
  rw [htext]
  exact readUint_padded (partNumber_le part) hrest

theorem zero_notMem_partText (part : GDateDmy) : 0 ∉ locale.partText d part := by
  obtain ⟨width, htext⟩ := @partText_eq locale d part
  rw [htext]
  exact zero_notMem_padded _ _

theorem datePart_eq (f : GDateDmy → Nat) (part : GDateDmy) :
    datePart locale.first locale.second (f locale.first, f locale.second, f locale.third) part =
      f part := by
  obtain ⟨h₁₂, h₂₃, h₁₃⟩ := locale.distinct
  rw [datePart]
  by_cases hfirst : locale.first = part
  · rw [if_pos hfirst, hfirst]
  · by_cases hsecond : locale.second = part
    · rw [if_neg hfirst, if_pos hsecond, hsecond]
    · have hthird : locale.third = part := by
        revert hfirst hsecond h₁₂ h₂₃ h₁₃
        cases locale.first <;> cases locale.second <;> cases locale.third <;> cases part <;> decide
      rw [if_neg hfirst, if_neg hsecond, hthird]

theorem makeDate_dateParts (hsep : ¬ IsDigit locale.separator)
    (hrest : ∀ b ∈ rest.head?, ¬ IsDigit b) :
    makeDate locale (locale.dateParts d ++ rest) =
      (dateRead locale d.day d.month (locale.printedYear d.year.toNat).2).map
        fun d => (d, rest) := by
  have hhead : ∀ s : Bytes, ∀ b ∈ (locale.separator :: s).head?, ¬ IsDigit b :=
    fun s b hb => Option.some.inj hb ▸ hsep
  have htext : locale.dateParts d ++ rest = locale.partText d locale.first ++ locale.separator ::
      (locale.partText d locale.second ++ locale.separator ::
        (locale.partText d locale.third ++ rest)) := by
    simp only [LocaleSetting.dateParts, List.append_assoc, List.cons_append]
  rw [htext, makeDate, readUint_partText _ (hhead _)]
  simp only [Option.bind_eq_bind, Option.bind_some, skipByte_cons]
  rw [readUint_partText _ (hhead _)]
  simp only [Option.bind_some, skipByte_cons]
  rw [readUint_partText _ hrest]
  simp only [Option.bind_some, datePart_eq]
  rfl

def YearKept (locale : LocaleSetting) (year : Nat) : Prop :=
  100 ≤ year ∨ locale.currentOffset.toInt % 2 ^ 16 = 0 ∨
    locale.twodigitYears = true ∧ locale.inCentury year = true

theorem yearRead_eq_iff {year : Nat} (hyear : year < 2 ^ 16) :
    yearRead locale (locale.printedYear year).2 = year ↔ YearKept locale year := by
  rw [YearKept, LocaleSetting.printedYear]
  by_cases hcentury : (locale.twodigitYears && locale.inCentury year) = true
  · have hboth := Bool.and_eq_true_iff.1 hcentury
    have hbounds := inCentury_bounds hboth.2
    rw [if_pos hcentury]
    refine iff_of_true ?_ (.inr (.inr hboth))
    rw [yearRead, if_pos (by show _ < 100; omega)]
    show ((((year : Int) - locale.currentOffset.toInt).toNat + locale.currentOffset.toInt) %
      2 ^ 16).toNat = year
    omega
  · have hnot : ¬ (locale.twodigitYears = true ∧ locale.inCentury year = true) :=
      fun hand => hcentury (Bool.and_eq_true_iff.2 hand)
    rw [if_neg hcentury, or_iff_left hnot, yearRead]
    show (if year < 100 then _ else year) = year ↔ _
    by_cases hshort : year < 100
    · rw [if_pos hshort, or_iff_right (Nat.not_le_of_lt hshort)]
      show ((year + locale.currentOffset.toInt) % 2 ^ 16).toNat = year ↔ _
      omega
    · rw [if_neg hshort]
      exact iff_of_true rfl (.inl (Nat.le_of_not_lt hshort))

theorem DmyDate.year_pos (hvalid : d.valid = true) : 0 < d.year.toNat := by
  rw [DmyDate.valid, dateValidDmy] at hvalid
  simp only [Bool.and_eq_true, decide_eq_true_eq] at hvalid
  exact hvalid.1.2

theorem dateRead_eq_iff (hvalid : d.valid = true) :
    dateRead locale d.day d.month (locale.printedYear d.year.toNat).2 = some d ↔
      YearKept locale d.year.toNat := by
  rw [← yearRead_eq_iff d.year.toNat_lt, dateRead]
  have hbounds := dateValidDmy_bounds hvalid
  have hpos := d.year_pos hvalid
  constructor
  · intro heq
    split at heq
    · rename_i hread
      have hyear := congrArg (fun d => d.year.toNat) (Option.some.inj heq)
      have hlt : yearRead locale (locale.printedYear d.year.toNat).2 < 2 ^ 16 := by
        have hle := @partNumber_le locale d .year
        rw [LocaleSetting.partNumber] at hle
        rw [yearRead]
        split <;> omega
      simp only [UInt16.toNat_ofNat', Nat.mod_eq_of_lt hlt] at hyear
      exact hyear
    · cases heq
  · intro hyear
    simp only [hyear]
    refine (if_pos ?_).trans ?_
    · exact ⟨by omega, hbounds.2.2.1, by omega, hbounds.2.1, hbounds.1, hpos, hvalid⟩
    · obtain ⟨day, month, year⟩ := d
      simp

theorem cText_append {text rest : Bytes} (h : 0 ∉ text) : cText (text ++ rest) = text ++
    cText rest := by
  induction text with
  | nil => rfl
  | cons b text ih =>
    rw [List.mem_cons, not_or] at h
    rw [cText, List.cons_append, List.takeWhile_cons, if_pos (decide_eq_true (Ne.symm h.1))]
    exact congrArg (b :: ·) (ih h.2)

theorem renderDate_eq (hsep : locale.separator ≠ 0) : locale.renderDate d = locale.dateParts d := by
  have hzero : 0 ∉ locale.dateParts d := by
    simp only [LocaleSetting.dateParts, List.mem_append, List.mem_cons, not_or]
    exact ⟨zero_notMem_partText _, hsep.symm, zero_notMem_partText _, hsep.symm,
      zero_notMem_partText _⟩
  have happend := @cText_append (locale.dateParts d) [] hzero
  rw [List.append_nil] at happend
  rw [LocaleSetting.renderDate, happend]
  exact List.append_nil _

theorem renderDate_cut (hsep : locale.separator = 0) :
    locale.renderDate d = locale.partText d locale.first := by
  rw [LocaleSetting.renderDate, LocaleSetting.dateParts, cText_append (zero_notMem_partText _),
    hsep]
  exact List.append_nil _

theorem makeDate_cut (hsep : locale.separator = 0) (hrest : ∀ b ∈ rest.head?, ¬ IsDigit b ∧ b ≠ 0) :
    makeDate locale (locale.renderDate d ++ rest) = none := by
  have hdigits : ∀ b ∈ rest.head?, ¬ IsDigit b := fun b hb => (hrest b hb).1
  have hskip : skipByte 0 rest = none := by
    cases rest with
    | nil => rfl
    | cons b rest => exact if_neg (hrest b rfl).2
  rw [renderDate_cut hsep, makeDate, readUint_partText _ hdigits]
  simp only [Option.bind_eq_bind, Option.bind_some, hsep, hskip, Option.bind_none]

theorem dateRead_fields {n : Nat} {d' : DmyDate} (h : dateRead locale d.day d.month n = some d') :
    d'.day = d.day ∧ d'.month = d.month := by
  rw [dateRead] at h
  split at h
  · obtain rfl := Option.some.inj h
    obtain ⟨day, month, year⟩ := d
    simp
  · cases h

theorem readDate_iff (hsep : ¬ IsDigit locale.separator) (hvalid : d.valid = true)
    (hrest : ∀ b ∈ rest.head?, ¬ IsDigit b ∧ b ≠ 0) :
    makeDate locale (locale.renderDate d ++ rest) = some (d, rest) ↔
      locale.separator ≠ 0 ∧ YearKept locale d.year.toNat := by
  by_cases hzero : locale.separator = 0
  · rw [makeDate_cut hzero hrest]
    exact iff_of_false nofun fun h => h.1 hzero
  · rw [renderDate_eq hzero, makeDate_dateParts hsep fun b hb => (hrest b hb).1,
      and_iff_right hzero,
      ← dateRead_eq_iff hvalid]
    cases dateRead locale d.day d.month (locale.printedYear d.year.toNat).2 with
    | none => exact iff_of_false nofun nofun
    | some d' => simp

end Dates

section Times

variable {zoneOffset : Bytes → Option Int64} {locale : LocaleSetting}

theorem zoneRead_of_kept {timezone : Int64} (h : ZoneKept timezone) :
    zoneRead timezone = some timezone := (zoneRead_eq_iff timezone).2 h

theorem makeTime_text {hour minute second : UInt16} (fraction : UInt64) {timezone : Int64}
    (hclock : clockValid hour minute second = true) (hzone : ZoneKept timezone) :
    makeTime zoneOffset (clockText hour.toNat minute.toNat second.toNat ++
        (fractionText fraction ++ zoneText timezone)) =
      some ⟨hour, minute, second, fraction, timezone⟩ := by
  rw [makeTime, parseIso8601Time_text fraction timezone hclock, zoneRead_of_kept hzone]
  rfl

theorem makeTime_clock {t : GdaTime} (hclock : clockValid t.hour t.minute t.second = true)
    (hzone : ZoneKept t.timezone) :
    makeTime zoneOffset (clockText t.hour.toNat t.minute.toNat t.second.toNat ++
      zoneText t.timezone) = some t ↔ t.fraction = 0 := by
  have htext := @makeTime_text zoneOffset _ _ _ 0 _ hclock hzone
  have hnone : fractionText 0 = [] := rfl
  rw [hnone, List.nil_append] at htext
  rw [htext, Option.some_inj]
  constructor
  · intro heq
    exact (congrArg GdaTime.fraction heq).symm
  · intro hzero
    obtain ⟨hour, minute, second, fraction, timezone⟩ := t
    obtain rfl : fraction = 0 := hzero
    rfl

theorem timestampDate_eq {ts : GdaTimestamp}
    (h : dateValidDmy (ts.day.toNat % 256) ts.month.toNat ts.dateYear = true) :
    ∃ d, timestampDate ts = some d ∧ d.valid = true ∧ d.day.val = ts.day.toNat % 256 ∧
      d.month.val = ts.month.toNat ∧ d.year = ts.year.toUInt16 := by
  obtain ⟨-, hmonth, -, hday⟩ := dateValidDmy_bounds h
  have hdayMod : ts.day.toNat % 256 % 64 = ts.day.toNat % 256 := Nat.mod_eq_of_lt (by omega)
  have hmonthMod : ts.month.toNat % 16 = ts.month.toNat := Nat.mod_eq_of_lt (by omega)
  refine ⟨⟨Fin.ofNat 64 (ts.day.toNat % 256), Fin.ofNat 16 ts.month.toNat, ts.year.toUInt16⟩,
    ?_, ?_,
    hdayMod, hmonthMod, rfl⟩
  · exact if_pos h
  · rw [DmyDate.valid]
    simp only [Fin.ofNat, hdayMod, hmonthMod]
    exact h

theorem makeTimestamp_iff {ts : GdaTimestamp} {d : DmyDate} (hsep : ¬ IsDigit locale.separator)
    (hvalid : d.valid = true) (hday : d.day.val = ts.day.toNat % 256)
    (hmonth : d.month.val = ts.month.toNat) (hyear : d.year = ts.year.toUInt16)
    (hclock : clockValid ts.hour ts.minute ts.second = true) (hzone : ZoneKept ts.timezone) :
    makeTimestamp zoneOffset locale (locale.renderDate d ++ byte ' ' ::
        (clockText ts.hour.toNat ts.minute.toNat ts.second.toNat ++
          (fractionText ts.fraction ++ zoneText ts.timezone))) = some ts ↔
      locale.separator ≠ 0 ∧ ts.day.toNat < 256 ∧ YearKept locale ts.dateYear := by
  have hrest : ∀ s : Bytes, ∀ b ∈ (byte ' ' :: s).head?, ¬ IsDigit b ∧ b ≠ 0 := by
    intro s b hb
    obtain rfl := Option.some.inj hb
    decide
  have hdateYear : d.year.toNat = ts.dateYear := by rw [hyear, GdaTimestamp.dateYear]
  by_cases hzero : locale.separator = 0
  · rw [makeTimestamp, makeDate_cut hzero (hrest _)]
    exact iff_of_false (fun hno => by cases hno) fun h => h.1 hzero
  · rw [makeTimestamp, renderDate_eq hzero, makeDate_dateParts hsep fun b hb => (hrest _ b hb).1,
      and_iff_right hzero, ← hdateYear, ← dateRead_eq_iff hvalid]
    cases hread : dateRead locale d.day d.month (locale.printedYear d.year.toNat).2 with
    | none =>
      apply iff_of_false
      · intro hno
        cases hno
      · intro hno
        cases hno.2
    | some d' =>
      obtain ⟨hday', hmonth'⟩ := dateRead_fields hread
      simp only [Option.map_some, Option.bind_eq_bind, Option.bind_some, skipByte_cons,
        makeTime_text ts.fraction hclock hzone, Option.pure_def, Option.some_inj]
      have hdayLt := ts.day.toNat_lt
      rw [hday', hmonth', hday, hmonth]
      obtain ⟨year, month, day, hour, minute, second, fraction, timezone⟩ := ts
      simp only [GdaTimestamp.mk.injEq, UInt16.ofNat_toNat, true_and, and_true]
      constructor
      · rintro ⟨hyear', hday''⟩
        refine ⟨?_, ?_⟩
        · have hnat := congrArg UInt16.toNat hday''
          rw [UInt16.toNat_ofNat'] at hnat
          have hlt : day.toNat % 256 < 256 := Nat.mod_lt _ (by decide)
          omega
        · have hsame : d'.year = d.year := by
            rw [hyear, ← hyear']
            exact UInt16.toUInt16_toInt16 _
          obtain ⟨day₁, month₁, year₁⟩ := d
          obtain ⟨day₂, month₂, year₂⟩ := d'
          simp only [DmyDate.mk.injEq]
          exact ⟨hday', hmonth', hsame⟩
      · rintro ⟨hlt, rfl⟩
        rw [Nat.mod_eq_of_lt hlt, hyear]
        exact ⟨rfl, UInt16.ofNat_toNat⟩

end Times

section Values

variable {zoneOffset : Bytes → Option Int64} {hdl : GdaHandlerTime} {v : TimeValue}

def TimeValue.Valid : TimeValue → Prop
  | .date d => d.valid = true
  | .time t => clockValid t.hour t.minute t.second = true ∧ ZoneKept t.timezone
  | .timestamp ts => dateValidDmy (ts.day.toNat % 256) ts.month.toNat ts.dateYear = true ∧
      clockValid ts.hour ts.minute ts.second = true ∧ ZoneKept ts.timezone

def TimeValue.KeptBy (locale : LocaleSetting) : TimeValue → Prop
  | .date d => locale.separator ≠ 0 ∧ YearKept locale d.year.toNat
  | .time t => t.fraction = 0
  | .timestamp ts => locale.separator ≠ 0 ∧ ts.day.toNat < 256 ∧ YearKept locale ts.dateYear

theorem stripQuotes_quoted (text : Bytes) : stripQuotes (quoteByte :: (text ++ [quoteByte])) =
    text := by
  have hlast : (text ++ [quoteByte]).getLast? = some quoteByte := by simp
  rw [stripQuotes]
  show (if (text ++ [quoteByte]).getLast? = some quoteByte then (text ++ [quoteByte]).dropLast
    else text ++ [quoteByte]) = text
  rw [if_pos hlast, List.dropLast_concat]

theorem valueFromSql_quoted (text : Bytes) (type : TimeType) :
    hdl.valueFromSql zoneOffset (quoteByte :: (text ++ [quoteByte])) type =
      valueFromLocale zoneOffset hdl.sqlLocale text type := by
  have hlength : 2 ≤ (quoteByte :: (text ++ [quoteByte])).length := by simp
  have hlast : (quoteByte :: (text ++ [quoteByte])).getLast? = some quoteByte := by
    rw [← List.cons_append, List.getLast?_append]
    rfl
  have htext : (quoteByte :: (text ++ [quoteByte])).tail.dropLast = text := List.dropLast_concat
  rw [valueFromSql, if_pos ⟨hlength, rfl, hlast⟩, htext]

theorem valueFromStr_digits {digits rest : Bytes} (hne : digits ≠ [])
    (hdigits : ∀ b ∈ digits, IsDigit b) (type : TimeType) :
    hdl.valueFromStr zoneOffset (digits ++ rest) type =
      valueFromLocale zoneOffset hdl.strLocale (digits ++ rest) type := by
  cases digits with
  | nil => exact absurd rfl hne
  | cons b digits =>
    have hb := hdigits b List.mem_cons_self
    have hquote : ¬ (b :: digits ++ rest).head? = some quoteByte := by
      intro heq
      rw [Option.some.inj heq] at hb
      revert hb
      decide
    rw [valueFromStr, if_neg hquote]

theorem renderDate_starts (locale : LocaleSetting) (d : DmyDate) :
    ∃ rest, locale.renderDate d = locale.partText d locale.first ++ rest := by
  refine ⟨_, cText_append (zero_notMem_partText locale.first)⟩

theorem valueFromStr_date (locale : LocaleSetting) (d : DmyDate) (rest : Bytes) (type : TimeType) :
    hdl.valueFromStr zoneOffset (locale.renderDate d ++ rest) type =
      valueFromLocale zoneOffset hdl.strLocale (locale.renderDate d ++ rest) type := by
  obtain ⟨text, htext⟩ := renderDate_starts locale d
  obtain ⟨width, hpart⟩ := @partText_eq locale d locale.first
  rw [htext, hpart, List.append_assoc]
  exact valueFromStr_digits (padded_ne_nil _ _) (isDigit_of_mem_padded _ _) type

theorem valueFromStr_clock (hour minute second : Nat) (rest : Bytes) (type : TimeType) :
    hdl.valueFromStr zoneOffset (clockText hour minute second ++ rest) type =
      valueFromLocale zoneOffset hdl.strLocale (clockText hour minute second ++ rest) type := by
  rw [clockText, List.append_assoc]
  exact valueFromStr_digits (padded_ne_nil _ _) (isDigit_of_mem_padded _ _) type

theorem valueFromLocale_date_iff {locale : LocaleSetting} {d : DmyDate}
    (hsep : ¬ IsDigit locale.separator) (hvalid : d.valid = true) :
    valueFromLocale zoneOffset locale (locale.renderDate d) .date = some (.date d) ↔
      (TimeValue.date d).KeptBy locale := by
  have hread := @readDate_iff locale d [] hsep hvalid nofun
  rw [List.append_nil] at hread
  rw [TimeValue.KeptBy, ← hread, valueFromLocale]
  cases makeDate locale (locale.renderDate d) with
  | none => exact iff_of_false nofun nofun
  | some r =>
    obtain ⟨d', rest⟩ := r
    cases rest with
    | nil => simp
    | cons b rest => simp

theorem valueFromLocale_time_iff {locale : LocaleSetting} {t : GdaTime}
    (hclock : clockValid t.hour t.minute t.second = true) (hzone : ZoneKept t.timezone) :
    valueFromLocale zoneOffset locale (clockText t.hour.toNat t.minute.toNat t.second.toNat ++
      zoneText t.timezone) .time = some (.time t) ↔ (TimeValue.time t).KeptBy locale := by
  rw [TimeValue.KeptBy, ← @makeTime_clock zoneOffset t hclock hzone, valueFromLocale]
  simp

theorem valueFromLocale_timestamp_iff {locale : LocaleSetting} {ts : GdaTimestamp}
    (hsep : ¬ IsDigit locale.separator) (hvalid : (TimeValue.timestamp ts).Valid) :
    ∃ d rest, renderTimestamp locale ts = some (locale.renderDate d ++ rest) ∧
      (valueFromLocale zoneOffset locale (locale.renderDate d ++ rest) .timestamp =
        some (.timestamp ts) ↔ (TimeValue.timestamp ts).KeptBy locale) := by
  obtain ⟨hdate, hclock, hzone⟩ := hvalid
  obtain ⟨d, heq, hd, hday, hmonth, hyear⟩ := timestampDate_eq hdate
  have hread := @makeTimestamp_iff zoneOffset locale ts d hsep hd hday hmonth hyear hclock hzone
  refine ⟨d, byte ' ' :: (clockText ts.hour.toNat ts.minute.toNat ts.second.toNat ++
    (fractionText ts.fraction ++ zoneText ts.timezone)), ?_, ?_⟩
  · rw [renderTimestamp, heq]
    rfl
  · rw [TimeValue.KeptBy, ← hread, valueFromLocale]
    simp

def SqlReadBack (zoneOffset : Bytes → Option Int64) (hdl : GdaHandlerTime) (v : TimeValue) : Prop :=
  hdl.valueFromSql zoneOffset (hdl.sqlFromValue v) v.type = some v

def StrReadBack (zoneOffset : Bytes → Option Int64) (hdl : GdaHandlerTime) (v : TimeValue) : Prop :=
  hdl.valueFromStr zoneOffset (hdl.strFromValue v) v.type = some v

theorem sqlReadBack_iff (hsep : ¬ IsDigit hdl.sqlLocale.separator) (hvalid : v.Valid) :
    SqlReadBack zoneOffset hdl v ↔ v.KeptBy hdl.sqlLocale := by
  rw [SqlReadBack]
  cases v with
  | date d =>
    rw [sqlFromValue, valueFromSql_quoted]
    exact valueFromLocale_date_iff hsep hvalid
  | time t =>
    rw [sqlFromValue, valueFromSql_quoted]
    exact valueFromLocale_time_iff hvalid.1 hvalid.2
  | timestamp ts =>
    obtain ⟨d, rest, htext, hread⟩ := @valueFromLocale_timestamp_iff zoneOffset _ ts hsep hvalid
    rw [sqlFromValue, htext]
    simp only
    rw [valueFromSql_quoted]
    exact hread

theorem strReadBack_iff (hsep : ¬ IsDigit hdl.strLocale.separator) (hvalid : v.Valid) :
    StrReadBack zoneOffset hdl v ↔ v.KeptBy hdl.strLocale := by
  rw [StrReadBack]
  cases v with
  | date d =>
    have hstr := @valueFromStr_date zoneOffset hdl hdl.strLocale d [] .date
    rw [List.append_nil] at hstr
    rw [strFromValue]
    exact hstr ▸ valueFromLocale_date_iff hsep hvalid
  | time t =>
    rw [strFromValue, sqlFromValue, stripQuotes_quoted, valueFromStr_clock]
    exact valueFromLocale_time_iff hvalid.1 hvalid.2
  | timestamp ts =>
    obtain ⟨d, rest, htext, hread⟩ := @valueFromLocale_timestamp_iff zoneOffset _ ts hsep hvalid
    rw [strFromValue, htext, Option.getD_some, valueFromStr_date]
    exact hread

/-- Only for these values do both styles give the value back. -/
theorem handlerReadsBack_iff (hsql : ¬ IsDigit hdl.sqlLocale.separator)
    (hstr : ¬ IsDigit hdl.strLocale.separator) (hvalid : v.Valid) :
    SqlReadBack zoneOffset hdl v ∧ StrReadBack zoneOffset hdl v ↔
      v.KeptBy hdl.sqlLocale ∧ v.KeptBy hdl.strLocale := by
  rw [sqlReadBack_iff hsql hvalid, strReadBack_iff hstr hvalid]

theorem handlerReadsBack_iff_noon :
    SqlReadBack (fun _ => none) {} (.time ⟨12, 0, 0, 0, 7200⟩) ∧
        StrReadBack (fun _ => none) {} (.time ⟨12, 0, 0, 0, 7200⟩) ↔
      (TimeValue.time ⟨12, 0, 0, 0, 7200⟩).KeptBy {} ∧
        (TimeValue.time ⟨12, 0, 0, 0, 7200⟩).KeptBy {} :=
  @handlerReadsBack_iff (fun _ => none) {} _ (by decide) (by decide)
    ⟨by decide, .inr (by decide)⟩

theorem not_sqlReadBack_fraction : ¬ ∀ (hdl : GdaHandlerTime) (v : TimeValue),
    ¬ IsDigit hdl.sqlLocale.separator → ¬ IsDigit hdl.strLocale.separator → v.Valid →
      SqlReadBack (fun _ => none) hdl v ∧ StrReadBack (fun _ => none) hdl v := by
  intro h
  have hvalid : (TimeValue.time ⟨12, 0, 0, 5, 7200⟩).Valid := ⟨by decide, .inr (by decide)⟩
  have hread := (h {} _ (by decide) (by decide) hvalid).1
  rw [@sqlReadBack_iff (fun _ => none) {} _ (by decide) hvalid] at hread
  revert hread
  show ¬ (5 : UInt64) = 0
  decide

end Values

end LibGda
