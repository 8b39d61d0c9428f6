import LibGda.CalendarDays
import LibGda.ValueRoundTrip

/-! A time and a timestamp moved to another timezone keep their instant, unless the timestamp is
at an end of the calendar; a value without timezone is refused instead of being given one. -/

namespace LibGda

section Model

def GdaTime.valid (t : GdaTime) : Bool :=
  t.hour.toNat ≤ 23 && t.minute.toNat ≤ 59 && t.second.toNat ≤ 59 && t.fraction.toNat < 1000000 &&
    -43200 < t.timezone.toInt && t.timezone.toInt < 43200

/-- `gda_timestamp_valid`; the day is passed on as a `GDateDay`, which is a byte. -/
def GdaTimestamp.valid (ts : GdaTimestamp) : Bool :=
  dateValidDmy (ts.day.toNat % 256) ts.month.toNat ts.dateYear && ts.hour.toNat ≤ 23 &&
    ts.minute.toNat ≤ 59 && ts.second.toNat ≤ 59 && ts.fraction.toNat < 1000000 &&
    -43200 < ts.timezone.toInt && ts.timezone.toInt < 43200

def OffsetInRange (ntz : Int64) : Prop := -43200 < ntz.toInt ∧ ntz.toInt < 43200

instance (ntz : Int64) : Decidable (OffsetInRange ntz) := by unfold OffsetInRange; infer_instance

/-- `nsec` as it is first computed -/
def shiftedSeconds (hour minute second : UInt16) (timezone ntz : Int64) : Int :=
  hour.toNat * 3600 + minute.toNat * 60 + second.toNat - timezone.toInt + ntz.toInt

/-- `nsec` brought back to the seconds of one day -/
def secondsOfDay (nsec : Int) : Int :=
  if nsec < 0 then nsec + 86400 else if nsec ≥ 86400 then nsec - 86400 else nsec

def clockHour (nsec : Int) : UInt16 := UInt16.ofInt (nsec.tdiv 3600)

def clockMinute (nsec : Int) : UInt16 :=
  UInt16.ofInt ((nsec - nsec.tdiv 3600 * 3600).tdiv 60)

def clockSecond (nsec : Int) : UInt16 :=
  let rest := nsec - nsec.tdiv 3600 * 3600
  UInt16.ofInt (rest - rest.tdiv 60 * 60)

def GdaTime.changeTimezone (t : GdaTime) (ntz : Int64) : GdaTime :=
  if t.valid = false then t
  else if ¬OffsetInRange ntz then t
  else if t.timezone = ntz then t
  else if t.timezone ≠ timezoneInvalid then
    let nsec := secondsOfDay (shiftedSeconds t.hour t.minute t.second t.timezone ntz)
    { t with
      hour := clockHour nsec, minute := clockMinute nsec, second := clockSecond nsec
      timezone := ntz }
  else { t with timezone := ntz }

/-- The `GDate` of a timestamp. -/
def GdaTimestamp.gdate (ts : GdaTimestamp) : CalendarDay :=
  ⟨ts.dateYear, ts.month.toNat, ts.day.toNat % 256⟩

/-- `g_date_subtract_days` of one day; the number of the day must be above it. -/
def subtractDay (d : CalendarDay) : CalendarDay := if 1 < d.number then d.prev else d

/-- `g_date_add_days` of one day; a `GDate` keeps sixteen bits of the year. -/
def addDay (d : CalendarDay) : CalendarDay := { d.next with year := d.next.year % 2 ^ 16 }

def GdaTimestamp.setDate (ts : GdaTimestamp) (d : CalendarDay) : GdaTimestamp :=
  { ts with
    year := (UInt16.ofNat d.year).toInt16, month := UInt16.ofNat d.month
    day := UInt16.ofNat d.day }

def GdaTimestamp.moveDate (ts : GdaTimestamp) (nsec : Int) : GdaTimestamp :=
  if nsec < 0 then ts.setDate (subtractDay ts.gdate)
  else if nsec ≥ 86400 then ts.setDate (addDay ts.gdate)
  else ts

def GdaTimestamp.changeTimezone (ts : GdaTimestamp) (ntz : Int64) : GdaTimestamp :=
  if ts.valid = false then ts
  else if ¬OffsetInRange ntz then ts
  else if ts.timezone = ntz then ts
  else if ts.timezone ≠ timezoneInvalid then
    let nsec := shiftedSeconds ts.hour ts.minute ts.second ts.timezone ntz
    { ts.moveDate nsec with
      hour := clockHour (secondsOfDay nsec), minute := clockMinute (secondsOfDay nsec)
      second := clockSecond (secondsOfDay nsec), timezone := ntz }
  else { ts with timezone := ntz }

end Model

section Contract

def GdaTime.seconds (t : GdaTime) : Int :=
  t.hour.toNat * 3600 + t.minute.toNat * 60 + t.second.toNat

def GdaTime.instant (t : GdaTime) : Int := (t.seconds - t.timezone.toInt) % 86400

structure GdaTime.Keeps (t t' : GdaTime) (ntz : Int64) : Prop where
  valid : t'.valid = true
  timezone : t'.timezone = ntz
  fraction : t'.fraction = t.fraction
  instant : t'.instant = t.instant

def GdaTimestamp.seconds (ts : GdaTimestamp) : Int :=
  ts.hour.toNat * 3600 + ts.minute.toNat * 60 + ts.second.toNat

def GdaTimestamp.instant (ts : GdaTimestamp) : Int :=
  ts.gdate.number * 86400 + ts.seconds - ts.timezone.toInt

structure GdaTimestamp.Keeps (ts ts' : GdaTimestamp) (ntz : Int64) : Prop where
  valid : ts'.valid = true
  timezone : ts'.timezone = ntz
  fraction : ts'.fraction = ts.fraction
  instant : ts'.instant = ts.instant

def GdaTime.Unset (t : GdaTime) : Prop :=
  t.timezone = timezoneInvalid ∧ { t with timezone := 0 }.valid = true

def GdaTimestamp.Unset (ts : GdaTimestamp) : Prop :=
  ts.timezone = timezoneInvalid ∧ { ts with timezone := 0 }.valid = true

structure GdaTime.Meets (t : GdaTime) (tz₁ tz₂ : Int64) : Prop where
  keeps : t.valid = true → OffsetInRange tz₁ → t.Keeps (t.changeTimezone tz₁) tz₁
  sets : t.Unset → OffsetInRange tz₁ → t.changeTimezone tz₁ = { t with timezone := tz₁ }
  twice : t.valid = true → OffsetInRange tz₁ → OffsetInRange tz₂ →
    (t.changeTimezone tz₁).changeTimezone tz₂ = t.changeTimezone tz₂

structure GdaTimestamp.Meets (ts : GdaTimestamp) (tz₁ tz₂ : Int64) : Prop where
  keeps : ts.valid = true → OffsetInRange tz₁ → ts.Keeps (ts.changeTimezone tz₁) tz₁
  sets : ts.Unset → OffsetInRange tz₁ → ts.changeTimezone tz₁ = { ts with timezone := tz₁ }
  twice : ts.valid = true → OffsetInRange tz₁ → OffsetInRange tz₂ →
    (ts.changeTimezone tz₁).changeTimezone tz₂ = ts.changeTimezone tz₂

def GdaTimestamp.dayShift (ts : GdaTimestamp) (ntz : Int64) : Int :=
  let nsec := ts.seconds - ts.timezone.toInt + ntz.toInt
  if nsec < 0 then -1 else if nsec ≥ 86400 then 1 else 0

def CalendarDay.last : CalendarDay := ⟨65535, 12, 31⟩

/-- The timestamp does not leave the calendar, and is not brought back to a day which is kept in
more than a byte. -/
structure GdaTimestamp.Safe (ts : GdaTimestamp) (tz₁ tz₂ : Int64) : Prop where
  first : ts.gdate = CalendarDay.first → ts.dayShift tz₁ ≠ -1
  last : ts.gdate = CalendarDay.last → ts.dayShift tz₁ ≠ 1
  day : OffsetInRange tz₂ → ts.dayShift tz₁ ≠ 0 → ts.dayShift tz₂ = 0 → ts.day.toNat < 256

end Contract

section Clock

theorem toNat_ofInt {n : Int} (hpos : 0 ≤ n) (hlt : n < 65536) :
    ((UInt16.ofInt n).toNat : Int) = n := by
  have hmod : n % 2 ^ 16 = n := Int.emod_eq_of_lt hpos hlt
  rw [UInt16.ofInt, hmod, UInt16.toNat_ofNat']
  omega

theorem clock_fields {nsec : Int} (hpos : 0 ≤ nsec) (hlt : nsec < 86400) :
    ((clockHour nsec).toNat : Int) = nsec / 3600 ∧
      ((clockMinute nsec).toNat : Int) = nsec % 3600 / 60 ∧
      ((clockSecond nsec).toNat : Int) = nsec % 60 := by
  have hhours : nsec.tdiv 3600 = nsec / 3600 := Int.tdiv_eq_ediv_of_nonneg hpos
  have hrest : nsec - nsec / 3600 * 3600 = nsec % 3600 := by omega
  have hminutes : (nsec % 3600).tdiv 60 = nsec % 3600 / 60 :=
    Int.tdiv_eq_ediv_of_nonneg (by omega)
  have hseconds : nsec % 3600 - nsec % 3600 / 60 * 60 = nsec % 60 := by omega
  refine ⟨?_, ?_, ?_⟩
  · rw [clockHour, hhours]
    apply toNat_ofInt <;> omega
  · rw [clockMinute, hhours, hrest, hminutes]
    apply toNat_ofInt <;> omega
  · simp only [clockSecond, hhours, hrest, hminutes, hseconds]
    apply toNat_ofInt <;> omega

theorem clock_ext {hour minute second : UInt16} {nsec : Int} (hminute : minute.toNat ≤ 59)
    (hsecond : second.toNat ≤ 59) (hhour : hour.toNat ≤ 23)
    (h : (hour.toNat * 3600 + minute.toNat * 60 + second.toNat : Int) = nsec) :
    hour = clockHour nsec ∧ minute = clockMinute nsec ∧ second = clockSecond nsec := by
  have hfields := @clock_fields nsec (by omega) (by omega)
  refine ⟨?_, ?_, ?_⟩
  · apply UInt16.toNat_inj.1
    omega
  · apply UInt16.toNat_inj.1
    omega
  · apply UInt16.toNat_inj.1
    omega

theorem secondsOfDay_range {nsec : Int} (hlow : -86400 ≤ nsec) (hhigh : nsec < 172800) :
    0 ≤ secondsOfDay nsec ∧ secondsOfDay nsec < 86400 := by
  rw [secondsOfDay]
  split
  · omega
  · split <;> omega

theorem secondsOfDay_mod (nsec : Int) : (secondsOfDay nsec) % 86400 = nsec % 86400 := by
  rw [secondsOfDay]
  split
  · omega
  · split <;> omega

theorem offset_ne_invalid {ntz : Int64} (h : OffsetInRange ntz) : ntz ≠ timezoneInvalid := by
  intro heq
  rw [heq] at h
  exact absurd h.2 (by decide)

end Clock

namespace GdaTime

variable {t : GdaTime} {ntz tz₁ tz₂ : Int64}

theorem valid_iff : t.valid = true ↔
    t.hour.toNat ≤ 23 ∧ t.minute.toNat ≤ 59 ∧ t.second.toNat ≤ 59 ∧ t.fraction.toNat < 1000000 ∧
      OffsetInRange t.timezone := by
  simp only [valid, OffsetInRange, Bool.and_eq_true, decide_eq_true_eq, and_assoc]

def withClock (t : GdaTime) (nsec : Int) (ntz : Int64) : GdaTime :=
  { t with
    hour := clockHour nsec, minute := clockMinute nsec, second := clockSecond nsec
    timezone := ntz }

def moved (t : GdaTime) (ntz : Int64) : Int :=
  secondsOfDay (t.seconds - t.timezone.toInt + ntz.toInt)

theorem seconds_range (h : t.valid = true) : 0 ≤ t.seconds ∧ t.seconds < 86400 := by
  obtain ⟨hhour, hminute, hsecond, -, -⟩ := valid_iff.1 h
  rw [seconds]
  omega

theorem moved_range (h : t.valid = true) (hntz : OffsetInRange ntz) :
    0 ≤ t.moved ntz ∧ t.moved ntz < 86400 := by
  have hseconds := seconds_range h
  obtain ⟨-, -, -, -, hzone⟩ := valid_iff.1 h
  rw [OffsetInRange] at hzone hntz
  apply secondsOfDay_range <;> omega

theorem changeTimezone_eq (h : t.valid = true) (hntz : OffsetInRange ntz) :
    t.changeTimezone ntz = t.withClock (t.moved ntz) ntz := by
  obtain ⟨hhour, hminute, hsecond, -, hzone⟩ := valid_iff.1 h
  rw [changeTimezone, if_neg (by simp [h]), if_neg (not_not.2 hntz)]
  split
  · next hsame =>
    have hmoved : t.moved ntz = t.seconds := by
      have hrange := seconds_range h
      rw [moved, secondsOfDay, hsame, Int.sub_add_cancel, if_neg (by omega), if_neg (by omega)]
    obtain ⟨hhours, hminutes, hseconds⟩ := clock_ext hminute hsecond hhour hmoved.symm
    rw [withClock, ← hhours, ← hminutes, ← hseconds, ← hsame]
  · rw [if_pos (offset_ne_invalid hzone)]
    rfl

theorem withClock_seconds {nsec : Int} (hpos : 0 ≤ nsec) (hlt : nsec < 86400) :
    (t.withClock nsec ntz).seconds = nsec := by
  obtain ⟨hhour, hminute, hsecond⟩ := clock_fields hpos hlt
  rw [seconds, withClock, hhour, hminute, hsecond]
  omega

theorem withClock_valid (h : t.valid = true) (hntz : OffsetInRange ntz) {nsec : Int}
    (hpos : 0 ≤ nsec) (hlt : nsec < 86400) : (t.withClock nsec ntz).valid = true := by
  obtain ⟨hhour, hminute, hsecond⟩ := clock_fields hpos hlt
  obtain ⟨-, -, -, hfraction, -⟩ := valid_iff.1 h
  apply valid_iff.2
  refine ⟨?_, ?_, ?_, hfraction, hntz⟩
  · show (clockHour nsec).toNat ≤ 23
    omega
  · show (clockMinute nsec).toNat ≤ 59
    omega
  · show (clockSecond nsec).toNat ≤ 59
    omega

theorem changeTimezone_keeps (h : t.valid = true) (hntz : OffsetInRange ntz) :
    t.Keeps (t.changeTimezone ntz) ntz := by
  obtain ⟨hpos, hlt⟩ := moved_range h hntz
  rw [changeTimezone_eq h hntz]
  refine ⟨withClock_valid h hntz hpos hlt, rfl, rfl, ?_⟩
  rw [instant, withClock_seconds hpos hlt, instant]
  have hmod := secondsOfDay_mod (t.seconds - t.timezone.toInt + ntz.toInt)
  show (t.moved ntz - ntz.toInt) % 86400 = _
  rw [← moved] at hmod
  omega

theorem changeTimezone_twice (h : t.valid = true) (h₁ : OffsetInRange tz₁)
    (h₂ : OffsetInRange tz₂) :
    (t.changeTimezone tz₁).changeTimezone tz₂ = t.changeTimezone tz₂ := by
  obtain ⟨hpos, hlt⟩ := moved_range h h₁
  have hvalid := withClock_valid h h₁ hpos hlt
  have hsecond := moved_range hvalid h₂
  have hdirect := moved_range h h₂
  have hmoved : (t.withClock (t.moved tz₁) tz₁).moved tz₂ = t.moved tz₂ := by
    have hfirst := secondsOfDay_mod (t.seconds - t.timezone.toInt + tz₁.toInt)
    have hthen := secondsOfDay_mod (t.moved tz₁ - tz₁.toInt + tz₂.toInt)
    have hlast := secondsOfDay_mod (t.seconds - t.timezone.toInt + tz₂.toInt)
    have heq : (t.withClock (t.moved tz₁) tz₁).moved tz₂ =
        secondsOfDay (t.moved tz₁ - tz₁.toInt + tz₂.toInt) := by
      rw [moved, withClock_seconds hpos hlt]
      rfl
    rw [← moved] at hfirst hlast
    rw [← heq] at hthen
    omega
  rw [changeTimezone_eq h h₁, changeTimezone_eq hvalid h₂, changeTimezone_eq h h₂, hmoved]
  rfl

theorem changeTimezone_unset (h : t.Unset) : t.changeTimezone ntz = t := by
  have hinvalid : t.valid = false := by
    apply eq_false_of_ne_true
    intro hvalid
    exact offset_ne_invalid (valid_iff.1 hvalid).2.2.2.2 h.1
  rw [changeTimezone, if_pos hinvalid]

theorem meets_iff (t : GdaTime) (tz₁ tz₂ : Int64) :
    t.Meets tz₁ tz₂ ↔ ¬(t.Unset ∧ OffsetInRange tz₁) := by
  constructor
  · intro hmeets ⟨hunset, hrange⟩
    have hsets := hmeets.sets hunset hrange
    rw [changeTimezone_unset hunset] at hsets
    have hzone : t.timezone = tz₁ := congrArg GdaTime.timezone hsets
    rw [hunset.1] at hzone
    exact offset_ne_invalid hrange hzone.symm
  · intro hset
    refine ⟨fun h hrange => changeTimezone_keeps h hrange, ?_, ?_⟩
    · intro hunset hrange
      exact absurd ⟨hunset, hrange⟩ hset
    · intro h h₁ h₂
      exact changeTimezone_twice h h₁ h₂

end GdaTime

namespace CalendarDay

variable {d : CalendarDay}

theorem valid_dmy {day month year : Nat} :
    dateValidDmy day month year = true ↔ Valid ⟨year, month, day⟩ := by
  rw [dateValidDmy]
  simp only [Bool.and_eq_true, decide_eq_true_eq]
  constructor
  · rintro ⟨⟨⟨⟨hmonth, hmonths⟩, hday⟩, hyear⟩, hdays⟩
    exact ⟨hyear, hmonth, Nat.le_of_lt_succ hmonths, hday, hdays⟩
  · rintro ⟨hyear, hmonth, hmonths, hday, hdays⟩
    exact ⟨⟨⟨⟨hmonth, Nat.lt_succ_of_le hmonths⟩, hday⟩, hyear⟩, hdays⟩

theorem Valid.day_lt (h : d.Valid) : d.day < 256 := by
  have hle : daysInMonth d.month d.year ≤ 31 := by
    rw [daysInMonth]
    split
    · split <;> omega
    · split <;> omega
  have hday := h.day_le
  omega

theorem subtractDay_eq (h : d.Valid) (hfirst : d ≠ first) : subtractDay d = d.prev := by
  rw [subtractDay, if_pos ((number_first_lt h).2 hfirst)]

theorem prev_year_le : d.prev.year ≤ d.year := by
  rw [prev]
  split
  · exact le_rfl
  · split
    · exact le_rfl
    · exact Nat.sub_le _ _

theorem next_year_le (h : d.Valid) (hyear : d.year < 2 ^ 16) (hlast : d ≠ last) :
    d.next.year < 2 ^ 16 := by
  have hdays := h.day_le
  have hmonths := h.month_le
  rw [next]
  split
  · exact hyear
  · next hday =>
    split
    · exact hyear
    · next hmonth =>
      have hdecember : d.month = 12 := by omega
      rw [hdecember, daysInMonth_december] at hday hdays
      have hne : d.year ≠ 65535 := by
        intro heq
        apply hlast
        obtain ⟨year, month, day⟩ := d
        rw [last, CalendarDay.mk.injEq]
        simp only at heq hday hdays hdecember
        omega
      show d.year + 1 < 2 ^ 16
      omega

theorem addDay_eq (h : d.Valid) (hyear : d.year < 2 ^ 16) (hlast : d ≠ last) :
    addDay d = d.next := by
  rw [addDay, Nat.mod_eq_of_lt (next_year_le h hyear hlast)]

end CalendarDay

namespace GdaTimestamp

variable {ts : GdaTimestamp} {ntz tz₁ tz₂ : Int64} {nsec : Int}

theorem valid_iff : ts.valid = true ↔ ts.gdate.Valid ∧
    ts.hour.toNat ≤ 23 ∧ ts.minute.toNat ≤ 59 ∧ ts.second.toNat ≤ 59 ∧
      ts.fraction.toNat < 1000000 ∧ OffsetInRange ts.timezone := by
  rw [gdate, ← CalendarDay.valid_dmy]
  simp only [valid, OffsetInRange, Bool.and_eq_true, decide_eq_true_eq, and_assoc]

theorem gdate_year_lt : ts.gdate.year < 2 ^ 16 := ts.year.toUInt16.toNat_lt

def withClock (ts : GdaTimestamp) (nsec : Int) (ntz : Int64) : GdaTimestamp :=
  { ts with
    hour := clockHour nsec, minute := clockMinute nsec, second := clockSecond nsec
    timezone := ntz }

def shifted (ts : GdaTimestamp) (ntz : Int64) : Int := ts.seconds - ts.timezone.toInt + ntz.toInt

theorem seconds_range (h : ts.valid = true) : 0 ≤ ts.seconds ∧ ts.seconds < 86400 := by
  obtain ⟨-, hhour, hminute, hsecond, -, -⟩ := valid_iff.1 h
  rw [seconds]
  omega

theorem shifted_range (h : ts.valid = true) (hntz : OffsetInRange ntz) :
    -86400 ≤ ts.shifted ntz ∧ ts.shifted ntz < 172800 := by
  have hseconds := seconds_range h
  obtain ⟨-, -, -, -, -, hzone⟩ := valid_iff.1 h
  rw [OffsetInRange] at hzone hntz
  rw [shifted]
  omega

theorem changeTimezone_eq (h : ts.valid = true) (hntz : OffsetInRange ntz) :
    ts.changeTimezone ntz =
      (ts.moveDate (ts.shifted ntz)).withClock (secondsOfDay (ts.shifted ntz)) ntz := by
  obtain ⟨-, hhour, hminute, hsecond, -, hzone⟩ := valid_iff.1 h
  rw [changeTimezone, if_neg (by simp [h]), if_neg (not_not.2 hntz)]
  split
  · next hsame =>
    have hrange := seconds_range h
    have hshifted : ts.shifted ntz = ts.seconds := by rw [shifted, hsame, Int.sub_add_cancel]
    have hnsec : secondsOfDay ts.seconds = ts.seconds := by
      rw [secondsOfDay, if_neg (by omega), if_neg (by omega)]
    obtain ⟨hhours, hminutes, hseconds⟩ := clock_ext hminute hsecond hhour (rfl : _ = ts.seconds)
    rw [hshifted, hnsec, moveDate, if_neg (by omega), if_neg (by omega), withClock, ← hhours,
      ← hminutes, ← hseconds, ← hsame]
  · rw [if_pos (offset_ne_invalid hzone)]
    rfl

theorem gdate_withClock : (ts.withClock nsec ntz).gdate = ts.gdate := rfl

theorem gdate_setDate {d : CalendarDay} (hyear : d.year < 2 ^ 16) (h : d.Valid) :
    (ts.setDate d).gdate = d := by
  have hmonth := h.month_le
  have hday := h.day_lt
  obtain ⟨year, month, day⟩ := d
  simp only at hyear hmonth hday
  rw [setDate, gdate, dateYear, CalendarDay.mk.injEq]
  simp only [UInt16.toUInt16_toInt16, UInt16.toNat_ofNat']
  omega

theorem setDate_gdate : ts.setDate ts.gdate = ts ↔ ts.day.toNat < 256 := by
  constructor
  · intro h
    have hday : UInt16.ofNat (ts.day.toNat % 256) = ts.day := congrArg GdaTimestamp.day h
    rw [← hday, UInt16.toNat_ofNat']
    omega
  · intro h
    rw [setDate, gdate, dateYear, Nat.mod_eq_of_lt h]
    simp only [UInt16.ofNat_toNat, Int16.toInt16_toUInt16]

theorem moveDate_back (h : nsec < 0) : ts.moveDate nsec = ts.setDate (subtractDay ts.gdate) := by
  rw [moveDate, if_pos h]

theorem moveDate_same (hpos : 0 ≤ nsec) (hlt : nsec < 86400) : ts.moveDate nsec = ts := by
  rw [moveDate, if_neg (by omega), if_neg (by omega)]

theorem moveDate_on (h : 86400 ≤ nsec) : ts.moveDate nsec = ts.setDate (addDay ts.gdate) := by
  rw [moveDate, if_neg (by omega), if_pos h]

theorem withClock_moveDate (nsec' : Int) :
    (ts.withClock nsec ntz).moveDate nsec' = (ts.moveDate nsec').withClock nsec ntz := by
  rw [moveDate, moveDate]
  split
  · rfl
  · split <;> rfl

theorem moveDate_fraction (nsec : Int) : (ts.moveDate nsec).fraction = ts.fraction := by
  rw [moveDate]
  split
  · rfl
  · split <;> rfl

theorem withClock_seconds (hpos : 0 ≤ nsec) (hlt : nsec < 86400) :
    (ts.withClock nsec ntz).seconds = nsec := by
  obtain ⟨hhour, hminute, hsecond⟩ := clock_fields hpos hlt
  rw [seconds, withClock, hhour, hminute, hsecond]
  omega

structure Crosses (ts : GdaTimestamp) (nsec : Int) : Prop where
  first : ts.gdate = CalendarDay.first → ¬nsec < 0
  last : ts.gdate = CalendarDay.last → ¬86400 ≤ nsec

theorem gdate_back (h : ts.gdate.Valid) (hfirst : ts.gdate ≠ CalendarDay.first) (hneg : nsec < 0) :
    (ts.moveDate nsec).gdate = ts.gdate.prev := by
  rw [moveDate_back hneg, CalendarDay.subtractDay_eq h hfirst]
  apply gdate_setDate (lt_of_le_of_lt CalendarDay.prev_year_le gdate_year_lt)
  exact CalendarDay.prev_valid h hfirst

theorem gdate_on (h : ts.gdate.Valid) (hlast : ts.gdate ≠ CalendarDay.last) (hon : 86400 ≤ nsec) :
    (ts.moveDate nsec).gdate = ts.gdate.next := by
  rw [moveDate_on hon, CalendarDay.addDay_eq h gdate_year_lt hlast]
  apply gdate_setDate (CalendarDay.next_year_le h gdate_year_lt hlast)
  exact CalendarDay.next_valid h

theorem moveDate_number (h : ts.gdate.Valid) (hcrosses : ts.Crosses nsec) :
    (ts.moveDate nsec).gdate.Valid ∧
      ((ts.moveDate nsec).gdate.number : Int) * 86400 + secondsOfDay nsec =
        ts.gdate.number * 86400 + nsec := by
  by_cases hneg : nsec < 0
  · have hfirst : ts.gdate ≠ CalendarDay.first := fun heq => hcrosses.first heq hneg
    have hnumber := CalendarDay.number_prev h hfirst
    rw [gdate_back h hfirst hneg, secondsOfDay, if_pos hneg]
    refine ⟨CalendarDay.prev_valid h hfirst, ?_⟩
    omega
  · by_cases hon : 86400 ≤ nsec
    · have hlast : ts.gdate ≠ CalendarDay.last := fun heq => hcrosses.last heq hon
      have hnumber := CalendarDay.number_next h
      rw [gdate_on h hlast hon, secondsOfDay, if_neg hneg, if_pos hon, hnumber]
      refine ⟨CalendarDay.next_valid h, ?_⟩
      omega
    · rw [moveDate_same (by omega) (by omega), secondsOfDay, if_neg hneg, if_neg hon]
      exact ⟨h, rfl⟩

theorem withClock_valid (h : ts.valid = true) (hntz : OffsetInRange ntz)
    (hcrosses : ts.Crosses (ts.shifted ntz)) :
    ((ts.moveDate (ts.shifted ntz)).withClock (secondsOfDay (ts.shifted ntz)) ntz).valid =
      true := by
  obtain ⟨hlow, hhigh⟩ := shifted_range h hntz
  obtain ⟨hpos, hlt⟩ := secondsOfDay_range hlow hhigh
  obtain ⟨hhour, hminute, hsecond⟩ := clock_fields hpos hlt
  obtain ⟨hdate, -, -, -, hfraction, -⟩ := valid_iff.1 h
  apply valid_iff.2
  refine ⟨(moveDate_number hdate hcrosses).1, ?_, ?_, ?_, ?_, hntz⟩
  · show (clockHour _).toNat ≤ 23
    omega
  · show (clockMinute _).toNat ≤ 59
    omega
  · show (clockSecond _).toNat ≤ 59
    omega
  · show (ts.moveDate _).fraction.toNat < 1000000
    rw [moveDate_fraction]
    exact hfraction

theorem changeTimezone_keeps (h : ts.valid = true) (hntz : OffsetInRange ntz)
    (hcrosses : ts.Crosses (ts.shifted ntz)) : ts.Keeps (ts.changeTimezone ntz) ntz := by
  obtain ⟨hlow, hhigh⟩ := shifted_range h hntz
  obtain ⟨hpos, hlt⟩ := secondsOfDay_range hlow hhigh
  have hnumber := (moveDate_number (valid_iff.1 h).1 hcrosses).2
  rw [changeTimezone_eq h hntz]
  refine ⟨withClock_valid h hntz hcrosses, rfl, moveDate_fraction _, ?_⟩
  rw [instant, withClock_seconds hpos hlt, gdate_withClock, hnumber, instant, shifted]
  show _ - ntz.toInt = _
  omega

theorem crosses_of_keeps (h : ts.valid = true) (hntz : OffsetInRange ntz)
    (hkeeps : ts.Keeps (ts.changeTimezone ntz) ntz) : ts.Crosses (ts.shifted ntz) := by
  obtain ⟨hlow, hhigh⟩ := shifted_range h hntz
  obtain ⟨hpos, hlt⟩ := secondsOfDay_range hlow hhigh
  rw [changeTimezone_eq h hntz] at hkeeps
  constructor
  · -- the first day stays, under a clock of the day behind it
    intro hfirst hneg
    have hinstant := hkeeps.instant
    have hsame : (ts.moveDate (ts.shifted ntz)).gdate = CalendarDay.first := by
      rw [moveDate_back hneg, hfirst]
      exact gdate_setDate (by decide) (CalendarDay.valid_dmy.1 (by decide))
    rw [instant, withClock_seconds hpos hlt, gdate_withClock, hsame, secondsOfDay, if_pos hneg,
      instant, hfirst, shifted] at hinstant
    change _ - ntz.toInt = _ at hinstant
    omega
  · -- the year behind the last one is no year
    intro hlast hon
    have hvalid := (valid_iff.1 hkeeps.valid).1
    have hyear : (ts.moveDate (ts.shifted ntz)).gdate.year = 0 := by
      rw [moveDate_on hon, hlast]
      rfl
    exact absurd hvalid.year_pos (by rw [gdate_withClock, hyear]; exact lt_irrefl 0)

theorem setDate_setDate (d d' : CalendarDay) : (ts.setDate d).setDate d' = ts.setDate d' := rfl

theorem setDate_returns (h : ts.gdate.Valid) {nsec' : Int} (hcrosses : ts.Crosses nsec)
    (hback : (nsec < 0 ∧ 86400 ≤ nsec') ∨ (86400 ≤ nsec ∧ nsec' < 0)) :
    (ts.moveDate nsec).moveDate nsec' = ts.setDate ts.gdate := by
  rcases hback with ⟨hneg, hon⟩ | ⟨hon, hneg⟩
  · have hfirst : ts.gdate ≠ CalendarDay.first := fun heq => hcrosses.first heq hneg
    have hyear : ts.gdate.prev.next.year < 2 ^ 16 := by
      rw [CalendarDay.next_prev h hfirst]
      exact gdate_year_lt
    rw [moveDate_on hon, gdate_back h hfirst hneg, addDay, Nat.mod_eq_of_lt hyear,
      CalendarDay.next_prev h hfirst, moveDate_back hneg, setDate_setDate]
  · have hlast : ts.gdate ≠ CalendarDay.last := fun heq => hcrosses.last heq hon
    have hnext := CalendarDay.next_valid h
    have hfirst : ts.gdate.next ≠ CalendarDay.first := by
      apply (CalendarDay.number_first_lt hnext).1
      have hday := h.day_pos
      rw [CalendarDay.number_next h, CalendarDay.number]
      omega
    rw [moveDate_back hneg, gdate_on h hlast hon, CalendarDay.subtractDay_eq hnext hfirst,
      CalendarDay.prev_next h, moveDate_on hon, setDate_setDate]

theorem changeTimezone_changeTimezone (h : ts.valid = true) (h₁ : OffsetInRange tz₁)
    (h₂ : OffsetInRange tz₂) (hcrosses : ts.Crosses (ts.shifted tz₁)) :
    (ts.changeTimezone tz₁).changeTimezone tz₂ =
      ((ts.moveDate (ts.shifted tz₁)).moveDate
        (secondsOfDay (ts.shifted tz₁) - tz₁.toInt + tz₂.toInt)).withClock
          (secondsOfDay (ts.shifted tz₂)) tz₂ := by
  obtain ⟨hlow, hhigh⟩ := shifted_range h h₁
  obtain ⟨hlow', hhigh'⟩ := shifted_range h h₂
  obtain ⟨hpos, hlt⟩ := secondsOfDay_range hlow hhigh
  obtain ⟨hpos', hlt'⟩ := secondsOfDay_range hlow' hhigh'
  have hvalid := withClock_valid h h₁ hcrosses
  have hshifted : ((ts.moveDate (ts.shifted tz₁)).withClock
      (secondsOfDay (ts.shifted tz₁)) tz₁).shifted tz₂ =
        secondsOfDay (ts.shifted tz₁) - tz₁.toInt + tz₂.toInt := by
    rw [shifted, withClock_seconds hpos hlt]
    rfl
  have hagain := shifted_range hvalid h₂
  rw [hshifted] at hagain
  have hrange := secondsOfDay_range hagain.1 hagain.2
  have hfirst := secondsOfDay_mod (ts.shifted tz₁)
  have hdirect := secondsOfDay_mod (ts.shifted tz₂)
  have hthen := secondsOfDay_mod (secondsOfDay (ts.shifted tz₁) - tz₁.toInt + tz₂.toInt)
  have hdiff : ts.shifted tz₂ - tz₂.toInt = ts.shifted tz₁ - tz₁.toInt := by
    rw [shifted, shifted]
    omega
  have hclock : secondsOfDay (secondsOfDay (ts.shifted tz₁) - tz₁.toInt + tz₂.toInt) =
      secondsOfDay (ts.shifted tz₂) := by omega
  rw [changeTimezone_eq h h₁, changeTimezone_eq hvalid h₂, hshifted, hclock, withClock_moveDate]
  rfl

theorem dayShift_zero : ts.dayShift ntz = 0 ↔ 0 ≤ ts.shifted ntz ∧ ts.shifted ntz < 86400 := by
  rw [dayShift, shifted]
  split
  · omega
  · split <;> omega

theorem dayShift_back : ts.dayShift ntz = -1 ↔ ts.shifted ntz < 0 := by
  rw [dayShift, shifted]
  split
  · omega
  · split <;> omega

theorem dayShift_on : ts.dayShift ntz = 1 ↔ 86400 ≤ ts.shifted ntz := by
  rw [dayShift, shifted]
  split
  · omega
  · split <;> omega

theorem changeTimezone_twice_iff (h : ts.valid = true) (h₁ : OffsetInRange tz₁)
    (h₂ : OffsetInRange tz₂) (hcrosses : ts.Crosses (ts.shifted tz₁)) :
    (ts.changeTimezone tz₁).changeTimezone tz₂ = ts.changeTimezone tz₂ ↔
      (ts.dayShift tz₁ ≠ 0 → ts.dayShift tz₂ = 0 → ts.day.toNat < 256) := by
  rw [changeTimezone_changeTimezone h h₁ h₂ hcrosses, changeTimezone_eq h h₂, dayShift_zero, ne_eq,
    dayShift_zero]
  obtain ⟨hlow, hhigh⟩ := shifted_range h h₁
  obtain ⟨hlow', hhigh'⟩ := shifted_range h h₂
  have hdiff : ts.shifted tz₂ - tz₂.toInt = ts.shifted tz₁ - tz₁.toInt := by
    rw [shifted, shifted]
    omega
  have hdate := (valid_iff.1 h).1
  rw [OffsetInRange] at h₁ h₂
  by_cases hstays : 0 ≤ ts.shifted tz₁ ∧ ts.shifted tz₁ < 86400
  · have hthen : secondsOfDay (ts.shifted tz₁) - tz₁.toInt + tz₂.toInt = ts.shifted tz₂ := by
      rw [secondsOfDay, if_neg (by omega), if_neg (by omega)]
      omega
    rw [hthen, moveDate_same hstays.1 hstays.2]
    simp [hstays]
  · by_cases hdirect : 0 ≤ ts.shifted tz₂ ∧ ts.shifted tz₂ < 86400
    · have hreturns : (ts.moveDate (ts.shifted tz₁)).moveDate
          (secondsOfDay (ts.shifted tz₁) - tz₁.toInt + tz₂.toInt) = ts.setDate ts.gdate := by
        apply setDate_returns hdate hcrosses
        rw [secondsOfDay]
        split
        · left
          omega
        · right
          split <;> omega
      rw [hreturns, moveDate_same hdirect.1 hdirect.2, ← setDate_gdate]
      constructor
      · intro heq _ _
        rw [setDate_gdate]
        have hday : UInt16.ofNat (ts.day.toNat % 256) = ts.day := congrArg GdaTimestamp.day heq
        rw [← hday, UInt16.toNat_ofNat']
        omega
      · intro hbyte
        rw [hbyte hstays hdirect]
    · -- both changes leave the day, on the same side
      have hthen : 0 ≤ secondsOfDay (ts.shifted tz₁) - tz₁.toInt + tz₂.toInt ∧
          secondsOfDay (ts.shifted tz₁) - tz₁.toInt + tz₂.toInt < 86400 := by
        rw [secondsOfDay]
        split
        · omega
        · split <;> omega
      have hside : ts.moveDate (ts.shifted tz₁) = ts.moveDate (ts.shifted tz₂) := by
        by_cases hneg : ts.shifted tz₁ < 0
        · rw [moveDate_back hneg, moveDate_back (show ts.shifted tz₂ < 0 by omega)]
        · rw [moveDate_on (show 86400 ≤ ts.shifted tz₁ by omega),
            moveDate_on (show 86400 ≤ ts.shifted tz₂ by omega)]
      rw [moveDate_same hthen.1 hthen.2, hside]
      simp [hdirect]

theorem changeTimezone_unset (h : ts.Unset) : ts.changeTimezone ntz = ts := by
  have hinvalid : ts.valid = false := by
    apply eq_false_of_ne_true
    intro hvalid
    exact offset_ne_invalid (valid_iff.1 hvalid).2.2.2.2.2 h.1
  rw [changeTimezone, if_pos hinvalid]

theorem meets_iff (ts : GdaTimestamp) (tz₁ tz₂ : Int64) :
    ts.Meets tz₁ tz₂ ↔ ¬(ts.Unset ∧ OffsetInRange tz₁) ∧
      (ts.valid = true → OffsetInRange tz₁ → ts.Safe tz₁ tz₂) := by
  constructor
  · intro hmeets
    constructor
    · intro ⟨hunset, hrange⟩
      have hsets := hmeets.sets hunset hrange
      rw [changeTimezone_unset hunset] at hsets
      have hzone : ts.timezone = tz₁ := congrArg GdaTimestamp.timezone hsets
      rw [hunset.1] at hzone
      exact offset_ne_invalid hrange hzone.symm
    · intro h h₁
      have hcrosses := crosses_of_keeps h h₁ (hmeets.keeps h h₁)
      refine ⟨?_, ?_, ?_⟩
      · intro hfirst
        rw [ne_eq, dayShift_back]
        exact hcrosses.first hfirst
      · intro hlast
        rw [ne_eq, dayShift_on]
        exact hcrosses.last hlast
      · intro h₂
        exact (changeTimezone_twice_iff h h₁ h₂ hcrosses).1 (hmeets.twice h h₁ h₂)
  · intro ⟨hset, hsafe⟩
    have hcrosses : ts.valid = true → OffsetInRange tz₁ → ts.Crosses (ts.shifted tz₁) := by
      intro h h₁
      constructor
      · intro hfirst
        rw [← dayShift_back]
        exact (hsafe h h₁).first hfirst
      · intro hlast
        rw [← dayShift_on]
        exact (hsafe h h₁).last hlast
    refine ⟨?_, ?_, ?_⟩
    · intro h h₁
      exact changeTimezone_keeps h h₁ (hcrosses h h₁)
    · intro hunset h₁
      exact absurd ⟨hunset, h₁⟩ hset
    · intro h h₁ h₂
      exact (changeTimezone_twice_iff h h₁ h₂ (hcrosses h h₁)).2 ((hsafe h h₁).day h₂)

end GdaTimestamp

/-- What a change of the timezone keeps, and where it does not. -/
theorem changeTimezone_contract (ts : GdaTimestamp) (t : GdaTime) (tz₁ tz₂ : Int64) :
    (ts.Meets tz₁ tz₂ ↔ ¬(ts.Unset ∧ OffsetInRange tz₁) ∧
      (ts.valid = true → OffsetInRange tz₁ → ts.Safe tz₁ tz₂)) ∧
    (t.Meets tz₁ tz₂ ↔ ¬(t.Unset ∧ OffsetInRange tz₁)) :=
  ⟨ts.meets_iff tz₁ tz₂, t.meets_iff tz₁ tz₂⟩

def noonUnset : GdaTimestamp := ⟨2000, 1, 1, 12, 0, 0, 0, timezoneInvalid⟩

theorem noonUnset_refused : noonUnset.Unset ∧ ¬noonUnset.Meets 3600 0 := by
  have hunset : noonUnset.Unset := ⟨rfl, by decide⟩
  have hrange : OffsetInRange 3600 := by decide
  refine ⟨hunset, ?_⟩
  intro hmeets
  exact ((noonUnset.meets_iff 3600 0).1 hmeets).1 ⟨hunset, hrange⟩

end LibGda
