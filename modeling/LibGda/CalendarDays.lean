import LibGda.TimeText

/-! The days of the Gregorian calendar: the one behind a day, the one in front of it, and their
number since the first day of the year 1. -/

namespace LibGda

structure CalendarDay where
  year : Nat
  month : Nat
  day : Nat
  deriving DecidableEq

namespace CalendarDay

structure Valid (d : CalendarDay) : Prop where
  year_pos : 0 < d.year
  month_pos : 0 < d.month
  month_le : d.month ≤ 12
  day_pos : 0 < d.day
  day_le : d.day ≤ daysInMonth d.month d.year

def next (d : CalendarDay) : CalendarDay :=
  if d.day < daysInMonth d.month d.year then ⟨d.year, d.month, d.day + 1⟩
  else if d.month < 12 then ⟨d.year, d.month + 1, 1⟩
  else ⟨d.year + 1, 1, 1⟩

def prev (d : CalendarDay) : CalendarDay :=
  if 1 < d.day then ⟨d.year, d.month, d.day - 1⟩
  else if 1 < d.month then ⟨d.year, d.month - 1, daysInMonth (d.month - 1) d.year⟩
  else ⟨d.year - 1, 12, 31⟩

def daysBeforeYear (year : Nat) : Nat :=
  365 * (year - 1) + (year - 1) / 4 - (year - 1) / 100 + (year - 1) / 400

def daysBeforeMonth (year : Nat) : Nat → Nat
  | 0 => 0
  | 1 => 0
  | month + 2 => daysBeforeMonth year (month + 1) + daysInMonth (month + 1) year

def number (d : CalendarDay) : Nat :=
  daysBeforeYear d.year + daysBeforeMonth d.year d.month + d.day

def first : CalendarDay := ⟨1, 1, 1⟩

variable {d : CalendarDay} {month year : Nat}

theorem daysInMonth_pos (month year : Nat) : 28 ≤ daysInMonth month year := by
  rw [daysInMonth]
  split
  · split <;> omega
  · split <;> omega

theorem daysInMonth_december (year : Nat) : daysInMonth 12 year = 31 := rfl

theorem daysBeforeMonth_succ (hpos : 0 < month) :
    daysBeforeMonth year (month + 1) = daysBeforeMonth year month + daysInMonth month year := by
  obtain ⟨k, rfl⟩ := Nat.exists_eq_succ_of_ne_zero (Nat.ne_of_gt hpos)
  rfl

theorem daysBeforeMonth_december (year : Nat) :
    daysBeforeMonth year 12 = if isLeapYear year then 335 else 334 := by
  by_cases hleap : isLeapYear year = true
  · simp [daysBeforeMonth, daysInMonth, hleap]
  · simp [daysBeforeMonth, daysInMonth, hleap]

theorem div_succ (k n : Nat) :
    (k + 1) / n = k / n + if (k + 1) % n = 0 then 1 else 0 := by
  rw [Nat.succ_div]
  simp only [Nat.dvd_iff_mod_eq_zero]

theorem daysBeforeYear_succ (hpos : 0 < year) :
    daysBeforeYear (year + 1) = daysBeforeYear year + if isLeapYear year then 366 else 365 := by
  obtain ⟨k, rfl⟩ := Nat.exists_eq_succ_of_ne_zero (Nat.ne_of_gt hpos)
  have hhundred : k / 100 ≤ k / 4 := Nat.div_le_div_left (by decide) (by decide)
  simp only [daysBeforeYear, Nat.succ_eq_add_one, Nat.add_sub_cancel, div_succ k]
  by_cases hfour : (k + 1) % 4 = 0
  · by_cases hcentury : (k + 1) % 100 = 0
    · by_cases hfull : (k + 1) % 400 = 0
      · have hleap : isLeapYear (k + 1) = true := by simp [isLeapYear, hfour, hfull]
        rw [if_pos hfour, if_pos hcentury, if_pos hfull, if_pos hleap]
        omega
      · have hleap : ¬isLeapYear (k + 1) = true := by simp [isLeapYear, hcentury, hfull]
        rw [if_pos hfour, if_pos hcentury, if_neg hfull, if_neg hleap]
        omega
    · have hfull : ¬(k + 1) % 400 = 0 := by omega
      have hleap : isLeapYear (k + 1) = true := by simp [isLeapYear, hfour, hcentury]
      rw [if_pos hfour, if_neg hcentury, if_neg hfull, if_pos hleap]
      omega
  · have hcentury : ¬(k + 1) % 100 = 0 := by omega
    have hfull : ¬(k + 1) % 400 = 0 := by omega
    have hleap : ¬isLeapYear (k + 1) = true := by simp [isLeapYear, hfour]
    rw [if_neg hfour, if_neg hcentury, if_neg hfull, if_neg hleap]
    omega

theorem next_valid (h : d.Valid) : d.next.Valid := by
  have hone (month year : Nat) : 1 ≤ daysInMonth month year :=
    le_trans (by decide) (daysInMonth_pos month year)
  rw [next]
  split
  · next hday => exact ⟨h.year_pos, h.month_pos, h.month_le, Nat.succ_pos _, hday⟩
  · split
    · next hmonth =>
      exact ⟨h.year_pos, Nat.succ_pos _, hmonth, Nat.one_pos, hone _ _⟩
    · exact ⟨Nat.succ_pos _, Nat.one_pos, Nat.succ_pos _, Nat.one_pos, hone _ _⟩

theorem number_next (h : d.Valid) : d.next.number = d.number + 1 := by
  rw [next]
  split
  · rfl
  · next hday =>
    have hlast : d.day = daysInMonth d.month d.year := Nat.le_antisymm h.day_le (Nat.not_lt.1 hday)
    split
    · show daysBeforeYear d.year + daysBeforeMonth d.year (d.month + 1) + 1 = _
      rw [number, daysBeforeMonth_succ h.month_pos, hlast]
      omega
    · next hmonth =>
      have hdecember : d.month = 12 := Nat.le_antisymm h.month_le (Nat.not_lt.1 hmonth)
      rw [hdecember, daysInMonth_december] at hlast
      show daysBeforeYear (d.year + 1) + 0 + 1 = _
      rw [number, daysBeforeYear_succ h.year_pos, hdecember, hlast, daysBeforeMonth_december]
      split <;> omega

theorem prev_valid (h : d.Valid) (hfirst : d ≠ first) : d.prev.Valid := by
  rw [prev]
  split
  · next hday =>
    refine ⟨h.year_pos, h.month_pos, h.month_le, Nat.sub_pos_of_lt hday, ?_⟩
    exact (Nat.sub_le _ _).trans h.day_le
  · next hday =>
    have hone : d.day = 1 := by
      have := h.day_pos
      omega
    split
    · next hmonth =>
      have hle := h.month_le
      refine ⟨h.year_pos, Nat.sub_pos_of_lt hmonth, ?_, ?_, le_rfl⟩
      · show d.month - 1 ≤ 12
        omega
      · exact lt_of_lt_of_le (by decide) (daysInMonth_pos _ _)
    · next hmonth =>
      have hjanuary : d.month = 1 := by
        have := h.month_pos
        omega
      have hyear : 1 < d.year := by
        have hpos := h.year_pos
        by_contra hno
        apply hfirst
        have hyear : d.year = 1 := by omega
        obtain ⟨year, month, day⟩ := d
        rw [first, CalendarDay.mk.injEq]
        exact ⟨hyear, hjanuary, hone⟩
      exact ⟨Nat.sub_pos_of_lt hyear, Nat.succ_pos _, le_rfl, Nat.succ_pos _, le_rfl⟩

theorem next_prev (h : d.Valid) (hfirst : d ≠ first) : d.prev.next = d := by
  obtain ⟨year, month, day⟩ := d
  have hday := h.day_pos
  have hle := h.day_le
  have hmonth_pos := h.month_pos
  have hyear_pos := h.year_pos
  simp only at hday hle hmonth_pos hyear_pos
  rw [prev]
  split
  · next hone =>
    simp only at hone
    rw [next, if_pos (show day - 1 < daysInMonth month year by omega)]
    simp only [CalendarDay.mk.injEq, true_and]
    omega
  · next hone =>
    simp only at hone
    split
    · next hmonth =>
      simp only at hmonth
      have hmonth_le := h.month_le
      simp only at hmonth_le
      rw [next, if_neg (lt_irrefl _), if_pos (show month - 1 < 12 by omega)]
      simp only [CalendarDay.mk.injEq, true_and]
      omega
    · next hmonth =>
      simp only at hmonth
      have hyear : year ≠ 1 := by
        intro hyear
        apply hfirst
        rw [first, CalendarDay.mk.injEq]
        omega
      rw [next, if_neg (by rw [daysInMonth_december]; exact lt_irrefl _), if_neg (lt_irrefl _)]
      simp only [CalendarDay.mk.injEq]
      omega

theorem number_prev (h : d.Valid) (hfirst : d ≠ first) : d.prev.number + 1 = d.number := by
  rw [← number_next (prev_valid h hfirst), next_prev h hfirst]

theorem number_first_lt (h : d.Valid) : 1 < d.number ↔ d ≠ first := by
  constructor
  · intro hlt hfirst
    rw [hfirst] at hlt
    exact absurd hlt (by decide)
  · intro hfirst
    have hprev := (prev_valid h hfirst).day_pos
    rw [← number_prev h hfirst, number]
    omega

theorem prev_next (h : d.Valid) : d.next.prev = d := by
  obtain ⟨year, month, day⟩ := d
  have hday := h.day_pos
  have hle := h.day_le
  simp only at hday hle
  rw [next]
  split
  · rw [prev, if_pos (Nat.lt_add_of_pos_left hday)]
    rfl
  · next hlast =>
    simp only at hlast
    have heq : day = daysInMonth month year := by omega
    split
    · next hmonth =>
      rw [prev, if_neg (lt_irrefl _), if_pos (Nat.lt_add_of_pos_left h.month_pos)]
      simp only [Nat.add_sub_cancel, heq]
    · next hmonth =>
      have hdecember : month = 12 := Nat.le_antisymm h.month_le (Nat.not_lt.1 hmonth)
      rw [prev, if_neg (lt_irrefl _), if_neg (lt_irrefl _)]
      subst hdecember
      rw [daysInMonth_december] at heq
      simp only [Nat.add_sub_cancel, heq]

end CalendarDay

end LibGda
