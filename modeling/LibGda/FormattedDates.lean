import LibGda.ValueText
import Mathlib.Data.FinEnum

/-! `gda_parse_formatted_date` and the date of `gda_parse_formatted_timestamp`, for numerals of any
length. -/

namespace LibGda

open DecimalText

structure DateFormat where
  first : GDateDmy
  second : GDateDmy
  third : GDateDmy
  sep : UInt8
  distinct : ¬ (first = second ∨ first = third ∨ second = third)
  notDigit : ¬ IsDigit sep

inductive DateFault where
  /-- a read behind the terminator of the text -/
  | beyondEnd
  deriving DecidableEq

/-- `if (*endptr != sep) return FALSE; endptr++;` -/
def overSeparator (sep : UInt8) : Bytes → Except DateFault (Option Bytes)
  | b :: s => .ok (if b = sep then some s else none)
  | [] => if sep = 0 then .error .beyondEnd else .ok none

/-- `_parse_formatted_date`: behind a terminator which was taken for a separator, the next number
is read from what is behind the text. -/
def formattedDate (first second third : GDateDmy) (sep : UInt8) (value : Bytes) :
    Except DateFault (Option (DmyDate × Bytes)) :=
  if first = second ∨ first = third ∨ second = third then .ok none
  else if IsDigit sep then .ok none
  else do
    let some (n₁, s) := readDatePart value | return none
    let some s ← overSeparator sep s | return none
    let some (n₂, s) := readDatePart s | return none
    let some s ← overSeparator sep s | return none
    let some (n₃, s) := readDatePart s | return none
    let part := datePart first second (n₁, n₂, n₃)
    return (dateOfNumbers (part .day) (part .month) (part .year)).map fun d => (d, s)

def gdaParseFormattedDate (first second third : GDateDmy) (sep : UInt8) (value : Bytes) :
    Except DateFault (Option DmyDate) := do
  match ← formattedDate first second third sep value with
  | some (d, []) => return some d
  | _ => return none

def timestampOf (d : DmyDate) (t : GdaTime) : GdaTimestamp :=
  ⟨d.year.toInt16, UInt16.ofNat d.month, UInt16.ofNat d.day, t.hour, t.minute, t.second,
    t.fraction, t.timezone⟩

def timeBehind (zoneOffset : Bytes → Option Int64) : Bytes → Option GdaTime
  | [] => some ⟨0, 0, 0, 0, timezoneInvalid⟩
  | b :: rest =>
    if b ≠ byte ' ' then none
    else if rest = [] then some ⟨0, 0, 0, 0, timezoneInvalid⟩
    else parseFormattedTime zoneOffset rest (byte ':')

def gdaParseFormattedTimestamp (zoneOffset : Bytes → Option Int64)
    (first second third : GDateDmy) (sep : UInt8) (value : Bytes) :
    Except DateFault (Option GdaTimestamp) := do
  match ← formattedDate first second third sep value with
  | some (d, s) => return (timeBehind zoneOffset s).map (timestampOf d)
  | none => return none

section Numbers

variable {digits rest s : Bytes} {n n' : Nat}

theorem folded_dateDigit (digits : Bytes) (h : n % 2 ^ 16 = n' % 2 ^ 16) :
    ∃ m, DecimalText.folded dateDigit n digits = some m ∧
      m % 2 ^ 16 = number n' digits % 2 ^ 16 := by
  induction digits generalizing n n' with
  | nil => exact ⟨n, rfl, h⟩
  | cons b digits ih =>
    have hstep : (n * 10 + digitValue b) % 2 ^ 64 % 2 ^ 16 = (n' * 10 + digitValue b) % 2 ^ 16 := by
      omega
    obtain ⟨m, hm, hmod⟩ := ih hstep
    refine ⟨m, ?_, ?_⟩
    · rw [DecimalText.folded, dateDigit]
      exact hm
    · rw [hmod]
      rfl

theorem readDatePart_digits (hdigits : ∀ b ∈ digits, IsDigit b)
    (hrest : ∀ b ∈ rest.head?, ¬ IsDigit b) :
    readDatePart (digits ++ rest) = some (number 0 digits % 2 ^ 16, rest) := by
  have hends : EndsDigits (digits ++ rest).length digits rest := by
    rw [List.length_append]
    rcases Nat.eq_zero_or_pos rest.length with hzero | hpos
    · exact .inl (by omega)
    · exact .inr ⟨by omega, hrest⟩
  obtain ⟨m, hm, hmod⟩ := @folded_dateDigit 0 0 digits rfl
  rw [readDatePart, readDigits_append 0 hdigits hends, hm, Option.map_some, Option.map_some, hmod]

theorem split_digits (s : Bytes) : ∃ digits rest, s = digits ++ rest ∧
    (∀ b ∈ digits, IsDigit b) ∧ ∀ b ∈ rest.head?, ¬ IsDigit b := by
  refine ⟨s.takeWhile fun b => IsDigit b, s.dropWhile fun b => IsDigit b,
    List.takeWhile_append_dropWhile.symm, ?_, ?_⟩
  · intro b hb
    have hdigit := List.mem_takeWhile_imp (p := fun b => decide (IsDigit b)) hb
    exact of_decide_eq_true hdigit
  · intro b hb hdigit
    have hno := List.head?_dropWhile_not (fun b => decide (IsDigit b)) s
    rw [Option.mem_def.1 hb] at hno
    simp [hdigit] at hno

theorem digits_unique {digits' rest' : Bytes} (hdigits : ∀ b ∈ digits, IsDigit b)
    (hrest : ∀ b ∈ rest.head?, ¬ IsDigit b) (hdigits' : ∀ b ∈ digits', IsDigit b)
    (hrest' : ∀ b ∈ rest'.head?, ¬ IsDigit b) (h : digits ++ rest = digits' ++ rest') :
    digits = digits' ∧ rest = rest' := by
  induction digits generalizing digits' with
  | nil =>
    cases digits' with
    | nil => exact ⟨rfl, h⟩
    | cons b digits' =>
      rw [List.nil_append] at h
      rw [h] at hrest
      exact absurd (hdigits' b List.mem_cons_self) (hrest b rfl)
  | cons c digits ih =>
    cases digits' with
    | nil =>
      rw [List.nil_append] at h
      rw [← h] at hrest'
      exact absurd (hdigits c List.mem_cons_self) (hrest' c rfl)
    | cons b digits' =>
      rw [List.cons_append, List.cons_append, List.cons.injEq] at h
      obtain ⟨hd, hr⟩ := ih (fun x hx => hdigits x (List.mem_cons_of_mem c hx))
        (fun x hx => hdigits' x (List.mem_cons_of_mem b hx)) h.2
      exact ⟨by rw [h.1, hd], hr⟩

end Numbers

structure DateDigits (sep : UInt8) (value a b c rest : Bytes) : Prop where
  text : value = a ++ sep :: (b ++ sep :: (c ++ rest))
  first : ∀ d ∈ a, IsDigit d
  second : ∀ d ∈ b, IsDigit d
  third : ∀ d ∈ c, IsDigit d
  behind : ∀ d ∈ rest.head?, ¬ IsDigit d

def writtenPart (format : DateFormat) (a b c : Bytes) (part : GDateDmy) : Nat :=
  datePart format.first format.second (number 0 a, number 0 b, number 0 c) part

/-- The date of the numbers, as much of each as a `guint16` takes. -/
def narrowedDate (format : DateFormat) (a b c : Bytes) : Option DmyDate :=
  dateOfNumbers (writtenPart format a b c .day % 2 ^ 16)
    (writtenPart format a b c .month % 2 ^ 16) (writtenPart format a b c .year % 2 ^ 16)

section Format

variable {format : DateFormat} {value a b c rest a' b' c' rest' : Bytes} {d : DmyDate}

theorem DateDigits.unique {sep : UInt8} (hsep : ¬ IsDigit sep)
    (h : DateDigits sep value a b c rest) (h' : DateDigits sep value a' b' c' rest') :
    a = a' ∧ b = b' ∧ c = c' ∧ rest = rest' := by
  have hhead : ∀ s : Bytes, ∀ d ∈ (sep :: s).head?, ¬ IsDigit d := by
    intro s d hd
    rw [← Option.some.inj hd]
    exact hsep
  obtain ⟨ha, h₁⟩ := digits_unique h.first (hhead _) h'.first (hhead _) (h.text.symm.trans h'.text)
  obtain ⟨hb, h₂⟩ := digits_unique h.second (hhead _) h'.second (hhead _) (List.cons.inj h₁).2
  obtain ⟨hc, hr⟩ := digits_unique h.third h.behind h'.third h'.behind (List.cons.inj h₂).2
  exact ⟨ha, hb, hc, hr⟩

theorem datePart_mod (first second : GDateDmy) (x y z : Nat) (part : GDateDmy) :
    datePart first second (x % 2 ^ 16, y % 2 ^ 16, z % 2 ^ 16) part =
      datePart first second (x, y, z) part % 2 ^ 16 := by
  rw [datePart, datePart]
  split
  · rfl
  · split <;> rfl

theorem formattedDate_digits (h : DateDigits format.sep value a b c rest) :
    formattedDate format.first format.second format.third format.sep value =
      .ok ((narrowedDate format a b c).map fun d => (d, rest)) := by
  have hhead : ∀ s : Bytes, ∀ d ∈ (format.sep :: s).head?, ¬ IsDigit d := by
    intro s d hd
    rw [← Option.some.inj hd]
    exact format.notDigit
  have hover : ∀ s, overSeparator format.sep (format.sep :: s) = .ok (some s) := by
    intro s
    rw [overSeparator, if_pos rfl]
  rw [formattedDate, if_neg format.distinct, if_neg format.notDigit, h.text,
    readDatePart_digits h.first (hhead _)]
  simp only [hover, bind, Except.bind, readDatePart_digits h.second (hhead _),
    readDatePart_digits h.third h.behind, datePart_mod]
  rfl

theorem formattedDate_nul (hsep : format.sep = 0) (value : CBytes) :
    formattedDate format.first format.second format.third format.sep value =
      if ∀ b ∈ value.1, IsDigit b then .error .beyondEnd else .ok none := by
  obtain ⟨digits, rest, hsplit, hdigits, hrest⟩ := split_digits value.1
  rw [formattedDate, if_neg format.distinct, if_neg format.notDigit, hsplit,
    readDatePart_digits hdigits hrest]
  cases rest with
  | nil =>
    rw [List.append_nil, if_pos hdigits]
    simp only [overSeparator, hsep, if_true, bind, Except.bind]
  | cons b rest =>
    have hb : b ≠ format.sep := by
      intro heq
      apply value.2
      rw [hsplit, heq, hsep]
      exact List.mem_append_right _ List.mem_cons_self
    have hnot : ¬ ∀ c ∈ digits ++ b :: rest, IsDigit c := by
      intro hall
      exact hrest b rfl (hall b (List.mem_append_right _ List.mem_cons_self))
    rw [if_neg hnot]
    simp only [overSeparator, if_neg hb, bind, Except.bind, pure, Except.pure]

theorem digits_or_none (hsep : format.sep ≠ 0) (value : Bytes) :
    (∃ a b c rest, DateDigits format.sep value a b c rest) ∨
      formattedDate format.first format.second format.third format.sep value = .ok none := by
  have hover : ∀ s, overSeparator format.sep s = .ok (skipByte format.sep s) := by
    intro s
    cases s with
    | nil => rw [overSeparator, if_neg hsep, skipByte]
    | cons b s => rw [overSeparator, skipByte]
  have hskip : ∀ s t, skipByte format.sep s = some t → s = format.sep :: t := by
    intro s t hst
    cases s with
    | nil => cases hst
    | cons b s =>
      rw [skipByte] at hst
      split at hst
      · next hb => rw [hb, Option.some.inj hst]
      · cases hst
  obtain ⟨a, s₁, rfl, ha, hs₁⟩ := split_digits value
  have hfirst := @readDatePart_digits a s₁ ha hs₁
  rw [formattedDate, if_neg format.distinct, if_neg format.notDigit, hfirst]
  simp only [hover, bind, Except.bind]
  cases hskip₁ : skipByte format.sep s₁ with
  | none => exact .inr rfl
  | some t₁ =>
    obtain ⟨b, s₂, rfl, hb, hs₂⟩ := split_digits t₁
    simp only [readDatePart_digits hb hs₂]
    cases hskip₂ : skipByte format.sep s₂ with
    | none => exact .inr rfl
    | some t₂ =>
      obtain ⟨c, s₃, rfl, hc, hs₃⟩ := split_digits t₂
      refine .inl ⟨a, b, c, s₃, ?_, ha, hb, hc, hs₃⟩
      rw [hskip _ _ hskip₁, hskip _ _ hskip₂]

theorem narrowedDate_eq_some : narrowedDate format a b c = some d ↔
    dateValidDmy (writtenPart format a b c .day % 2 ^ 16)
        (writtenPart format a b c .month % 2 ^ 16)
        (writtenPart format a b c .year % 2 ^ 16) = true ∧
      d.day.1 = writtenPart format a b c .day % 2 ^ 16 ∧
      d.month.1 = writtenPart format a b c .month % 2 ^ 16 ∧
      d.year.toNat = writtenPart format a b c .year % 2 ^ 16 := by
  rw [narrowedDate, dateOfNumbers_eq]
  constructor
  · intro h
    split at h
    · next hvalid =>
      have hbounds := dateValidDmy_bounds hvalid
      obtain rfl := Option.some.inj h
      refine ⟨hvalid, ?_, ?_, ?_⟩
      · exact Nat.mod_eq_of_lt (by omega)
      · exact Nat.mod_eq_of_lt (by omega)
      · rw [UInt16.toNat_ofNat']
        exact Nat.mod_mod _ _
    · cases h
  · rintro ⟨hvalid, hday, hmonth, hyear⟩
    have hbounds := dateValidDmy_bounds hvalid
    rw [if_pos hvalid, Option.some.injEq, ← hday, ← hmonth, ← hyear]
    obtain ⟨day, month, year⟩ := d
    rw [DmyDate.mk.injEq]
    refine ⟨Fin.ext (Nat.mod_eq_of_lt day.2), Fin.ext (Nat.mod_eq_of_lt month.2), ?_⟩
    exact UInt16.ofNat_toNat

end Format

section Contract

variable (zoneOffset : Bytes → Option Int64) (format : DateFormat) (value : CBytes)

def IsDateText (value : Bytes) (d : DmyDate) : Prop :=
  ∃ a b c, DateDigits format.sep value a b c [] ∧ a ≠ [] ∧ b ≠ [] ∧ c ≠ [] ∧
    dateValidDmy (writtenPart format a b c .day) (writtenPart format a b c .month)
      (writtenPart format a b c .year) = true ∧
    writtenPart format a b c .year ≤ 65535 ∧
    d.day.1 = writtenPart format a b c .day ∧ d.month.1 = writtenPart format a b c .month ∧
    d.year.toNat = writtenPart format a b c .year

def ReadsDate : Prop :=
  ∃ r, gdaParseFormattedDate format.first format.second format.third format.sep value = .ok r ∧
    ∀ d, r = some d ↔ IsDateText format value d

def ReadsStampDate : Prop :=
  ∃ r, gdaParseFormattedTimestamp zoneOffset format.first format.second format.third format.sep
      value = .ok r ∧
    (∀ ts, r = some ts → ∃ text rest d, value.1 = text ++ rest ∧
      (rest = [] ∨ rest.head? = some (byte ' ')) ∧
      gdaParseFormattedDate format.first format.second format.third format.sep text =
        .ok (some d) ∧
      ts.year.toInt = d.year.toNat ∧ ts.month.toNat = d.month ∧ ts.day.toNat = d.day) ∧
    ∀ d, gdaParseFormattedDate format.first format.second format.third format.sep value =
      .ok (some d) → r ≠ none

def StaysInText : Prop := ¬ (format.sep = 0 ∧ ∀ b ∈ value.1, IsDigit b)

def NoneNarrowed : Prop :=
  ∀ a b c, DateDigits format.sep value a b c [] → narrowedDate format a b c ≠ none →
    ∀ part, writtenPart format a b c part < 2 ^ 16

def YearFits : Prop :=
  ∀ a b c rest d, DateDigits format.sep value a b c rest → narrowedDate format a b c = some d →
    timeBehind zoneOffset rest ≠ none → d.year.toNat < 2 ^ 15

variable {zoneOffset} {format} {value}

theorem gdaParseFormattedDate_digits {text a b c rest : Bytes}
    (h : DateDigits format.sep text a b c rest) :
    gdaParseFormattedDate format.first format.second format.third format.sep text =
      .ok (if rest = [] then narrowedDate format a b c else none) := by
  rw [gdaParseFormattedDate, formattedDate_digits h]
  cases narrowedDate format a b c with
  | none => simp [bind, Except.bind, pure, Except.pure]
  | some d =>
    cases rest with
    | nil => rfl
    | cons e rest => rfl

theorem gdaParseFormattedTimestamp_digits {text a b c rest : Bytes}
    (h : DateDigits format.sep text a b c rest) :
    gdaParseFormattedTimestamp zoneOffset format.first format.second format.third format.sep text =
      .ok ((narrowedDate format a b c).bind fun d =>
        (timeBehind zoneOffset rest).map (timestampOf d)) := by
  rw [gdaParseFormattedTimestamp, formattedDate_digits h]
  cases narrowedDate format a b c with
  | none => rfl
  | some d => rfl

theorem sep_ne_zero {a b c rest : Bytes} (h : DateDigits format.sep value a b c rest) :
    format.sep ≠ 0 := by
  intro hsep
  apply value.2
  rw [h.text, hsep]
  exact List.mem_append_right _ List.mem_cons_self

theorem writtenPart_places (format : DateFormat) (a b c : Bytes) :
    writtenPart format a b c format.first = number 0 a ∧
      writtenPart format a b c format.second = number 0 b ∧
      writtenPart format a b c format.third = number 0 c := by
  have hdistinct := format.distinct
  rw [not_or, not_or] at hdistinct
  refine ⟨if_pos rfl, ?_, ?_⟩
  · exact (if_neg hdistinct.1).trans (if_pos rfl)
  · exact (if_neg hdistinct.2.1).trans (if_neg hdistinct.2.2)

theorem dateValidDmy_year_pos {day month year : Nat} (h : dateValidDmy day month year = true) :
    0 < year := by
  rw [dateValidDmy] at h
  simp only [Bool.and_eq_true, decide_eq_true_eq] at h
  exact h.1.2

theorem isDateText_iff {a b c : Bytes} (h : DateDigits format.sep value a b c []) (d : DmyDate) :
    IsDateText format value d ↔
      narrowedDate format a b c = some d ∧ ∀ part, writtenPart format a b c part < 2 ^ 16 := by
  rw [narrowedDate_eq_some]
  constructor
  · rintro ⟨a', b', c', h', _, _, _, hvalid, hle, hday, hmonth, hyear⟩
    obtain ⟨rfl, rfl, rfl, -⟩ := h.unique format.notDigit h'
    have hbounds := dateValidDmy_bounds hvalid
    have hsmall : ∀ part, writtenPart format a b c part < 2 ^ 16 := by
      intro part
      cases part with
      | day => omega
      | month => omega
      | year => omega
    rw [Nat.mod_eq_of_lt (hsmall .day), Nat.mod_eq_of_lt (hsmall .month),
      Nat.mod_eq_of_lt (hsmall .year)]
    exact ⟨⟨hvalid, hday, hmonth, hyear⟩, hsmall⟩
  · rintro ⟨hnarrowed, hsmall⟩
    rw [Nat.mod_eq_of_lt (hsmall .day), Nat.mod_eq_of_lt (hsmall .month),
      Nat.mod_eq_of_lt (hsmall .year)] at hnarrowed
    obtain ⟨hvalid, hday, hmonth, hyear⟩ := hnarrowed
    have hbounds := dateValidDmy_bounds hvalid
    have hpos : ∀ part, 0 < writtenPart format a b c part := by
      intro part
      cases part with
      | day => exact hbounds.2.2.1
      | month => exact hbounds.1
      | year => exact dateValidDmy_year_pos hvalid
    have hplaces := writtenPart_places format a b c
    have hne : ∀ digits : Bytes, 0 < number 0 digits → digits ≠ [] := by
      intro digits h hnil
      rw [hnil] at h
      exact absurd h (by decide)
    refine ⟨a, b, c, h, hne a ?_, hne b ?_, hne c ?_, hvalid, ?_, hday, hmonth, hyear⟩
    · rw [← hplaces.1]
      exact hpos _
    · rw [← hplaces.2.1]
      exact hpos _
    · rw [← hplaces.2.2]
      exact hpos _
    · have := hsmall .year
      omega

theorem readsDate_iff {a b c rest : Bytes} (h : DateDigits format.sep value a b c rest) :
    ReadsDate format value ↔ NoneNarrowed format value := by
  have hread := gdaParseFormattedDate_digits h
  by_cases hrest : rest = []
  · subst hrest
    rw [if_pos rfl] at hread
    constructor
    · intro ⟨r, hr, hiff⟩ a' b' c' h' hsome part
      obtain ⟨rfl, rfl, rfl, -⟩ := h.unique format.notDigit h'
      rw [hread, Except.ok.injEq] at hr
      obtain ⟨d, hd⟩ := Option.ne_none_iff_exists'.1 hsome
      exact ((isDateText_iff h d).1 ((hiff d).1 (hr.symm.trans hd))).2 part
    · intro hnone
      refine ⟨_, hread, ?_⟩
      intro d
      rw [isDateText_iff h]
      refine ⟨fun hd => ⟨hd, hnone a b c h ?_⟩, And.left⟩
      rw [hd]
      exact Option.some_ne_none d
  · rw [if_neg hrest] at hread
    have hother : ∀ a' b' c', ¬ DateDigits format.sep value a' b' c' [] := by
      intro a' b' c' h'
      exact hrest (h.unique format.notDigit h').2.2.2
    refine iff_of_true ⟨none, hread, ?_⟩ ?_
    · intro d
      refine iff_of_false nofun ?_
      intro ⟨a', b', c', h', _⟩
      exact hother a' b' c' h'
    · intro a' b' c' h'
      exact absurd h' (hother a' b' c')

theorem behind_blank {rest : Bytes} (h : timeBehind zoneOffset rest ≠ none) :
    rest = [] ∨ rest.head? = some (byte ' ') := by
  cases rest with
  | nil => exact .inl rfl
  | cons b rest =>
    rw [timeBehind] at h
    by_cases hb : b = byte ' '
    · exact .inr (congrArg some hb)
    · rw [if_pos hb] at h
      exact absurd rfl h

theorem toInt_toInt16 (n : UInt16) : n.toInt16.toInt = n.toNat ↔ n.toNat < 2 ^ 15 := by
  have hlt := n.toNat_lt
  have hcases : n.toInt16.toInt = if 2 * n.toNat < 2 ^ 16 then (n.toNat : Int)
      else n.toNat - (2 ^ 16 : Nat) := BitVec.toInt_eq_toNat_cond n.toBitVec
  rw [hcases]
  split <;> omega

theorem readsStampDate_iff {a b c rest : Bytes} (h : DateDigits format.sep value a b c rest) :
    ReadsStampDate zoneOffset format value ↔ YearFits zoneOffset format value := by
  have hread := @gdaParseFormattedTimestamp_digits zoneOffset _ _ _ _ _ _ h
  have htext : DateDigits format.sep (a ++ format.sep :: (b ++ format.sep :: c)) a b c [] :=
    ⟨by rw [List.append_nil], h.first, h.second, h.third, nofun⟩
  constructor
  · intro ⟨r, hr, hstamp, _⟩ a' b' c' rest' d h' hd htime
    obtain ⟨rfl, rfl, rfl, rfl⟩ := h.unique format.notDigit h'
    rw [hread, Except.ok.injEq, hd] at hr
    obtain ⟨t, ht⟩ := Option.ne_none_iff_exists'.1 htime
    rw [ht] at hr
    obtain ⟨text, rest', d', hvalue, hblank, hdate, hyear, -, -⟩ := hstamp _ hr.symm
    have hsep := sep_ne_zero h
    rcases @digits_or_none format hsep text with ⟨a₂, b₂, c₂, rest₂, h₂⟩ | hnone
    · rw [gdaParseFormattedDate_digits h₂, Except.ok.injEq] at hdate
      by_cases hrest₂ : rest₂ = []
      · subst hrest₂
        rw [if_pos rfl] at hdate
        have hwhole : DateDigits format.sep value a₂ b₂ c₂ rest' := by
          refine ⟨?_, h₂.first, h₂.second, h₂.third, ?_⟩
          · rw [hvalue, h₂.text]
            simp
          · intro e he
            rcases hblank with rfl | hblank
            · cases he
            · rw [hblank] at he
              rw [← Option.some.inj he]
              decide
        obtain ⟨rfl, rfl, rfl, rfl⟩ := h.unique format.notDigit hwhole
        rw [hd, Option.some.injEq] at hdate
        subst hdate
        exact (toInt_toInt16 _).1 hyear
      · rw [if_neg hrest₂] at hdate
        cases hdate
    · rw [gdaParseFormattedDate, hnone] at hdate
      cases hdate
  · intro hfits
    refine ⟨_, hread, ?_, ?_⟩
    · intro ts hts
      obtain ⟨d, hd, hts⟩ := Option.bind_eq_some_iff.1 hts
      obtain ⟨t, ht, rfl⟩ := Option.map_eq_some_iff.1 hts
      have htime : timeBehind zoneOffset rest ≠ none := by
        rw [ht]
        exact Option.some_ne_none t
      refine ⟨a ++ format.sep :: (b ++ format.sep :: c), rest, d, ?_, behind_blank htime, ?_, ?_,
        ?_, ?_⟩
      · rw [h.text]
        simp only [List.append_assoc, List.cons_append]
      · rw [gdaParseFormattedDate_digits htext, if_pos rfl, hd]
      · exact (toInt_toInt16 _).2 (hfits a b c rest d h hd htime)
      · exact UInt16.toNat_ofNat_of_lt' (d.month.2.trans (by decide))
      · exact UInt16.toNat_ofNat_of_lt' (d.day.2.trans (by decide))
    · intro d hd
      rw [gdaParseFormattedDate_digits h, Except.ok.injEq] at hd
      by_cases hrest : rest = []
      · rw [if_pos hrest] at hd
        rw [hd, hrest]
        exact Option.some_ne_none _
      · rw [if_neg hrest] at hd
        cases hd

variable (zoneOffset) (format) (value)

theorem formattedDate_contract :
    (ReadsDate format value ∧ ReadsStampDate zoneOffset format value) ↔
      StaysInText format value ∧ NoneNarrowed format value ∧ YearFits zoneOffset format value := by
  by_cases hdigits : ∃ a b c rest, DateDigits format.sep value a b c rest
  · obtain ⟨a, b, c, rest, h⟩ := hdigits
    have hstays : StaysInText format value := fun hnul => sep_ne_zero h hnul.1
    rw [and_iff_right hstays]
    exact and_congr (readsDate_iff h) (readsStampDate_iff h)
  · have hnone : NoneNarrowed format value ∧ YearFits zoneOffset format value :=
      ⟨fun a b c h => absurd ⟨a, b, c, [], h⟩ hdigits,
        fun a b c rest d h => absurd ⟨a, b, c, rest, h⟩ hdigits⟩
    rw [and_iff_left hnone]
    have hread : ¬ StaysInText format value ∧ formattedDate format.first format.second
        format.third format.sep value = .error .beyondEnd ∨
        StaysInText format value ∧ formattedDate format.first format.second
          format.third format.sep value = .ok none := by
      by_cases hsep : format.sep = 0
      · rw [formattedDate_nul hsep, StaysInText]
        by_cases hall : ∀ b ∈ value.1, IsDigit b
        · exact .inl ⟨fun h => h ⟨hsep, hall⟩, if_pos hall⟩
        · exact .inr ⟨fun h => hall h.2, if_neg hall⟩
      · exact .inr ⟨fun h => hsep h.1, (digits_or_none hsep value.1).resolve_left hdigits⟩
    rcases hread with ⟨hstays, hread⟩ | ⟨hstays, hread⟩
    · refine iff_of_false ?_ hstays
      intro ⟨⟨r, hr, _⟩, _⟩
      rw [gdaParseFormattedDate, hread] at hr
      cases hr
    · have hdate : gdaParseFormattedDate format.first format.second format.third format.sep value =
          .ok none := by
        rw [gdaParseFormattedDate, hread]
        rfl
      have hstamp : gdaParseFormattedTimestamp zoneOffset format.first format.second format.third
          format.sep value = .ok none := by
        rw [gdaParseFormattedTimestamp, hread]
        rfl
      refine iff_of_true ⟨⟨none, hdate, ?_⟩, none, hstamp, nofun, ?_⟩ hstays
      · intro d
        refine iff_of_false nofun ?_
        intro ⟨a, b, c, h, _⟩
        exact hdigits ⟨a, b, c, [], h⟩
      · intro d hd
        rw [hdate] at hd
        cases hd

end Contract

def isoFormat : DateFormat := ⟨.year, .month, .day, byte '-', by decide, by decide⟩

/-- `67546-1-1` is taken for the first day of 2010. -/
theorem bigYear_readsDate : ¬ ReadsDate isoFormat ⟨bytes "67546-1-1", by decide⟩ := by
  have hdigits (s : Bytes) (h : s.all (fun d => decide (IsDigit d)) = true) : ∀ d ∈ s, IsDigit d :=
    by simpa using h
  have h : DateDigits (byte '-') (bytes "67546-1-1") (bytes "67546") (bytes "1") (bytes "1") [] :=
    ⟨rfl, hdigits _ (by decide), hdigits _ (by decide), hdigits _ (by decide), nofun⟩
  have hread := @readsDate_iff isoFormat ⟨bytes "67546-1-1", by decide⟩ _ _ _ _ h
  rw [hread]
  intro hnone
  exact absurd (hnone _ _ _ h (by decide) .year) (by decide)

end LibGda
