import LibGda.NumeralReading
import Mathlib.Algebra.Field.Rat
import Mathlib.Data.FinEnum

/-! The handler of numbers: the texts it writes, and what its two readers take for a number of each
integer type and for a `GdaNumeric`. -/

namespace LibGda

namespace HandlerNumerical

open DecimalText

/-- The bounds which `llint` is tested against; `(gulong) llint <= G_MAXULONG` bounds nothing. -/
def tested : NumberType → Int × Int
  | .int64 => (-2 ^ 63, 2 ^ 63 - 1)
  | .int => (-2 ^ 31, 2 ^ 31 - 1)
  | .short => (-2 ^ 15, 2 ^ 15 - 1)
  | .char => (-2 ^ 7, 2 ^ 7 - 1)
  | .uint64 => (0, 2 ^ 63 - 1)
  | .ushort => (0, 2 ^ 16 - 1)
  | .uchar => (0, 2 ^ 8 - 1)
  | .uint => (0, 2 ^ 32 - 1)
  | .ulong => (0, 2 ^ 64 - 1)
  | .long => (-2 ^ 63, 2 ^ 63 - 1)

def InTested (type : NumberType) (llint : Int) : Prop :=
  (tested type).1 ≤ llint ∧ llint ≤ (tested type).2

instance (type : NumberType) (llint : Int) : Decidable (InTested type llint) :=
  inferInstanceAs (Decidable (_ ∧ _))

/-- The types whose text is read a second time, by `strtoull`. -/
def ReadAgain (type : NumberType) : Prop := type = .uint64 ∨ type = .ulong

instance (type : NumberType) : Decidable (ReadAgain type) := inferInstanceAs (Decidable (_ ∨ _))

/-- The first conversion; in the C locale an unsigned number is put into a `long long int`. -/
def firstNumber (cLocale : Bool) (str : Bytes) : Int × Bytes :=
  if cLocale then ((strtoul str).1.bmod (2 ^ 64), (strtoul str).2) else strtol str

/-- `_gda_handler_numerical_get_value_from_str_locale`, for the integer types -/
def getValueFromStrLocale (type : NumberType) (cLocale : Bool) (str : Bytes) :
    Option type.Carrier :=
  let (llint, endptr) := firstNumber cLocale str
  if endptr = [] ∧ InTested type llint then some (type.cast llint)
  else if ReadAgain type then
    let (lluint, endptr) := strtoul str
    if endptr = [] ∧ lluint ≤ 2 ^ 64 - 1 then some (type.cast lluint) else none
  else none

def getValueFromSql (type : NumberType) (sql : Bytes) : Option type.Carrier :=
  getValueFromStrLocale type true sql

def getValueFromStr (type : NumberType) (str : Bytes) : Option type.Carrier :=
  getValueFromStrLocale type false str

def SqlGivesBack (type : NumberType) (v : type.Carrier) : Prop :=
  getValueFromSql type (numberText type v.1) = some v

def StrGivesBack (type : NumberType) (v : type.Carrier) : Prop :=
  getValueFromStr type (numberText type v.1) = some v

def ReadsRight (type : NumberType) (s : Bytes) : Prop :=
  ∀ cLocale, ∀ v : type.Carrier,
    getValueFromStrLocale type cLocale s = some v ↔ IsNumeral s v.1

def longLong (cLocale : Bool) (n : Int) : Int :=
  if cLocale then (NumberType.uint64.converted n).bmod (2 ^ 64) else NumberType.int64.converted n

def GivenRight (type : NumberType) (n : Int) : Prop :=
  if ReadAgain type then 0 ≤ n ∧ n < 2 ^ 63 else type.Holds n

def Refused (type : NumberType) (n : Int) : Prop :=
  ¬ ReadAgain type ∧ ∀ cLocale, ¬ type.Holds (longLong cLocale n)

section Numbers

variable {type : NumberType} {n : Int} {cLocale : Bool} {s blanks rest digits : Bytes}
  {negative : Bool}

theorem inTested_iff (h : ¬ ReadAgain type) : InTested type n ↔ type.Holds n := by
  rw [InTested, NumberType.Holds]
  cases type <;> simp [ReadAgain, tested, NumberType.lowest, NumberType.isSigned,
    NumberType.bits] at h ⊢ <;> omega

theorem inTested_again (h : ReadAgain type) (hn : n < 2 ^ 63) : InTested type n ↔ 0 ≤ n := by
  rw [InTested]
  obtain rfl | rfl := h <;> simp only [tested] <;> omega

theorem holds_again (h : ReadAgain type) : type.Holds n ↔ 0 ≤ n ∧ n < 2 ^ 64 := by
  rw [NumberType.Holds]
  obtain rfl | rfl := h <;>
    simp [NumberType.lowest, NumberType.isSigned, NumberType.bits]

def resultOf (type : NumberType) (cLocale : Bool) (n : Int) : Option type.Carrier :=
  if InTested type (longLong cLocale n) then some (type.cast (longLong cLocale n))
  else if ReadAgain type then some (type.cast (NumberType.uint64.converted n)) else none

theorem firstNumber_digits (hparts : strtolParts s = (negative, digits, rest)) (hne : digits ≠ []) :
    firstNumber cLocale s = (longLong cLocale (signedNumber negative digits), rest) := by
  have hsigned := read_digits .int64 hparts hne
  have hunsigned := read_digits .uint64 hparts hne
  simp only [NumberType.isSigned, Bool.false_eq_true, if_true, if_false] at hsigned hunsigned
  cases cLocale with
  | true => simp [firstNumber, longLong, hunsigned]
  | false => simp [firstNumber, longLong, hsigned]

theorem unsigned_le (n : Int) : NumberType.uint64.converted n ≤ 2 ^ 64 - 1 := by
  simp only [NumberType.converted, NumberType.isSigned, Bool.false_eq_true, if_false]
  omega

theorem getValueFromStrLocale_digits (hparts : strtolParts s = (negative, digits, []))
    (hne : digits ≠ []) :
    getValueFromStrLocale type cLocale s = resultOf type cLocale (signedNumber negative digits) := by
  have hunsigned := read_digits .uint64 hparts hne
  simp only [NumberType.isSigned, Bool.false_eq_true, if_false] at hunsigned
  have hle := unsigned_le (signedNumber negative digits)
  simp only [getValueFromStrLocale, resultOf, firstNumber_digits hparts hne, hunsigned, true_and,
    if_pos hle]

theorem getValueFromStrLocale_refused (hend : (firstNumber cLocale s).2 ≠ [])
    (hagain : (strtoul s).2 ≠ []) : getValueFromStrLocale type cLocale s = none := by
  simp [getValueFromStrLocale, hend, hagain]

theorem getValueFromStrLocale_noDigits (hparts : strtolParts s = (negative, digits, rest))
    (hnil : digits = []) (hne : s ≠ []) : getValueFromStrLocale type cLocale s = none := by
  obtain ⟨hsigned, hunsigned⟩ := read_noDigits hparts hnil
  apply getValueFromStrLocale_refused
  · cases cLocale <;> simp [firstNumber, hsigned, hunsigned, hne]
  · simp [hunsigned, hne]

theorem getValueFromStrLocale_numeral (hblanks : ∀ b ∈ blanks, cIsSpace b = true)
    (h : IsNumeral rest n) :
    getValueFromStrLocale type cLocale (blanks ++ rest) = resultOf type cLocale n := by
  obtain ⟨negative, digits, hparts, hne, rfl⟩ := strtolParts_numeral hblanks h
  exact getValueFromStrLocale_digits hparts hne

theorem numeral_of_read {v : type.Carrier} (hne : s ≠ [])
    (h : getValueFromStrLocale type cLocale s = some v) :
    ∃ blanks rest n, s = blanks ++ rest ∧ (∀ b ∈ blanks, cIsSpace b = true) ∧
      IsNumeral rest n := by
  obtain ⟨negative, digits, left, hparts⟩ : ∃ negative digits left,
      strtolParts s = (negative, digits, left) := ⟨_, _, _, rfl⟩
  by_cases hdigits : digits = []
  · rw [getValueFromStrLocale_noDigits hparts hdigits hne] at h
    cases h
  · by_cases hleft : left = []
    · subst hleft
      obtain ⟨blanks, rest, hs, hblanks, hrest⟩ := numeral_of_strtolParts hparts hdigits
      exact ⟨blanks, rest, _, hs, hblanks, hrest⟩
    · have hunsigned := read_digits .uint64 hparts hdigits
      simp only [NumberType.isSigned, Bool.false_eq_true, if_false] at hunsigned
      rw [getValueFromStrLocale_refused (by simpa [firstNumber_digits hparts hdigits] using hleft)
        (by simpa [hunsigned] using hleft)] at h
      cases h

theorem longLong_of_bounds (hlow : -2 ^ 63 ≤ n) (hhigh : n < 2 ^ 63) : longLong cLocale n = n := by
  cases cLocale with
  | true =>
    simp only [longLong, if_true, NumberType.converted, NumberType.isSigned, Bool.false_eq_true,
      if_false]
    rw [if_neg (by omega), Int.bmod_def]
    omega
  | false =>
    simp only [longLong, Bool.false_eq_true, if_false, NumberType.converted, NumberType.isSigned,
      if_true]
    omega

theorem bounds_of_holds (h : ¬ ReadAgain type) (hn : type.Holds n) : -2 ^ 63 ≤ n ∧ n < 2 ^ 63 := by
  rw [NumberType.Holds] at hn
  cases type <;> simp [ReadAgain, NumberType.lowest, NumberType.isSigned,
    NumberType.bits] at h hn ⊢ <;> omega

theorem cast_of_inBounds (h : type.Holds n) : (type.cast n).1 = n :=
  congrArg Subtype.val (NumberType.cast_self (⟨n, h⟩ : type.Carrier))

theorem resultOf_given (h : GivenRight type n) :
    ∃ v : type.Carrier, v.1 = n ∧ ∀ cLocale, resultOf type cLocale n = some v := by
  by_cases hagain : ReadAgain type
  · rw [GivenRight, if_pos hagain] at h
    refine ⟨type.cast n, cast_of_inBounds ((holds_again hagain).mpr (by omega)), ?_⟩
    intro cLocale
    have hin := (inTested_again hagain h.2).mpr h.1
    rw [resultOf, longLong_of_bounds (by omega) h.2, if_pos hin]
  · rw [GivenRight, if_neg hagain] at h
    refine ⟨type.cast n, cast_of_inBounds h, ?_⟩
    intro cLocale
    obtain ⟨hlow, hhigh⟩ := bounds_of_holds hagain h
    rw [resultOf, longLong_of_bounds hlow hhigh, if_pos ((inTested_iff hagain).mpr h)]

theorem resultOf_none : (∀ cLocale, resultOf type cLocale n = none) ↔ Refused type n := by
  constructor
  · intro h
    have hagain : ¬ ReadAgain type := by
      intro hagain
      have hnone := h true
      rw [resultOf, if_pos hagain] at hnone
      split at hnone <;> cases hnone
    refine ⟨hagain, ?_⟩
    intro cLocale hholds
    have hnone := h cLocale
    rw [resultOf, if_pos ((inTested_iff hagain).mpr hholds)] at hnone
    cases hnone
  · rintro ⟨hagain, hout⟩ cLocale
    rw [resultOf, if_neg fun h => hout cLocale ((inTested_iff hagain).mp h), if_neg hagain]

theorem given_or_refused
    (h : ∀ cLocale, ∀ v : type.Carrier, resultOf type cLocale n = some v → v.1 = n) :
    GivenRight type n ∨ Refused type n := by
  by_cases hagain : ReadAgain type
  · refine Or.inl ?_
    rw [GivenRight, if_pos hagain]
    have hlong : longLong false n = max (-2 ^ 63) (min (2 ^ 63 - 1) n) := rfl
    obtain ⟨v, hv⟩ : ∃ v, resultOf type false n = some v := by
      rw [resultOf, if_pos hagain]
      split <;> exact ⟨_, rfl⟩
    have hright := h false v hv
    have hnonneg : 0 ≤ n := by
      rw [← hright]
      exact ((holds_again hagain).mp v.2).1
    have hin := (inTested_again (n := longLong false n) hagain (by omega)).mpr (by omega)
    rw [resultOf, if_pos hin, Option.some.injEq] at hv
    have hvalue := congrArg Subtype.val hv
    rw [cast_of_inBounds ((holds_again hagain).mpr (by omega)), hright] at hvalue
    omega
  · by_cases hholds : type.Holds n
    · exact Or.inl (by rwa [GivenRight, if_neg hagain])
    · refine Or.inr ⟨hagain, ?_⟩
      intro cLocale hlong
      have hvalue : resultOf type cLocale n = some (type.cast (longLong cLocale n)) := by
        rw [resultOf, if_pos ((inTested_iff hagain).mpr hlong)]
      have hright := h cLocale _ hvalue
      rw [cast_of_inBounds hlong] at hright
      rw [hright] at hlong
      exact hholds hlong

theorem isNumeral_decimalInt (n : Int) : IsNumeral (decimalInt n) n := by
  have hdigits := isDigit_of_mem_decimal n.natAbs
  have hne := decimal_ne_nil n.natAbs
  have hnumber := number_decimal n.natAbs
  by_cases hneg : n < 0
  · have h := IsNumeral.minus hne hdigits
    have hn : -((number 0 (decimal n.natAbs) : Nat) : Int) = n := by omega
    rw [hn] at h
    rw [decimalInt, if_pos hneg]
    exact h
  · have h := IsNumeral.plain hne hdigits
    have hn : ((number 0 (decimal n.natAbs) : Nat) : Int) = n := by omega
    rw [hn] at h
    rw [decimalInt, if_neg hneg]
    exact h

theorem isNumeral_numberText {v : type.Carrier} (h : type ≠ .ushort) :
    IsNumeral (numberText type v.1) v.1 := by
  rw [numberText, if_neg h]
  cases hsigned : type.isSigned with
  | true => exact isNumeral_decimalInt v.1
  | false =>
    have hlowest := (NumberType.unsigned_bounds hsigned).1
    have hlow := v.2.1
    have hnat : decimal v.1.toNat = decimalInt v.1 := by
      have habs : v.1.natAbs = v.1.toNat := by omega
      rw [decimalInt, if_neg (by omega), habs]
    rw [if_neg Bool.false_ne_true, hnat]
    exact isNumeral_decimalInt v.1

theorem read_numberText {v : type.Carrier} (h : type ≠ .ushort) :
    getValueFromStrLocale type cLocale (numberText type v.1) = resultOf type cLocale v.1 :=
  getValueFromStrLocale_numeral (@List.forall_mem_nil _ _) (isNumeral_numberText h)

theorem not_read_ushort (cLocale : Bool) (n : Int) :
    getValueFromStrLocale .ushort cLocale (numberText .ushort n) = none := by
  cases cLocale with
  | true => rfl
  | false => rfl

theorem sqlGivesBack_iff (v : type.Carrier) : SqlGivesBack type v ↔ type ≠ .ushort := by
  rw [SqlGivesBack, getValueFromSql]
  by_cases hushort : type = .ushort
  · subst hushort
    simp [not_read_ushort]
  · refine iff_of_true ?_ hushort
    rw [read_numberText hushort]
    by_cases hgiven : GivenRight type v.1
    · obtain ⟨w, hw, hresult⟩ := resultOf_given hgiven
      rw [hresult, Subtype.ext hw]
    · have hagain : ReadAgain type := by
        by_contra hno
        exact hgiven (by rw [GivenRight, if_neg hno]; exact v.2)
      have hholds := (holds_again hagain).mp v.2
      rw [GivenRight, if_pos hagain] at hgiven
      have hconverted : NumberType.uint64.converted v.1 = v.1 :=
        NumberType.converted_of_holds ((holds_again (Or.inl rfl)).mpr hholds)
      have hneg : ¬ InTested type (longLong true v.1) := by
        have hlong : longLong true v.1 = v.1.bmod (2 ^ 64) := by
          rw [longLong, if_pos rfl, hconverted]
        have hbmod : v.1.bmod (2 ^ 64) = v.1 - 2 ^ 64 := by
          simp only [Int.bmod_def]
          omega
        rw [hlong, hbmod, inTested_again hagain (by omega)]
        omega
      rw [resultOf, if_neg hneg, if_pos hagain, hconverted, NumberType.cast_self]

theorem strGivesBack_iff (v : type.Carrier) :
    StrGivesBack type v ↔ type ≠ .ushort ∧ (ReadAgain type → v.1 < 2 ^ 63) := by
  rw [StrGivesBack, getValueFromStr]
  by_cases hushort : type = .ushort
  · subst hushort
    simp [not_read_ushort]
  · rw [read_numberText hushort, and_iff_right hushort]
    constructor
    · intro h hagain
      by_contra hlarge
      have hlong : longLong false v.1 = 2 ^ 63 - 1 := by
        simp only [longLong, Bool.false_eq_true, if_false, NumberType.converted,
          NumberType.isSigned, if_true]
        omega
      have hin := (inTested_again (n := 2 ^ 63 - 1) hagain (by decide)).mpr (by decide)
      rw [resultOf, hlong, if_pos hin, Option.some.injEq] at h
      have hvalue := congrArg Subtype.val h
      rw [cast_of_inBounds ((holds_again hagain).mpr (by decide))] at hvalue
      omega
    · intro h
      have hgiven : GivenRight type v.1 := by
        rw [GivenRight]
        by_cases hagain : ReadAgain type
        · rw [if_pos hagain]
          exact ⟨((holds_again hagain).mp v.2).1, h hagain⟩
        · rw [if_neg hagain]
          exact v.2
      obtain ⟨w, hw, hresult⟩ := resultOf_given hgiven
      rw [hresult, Subtype.ext hw]

theorem isNumeral_behind_blanks (hs : s = blanks ++ rest) (hblanks : ∀ b ∈ blanks, cIsSpace b = true)
    {m : Int} (h : IsNumeral s m) : blanks = [] := by
  cases blanks with
  | nil => rfl
  | cons b blanks =>
    obtain ⟨c, t, hcons, hc⟩ := h.head
    rw [hs, List.cons_append] at hcons
    rw [← (List.cons.inj hcons).1, hblanks b List.mem_cons_self] at hc
    cases hc

theorem readsRight_iff (type : NumberType) (s : Bytes) : ReadsRight type s ↔
    s ≠ [] ∧ ∀ blanks rest n, s = blanks ++ rest → (∀ b ∈ blanks, cIsSpace b = true) →
      IsNumeral rest n → (blanks = [] ∧ GivenRight type n) ∨ Refused type n := by
  constructor
  · intro h
    have hne : s ≠ [] := by
      rintro rfl
      have hempty : getValueFromStrLocale type false [] = some (type.cast 0) := by
        cases type <;> rfl
      obtain ⟨b, t, hcons, -⟩ := ((h false _).mp hempty).head
      cases hcons
    refine ⟨hne, ?_⟩
    intro blanks rest n hs hblanks hrest
    have hresult : ∀ cLocale, getValueFromStrLocale type cLocale s = resultOf type cLocale n := by
      intro cLocale
      rw [hs]
      exact getValueFromStrLocale_numeral hblanks hrest
    by_cases hnil : blanks = []
    · subst hnil
      rw [List.nil_append] at hs
      subst hs
      refine (given_or_refused ?_).imp (And.intro rfl) id
      intro cLocale v hv
      have hnumeral := (h cLocale v).mp ((hresult cLocale).trans hv)
      exact hnumeral.unique hrest
    · refine Or.inr (resultOf_none.mp ?_)
      intro cLocale
      cases hv : resultOf type cLocale n with
      | none => rfl
      | some v =>
        have hnumeral := (h cLocale v).mp ((hresult cLocale).trans hv)
        exact absurd (isNumeral_behind_blanks hs hblanks hnumeral) hnil
  · rintro ⟨hne, h⟩ cLocale v
    constructor
    · intro hv
      obtain ⟨blanks, rest, n, hs, hblanks, hrest⟩ := numeral_of_read hne hv
      have hresult : resultOf type cLocale n = some v := by
        rw [← hv, hs]
        exact (getValueFromStrLocale_numeral hblanks hrest).symm
      obtain ⟨rfl, hgiven⟩ | hrefused := h blanks rest n hs hblanks hrest
      · obtain ⟨w, hw, hall⟩ := resultOf_given hgiven
        rw [hall, Option.some.injEq] at hresult
        subst hresult
        rw [hw, hs]
        exact hrest
      · rw [resultOf_none.mpr hrefused] at hresult
        cases hresult
    · intro hnumeral
      have hread : getValueFromStrLocale type cLocale s = resultOf type cLocale v.1 :=
        getValueFromStrLocale_numeral (@List.forall_mem_nil _ _) hnumeral
      rw [hread]
      obtain ⟨-, hgiven⟩ | hrefused := h [] s v.1 rfl (@List.forall_mem_nil _ _) hnumeral
      · obtain ⟨w, hw, hall⟩ := resultOf_given hgiven
        rw [hall, Subtype.ext hw]
      · have hin := hrefused.2 cLocale
        obtain ⟨hlow, hhigh⟩ := bounds_of_holds hrefused.1 v.2
        rw [longLong_of_bounds hlow hhigh] at hin
        exact absurd v.2 hin

end Numbers

structure GdaNumeric where
  number : Bytes
  precision : Nat
  width : Nat

def isSeparator (b : UInt8) : Bool := b == byte '.' || b == byte ','

def numericLoop : Bytes → Bool → Nat → Nat → Option (Nat × Nat)
  | [], _, precision, width => some (precision, width)
  | p :: rest, hasdot, precision, width =>
    if isSeparator p then
      if hasdot then none else numericLoop rest true precision width
    else if IsDigit p then
      numericLoop rest hasdot (if hasdot then precision + 1 else precision) (width + 1)
    else none

def fractionDigits (hasdot : Bool) (s : Bytes) : Nat :=
  (if hasdot then s else s.dropWhile fun b => !isSeparator b).countP fun b => IsDigit b

def NumericChars (s : Bytes) : Prop :=
  (∀ b ∈ s, isSeparator b = true ∨ IsDigit b) ∧ s.countP isSeparator ≤ 1

def decimalValue (s : Bytes) : ℚ :=
  number 0 (s.filter fun b => IsDigit b) / 10 ^ fractionDigits false s

inductive IsDecimal : Bytes → ℚ → Prop where
  | whole {digits : Bytes} (hne : digits ≠ []) (hdigits : ∀ b ∈ digits, IsDigit b) :
      IsDecimal digits (number 0 digits)
  | fraction {digits fraction : Bytes} {separator : UInt8} (hne : digits ++ fraction ≠ [])
      (hdigits : ∀ b ∈ digits, IsDigit b) (hfraction : ∀ b ∈ fraction, IsDigit b)
      (hseparator : isSeparator separator = true) :
      IsDecimal (digits ++ separator :: fraction)
        (number 0 (digits ++ fraction) / 10 ^ fraction.length)

inductive StandsFor : Bytes → ℚ → Prop where
  | plain {s : Bytes} {q : ℚ} (h : IsDecimal s q) : StandsFor s q
  | exponent {s t : Bytes} {q : ℚ} {e : Int} (h : IsDecimal s q) (he : IsNumeral t e) :
      StandsFor (s ++ byte 'e' :: t) (q * 10 ^ e)

section Chars

variable {s : Bytes} {q : ℚ} {b : UInt8}

theorem not_separator_of_isDigit (h : IsDigit b) : isSeparator b = false := by
  have hdot : b ≠ byte '.' := by
    intro hb
    subst hb
    exact absurd h (by decide)
  have hcomma : b ≠ byte ',' := by
    intro hb
    subst hb
    exact absurd h (by decide)
  simp [isSeparator, hdot, hcomma]

theorem not_isDigit_of_separator (h : isSeparator b = true) : ¬ IsDigit b := by
  intro hdigit
  rw [not_separator_of_isDigit hdigit] at h
  cases h

theorem numericLoop_eq (s : Bytes) (hasdot : Bool) (precision width : Nat) :
    numericLoop s hasdot precision width =
      if (∀ b ∈ s, isSeparator b = true ∨ IsDigit b) ∧
          s.countP isSeparator + (if hasdot then 1 else 0) ≤ 1 then
        some (precision + fractionDigits hasdot s, width + s.countP fun b => IsDigit b)
      else none := by
  induction s generalizing hasdot precision width with
  | nil => cases hasdot <;> simp [numericLoop, fractionDigits]
  | cons p rest ih =>
    rw [numericLoop]
    by_cases hsep : isSeparator p = true
    · have hdigit := not_isDigit_of_separator hsep
      rw [if_pos hsep]
      cases hasdot with
      | true => simp [hsep]
      | false =>
        rw [if_neg Bool.false_ne_true, ih]
        simp [hsep, hdigit, fractionDigits]
    · by_cases hdigit : IsDigit p
      · rw [if_neg hsep, if_pos hdigit, ih]
        cases hasdot with
        | true => simp [hsep, hdigit, fractionDigits, Nat.add_assoc, Nat.add_comm 1]
        | false => simp [hsep, hdigit, fractionDigits, Nat.add_assoc, Nat.add_comm 1]
      · rw [if_neg hsep, if_neg hdigit]
        simp [hsep, hdigit]

theorem numericLoop_start (s : Bytes) : numericLoop s false 0 0 = some (fractionDigits false s,
    s.countP fun b => IsDigit b) ∧ NumericChars s ∨
    numericLoop s false 0 0 = none ∧ ¬ NumericChars s := by
  by_cases h : NumericChars s
  · refine Or.inl ⟨?_, h⟩
    rw [numericLoop_eq, if_pos (by simpa [NumericChars] using h), Nat.zero_add, Nat.zero_add]
  · refine Or.inr ⟨?_, h⟩
    rw [numericLoop_eq, if_neg (by simpa [NumericChars] using h)]

theorem IsDecimal.digit (h : IsDecimal s q) : ∃ b ∈ s, IsDigit b := by
  cases h with
  | whole hne hdigits =>
    obtain ⟨b, t, rfl⟩ := List.exists_cons_of_ne_nil hne
    exact ⟨b, List.mem_cons_self, hdigits b List.mem_cons_self⟩
  | @fraction digits fraction separator hne hdigits hfraction hseparator =>
    obtain ⟨b, hb⟩ := List.exists_mem_of_ne_nil _ hne
    obtain hb | hb := List.mem_append.mp hb
    · exact ⟨b, by simp [hb], hdigits b hb⟩
    · exact ⟨b, by simp [hb], hfraction b hb⟩

theorem filter_digits (h : ∀ b ∈ s, IsDigit b) : (s.filter fun b => IsDigit b) = s :=
  List.filter_eq_self.mpr fun b hb => decide_eq_true (h b hb)

theorem countP_digits (h : ∀ b ∈ s, IsDigit b) : (s.countP fun b => IsDigit b) = s.length :=
  List.countP_eq_length.mpr fun b hb => decide_eq_true (h b hb)

theorem dropWhile_digits (h : ∀ b ∈ s, IsDigit b) (rest : Bytes) :
    (s ++ rest).dropWhile (fun b => !isSeparator b) =
      rest.dropWhile fun b => !isSeparator b := by
  apply List.dropWhile_append_of_pos
  intro b hb
  simp [not_separator_of_isDigit (h b hb)]

theorem IsDecimal.value (h : IsDecimal s q) : q = decimalValue s := by
  cases h with
  | whole hne hdigits =>
    have hdrop := dropWhile_digits hdigits []
    rw [List.append_nil] at hdrop
    simp [decimalValue, fractionDigits, filter_digits hdigits, hdrop]
  | @fraction digits fraction separator hne hdigits hfraction hseparator =>
    have hno := not_isDigit_of_separator hseparator
    have hcount := countP_digits hfraction
    simp [decimalValue, fractionDigits, filter_digits hdigits, filter_digits hfraction,
      dropWhile_digits hdigits, hseparator, hno, hcount]

theorem isDecimal_of_chars (h : NumericChars s) (hdigit : ∃ b ∈ s, IsDigit b) :
    IsDecimal s (decimalValue s) := by
  by_cases hsep : ∃ b ∈ s, isSeparator b = true
  · obtain ⟨c, hc, hsep⟩ := hsep
    obtain ⟨digits, fraction, rfl⟩ := List.append_of_mem hc
    have hcount := h.2
    rw [List.countP_append, List.countP_cons_of_pos hsep] at hcount
    have hleft : digits.countP isSeparator = 0 := by omega
    have hright : fraction.countP isSeparator = 0 := by omega
    rw [List.countP_eq_zero] at hleft hright
    have hdigits : ∀ b ∈ digits, IsDigit b := fun b hb =>
      (h.1 b (by simp [hb])).resolve_left (hleft b hb)
    have hfraction : ∀ b ∈ fraction, IsDigit b := fun b hb =>
      (h.1 b (by simp [hb])).resolve_left (hright b hb)
    have hne : digits ++ fraction ≠ [] := by
      obtain ⟨b, hb, hbdigit⟩ := hdigit
      have hbc : b ≠ c := by
        intro heq
        subst heq
        exact not_isDigit_of_separator hsep hbdigit
      apply List.ne_nil_of_mem (a := b)
      simpa [hbc] using hb
    have hdecimal := IsDecimal.fraction hne hdigits hfraction hsep
    rwa [hdecimal.value] at hdecimal
  · have hdigits : ∀ b ∈ s, IsDigit b := fun b hb =>
      (h.1 b hb).resolve_left fun hb' => hsep ⟨b, hb, hb'⟩
    obtain ⟨b, hb, -⟩ := hdigit
    have hdecimal := IsDecimal.whole (List.ne_nil_of_mem hb) hdigits
    rwa [hdecimal.value] at hdecimal

end Chars

section Numeric

-- `g_ascii_strtod` (in the C locale) and `strtod`, with `endptr`; `g_ascii_dtostr`
variable {Double : Type} (strtod : Bool → Bytes → Double × Bytes) (dtostr : Double → Bytes)

def numberFromText (str : Bytes) : Bytes :=
  let (number, endptr) := strtod true str
  if endptr ≠ [] then dtostr number else str

/-- `_gda_handler_numerical_get_value_from_str_locale`, for `GDA_TYPE_NUMERIC`; the value keeps a
copy of the numeric, whose number is read once more. -/
def getNumericFromStrLocale (cLocale : Bool) (str : Bytes) : Option GdaNumeric :=
  match numericLoop str false 0 0 with
  | none => none
  | some (precision, width) =>
    let (d, endptr) := strtod cLocale str
    if endptr = [] then some ⟨numberFromText strtod dtostr (dtostr d), precision, width⟩ else none

/-- The text of a numeric is its number, and `gda_value_differ` compares the numbers. -/
def NumericGivesBack (cLocale : Bool) (v : GdaNumeric) : Prop :=
  ∃ v', getNumericFromStrLocale strtod dtostr cLocale v.number = some v' ∧ v'.number = v.number

def NumericReadsRight (cLocale : Bool) (s : Bytes) : Prop :=
  ∀ v, getNumericFromStrLocale strtod dtostr cLocale s = some v →
    ∃ q, IsDecimal s q ∧ StandsFor v.number q

variable {strtod dtostr} {cLocale : Bool} {s : Bytes}

theorem getNumericFromStrLocale_some {v : GdaNumeric} :
    getNumericFromStrLocale strtod dtostr cLocale s = some v ↔
      NumericChars s ∧ (strtod cLocale s).2 = [] ∧
        v = ⟨numberFromText strtod dtostr (dtostr (strtod cLocale s).1), fractionDigits false s,
          s.countP fun b => IsDigit b⟩ := by
  rw [getNumericFromStrLocale]
  obtain ⟨hloop, hchars⟩ | ⟨hloop, hchars⟩ := numericLoop_start s
  · rw [hloop]
    by_cases hend : (strtod cLocale s).2 = []
    · simp [hchars, hend, eq_comm]
    · simp [hend]
  · rw [hloop]
    simp [hchars]

/-- Where `strtod` reads as in the C locale, the two readers agree. -/
theorem numeric_agree (h : ∀ s, strtod false s = strtod true s) (s : Bytes) :
    getNumericFromStrLocale strtod dtostr false s =
      getNumericFromStrLocale strtod dtostr true s := by
  rw [getNumericFromStrLocale, getNumericFromStrLocale, h]

theorem numericGivesBack_iff (v : GdaNumeric) : NumericGivesBack strtod dtostr cLocale v ↔
    NumericChars v.number ∧ (strtod cLocale v.number).2 = [] ∧
      numberFromText strtod dtostr (dtostr (strtod cLocale v.number).1) = v.number := by
  simp only [NumericGivesBack, getNumericFromStrLocale_some]
  constructor
  · rintro ⟨v', ⟨hchars, hend, rfl⟩, hnumber⟩
    exact ⟨hchars, hend, hnumber⟩
  · rintro ⟨hchars, hend, hnumber⟩
    exact ⟨_, ⟨hchars, hend, rfl⟩, hnumber⟩

theorem not_numericGivesBack_negative (v : GdaNumeric) (rest : Bytes)
    (h : v.number = byte '-' :: rest) : ¬ NumericGivesBack strtod dtostr cLocale v := by
  rw [numericGivesBack_iff, h]
  rintro ⟨hchars, -⟩
  have hminus := hchars.1 (byte '-') List.mem_cons_self
  exact absurd hminus (by decide)

theorem numericReadsRight_iff : NumericReadsRight strtod dtostr cLocale s ↔
    (NumericChars s → (strtod cLocale s).2 = [] → (∃ b ∈ s, IsDigit b) ∧
      StandsFor (numberFromText strtod dtostr (dtostr (strtod cLocale s).1)) (decimalValue s)) := by
  constructor
  · intro h hchars hend
    obtain ⟨q, hdecimal, hstands⟩ := h _ (getNumericFromStrLocale_some.mpr ⟨hchars, hend, rfl⟩)
    have hvalue := hdecimal.value
    subst hvalue
    exact ⟨hdecimal.digit, hstands⟩
  · intro h v hv
    obtain ⟨hchars, hend, rfl⟩ := getNumericFromStrLocale_some.mp hv
    obtain ⟨hdigit, hstands⟩ := h hchars hend
    exact ⟨_, isDecimal_of_chars hchars hdigit, hstands⟩

end Numeric

theorem handlerNumerical_run (type : NumberType) (v : type.Carrier) (s : CBytes) :
    (SqlGivesBack type v ↔ type ≠ .ushort) ∧
    (StrGivesBack type v ↔ type ≠ .ushort ∧ (ReadAgain type → v.1 < 2 ^ 63)) ∧
    (ReadsRight type s.1 ↔ s.1 ≠ [] ∧
      ∀ blanks rest n, s.1 = blanks ++ rest → (∀ b ∈ blanks, cIsSpace b = true) →
        IsNumeral rest n → (blanks = [] ∧ GivenRight type n) ∨ Refused type n) ∧
    ∀ (Double : Type) (strtod : Bool → Bytes → Double × Bytes) (dtostr : Double → Bytes),
      ((∀ text, strtod false text = strtod true text) →
        getNumericFromStrLocale strtod dtostr false s.1 =
          getNumericFromStrLocale strtod dtostr true s.1) ∧
      ∀ cLocale : Bool, (∀ v : GdaNumeric, NumericGivesBack strtod dtostr cLocale v ↔
        NumericChars v.number ∧ (strtod cLocale v.number).2 = [] ∧
          numberFromText strtod dtostr (dtostr (strtod cLocale v.number).1) = v.number) ∧
      (∀ (v : GdaNumeric) (rest : Bytes), v.number = byte '-' :: rest →
        ¬ NumericGivesBack strtod dtostr cLocale v) ∧
      (NumericReadsRight strtod dtostr cLocale s.1 ↔
        (NumericChars s.1 → (strtod cLocale s.1).2 = [] → (∃ b ∈ s.1, IsDigit b) ∧
          StandsFor (numberFromText strtod dtostr (dtostr (strtod cLocale s.1).1))
            (decimalValue s.1))) := by
  refine ⟨sqlGivesBack_iff v, strGivesBack_iff v, readsRight_iff type s.1, ?_⟩
  intro Double strtod dtostr
  refine ⟨fun h => numeric_agree h s.1, ?_⟩
  intro cLocale
  exact ⟨numericGivesBack_iff, not_numericGivesBack_negative, numericReadsRight_iff⟩

theorem handlerNumerical_run_largest : let v : NumberType.uint64.Carrier := ⟨2 ^ 64 - 1, by decide⟩
    SqlGivesBack .uint64 v ∧ ¬ StrGivesBack .uint64 v ∧ ¬ ReadsRight .uint64 [] := by
  intro v
  obtain ⟨hsql, hstr, hreads, -⟩ := handlerNumerical_run .uint64 v ⟨[], by simp⟩
  refine ⟨hsql.mpr (by decide), ?_, ?_⟩
  · intro h
    have hlt := (hstr.mp h).2 (Or.inl rfl)
    exact absurd hlt (by decide)
  · intro h
    exact (hreads.mp h).1 rfl

/-- A numeral far outside `int` is wrapped to `-1` in the C locale, and no text is taken for `0`. -/
theorem wrapped_readsRight : let s := bytes "18446744073709551615"
    (getValueFromSql .int s).map Subtype.val = some (-1) ∧ getValueFromStr .int s = none ∧
      (getValueFromSql .int []).map Subtype.val = some 0 ∧ ¬ ReadsRight .int [] := by
  refine ⟨by decide, by decide, by decide, ?_⟩
  rw [readsRight_iff]
  intro h
  exact h.1 rfl

end HandlerNumerical

end LibGda
