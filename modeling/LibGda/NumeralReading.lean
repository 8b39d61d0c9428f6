import LibGda.ValueRoundTrip

/-! Which texts `gda_value_set_from_string` takes for numbers, and what it stores for them. -/

namespace LibGda

open DecimalText

inductive IsNumeral : Bytes → Int → Prop where
  | plain {digits : Bytes} (hne : digits ≠ []) (hdigits : ∀ b ∈ digits, IsDigit b) :
      IsNumeral digits (number 0 digits)
  | plus {digits : Bytes} (hne : digits ≠ []) (hdigits : ∀ b ∈ digits, IsDigit b) :
      IsNumeral (byte '+' :: digits) (number 0 digits)
  | minus {digits : Bytes} (hne : digits ≠ []) (hdigits : ∀ b ∈ digits, IsDigit b) :
      IsNumeral (byte '-' :: digits) (-number 0 digits)

section Parts

variable {s rest blanks digits : Bytes} {n n' : Int} {negative : Bool}

/-- The number of what `strtol` and its siblings read. -/
def signedNumber (negative : Bool) (digits : Bytes) : Int :=
  if negative then -number 0 digits else number 0 digits

theorem IsNumeral.head (h : IsNumeral rest n) : ∃ b t, rest = b :: t ∧ cIsSpace b = false := by
  cases h with
  | plain hne hdigits =>
    obtain ⟨b, t, rfl⟩ := List.exists_cons_of_ne_nil hne
    exact ⟨b, t, rfl, isSpace_of_isDigit (hdigits b List.mem_cons_self)⟩
  | plus => exact ⟨_, _, rfl, rfl⟩
  | minus => exact ⟨_, _, rfl, rfl⟩

theorem strtolParts_numeral (hblanks : ∀ b ∈ blanks, cIsSpace b = true) (h : IsNumeral rest n) :
    ∃ negative digits, strtolParts (blanks ++ rest) = (negative, digits, []) ∧ digits ≠ [] ∧
      n = signedNumber negative digits := by
  have hskip : strtolParts (blanks ++ rest) = strtolParts rest := by
    obtain ⟨b, t, rfl, hb⟩ := h.head
    have hno : ¬ cIsSpace b = true := by
      rw [hb]
      exact Bool.false_ne_true
    rw [strtolParts, strtolParts, List.dropWhile_append_of_pos hblanks]
  rw [hskip]
  cases h with
  | plain hne hdigits => exact ⟨false, rest, strtolParts_digits hne hdigits, hne, rfl⟩
  | @plus digits hne hdigits =>
    refine ⟨false, digits, ?_, hne, rfl⟩
    have hplus : byte '+' ≠ byte '-' := by decide
    have hdrop : (byte '+' :: digits).dropWhile cIsSpace = byte '+' :: digits := rfl
    have hall : ∀ b ∈ digits, decide (IsDigit b) = true := fun b hb => decide_eq_true (hdigits b hb)
    rw [strtolParts, hdrop]
    simp only [if_neg hplus, if_true, List.takeWhile_eq_self_iff.2 hall,
      List.dropWhile_eq_nil_iff.2 hall]
  | @minus digits hne hdigits => exact ⟨true, digits, strtolParts_negative hdigits, hne, rfl⟩

theorem digits_of_whole {t : Bytes} (hdrop : (t.dropWhile fun b => IsDigit b) = []) :
    (t.takeWhile fun b => IsDigit b) = t ∧ ∀ b ∈ t, IsDigit b := by
  have hall := List.dropWhile_eq_nil_iff.1 hdrop
  exact ⟨List.takeWhile_eq_self_iff.2 hall, fun b hb => of_decide_eq_true (hall b hb)⟩

theorem numeral_of_strtolParts (h : strtolParts s = (negative, digits, [])) (hne : digits ≠ []) :
    ∃ blanks rest, s = blanks ++ rest ∧ (∀ b ∈ blanks, cIsSpace b = true) ∧
      IsNumeral rest (signedNumber negative digits) := by
  refine ⟨s.takeWhile cIsSpace, s.dropWhile cIsSpace, List.takeWhile_append_dropWhile.symm,
    fun b hb => List.mem_takeWhile_imp hb, ?_⟩
  rw [strtolParts] at h
  generalize s.dropWhile cIsSpace = t at h
  cases t with
  | nil =>
    simp only [Prod.mk.injEq] at h
    exact absurd h.2.1.symm hne
  | cons b u =>
    by_cases hminus : b = byte '-'
    · simp only [if_pos hminus, Prod.mk.injEq] at h
      obtain ⟨hneg, htake, hdrop⟩ := h
      obtain ⟨hwhole, hdigits⟩ := digits_of_whole hdrop
      rw [hwhole] at htake
      subst hneg htake hminus
      exact .minus hne hdigits
    · by_cases hplus : b = byte '+'
      · simp only [if_neg hminus, if_pos hplus, Prod.mk.injEq] at h
        obtain ⟨hneg, htake, hdrop⟩ := h
        obtain ⟨hwhole, hdigits⟩ := digits_of_whole hdrop
        rw [hwhole] at htake
        subst hneg htake hplus
        exact .plus hne hdigits
      · simp only [if_neg hminus, if_neg hplus, Prod.mk.injEq] at h
        obtain ⟨hneg, htake, hdrop⟩ := h
        obtain ⟨hwhole, hdigits⟩ := digits_of_whole hdrop
        rw [hwhole] at htake
        subst hneg htake
        exact .plain hne hdigits

theorem IsNumeral.unique (h : IsNumeral s n) (h' : IsNumeral s n') : n = n' := by
  obtain ⟨negative, digits, hparts, -, rfl⟩ := strtolParts_numeral (@List.forall_mem_nil _ _) h
  obtain ⟨negative', digits', hparts', -, rfl⟩ := strtolParts_numeral (@List.forall_mem_nil _ _) h'
  rw [hparts, Prod.mk.injEq, Prod.mk.injEq] at hparts'
  rw [hparts'.1, hparts'.2.1]

end Parts

namespace NumberType

variable {type : NumberType} {n : Int}

def Holds (type : NumberType) (n : Int) : Prop := type.lowest ≤ n ∧ n < type.lowest + 2 ^ type.bits

/-- What `strtol` or `strtoul` makes of the number of a text. -/
def converted (type : NumberType) (n : Int) : Int :=
  if type.isSigned then max (-2 ^ 63) (min (2 ^ 63 - 1) n)
  else if 2 ^ 64 ≤ n.natAbs then 2 ^ 64 - 1 else n % 2 ^ 64

theorem converted_of_holds (h : type.Holds n) : type.converted n = n := by
  have hlow := h.1
  have hhigh := h.2
  rw [converted]
  cases hsigned : type.isSigned with
  | true =>
    have hbounds := signed_bounds hsigned
    rw [if_pos rfl]
    omega
  | false =>
    have hbounds := unsigned_bounds hsigned
    rw [if_neg Bool.false_ne_true, if_neg (by omega)]
    exact Int.emod_eq_of_lt (by omega) (by omega)

theorem cast_of_holds (h : type.Holds n) : (type.cast (type.converted n)).1 = n := by
  rw [converted_of_holds h]
  exact congrArg Subtype.val (cast_self (⟨n, h⟩ : type.Carrier))

end NumberType

section Reading

variable {type : NumberType} {s rest digits blanks : Bytes} {n : Int} {negative : Bool}

/-- What `strtol` or `strtoul` gives for a text with digits. -/
theorem read_digits (type : NumberType) (hparts : strtolParts s = (negative, digits, rest)) (hne : digits ≠ []) :
    (if type.isSigned then strtol s else strtoul s) =
      (type.converted (signedNumber negative digits), rest) := by
  rw [NumberType.converted, signedNumber]
  cases type.isSigned with
  | true => simp only [if_true, strtol, hparts, if_neg hne]
  | false =>
    simp only [Bool.false_eq_true, if_false, strtoul, hparts, if_neg hne]
    congr 1
    cases negative with
    | true =>
      simp only [if_true, Int.natAbs_neg, Int.natAbs_natCast]
      have hiff : (2 : Int) ^ 64 ≤ (number 0 digits : Int) ↔ 2 ^ 64 ≤ number 0 digits := by omega
      simp only [hiff]
    | false =>
      simp only [Bool.false_eq_true, if_false, Int.natAbs_natCast]
      have hiff : (2 : Int) ^ 64 ≤ (number 0 digits : Int) ↔ 2 ^ 64 ≤ number 0 digits := by omega
      simp only [hiff]
      split
      · rfl
      · exact (Int.emod_eq_of_lt (by omega) (by omega)).symm

theorem read_noDigits (hparts : strtolParts s = (negative, digits, rest)) (hnil : digits = []) :
    strtol s = (0, s) ∧ strtoul s = (0, s) := by
  constructor
  · simp only [strtol, hparts, if_pos hnil]
  · simp only [strtoul, hparts, if_pos hnil]

theorem numberFromString_eq (hparts : strtolParts s = (negative, digits, rest)) :
    numberFromString type s = if digits ≠ [] ∧ rest = [] then
      some (type.cast (type.converted (signedNumber negative digits))) else none := by
  by_cases hdigits : digits = []
  · have hend : (if type.isSigned then strtol s else strtoul s) = (0, s) := by
      obtain ⟨hsigned, hunsigned⟩ := read_noDigits hparts hdigits
      rw [hsigned, hunsigned, ite_self]
    rw [if_neg fun h => h.1 hdigits, numberFromString, hend]
    exact if_neg fun h => h.1 h.2
  · have hne : s ≠ [] := by
      intro hnil
      rw [hnil] at hparts
      exact hdigits (congrArg (·.2.1) hparts).symm
    have hread := read_digits type hparts hdigits
    rw [numberFromString, hread]
    simp only [and_iff_right hne, ne_eq, hdigits, not_false_eq_true, true_and]

theorem numberFromString_numeral (hblanks : ∀ b ∈ blanks, cIsSpace b = true)
    (h : IsNumeral rest n) :
    numberFromString type (blanks ++ rest) = some (type.cast (type.converted n)) := by
  obtain ⟨negative, digits, hparts, hne, rfl⟩ := strtolParts_numeral hblanks h
  rw [numberFromString_eq hparts, if_pos ⟨hne, rfl⟩]

theorem numeral_of_numberFromString {i : type.Carrier} (h : numberFromString type s = some i) :
    ∃ blanks rest n, s = blanks ++ rest ∧ (∀ b ∈ blanks, cIsSpace b = true) ∧ IsNumeral rest n ∧
      i = type.cast (type.converted n) := by
  obtain ⟨negative, digits, left, hparts⟩ : ∃ negative digits left,
      strtolParts s = (negative, digits, left) := ⟨_, _, _, rfl⟩
  rw [numberFromString_eq hparts] at h
  by_cases hwhole : digits ≠ [] ∧ left = []
  · rw [if_pos hwhole] at h
    obtain ⟨hne, rfl⟩ := hwhole
    obtain ⟨blanks, rest, hs, hblanks, hrest⟩ := numeral_of_strtolParts hparts hne
    exact ⟨blanks, rest, _, hs, hblanks, hrest, (Option.some.inj h).symm⟩
  · rw [if_neg hwhole] at h
    cases h

end Reading

section Contract

variable (zoneOffset : Bytes → Option Int64) (type : NumberType) (s : CBytes)

def ReadsNumerals : Prop :=
  ∀ v, setFromString zoneOffset (.number type) s = .ok (some v) →
    ∃ i : type.Carrier, v = .number type i ∧ IsNumeral s i.1

theorem readsNumerals_iff : ReadsNumerals zoneOffset type s ↔
    ∀ blanks rest n, s.1 = blanks ++ rest → (∀ b ∈ blanks, cIsSpace b = true) →
      IsNumeral rest n → blanks = [] ∧ type.Holds n := by
  constructor
  · intro h blanks rest n hs hblanks hrest
    have hread : numberFromString type s.1 = some (type.cast (type.converted n)) := by
      rw [hs]
      exact numberFromString_numeral hblanks hrest
    have hset : setFromString zoneOffset (.number type) s =
        .ok (some (.number type (type.cast (type.converted n)))) := by
      rw [setFromString, hread]
      rfl
    obtain ⟨i, hi, hnumeral⟩ := h _ hset
    have hnil : blanks = [] := by
      cases blanks with
      | nil => rfl
      | cons b blanks =>
        obtain ⟨c, t, hcons, hc⟩ := hnumeral.head
        rw [hs, List.cons_append] at hcons
        rw [← (List.cons.inj hcons).1, hblanks b List.mem_cons_self] at hc
        cases hc
    refine ⟨hnil, ?_⟩
    rw [hnil, List.nil_append] at hs
    rw [hs] at hnumeral
    rw [← hnumeral.unique hrest]
    exact i.2
  · intro h v hv
    rw [setFromString, Except.ok.injEq, Option.map_eq_some_iff] at hv
    obtain ⟨i, hread, rfl⟩ := hv
    obtain ⟨blanks, rest, n, hs, hblanks, hrest, rfl⟩ := numeral_of_numberFromString hread
    obtain ⟨rfl, hholds⟩ := h blanks rest n hs hblanks hrest
    refine ⟨_, rfl, ?_⟩
    rw [NumberType.cast_of_holds hholds, hs]
    exact hrest

end Contract

/-- The text `300` is taken for an unsigned character. -/
theorem threeHundred_readsNumerals :
    ¬ ReadsNumerals (fun _ => none) .uchar ⟨bytes "300", by decide⟩ := by
  rw [readsNumerals_iff]
  intro h
  have hdigits : ∀ b ∈ bytes "300", IsDigit b := by
    intro b hb
    have hall : ((bytes "300").all fun b => decide (IsDigit b)) = true := by decide
    exact of_decide_eq_true (List.all_eq_true.1 hall b hb)
  have hnumeral : IsNumeral (bytes "300") 300 := .plain (by decide) hdigits
  exact absurd (h [] (bytes "300") 300 rfl nofun hnumeral).2.2 (by decide)

end LibGda
