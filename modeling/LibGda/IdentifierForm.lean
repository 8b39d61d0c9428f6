import LibGda.ParamSpec

/-! The form which an SQL identifier has in the meta store: what `_gda_data_meta_wrapper_compute_value`
makes of a value, and `gda_sql_identifier_quote` of a name. -/

namespace LibGda

inductive GdaSqlIdentifierStyle where
  | lowerCase
  | upperCase
  deriving DecidableEq

def needsQuotesFrom (mode : GdaSqlIdentifierStyle) (first : Bool) : List Char → Bool
  | [] => false
  | c :: rest =>
    if c.isDigit then if first then true else needsQuotesFrom mode false rest
    else if c.isUpper then
      if mode = .lowerCase then true else needsQuotesFrom mode false rest
    else if c.isLower then
      if mode = .upperCase then true else needsQuotesFrom mode false rest
    else if c ≠ '$' ∧ c ≠ '_' ∧ c ≠ '#' then true
    else needsQuotesFrom mode false rest

def identifierNeedsQuotes (str : List Char) (mode : GdaSqlIdentifierStyle) : Bool :=
  needsQuotesFrom mode true str

def identifierIsAllLower (str : List Char) : Bool := str.all fun c => c = c.toLower

abbrev LooksQuoted (str : List Char) : Prop :=
  str.head? = some '"' ∧ str.getLast? = some '"'

section ComputeValue

variable (mode : GdaSqlIdentifierStyle) (reserved : List Char → Bool)

/-- What a whole identifier, or a part of one between dots, is changed to; `none` where it is not
changed. -/
def changedPart (str : List Char) : Option (List Char) :=
  if identifierNeedsQuotes str mode then some (forceQuotes str)
  else
    let tmp := if identifierIsAllLower str then none else some (str.map Char.toLower)
    if reserved (tmp.getD str) then some (forceQuotes (tmp.getD str)) else tmp

/-- `_gda_data_meta_wrapper_compute_value` on a text, with no result where nothing changes. An empty
text has no parts, and the code reads behind the end of them: the error. -/
def computeValue : Option (List Char) → Except Unit (Option (List Char))
  | none => .ok none
  | some str =>
    if LooksQuoted str then .ok none
    else if str = [] then .error ()
    else
      match str.splitOn '.' with
      | [_] => .ok (changedPart mode reserved str)
      | sa =>
        if sa.any fun part => (changedPart mode reserved part).isSome then
          .ok (some (['.'].intercalate
            (sa.map fun part => (changedPart mode reserved part).getD part)))
        else .ok none

def metaForm (str : List Char) : Except Unit (List Char) :=
  (computeValue mode reserved (some str)).map fun changed => changed.getD str

end ComputeValue

def reservedWord (func : Option (List Char → Bool)) (isKeyword : List Char → Bool)
    (str : List Char) : Bool :=
  match func with
  | some func => func str
  | none => isKeyword str

/-- The characters which `gda_sql_identifier_quote` leaves unquoted, at the start of the name or
behind. -/
def isMetaChar (first : Bool) (c : Char) : Bool :=
  c.isLower || (c.isDigit && !first) || c = '_'

def allMetaChars (first : Bool) : List Char → Bool
  | [] => true
  | c :: rest => isMetaChar first c && allMetaChars false rest

/-- `gda_sql_identifier_quote` for the meta store, without a connection or a provider and with quotes
forced. -/
def sqlIdentifierQuote (isKeyword : List Char → Bool) (id : List Char) : Option (List Char) :=
  if id = [] then none
  else if id = ['*'] then some id
  else
    let tmp := removeQuotes id
    if isKeyword tmp then some (forceQuotes tmp)
    else if allMetaChars true tmp then some tmp
    else some (forceQuotes tmp)

section Parts

variable {mode : GdaSqlIdentifierStyle} {reserved : List Char → Bool} {str : List Char} {c : Char}

def IsQuotedPart (mode : GdaSqlIdentifierStyle) (reserved : List Char → Bool) (str : List Char) :
    Prop :=
  identifierNeedsQuotes str mode = true ∨ reserved (str.map Char.toLower) = true

def IsFixedPart (mode : GdaSqlIdentifierStyle) (reserved : List Char → Bool) (str : List Char) :
    Prop :=
  ¬ IsQuotedPart mode reserved str ∧ (mode = .lowerCase ∨ ∀ c ∈ str, c.isUpper = false)

def partForm (mode : GdaSqlIdentifierStyle) (reserved : List Char → Bool) (str : List Char) :
    List Char :=
  (changedPart mode reserved str).getD str

def isPlainChar (mode : GdaSqlIdentifierStyle) (c : Char) : Bool :=
  c.isDigit || (c.isUpper && mode = .upperCase) || (c.isLower && mode = .lowerCase) ||
    c = '$' || c = '_' || c = '#'

theorem isUpper_def (c : Char) : c.isUpper = decide (c.val ≥ 'A'.val ∧ c.val ≤ 'Z'.val) := rfl

theorem isLower_def (c : Char) :
    c.isLower = (decide (c.val ≥ 'a'.val) && decide (c.val ≤ 'z'.val)) := rfl

theorem isAlpha_def (c : Char) : c.isAlpha = (c.isUpper || c.isLower) := rfl

theorem isUpper_iff : c.isUpper = true ↔ 65 ≤ c.val.toNat ∧ c.val.toNat ≤ 90 := by
  simp [isUpper_def, UInt32.le_iff_toNat_le]

theorem isLower_iff : c.isLower = true ↔ 97 ≤ c.val.toNat ∧ c.val.toNat ≤ 122 := by
  simp [isLower_def, UInt32.le_iff_toNat_le]

theorem isDigit_iff : c.isDigit = true ↔ 48 ≤ c.val.toNat ∧ c.val.toNat ≤ 57 := by
  simp [Char.isDigit, UInt32.le_iff_toNat_le]

theorem toLower_of_upper (h : c.isUpper = true) : c.toLower.val.toNat = c.val.toNat + 32 := by
  have hbounds := isUpper_iff.1 h
  have hcond : c.val ≥ 'A'.val ∧ c.val ≤ 'Z'.val := by
    simpa [isUpper_def] using h
  have hlower : c.toLower.val = c.val + ('a'.val - 'A'.val) :=
    congrArg Char.val (dif_pos hcond)
  rw [hlower]
  have hsub : ('a'.val - 'A'.val).toNat = 32 := by decide
  simp only [UInt32.toNat_add, hsub]
  omega

theorem toLower_of_not_upper (h : c.isUpper = false) : c.toLower = c := by
  have hcond : ¬ (c.val ≥ 'A'.val ∧ c.val ≤ 'Z'.val) := by
    simpa [isUpper_def] using h
  exact dif_neg hcond

theorem isUpper_eq_false_of_isLower (h : c.isLower = true) : c.isUpper = false := by
  have hbounds := isLower_iff.1 h
  apply Bool.eq_false_iff.2
  intro hupper
  have hbounds' := isUpper_iff.1 hupper
  omega

theorem isUpper_eq_false_of_isDigit (h : c.isDigit = true) : c.isUpper = false := by
  have hbounds := isDigit_iff.1 h
  apply Bool.eq_false_iff.2
  intro hupper
  have hbounds' := isUpper_iff.1 hupper
  omega

theorem isLower_toLower (h : c.isUpper = true) : c.toLower.isLower = true := by
  have hval := toLower_of_upper h
  have hbounds := isUpper_iff.1 h
  apply isLower_iff.2
  omega

theorem isUpper_toLower (c : Char) : c.toLower.isUpper = false := by
  cases h : c.isUpper with
  | true => exact isUpper_eq_false_of_isLower (isLower_toLower h)
  | false =>
    rw [toLower_of_not_upper h]
    exact h

theorem isAllLower_iff : identifierIsAllLower str = true ↔ str.map Char.toLower = str := by
  induction str with
  | nil => exact ⟨fun _ => rfl, fun _ => rfl⟩
  | cons c rest ih =>
    have hcons : identifierIsAllLower (c :: rest) = true ↔
        c = c.toLower ∧ identifierIsAllLower rest = true := by
      simp [identifierIsAllLower]
    rw [hcons, ih, List.map_cons, List.cons.injEq, eq_comm]

theorem ne_of_letter (h : c.isUpper = true ∨ c.isLower = true) : c ≠ '$' ∧ c ≠ '_' ∧ c ≠ '#' := by
  refine ⟨?_, ?_, ?_⟩
  · rintro rfl
    revert h
    decide
  · rintro rfl
    revert h
    decide
  · rintro rfl
    revert h
    decide

theorem needsQuotesFrom_false :
    needsQuotesFrom mode false str = false ↔ ∀ c ∈ str, isPlainChar mode c = true := by
  induction str with
  | nil => simp [needsQuotesFrom]
  | cons c rest ih =>
    rw [List.forall_mem_cons, ← ih, needsQuotesFrom]
    cases hdigit : c.isDigit with
    | true => simp [isPlainChar, hdigit]
    | false =>
      cases hupper : c.isUpper with
      | true =>
        have hlower : c.isLower = false := Bool.eq_false_iff.2 fun h => by
          rw [isUpper_eq_false_of_isLower h] at hupper
          cases hupper
        obtain ⟨hdollar, hunder, hhash⟩ := ne_of_letter (.inl hupper)
        cases mode with
        | lowerCase => simp [isPlainChar, hdigit, hlower, hdollar, hunder, hhash]
        | upperCase => simp [isPlainChar, hdigit, hupper]
      | false =>
        cases hlower : c.isLower with
        | true =>
          obtain ⟨hdollar, hunder, hhash⟩ := ne_of_letter (.inr hlower)
          cases mode with
          | lowerCase => simp [isPlainChar, hdigit, hupper, hlower]
          | upperCase => simp [isPlainChar, hdigit, hupper, hdollar, hunder, hhash]
        | false =>
          simp only [isPlainChar, hdigit, hupper, hlower]
          by_cases hother : c ≠ '$' ∧ c ≠ '_' ∧ c ≠ '#'
          · simp [hother]
          · have hsymbol : c = '$' ∨ c = '_' ∨ c = '#' := by
              simpa only [not_and_or, not_not, ne_eq] using hother
            rw [if_neg Bool.false_ne_true, if_neg Bool.false_ne_true, if_neg Bool.false_ne_true,
              if_neg hother]
            simp [hsymbol, or_assoc]

theorem needsQuotes_false :
    identifierNeedsQuotes str mode = false ↔
      (∀ c ∈ str, isPlainChar mode c = true) ∧ ∀ c, str.head? = some c → c.isDigit = false := by
  cases str with
  | nil => simp [identifierNeedsQuotes, needsQuotesFrom]
  | cons c rest =>
    have hfirst : identifierNeedsQuotes (c :: rest) mode =
        if c.isDigit then true else needsQuotesFrom mode false (c :: rest) := by
      rw [identifierNeedsQuotes, needsQuotesFrom, needsQuotesFrom]
      split <;> rfl
    rw [hfirst, ← needsQuotesFrom_false]
    cases hdigit : c.isDigit <;> simp [hdigit]

theorem partForm_eq (mode : GdaSqlIdentifierStyle) (reserved : List Char → Bool) (str : List Char) :
    partForm mode reserved str =
      if identifierNeedsQuotes str mode then forceQuotes str
      else if reserved (str.map Char.toLower) then forceQuotes (str.map Char.toLower)
      else str.map Char.toLower := by
  rw [partForm, changedPart]
  split
  · rfl
  · have htmp : (if identifierIsAllLower str then none else some (str.map Char.toLower)).getD str =
        str.map Char.toLower := by
      split
      · next hlower => exact (isAllLower_iff.1 hlower).symm
      · rfl
    simp only [htmp]
    split
    · rfl
    · exact htmp

theorem partForm_quoted (h : IsQuotedPart mode reserved str) :
    ∃ text, partForm mode reserved str = forceQuotes text ∧
      (text = str ∨ text = str.map Char.toLower) := by
  rw [partForm_eq]
  split
  · exact ⟨str, rfl, .inl rfl⟩
  · next hneeds =>
    rw [if_pos (h.resolve_left hneeds)]
    exact ⟨str.map Char.toLower, rfl, .inr rfl⟩

theorem partForm_plain (h : ¬ IsQuotedPart mode reserved str) :
    partForm mode reserved str = str.map Char.toLower := by
  rw [IsQuotedPart, not_or] at h
  rw [partForm_eq, if_neg h.1, if_neg h.2]

theorem mem_forceQuotes {text : List Char} : '"' ∈ forceQuotes text :=
  List.mem_cons_self ..

theorem length_forceQuotes (text : List Char) : text.length < (forceQuotes text).length := by
  rw [forceQuotes_eq, List.length_cons, List.length_append]
  have hle : text.length ≤ (doubledQuotes text).length := by
    induction text with
    | nil => exact le_rfl
    | cons c text ih =>
      by_cases hc : c = '"'
      · subst hc
        rw [doubledQuotes_quote, List.length_cons, List.length_cons, List.length_cons]
        omega
      · rw [doubledQuotes_cons hc, List.length_cons, List.length_cons]
        omega
  omega

theorem needsQuotes_of_mem (h : '"' ∈ str) : identifierNeedsQuotes str mode = true := by
  by_contra hneeds
  have hplain := (needsQuotes_false.1 (Bool.eq_false_iff.2 hneeds)).1 '"' h
  revert hplain
  cases mode <;> decide

theorem partForm_forceQuotes (text : List Char) :
    partForm mode reserved (forceQuotes text) ≠ forceQuotes text := by
  rw [partForm_eq, if_pos (needsQuotes_of_mem mem_forceQuotes)]
  intro heq
  have hlt := length_forceQuotes (forceQuotes text)
  rw [heq] at hlt
  exact lt_irrefl _ hlt

theorem partForm_partForm :
    partForm mode reserved (partForm mode reserved str) = partForm mode reserved str ↔
      IsFixedPart mode reserved str := by
  by_cases hquoted : IsQuotedPart mode reserved str
  · obtain ⟨text, htext, -⟩ := partForm_quoted hquoted
    rw [htext]
    constructor
    · intro h
      exact absurd h (partForm_forceQuotes text)
    · intro h
      exact absurd hquoted h.1
  · have hplain := hquoted
    rw [IsQuotedPart, not_or] at hplain
    have hchars := (needsQuotes_false.1 (Bool.eq_false_iff.2 hplain.1)).1
    rw [partForm_plain hquoted]
    have hsame (h : ∀ c ∈ str, c.isUpper = false) : str.map Char.toLower = str := by
      have hmap : str.map Char.toLower = str.map id :=
        List.map_congr_left fun c hc => toLower_of_not_upper (h c hc)
      rw [hmap, List.map_id]
    constructor
    · intro hform
      refine ⟨hquoted, ?_⟩
      cases mode with
      | lowerCase => exact .inl rfl
      | upperCase =>
        refine .inr fun c hc => Bool.eq_false_iff.2 fun hupper => ?_
        -- the letter is a small one now, and quoted in this style
        have hneeds : identifierNeedsQuotes (str.map Char.toLower) .upperCase = true := by
          by_contra hneeds
          have hc' := (needsQuotes_false.1 (Bool.eq_false_iff.2 hneeds)).1 c.toLower
            (List.mem_map_of_mem hc)
          have hlower := isLower_toLower hupper
          have hdigit : c.toLower.isDigit = false := Bool.eq_false_iff.2 fun hdigit => by
            have hbounds := isDigit_iff.1 hdigit
            have hbounds' := isLower_iff.1 hlower
            omega
          obtain ⟨hdollar, hunder, hhash⟩ := ne_of_letter (.inr hlower)
          simp [isPlainChar, hdigit, isUpper_toLower, hdollar, hunder, hhash] at hc'
        rw [partForm_eq, if_pos hneeds] at hform
        have hlt := length_forceQuotes (str.map Char.toLower)
        rw [hform] at hlt
        exact lt_irrefl _ hlt
    · intro hfixed
      have hnone : ∀ c ∈ str, c.isUpper = false := by
        rcases hfixed.2 with rfl | hnone
        · intro c hc
          apply Bool.eq_false_iff.2
          intro hupper
          have hc' := hchars c hc
          have hlower : c.isLower = false := Bool.eq_false_iff.2 fun h => by
            rw [isUpper_eq_false_of_isLower h] at hupper
            cases hupper
          have hdigit : c.isDigit = false := Bool.eq_false_iff.2 fun h => by
            rw [isUpper_eq_false_of_isDigit h] at hupper
            cases hupper
          obtain ⟨hdollar, hunder, hhash⟩ := ne_of_letter (.inl hupper)
          simp [isPlainChar, hdigit, hlower, hdollar, hunder, hhash] at hc'
        · exact hnone
      rw [hsame hnone, partForm_plain hquoted, hsame hnone]

end Parts

end LibGda

/-! When the meta store form of an identifier is computed again: the parts between dots are those of
the first form, which are quoted once more unless the whole looks quoted. -/

namespace LibGda

variable {mode : GdaSqlIdentifierStyle} {reserved : List Char → Bool} {str : List Char}

theorem metaForm_looksQuoted (h : LooksQuoted str) : metaForm mode reserved str = .ok str := by
  rw [metaForm, computeValue, if_pos h]
  rfl

theorem metaForm_eq (hne : str ≠ []) (hnot : ¬ LooksQuoted str) :
    metaForm mode reserved str =
      .ok (['.'].intercalate ((str.splitOn '.').map (partForm mode reserved))) := by
  have hjoin : ['.'].intercalate (str.splitOn '.') = str := List.intercalate_splitOn '.'
  rw [metaForm, computeValue, if_neg hnot, if_neg hne]
  split
  · next part hpart =>
    rw [hpart] at hjoin
    have hstr : part = str := by
      rw [← hjoin]
      simp [List.intercalate]
    rw [hpart, hstr]
    simp [Except.map, List.intercalate, partForm]
  · split
    · rfl
    · next hany =>
      have hsame : (str.splitOn '.').map (partForm mode reserved) = str.splitOn '.' := by
        have hmap : (str.splitOn '.').map (partForm mode reserved) = (str.splitOn '.').map id := by
          refine List.map_congr_left fun part hpart => ?_
          have hnone : changedPart mode reserved part = none := by
            by_contra hsome
            exact hany (List.any_eq_true.2 ⟨part, hpart, Option.isSome_iff_ne_none.2 hsome⟩)
          rw [partForm, hnone]
          rfl
        rw [hmap, List.map_id]
      rw [hsame, hjoin]
      rfl

theorem not_mem_splitOn {sep : Char} (str : List Char) : ∀ part ∈ str.splitOn sep, sep ∉ part := by
  induction str with
  | nil =>
    intro part hpart
    rw [List.splitOn_nil, List.mem_singleton] at hpart
    rw [hpart]
    exact List.not_mem_nil
  | cons c rest ih =>
    rw [List.splitOn_cons_eq_if_modifyHead]
    split
    · intro part hpart
      rcases List.mem_cons.1 hpart with rfl | hpart
      · exact List.not_mem_nil
      · exact ih part hpart
    · next hc =>
      cases hsplit : rest.splitOn sep with
      | nil => exact absurd hsplit (List.splitOn_ne_nil sep rest)
      | cons first parts =>
        rw [hsplit] at ih
        intro part hpart
        rw [List.modifyHead_cons] at hpart
        rcases List.mem_cons.1 hpart with rfl | hpart
        · intro hmem
          rcases List.mem_cons.1 hmem with rfl | hmem
          · exact hc (beq_self_eq_true sep)
          · exact ih first (List.mem_cons_self ..) hmem
        · exact ih part (List.mem_cons_of_mem first hpart)

theorem dot_mem_toLower (h : '.' ∈ str.map Char.toLower) : '.' ∈ str := by
  obtain ⟨c, hc, hdot⟩ := List.mem_map.1 h
  cases hupper : c.isUpper with
  | true =>
    have hlower := isLower_toLower hupper
    rw [hdot] at hlower
    cases hlower
  | false =>
    rw [toLower_of_not_upper hupper] at hdot
    exact hdot ▸ hc

theorem dot_mem_partForm {part : List Char} (h : '.' ∉ part) : '.' ∉ partForm mode reserved part := by
  have hforce {text : List Char} (htext : '.' ∉ text) : '.' ∉ forceQuotes text := by
    rw [forceQuotes_eq, List.mem_cons, List.mem_append, List.mem_singleton, mem_doubledQuotes]
    rintro (hdot | hdot | hdot)
    · cases hdot
    · exact htext hdot
    · cases hdot
  rw [partForm_eq]
  split
  · exact hforce h
  · split
    · exact hforce fun hdot => h (dot_mem_toLower hdot)
    · exact fun hdot => h (dot_mem_toLower hdot)

theorem splitOn_form (str : List Char) :
    (['.'].intercalate ((str.splitOn '.').map (partForm mode reserved))).splitOn '.' =
      (str.splitOn '.').map (partForm mode reserved) := by
  refine List.splitOn_intercalate '.' ?_ ?_
  · intro form hform
    obtain ⟨part, hpart, rfl⟩ := List.mem_map.1 hform
    exact dot_mem_partForm (not_mem_splitOn str part hpart)
  · intro hnil
    exact List.splitOn_ne_nil '.' str (List.map_eq_nil_iff.1 hnil)

theorem quote_not_mem_partForm {part : List Char} (h : ¬ IsQuotedPart mode reserved part) :
    '"' ∉ partForm mode reserved part := by
  rw [partForm_plain h]
  intro hmem
  obtain ⟨c, hc, hquote⟩ := List.mem_map.1 hmem
  have hmem' : '"' ∈ part := by
    cases hupper : c.isUpper with
    | true =>
      have hlower := isLower_toLower hupper
      rw [hquote] at hlower
      cases hlower
    | false =>
      rw [toLower_of_not_upper hupper] at hquote
      exact hquote ▸ hc
  exact h (.inl (needsQuotes_of_mem hmem'))

theorem head_partForm {part : List Char} :
    (partForm mode reserved part).head? = some '"' ↔ IsQuotedPart mode reserved part := by
  constructor
  · intro hhead
    by_contra h
    exact quote_not_mem_partForm h (List.mem_of_mem_head? hhead)
  · intro h
    obtain ⟨text, htext, -⟩ := partForm_quoted h
    rw [htext]
    rfl

theorem getLast_partForm {part : List Char} :
    (partForm mode reserved part).getLast? = some '"' ↔ IsQuotedPart mode reserved part := by
  constructor
  · intro hlast
    by_contra h
    exact quote_not_mem_partForm h (List.mem_of_getLast? hlast)
  · intro h
    obtain ⟨text, htext, -⟩ := partForm_quoted h
    rw [htext, forceQuotes_eq, ← List.cons_append, List.getLast?_append]
    rfl

theorem intercalate_cons (x y : List Char) (rest : List (List Char)) :
    ['.'].intercalate (x :: y :: rest) = x ++ '.' :: ['.'].intercalate (y :: rest) := by
  simp [List.intercalate]

theorem head_intercalate (x : List Char) (rest : List (List Char)) :
    (['.'].intercalate (x :: rest)).head? = some '"' ↔ x.head? = some '"' := by
  cases rest with
  | nil => simp [List.intercalate]
  | cons y rest =>
    rw [intercalate_cons]
    cases x with
    | nil => simp
    | cons c x => simp

theorem getLast_intercalate (xs : List (List Char)) (x : List Char) :
    (['.'].intercalate (xs ++ [x])).getLast? = some '"' ↔ x.getLast? = some '"' := by
  induction xs with
  | nil => simp [List.intercalate]
  | cons y xs ih =>
    obtain ⟨z, zs, hz⟩ := List.exists_cons_of_ne_nil
      (List.append_ne_nil_of_right_ne_nil xs (List.cons_ne_nil x []))
    rw [List.cons_append, hz, intercalate_cons, ← hz, ← ih, List.getLast?_append,
      List.getLast?_cons]
    cases hlast : (['.'].intercalate (xs ++ [x])).getLast? with
    | none => simp
    | some c => simp

theorem looksQuoted_form {first last : List Char} (hfirst : (str.splitOn '.').head? = some first)
    (hlast : (str.splitOn '.').getLast? = some last) :
    LooksQuoted (['.'].intercalate ((str.splitOn '.').map (partForm mode reserved))) ↔
      IsQuotedPart mode reserved first ∧ IsQuotedPart mode reserved last := by
  refine and_congr ?_ ?_
  · obtain ⟨rest, hrest⟩ := List.head?_eq_some_iff.1 hfirst
    rw [hrest, List.map_cons, head_intercalate]
    exact head_partForm
  · obtain ⟨xs, hxs⟩ := List.getLast?_eq_some_iff.1 hlast
    rw [hxs, List.map_append, List.map_singleton, getLast_intercalate]
    exact getLast_partForm

def FormStable (mode : GdaSqlIdentifierStyle) (reserved : List Char → Bool) (str : List Char) :
    Prop :=
  ∃ form, metaForm mode reserved str = .ok form ∧ metaForm mode reserved form = .ok form

/-- The values whose form is stable: those which look quoted, those whose first and last parts are
quoted, and those whose parts are all fixed. -/
def StableParts (mode : GdaSqlIdentifierStyle) (reserved : List Char → Bool) (str : List Char) :
    Prop :=
  str ≠ [] ∧ (LooksQuoted str ∨
    (∃ first last, (str.splitOn '.').head? = some first ∧ (str.splitOn '.').getLast? = some last ∧
      IsQuotedPart mode reserved first ∧ IsQuotedPart mode reserved last) ∨
    ∀ part ∈ str.splitOn '.', IsFixedPart mode reserved part)

theorem form_ne_nil (hne : str ≠ []) :
    ['.'].intercalate ((str.splitOn '.').map (partForm mode reserved)) ≠ [] := by
  intro hnil
  have hsplit := @splitOn_form mode reserved str
  rw [hnil, List.splitOn_nil] at hsplit
  cases hparts : str.splitOn '.' with
  | nil => exact List.splitOn_ne_nil '.' str hparts
  | cons part rest =>
    rw [hparts, List.map_cons] at hsplit
    obtain ⟨hpart, hrest⟩ := List.cons.inj hsplit
    have hpart' : part = [] := by
      rw [partForm_eq] at hpart
      split at hpart
      · cases hpart
      · split at hpart
        · cases hpart
        · exact List.map_eq_nil_iff.1 hpart.symm
    have hjoin : ['.'].intercalate (str.splitOn '.') = str := List.intercalate_splitOn '.'
    rw [hparts, List.map_eq_nil_iff.1 hrest.symm, hpart'] at hjoin
    exact hne hjoin.symm

theorem formStable_iff : FormStable mode reserved str ↔ StableParts mode reserved str := by
  by_cases hne : str = []
  · subst hne
    constructor
    · rintro ⟨form, hform, -⟩
      cases hform
    · intro h
      exact absurd rfl h.1
  by_cases hquoted : LooksQuoted str
  · constructor
    · exact fun _ => ⟨hne, .inl hquoted⟩
    · exact fun _ => ⟨str, metaForm_looksQuoted hquoted, metaForm_looksQuoted hquoted⟩
  obtain ⟨first, hfirst⟩ : ∃ first, (str.splitOn '.').head? = some first := by
    obtain ⟨first, rest, hsplit⟩ := List.exists_cons_of_ne_nil (List.splitOn_ne_nil '.' str)
    exact ⟨first, by rw [hsplit]; rfl⟩
  obtain ⟨last, hlast⟩ : ∃ last, (str.splitOn '.').getLast? = some last :=
    ⟨_, List.getLast?_eq_some_getLast (List.splitOn_ne_nil '.' str)⟩
  have hlooks := @looksQuoted_form mode reserved str first last hfirst hlast
  have hform := @metaForm_eq mode reserved str hne hquoted
  have hsplit := @splitOn_form mode reserved str
  have hnil := @form_ne_nil mode reserved str hne
  have hcond : StableParts mode reserved str ↔
      (IsQuotedPart mode reserved first ∧ IsQuotedPart mode reserved last) ∨
        ∀ part ∈ str.splitOn '.', IsFixedPart mode reserved part := by
    simp [StableParts, hne, hquoted, hfirst, hlast]
  rw [hcond, ← hlooks]
  generalize hF : ['.'].intercalate ((str.splitOn '.').map (partForm mode reserved)) = form at *
  have hstable : FormStable mode reserved str ↔ metaForm mode reserved form = .ok form := by
    constructor
    · rintro ⟨form', hform', hagain⟩
      obtain rfl : form' = form := Except.ok.inj (hform'.symm.trans hform)
      exact hagain
    · exact fun hagain => ⟨form, hform, hagain⟩
  rw [hstable]
  by_cases hagain : LooksQuoted form
  · exact ⟨fun _ => .inl hagain, fun _ => metaForm_looksQuoted hagain⟩
  have hagain' := @metaForm_eq mode reserved form hnil hagain
  rw [hagain', or_iff_right hagain]
  have hparts : (['.'].intercalate ((form.splitOn '.').map (partForm mode reserved)) = form) ↔
      ∀ part ∈ str.splitOn '.',
        partForm mode reserved (partForm mode reserved part) = partForm mode reserved part := by
    constructor
    · intro heq
      have hsplit' := @splitOn_form mode reserved form
      rw [heq, hsplit, List.map_map] at hsplit'
      exact fun part hpart => (List.map_inj_left.1 hsplit' part hpart).symm
    · intro hall
      rw [hsplit, List.map_map]
      have hmap : (str.splitOn '.').map (partForm mode reserved ∘ partForm mode reserved) =
          (str.splitOn '.').map (partForm mode reserved) := List.map_congr_left hall
      rw [hmap, hF]
  constructor
  · intro heq part hpart
    exact partForm_partForm.1 (hparts.1 (Except.ok.inj heq) part hpart)
  · intro hall
    exact congrArg Except.ok (hparts.2 fun part hpart => partForm_partForm.2 (hall part hpart))

end LibGda
