import LibGda.IdentifierForm

/-! The meta store form of the names without dots and quotes: which of them share a form, and where
`gda_sql_identifier_quote` makes the same of them. -/

namespace LibGda

variable {mode : GdaSqlIdentifierStyle} {reserved isKeyword : List Char → Bool}
  {v w : List Char} {c d : Char}

def IsBareName (v : List Char) : Prop :=
  '.' ∉ v ∧ '"' ∉ v

theorem not_looksQuoted (h : '"' ∉ v) : ¬ LooksQuoted v := by
  intro hquoted
  exact h (List.mem_of_mem_head? hquoted.1)

theorem splitOn_single {sep : Char} (h : sep ∉ v) : v.splitOn sep = [v] := by
  have hparts : ∀ part ∈ [v], sep ∉ part := by
    intro part hpart
    rw [List.mem_singleton.1 hpart]
    exact h
  have hone := List.splitOn_intercalate sep hparts (List.cons_ne_nil v [])
  simpa [List.intercalate] using hone

theorem metaForm_bare (hv : IsBareName v) (hne : v ≠ []) :
    metaForm mode reserved v = .ok (partForm mode reserved v) := by
  rw [metaForm_eq hne (not_looksQuoted hv.2), splitOn_single hv.1]
  simp [List.intercalate]

theorem doubledQuotes_inj (h : doubledQuotes v = doubledQuotes w) : v = w := by
  induction v generalizing w with
  | nil =>
    cases w with
    | nil => rfl
    | cons d w =>
      by_cases hd : d = '"'
      · subst hd
        cases h
      · rw [doubledQuotes_cons hd] at h
        cases h
  | cons c v ih =>
    cases w with
    | nil =>
      by_cases hc : c = '"'
      · subst hc
        cases h
      · rw [doubledQuotes_cons hc] at h
        cases h
    | cons d w =>
      by_cases hc : c = '"'
      · subst hc
        by_cases hd : d = '"'
        · subst hd
          rw [doubledQuotes_quote, doubledQuotes_quote] at h
          rw [ih (List.cons.inj (List.cons.inj h).2).2]
        · rw [doubledQuotes_quote, doubledQuotes_cons hd] at h
          exact absurd (List.cons.inj h).1.symm hd
      · rw [doubledQuotes_cons hc] at h
        by_cases hd : d = '"'
        · subst hd
          rw [doubledQuotes_quote] at h
          exact absurd (List.cons.inj h).1 hc
        · rw [doubledQuotes_cons hd] at h
          rw [(List.cons.inj h).1, ih (List.cons.inj h).2]

theorem forceQuotes_inj (h : forceQuotes v = forceQuotes w) : v = w := by
  rw [forceQuotes_eq, forceQuotes_eq] at h
  exact doubledQuotes_inj (List.append_cancel_right (List.cons.inj h).2)

theorem toLower_not_mem (h : '"' ∉ v) : '"' ∉ v.map Char.toLower := by
  intro hmem
  obtain ⟨c, hc, hquote⟩ := List.mem_map.1 hmem
  cases hupper : c.isUpper with
  | true =>
    have hlower := isLower_toLower hupper
    rw [hquote] at hlower
    cases hlower
  | false =>
    rw [toLower_of_not_upper hupper] at hquote
    exact h (hquote ▸ hc)

theorem toLower_inj_of_plain (hc : isPlainChar mode c = true) (hd : isPlainChar mode d = true)
    (h : c.toLower = d.toLower) : c = d := by
  have hnone {e e' : Char} (hupper : e.isUpper = true) (hplain : isPlainChar mode e = true)
      (hplain' : isPlainChar mode e' = true) (hsame : e.toLower = e') : False := by
    have hlower : e'.isLower = true := hsame ▸ isLower_toLower hupper
    have hletters := ne_of_letter (.inl hupper)
    have hletters' := ne_of_letter (.inr hlower)
    have hdigit : e.isDigit = false := Bool.eq_false_iff.2 fun hdigit => by
      rw [isUpper_eq_false_of_isDigit hdigit] at hupper
      cases hupper
    have hdigit' : e'.isDigit = false := Bool.eq_false_iff.2 fun hdigit => by
      have hbounds := isDigit_iff.1 hdigit
      have hbounds' := isLower_iff.1 hlower
      omega
    have hnot : e.isLower = false := Bool.eq_false_iff.2 fun hlower => by
      rw [isUpper_eq_false_of_isLower hlower] at hupper
      cases hupper
    cases mode with
    | lowerCase => simp [isPlainChar, hdigit, hnot, hletters] at hplain
    | upperCase =>
      simp [isPlainChar, hdigit', isUpper_eq_false_of_isLower hlower, hletters'] at hplain'
  cases hupper : c.isUpper with
  | true =>
    cases hupper' : d.isUpper with
    | true =>
      have hval := toLower_of_upper hupper
      have hval' := toLower_of_upper hupper'
      rw [h] at hval
      apply Char.ext
      apply UInt32.toNat_inj.1
      omega
    | false =>
      rw [toLower_of_not_upper hupper'] at h
      exact (hnone hupper hc hd h).elim
  | false =>
    rw [toLower_of_not_upper hupper] at h
    cases hupper' : d.isUpper with
    | true => exact (hnone hupper' hd hc h.symm).elim
    | false => rw [h, toLower_of_not_upper hupper']

theorem map_toLower_inj (hv : ∀ c ∈ v, isPlainChar mode c = true)
    (hw : ∀ c ∈ w, isPlainChar mode c = true) (h : v.map Char.toLower = w.map Char.toLower) :
    v = w := by
  induction v generalizing w with
  | nil => exact (List.map_eq_nil_iff.1 h.symm).symm
  | cons c v ih =>
    cases w with
    | nil => cases h
    | cons d w =>
      rw [List.map_cons, List.map_cons] at h
      rw [List.forall_mem_cons] at hv hw
      rw [toLower_inj_of_plain hv.1 hw.1 (List.cons.inj h).1, ih hv.2 hw.2 (List.cons.inj h).2]

def NoReservedUpper (reserved : List Char → Bool) : Prop :=
  ∀ v, identifierNeedsQuotes v .upperCase = false → (∃ c ∈ v, c.isUpper = true) →
    reserved (v.map Char.toLower) = false

theorem map_toLower_of_no_upper (h : ¬ ∃ c ∈ v, c.isUpper = true) : v.map Char.toLower = v := by
  have hmap : v.map Char.toLower = v.map id := by
    refine List.map_congr_left fun c hc => toLower_of_not_upper ?_
    exact Bool.eq_false_iff.2 fun hupper => h ⟨c, hc, hupper⟩
  rw [hmap, List.map_id]

theorem no_upper_of_lowerCase (h : identifierNeedsQuotes v .lowerCase = false) :
    ¬ ∃ c ∈ v, c.isUpper = true := by
  rintro ⟨c, hc, hupper⟩
  have hplain := (needsQuotes_false.1 h).1 c hc
  have hletters := ne_of_letter (.inl hupper)
  have hdigit : c.isDigit = false := Bool.eq_false_iff.2 fun hdigit => by
    rw [isUpper_eq_false_of_isDigit hdigit] at hupper
    cases hupper
  have hlower : c.isLower = false := Bool.eq_false_iff.2 fun hlower => by
    rw [isUpper_eq_false_of_isLower hlower] at hupper
    cases hupper
  simp [isPlainChar, hdigit, hlower, hletters] at hplain

theorem partForm_apart (hcond : mode = .lowerCase ∨ NoReservedUpper reserved) (hw : '"' ∉ w)
    (hneeds : identifierNeedsQuotes v mode = true)
    (hplain : identifierNeedsQuotes w mode = false) :
    partForm mode reserved v ≠ partForm mode reserved w := by
  intro h
  rw [partForm_eq, if_pos hneeds] at h
  by_cases hres : reserved (w.map Char.toLower) = true
  · have hform : partForm mode reserved w = forceQuotes (w.map Char.toLower) := by
      rw [partForm_eq, if_neg (Bool.eq_false_iff.1 hplain), if_pos hres]
    rw [hform] at h
    have hsame := forceQuotes_inj h
    have hupper : ∃ c ∈ w, c.isUpper = true := by
      by_contra hnone
      rw [map_toLower_of_no_upper hnone] at hsame
      rw [hsame, hplain] at hneeds
      cases hneeds
    cases mode with
    | lowerCase => exact no_upper_of_lowerCase hplain hupper
    | upperCase =>
      have hnot := (hcond.resolve_left (by decide)) w hplain hupper
      rw [hres] at hnot
      cases hnot
  · have hform : partForm mode reserved w = w.map Char.toLower := by
      rw [partForm_eq, if_neg (Bool.eq_false_iff.1 hplain), if_neg hres]
    rw [hform] at h
    exact toLower_not_mem hw (h ▸ mem_forceQuotes)

theorem partForm_inj (hcond : mode = .lowerCase ∨ NoReservedUpper reserved) (hv : '"' ∉ v)
    (hw : '"' ∉ w) (h : partForm mode reserved v = partForm mode reserved w) : v = w := by
  cases hneeds : identifierNeedsQuotes v mode with
  | true =>
    cases hneeds' : identifierNeedsQuotes w mode with
    | true =>
      rw [partForm_eq, if_pos hneeds, partForm_eq, if_pos hneeds'] at h
      exact forceQuotes_inj h
    | false => exact absurd h (partForm_apart hcond hw hneeds hneeds')
  | false =>
    cases hneeds' : identifierNeedsQuotes w mode with
    | true => exact absurd h.symm (partForm_apart hcond hv hneeds' hneeds)
    | false =>
      have hlower := toLower_not_mem hv
      have hlower' := toLower_not_mem hw
      apply map_toLower_inj (needsQuotes_false.1 hneeds).1 (needsQuotes_false.1 hneeds').1
      rw [partForm_eq, if_neg (Bool.eq_false_iff.1 hneeds), partForm_eq,
        if_neg (Bool.eq_false_iff.1 hneeds')] at h
      split at h
      · split at h
        · exact forceQuotes_inj h
        · exact absurd (h ▸ mem_forceQuotes) hlower'
      · split at h
        · exact absurd (h ▸ mem_forceQuotes) hlower
        · exact h

def FormInjective (mode : GdaSqlIdentifierStyle) (reserved : List Char → Bool) : Prop :=
  ∀ v w form, IsBareName v → IsBareName w → metaForm mode reserved v = .ok form →
    metaForm mode reserved w = .ok form → v = w

theorem ne_nil_of_metaForm {form : List Char} (h : metaForm mode reserved v = .ok form) :
    v ≠ [] := by
  rintro rfl
  cases h

theorem bareName_of_plain (h : identifierNeedsQuotes v mode = false) : IsBareName v := by
  have hplain := (needsQuotes_false.1 h).1
  constructor
  · intro hdot
    have hchar := hplain '.' hdot
    revert hchar
    cases mode <;> decide
  · intro hquote
    have hchar := hplain '"' hquote
    revert hchar
    cases mode <;> decide

theorem formInjective_iff :
    FormInjective mode reserved ↔ mode = .lowerCase ∨ NoReservedUpper reserved := by
  constructor
  · intro hinj
    cases mode with
    | lowerCase => exact .inl rfl
    | upperCase =>
      refine .inr fun v hplain hupper => Bool.eq_false_iff.2 fun hres => ?_
      -- the reserved word in small letters has the same form
      have hv := bareName_of_plain hplain
      have hlower : IsBareName (v.map Char.toLower) :=
        ⟨fun hdot => hv.1 (dot_mem_toLower hdot), toLower_not_mem hv.2⟩
      obtain ⟨c, hc, hcupper⟩ := hupper
      have hneeds : identifierNeedsQuotes (v.map Char.toLower) .upperCase = true := by
        by_contra hneeds
        have hchar := (needsQuotes_false.1 (Bool.eq_false_iff.2 hneeds)).1 c.toLower
          (List.mem_map_of_mem hc)
        have hsmall := isLower_toLower hcupper
        have hletters := ne_of_letter (.inr hsmall)
        have hdigit : c.toLower.isDigit = false := Bool.eq_false_iff.2 fun hdigit => by
          have hbounds := isDigit_iff.1 hdigit
          have hbounds' := isLower_iff.1 hsmall
          omega
        simp [isPlainChar, hdigit, isUpper_toLower, hletters] at hchar
      have hne : v ≠ [] := List.ne_nil_of_mem hc
      have hne' : v.map Char.toLower ≠ [] := List.ne_nil_of_mem (List.mem_map_of_mem hc)
      have hform := @metaForm_bare .upperCase reserved v hv hne
      have hform' := @metaForm_bare .upperCase reserved _ hlower hne'
      rw [partForm_eq, if_neg (Bool.eq_false_iff.1 hplain), if_pos hres] at hform
      rw [partForm_eq, if_pos hneeds] at hform'
      have hsame := hinj v (v.map Char.toLower) _ hv hlower hform hform'
      rw [← hsame, hplain] at hneeds
      cases hneeds
  · intro hcond v w form hv hw hform hform'
    have hvalue := @metaForm_bare mode reserved v hv (ne_nil_of_metaForm hform)
    have hvalue' := @metaForm_bare mode reserved w hw (ne_nil_of_metaForm hform')
    rw [hform] at hvalue
    rw [hform'] at hvalue'
    exact partForm_inj hcond hv.2 hw.2 (Except.ok.inj (hvalue.symm.trans hvalue'))

theorem length_unquoted_cons {delim e : Char} {rest text : List Char} {n : Nat}
    (ih : ∀ {text}, unquoted delim rest = some text → text.length ≤ rest.length)
    (h : (unquoted delim rest).map (e :: ·) = some text) (hn : rest.length + 1 ≤ n) :
    text.length ≤ n := by
  obtain ⟨text', htext, rfl⟩ := Option.map_eq_some_iff.1 h
  have hle := ih htext
  rw [List.length_cons]
  omega

theorem length_unquoted {delim : Char} {text : List Char} (h : unquoted delim v = some text) :
    text.length ≤ v.length := by
  fun_induction unquoted delim v generalizing text with
  | case1 | case3 =>
    cases h
    exact le_rfl
  | case2 | case5 | case7 | case10 => cases h
  | case4 | case6 | case8 | case9 =>
    next ih =>
    apply length_unquoted_cons ih h
    simp only [List.length_cons]
    omega
  | case11 =>
    next ih => exact length_unquoted_cons ih h le_rfl

theorem removeQuotes_bare (hv : '"' ∉ v) (hhead : v.head? ≠ some '\'') : removeQuotes v = v := by
  cases v with
  | nil => rfl
  | cons c v =>
    have hc : ¬ (c = '\'' ∨ c = '"') := by
      rintro (rfl | rfl)
      · exact hhead rfl
      · exact hv (List.mem_cons_self ..)
    rw [removeQuotes, if_neg hc]

theorem length_removeQuotes (hhead : v.head? = some '\'') : (removeQuotes v).length < v.length := by
  obtain ⟨rest, rfl⟩ := List.head?_eq_some_iff.1 hhead
  rw [removeQuotes, if_pos (.inl rfl)]
  have hbody : (if ('\'' :: rest).getLast? = some '\'' then rest.dropLast else rest).length ≤
      rest.length := by
    split
    · rw [List.length_dropLast]
      omega
    · exact le_rfl
  rw [List.length_cons]
  simp only []
  generalize (if ('\'' :: rest).getLast? = some '\'' then rest.dropLast else rest) = body at hbody ⊢
  cases hbare : unquoted '\'' body with
  | none => exact Nat.succ_pos _
  | some text =>
    have hle := length_unquoted hbare
    rw [Option.getD_some]
    omega

section Quote

theorem allMetaChars_from (first : Bool) (v : List Char) :
    allMetaChars first v = true ↔
      needsQuotesFrom .lowerCase first v = false ∧ '$' ∉ v ∧ '#' ∉ v := by
  induction v generalizing first with
  | nil => simp [allMetaChars, needsQuotesFrom]
  | cons c v ih =>
    rw [allMetaChars, Bool.and_eq_true, ih, needsQuotesFrom]
    cases hdigit : c.isDigit with
    | true =>
      have hletter : c.isLower = false := Bool.eq_false_iff.2 fun hlower => by
        have hbounds := isDigit_iff.1 hdigit
        have hbounds' := isLower_iff.1 hlower
        omega
      have hsymbol : c ≠ '$' ∧ c ≠ '_' ∧ c ≠ '#' := by
        refine ⟨?_, ?_, ?_⟩
        · rintro rfl
          revert hdigit
          decide
        · rintro rfl
          revert hdigit
          decide
        · rintro rfl
          revert hdigit
          decide
      cases first <;> simp [isMetaChar, hdigit, hletter, hsymbol, Ne.symm hsymbol.1,
        Ne.symm hsymbol.2.2]
    | false =>
      cases hupper : c.isUpper with
      | true =>
        have hletter : c.isLower = false := Bool.eq_false_iff.2 fun hlower => by
          rw [isUpper_eq_false_of_isLower hlower] at hupper
          cases hupper
        have hsymbol := ne_of_letter (.inl hupper)
        simp [isMetaChar, hdigit, hletter, hsymbol]
      | false =>
        cases hletter : c.isLower with
        | true =>
          have hsymbol := ne_of_letter (.inr hletter)
          simp [isMetaChar, hletter, Ne.symm hsymbol.1, Ne.symm hsymbol.2.2]
        | false =>
          simp only [isMetaChar, hdigit, hletter]
          by_cases hunder : c = '_'
          · subst hunder
            simp
          · by_cases hdollar : c = '$'
            · simp [hdollar]
            · by_cases hhash : c = '#'
              · simp [hhash]
              · simp [hunder, hdollar, hhash]

theorem allMetaChars_iff :
    allMetaChars true v = true ↔
      identifierNeedsQuotes v .lowerCase = false ∧ '$' ∉ v ∧ '#' ∉ v :=
  allMetaChars_from true v

/-- The form in the meta store is the one of `gda_sql_identifier_quote`. -/
def QuoteAgrees (isKeyword : List Char → Bool) (v : List Char) : Prop :=
  ∃ form, metaForm .lowerCase (reservedWord none isKeyword) v = .ok form ∧
    sqlIdentifierQuote isKeyword v = some form

/-- Not empty, no asterisk, not behind a simple quote, and without the characters which only one of
the two functions leaves unquoted, unless there are quotes for another reason. -/
def QuotedAlike (isKeyword : List Char → Bool) (v : List Char) : Prop :=
  v ≠ [] ∧ v ≠ ['*'] ∧ v.head? ≠ some '\'' ∧
    (identifierNeedsQuotes v .lowerCase = true ∨ isKeyword v = true ∨ '$' ∉ v ∧ '#' ∉ v)

theorem partForm_lowerCase (isKeyword : List Char → Bool) (v : List Char) :
    partForm .lowerCase isKeyword v =
      if identifierNeedsQuotes v .lowerCase = true ∨ isKeyword v = true then forceQuotes v else v := by
  rw [partForm_eq]
  cases hneeds : identifierNeedsQuotes v .lowerCase with
  | true => simp
  | false => simp [map_toLower_of_no_upper (no_upper_of_lowerCase hneeds)]

theorem forceQuotes_ne (v : List Char) : forceQuotes v ≠ v := by
  intro h
  have hlt := length_forceQuotes v
  rw [h] at hlt
  exact lt_irrefl _ hlt

theorem quoteAgrees_iff (hv : IsBareName v) : QuoteAgrees isKeyword v ↔ QuotedAlike isKeyword v := by
  by_cases hne : v = []
  · subst hne
    constructor
    · rintro ⟨form, hform, -⟩
      cases hform
    · intro h
      exact absurd rfl h.1
  have hform := @metaForm_bare .lowerCase (reservedWord none isKeyword) v hv hne
  have hreserved : reservedWord none isKeyword = isKeyword := rfl
  rw [hreserved, partForm_lowerCase] at hform
  have hagrees : QuoteAgrees isKeyword v ↔ sqlIdentifierQuote isKeyword v =
      some (if identifierNeedsQuotes v .lowerCase = true ∨ isKeyword v = true then forceQuotes v
        else v) := by
    rw [QuoteAgrees, hreserved, hform]
    constructor
    · rintro ⟨form, hsame, hquote⟩
      rw [hquote, Except.ok.inj hsame]
    · exact fun hquote => ⟨_, rfl, hquote⟩
  rw [hagrees, sqlIdentifierQuote, if_neg hne]
  by_cases hstar : v = ['*']
  · subst hstar
    have hneeds : identifierNeedsQuotes ['*'] .lowerCase = true := by decide
    rw [if_pos rfl, if_pos (.inl hneeds)]
    constructor
    · intro h
      exact absurd (Option.some.inj h).symm (forceQuotes_ne ['*'])
    · intro h
      exact absurd rfl h.2.1
  rw [if_neg hstar]
  by_cases hhead : v.head? = some '\''
  · -- the text between the quotes is shorter
    have hneeds : identifierNeedsQuotes v .lowerCase = true := by
      by_contra hneeds
      have hchar := (needsQuotes_false.1 (Bool.eq_false_iff.2 hneeds)).1 '\''
        (List.mem_of_mem_head? hhead)
      revert hchar
      decide
    have hshort := length_removeQuotes hhead
    have hlong := length_forceQuotes v
    have hcond : identifierNeedsQuotes v .lowerCase = true ∨ isKeyword v = true := .inl hneeds
    rw [if_pos hcond]
    constructor
    · intro h
      have hapart : forceQuotes (removeQuotes v) ≠ forceQuotes v := by
        intro hsame
        rw [forceQuotes_inj hsame] at hshort
        exact lt_irrefl _ hshort
      have hapart' : removeQuotes v ≠ forceQuotes v := by
        intro hsame
        rw [hsame] at hshort
        omega
      simp only [] at h
      split at h
      · exact absurd (Option.some.inj h) hapart
      · split at h
        · exact absurd (Option.some.inj h) hapart'
        · exact absurd (Option.some.inj h) hapart
    · intro h
      exact absurd hhead h.2.2.1
  rw [removeQuotes_bare hv.2 hhead]
  have halike : QuotedAlike isKeyword v ↔
      identifierNeedsQuotes v .lowerCase = true ∨ isKeyword v = true ∨ '$' ∉ v ∧ '#' ∉ v := by
    simp [QuotedAlike, hne, hstar, hhead]
  rw [halike]
  by_cases hkey : isKeyword v = true
  · simp [hkey]
  rw [if_neg hkey]
  by_cases hmeta : allMetaChars true v = true
  · have hchars := allMetaChars_iff.1 hmeta
    simp [hmeta, hchars, hkey]
  · rw [if_neg hmeta]
    rw [allMetaChars_iff, not_and] at hmeta
    cases hneeds : identifierNeedsQuotes v .lowerCase with
    | true => simp
    | false =>
      have hnot := hmeta hneeds
      simp [hkey, hnot, forceQuotes_ne]

end Quote

/-- The three parts of what the meta store asks of the form of a value, each with the condition under
which the form has it. -/
theorem metaForm_contract (mode : GdaSqlIdentifierStyle) (func : Option (List Char → Bool))
    (isKeyword : List Char → Bool) :
    (∀ str, FormStable mode (reservedWord func isKeyword) str ↔
      StableParts mode (reservedWord func isKeyword) str) ∧
    (FormInjective mode (reservedWord func isKeyword) ↔
      mode = .lowerCase ∨ NoReservedUpper (reservedWord func isKeyword)) ∧
    ∀ str, IsBareName str → (QuoteAgrees isKeyword str ↔ QuotedAlike isKeyword str) := by
  refine ⟨?_, ?_, ?_⟩
  · intro str
    exact formStable_iff
  · exact formInjective_iff
  · intro str hstr
    exact quoteAgrees_iff hstr

/-- The form of `a.B` is `a."B"`, and the form of this one has the quotes quoted; `a$b` is kept, and
quoted by `gda_sql_identifier_quote`. -/
theorem dotted_not_stable :
    ¬ FormStable .lowerCase (reservedWord none fun _ => false) ['a', '.', 'B'] ∧
      ¬ QuoteAgrees (fun _ => false) ['a', '$', 'b'] := by
  constructor
  · rintro ⟨form, hform, hagain⟩
    obtain rfl := Except.ok.inj hform
    revert hagain
    decide
  · rintro ⟨form, hform, hquote⟩
    obtain rfl := Except.ok.inj hform
    revert hquote
    decide

end LibGda
