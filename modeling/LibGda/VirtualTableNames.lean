import LibGda.IdentifierParts
import LibGda.QuoteRemoval

/-! `_gda_connection_compute_table_virtual_name`: a name is cleaned until it splits into identifiers,
which ends unless a number is left, and the parts are quoted. -/

namespace LibGda

/-- The texts which `g_ascii_strtod` reads to their end; an underscore is in none of them, unless it
is between the parentheses of a `nan`. -/
structure NumberReader where
  reads : List Char → Bool
  underscore : ∀ str, (∀ c ∈ str, idChar c = true) → '_' ∈ str → reads str = false

structure ReservedWords where
  reserves : List Char → Bool
  lower : ∀ str, reserves (str.map Char.toLower) = reserves str

section Model

def sqliteRemoveQuotes (str : List Char) : Option (List Char) :=
  match str with
  | [] => some []
  | delim :: rest =>
    if delim = '[' ∨ delim = '`' then
      if str.getLast? = some delim ∨ delim = '[' ∧ str.getLast? = some ']' then
        -- the length of the move is negative where the quote is alone
        if rest = [] then none else some rest.dropLast
      else some rest
    else removeQuotesIn str

/-- The loop of `_gda_sqlite_identifier_quote`: the text as it is when the loop is left, and whether
the end was reached. -/
def lowerPlain (first : Bool) : List Char → List Char × Bool
  | [] => ([], true)
  | c :: rest =>
    if c.toLower.isLower ∨ c.isDigit ∧ first = false ∨ 95 ≤ c.toLower.toNat ∧ c.toNat < 128 then
      (c.toLower :: (lowerPlain false rest).1, (lowerPlain false rest).2)
    else (c.toLower :: rest, false)

variable (words : ReservedWords)

/-- `_gda_sqlite_identifier_quote` for the meta store. -/
def sqliteIdentifierQuote (id : List Char) : Option (List Char) :=
  (sqliteRemoveQuotes id).map fun tmp =>
    if words.reserves tmp then forceQuotes tmp
    else if (lowerPlain true tmp).2 then (lowerPlain true tmp).1
    else forceQuotes (lowerPlain true tmp).1

/-- `gda_sql_identifier_quote` of a part, with the virtual connection. -/
def quotePart (id : List Char) : Option (List Char) :=
  if id = ['*'] then some id else sqliteIdentifierQuote words id

def withoutPairs : List Char → List Char
  | [] => []
  | c :: rest =>
    if idChar c then c :: withoutPairs rest
    else if c = '"' then
      match rest with
      | [] => [c]
      | d :: rest' =>
        if d = '"' then
          match rest' with
          | [] => []
          | e :: rest'' => e :: withoutPairs rest''
        else c :: withoutPairs (d :: rest')
    else if c = '.' then c :: withoutPairs rest
    else '_' :: withoutPairs rest

def onlyIdChars (str : List Char) : List Char := str.map fun c => if idChar c then c else '_'

inductive VirtualName where
  | text (name : List Char)
  | null
  | aborted

variable (numbers : NumberReader)

def nameParts (name : List Char) : List (List Char) :=
  (sqlIdentifierSplit numbers.reads name).getD []

def quotedName (parts : List (List Char)) : VirtualName :=
  match parts.mapM (quotePart words) with
  | some texts => .text (joinDots texts)
  | none => .aborted

/-- `_gda_connection_compute_table_virtual_name`, with a bound on the depth of the recursion. -/
def computeTableVirtualName : Nat → List Char → Option VirtualName
  | 0, _ => none
  | fuel + 1, tableName =>
    if tableName = [] then some .aborted
    else if nameParts numbers tableName ≠ [] then
      some (quotedName words (nameParts numbers tableName))
    else
      let tmp := withoutPairs tableName
      let ptr := if tmp ≠ tableName then computeTableVirtualName fuel tmp else some .null
      match ptr with
      | some .null => computeTableVirtualName fuel (onlyIdChars tmp)
      | ptr => ptr

end Model

section Contract

variable (words : ReservedWords) (numbers : NumberReader)

def IdentifierPart.Proper : IdentifierPart → Prop
  | .unquoted v => v ≠ [] ∧ (∀ c ∈ v, idChar c = true) ∧ words.reserves v = false ∧
      ∀ c, v.head? = some c → c.isDigit = false
  | .quoted v => v ≠ []

def IsSqlName (text : List Char) : Prop :=
  ∃ parts : List IdentifierPart, parts ≠ [] ∧ (∀ p ∈ parts, p.Proper words) ∧
    text = joinDots (parts.map IdentifierPart.text)

def ReturnsSqlName (name : List Char) : Prop :=
  ∃ fuel text, computeTableVirtualName words numbers fuel name = some (.text text) ∧
    IsSqlName words text ∧
    (nameParts numbers name ≠ [] →
      ∃ texts, (nameParts numbers name).mapM (quotePart words) = some texts ∧
        text = joinDots texts)

def Quotable (p : List Char) : Prop :=
  p ≠ ['*'] ∧ ∃ tmp, sqliteRemoveQuotes p = some tmp ∧ tmp ≠ [] ∧
    (words.reserves tmp = true ∨ (lowerPlain true tmp).2 = false ∨ ∀ c ∈ tmp, idChar c = true)

def restingName : Nat → List Char → List Char
  | 0, name => name
  | n + 1, name =>
    if nameParts numbers name ≠ [] then name
    else if withoutPairs name = name then onlyIdChars name
    else restingName n (withoutPairs name)

def otherChars (name : List Char) : Nat := name.countP fun c => !idChar c

def RestsWell (name : List Char) : Prop :=
  nameParts numbers (restingName numbers (otherChars name) name) ≠ [] ∧
    ∀ p ∈ nameParts numbers (restingName numbers (otherChars name) name), Quotable words p

end Contract

section Cleaning

variable {name : List Char}

theorem withoutPairs_idChars (h : ∀ c ∈ name, idChar c = true) : withoutPairs name = name := by
  induction name with
  | nil => rfl
  | cons c rest ih =>
    rw [withoutPairs.eq_def]
    simp only [if_pos (h c List.mem_cons_self)]
    rw [ih fun d hd => h d (List.mem_cons_of_mem c hd)]

theorem onlyIdChars_idChars (h : ∀ c ∈ name, idChar c = true) : onlyIdChars name = name := by
  induction name with
  | nil => rfl
  | cons c rest ih =>
    have hrest := ih fun d hd => h d (List.mem_cons_of_mem c hd)
    rw [onlyIdChars, List.map_cons, if_pos (h c List.mem_cons_self)]
    rw [onlyIdChars] at hrest
    rw [hrest]

theorem idChar_onlyIdChars (name : List Char) : ∀ c ∈ onlyIdChars name, idChar c = true := by
  intro c hc
  obtain ⟨d, -, rfl⟩ := List.mem_map.1 hc
  by_cases hd : idChar d = true
  · rw [if_pos hd]
    exact hd
  · rw [if_neg hd]
    rfl

theorem otherChars_cons (c : Char) (rest : List Char) :
    otherChars (c :: rest) = otherChars rest + if idChar c then 0 else 1 := by
  rw [otherChars, otherChars, List.countP_cons]
  cases idChar c <;> rfl

theorem otherChars_zero : otherChars name = 0 ↔ ∀ c ∈ name, idChar c = true := by
  rw [otherChars, List.countP_eq_zero]
  simp

theorem withoutPairs_less (name : List Char) :
    withoutPairs name = name ∨ otherChars (withoutPairs name) < otherChars name := by
  fun_induction withoutPairs name with
  | case1 => left; rfl
  | case2 c rest hc ih =>
    rcases ih with heq | hlt
    · left
      rw [heq]
    · right
      rw [otherChars_cons, otherChars_cons]
      omega
  | case3 => left; rfl
  | case4 =>
    right
    decide
  | case5 e rest hc ih =>
    right
    have hle : otherChars (withoutPairs rest) ≤ otherChars rest := by
      rcases ih with heq | hlt
      · rw [heq]
      · exact Nat.le_of_lt hlt
    have hquote : idChar '"' = false := by decide
    simp only [otherChars_cons, hquote]
    simp
    omega
  | case6 d rest hd hc ih =>
    rcases ih with heq | hlt
    · left
      rw [heq]
    · right
      rw [otherChars_cons, otherChars_cons '"' (d :: rest)]
      omega
  | case7 rest hc hq ih =>
    rcases ih with heq | hlt
    · left
      rw [heq]
    · right
      rw [otherChars_cons, otherChars_cons '.' rest]
      omega
  | case8 c rest hc hq hdot ih =>
    right
    have hle : otherChars (withoutPairs rest) ≤ otherChars rest := by
      rcases ih with heq | hlt
      · rw [heq]
      · exact Nat.le_of_lt hlt
    have hunderscore : idChar '_' = true := by decide
    rw [otherChars_cons, otherChars_cons, if_pos hunderscore, if_neg hc]
    omega

theorem withoutPairs_nil (h : withoutPairs name = []) : name = [] ∨ name = ['"', '"'] := by
  revert h
  fun_cases withoutPairs name with
  | case1 =>
    intro _
    left
    rfl
  | case4 =>
    intro _
    right
    rfl
  | _ =>
    intro h
    exact absurd h (List.cons_ne_nil _ _)

end Cleaning

section Recursion

variable {words : ReservedWords} {numbers : NumberReader} {name : List Char} {fuel n : Nat}

theorem nameParts_eq_nil : nameParts numbers name = [] ↔ ¬Accepted numbers.reads
    (chomped name) := by
  obtain ⟨parts, hparts⟩ := @splitFrom_result numbers.reads _ _ (Nat.lt_succ_self name.length)
  have hsplit := hparts.eq []
  rw [List.append_nil] at hsplit
  rw [nameParts, sqlIdentifierSplit, hsplit, ← hparts.nil]
  rfl

theorem nameParts_idChars (hne : name ≠ []) (h : ∀ c ∈ name, idChar c = true) :
    nameParts numbers name = [] ↔ numbers.reads name = true := by
  have hp : (IdentifierPart.unquoted name).Valid := ⟨hne, h⟩
  have hfront : name = [] ++ (IdentifierPart.unquoted name).text := rfl
  have hback : name = (IdentifierPart.unquoted name).text ++ [] := (List.append_nil name).symm
  have hlast : lastOf name = name := by
    rw [lastOf]
    have hcut := cutBack_single hp
    rw [IdentifierPart.text] at hcut
    rw [hcut]
  rw [nameParts_eq_nil, chomped_parts hp hfront, accepted_iff hp hp hfront hback hlast]
  simp [IdentifierPart.Fits, IdentifierPart.StartsWithDot]

theorem nameParts_quotes : nameParts numbers ['"', '"'] ≠ [] := by
  rw [ne_eq, nameParts_eq_nil, not_not]
  exact ⟨List.cons_ne_nil _ _, by decide, rfl⟩

theorem compute_ne_null (name : List Char) :
    computeTableVirtualName words numbers fuel name ≠ some .null := by
  induction fuel generalizing name with
  | zero => simp [computeTableVirtualName]
  | succ fuel ih =>
    rw [computeTableVirtualName]
    split
    · simp
    · split
      · rw [quotedName]
        split <;> simp
      · simp only
        split
        · exact ih _
        · next hptr => exact hptr

theorem compute_parts (hne : name ≠ []) (h : nameParts numbers name ≠ []) :
    computeTableVirtualName words numbers (fuel + 1) name =
      some (quotedName words (nameParts numbers name)) := by
  rw [computeTableVirtualName, if_neg hne, if_pos h]

theorem compute_fixed (hne : name ≠ []) (h : nameParts numbers name = [])
    (hfixed : withoutPairs name = name) :
    computeTableVirtualName words numbers (fuel + 1) name =
      computeTableVirtualName words numbers fuel (onlyIdChars name) := by
  rw [computeTableVirtualName, if_neg hne, if_neg (not_not.2 h)]
  simp only [hfixed, ne_eq, not_true, if_false]

theorem compute_cleaned (hne : name ≠ []) (h : nameParts numbers name = [])
    (hchanged : withoutPairs name ≠ name) :
    computeTableVirtualName words numbers (fuel + 1) name =
      computeTableVirtualName words numbers fuel (withoutPairs name) := by
  rw [computeTableVirtualName, if_neg hne, if_neg (not_not.2 h)]
  simp only [if_pos hchanged]
  split
  · next hnull => exact absurd hnull (compute_ne_null _)
  · rfl

theorem compute_number (hne : name ≠ []) (hchars : ∀ c ∈ name, idChar c = true)
    (h : nameParts numbers name = []) : computeTableVirtualName words numbers fuel name = none := by
  induction fuel with
  | zero => rfl
  | succ fuel ih =>
    rw [compute_fixed hne h (withoutPairs_idChars hchars), onlyIdChars_idChars hchars]
    exact ih

structure ComesTo (words : ReservedWords) (numbers : NumberReader) (name : List Char)
    (parts : List (List Char)) : Prop where
  ends : parts ≠ [] → ∃ fuel, computeTableVirtualName words numbers fuel name =
    some (quotedName words parts)
  only : ∀ fuel, computeTableVirtualName words numbers fuel name = none ∨
    parts ≠ [] ∧ computeTableVirtualName words numbers fuel name = some (quotedName words parts)

theorem comesTo_parts (hne : name ≠ []) (h : nameParts numbers name ≠ []) :
    ComesTo words numbers name (nameParts numbers name) := by
  refine ⟨fun _ => ⟨1, compute_parts hne h⟩, ?_⟩
  intro fuel
  cases fuel with
  | zero =>
    left
    rfl
  | succ fuel =>
    right
    exact ⟨h, compute_parts hne h⟩

theorem comesTo_idChars (hne : name ≠ []) (hchars : ∀ c ∈ name, idChar c = true) :
    ComesTo words numbers name (nameParts numbers name) := by
  by_cases h : nameParts numbers name = []
  · refine ⟨fun hparts => absurd h hparts, ?_⟩
    intro fuel
    left
    exact compute_number hne hchars h
  · exact comesTo_parts hne h

theorem ComesTo.step {name' : List Char} {parts : List (List Char)}
    (h : ComesTo words numbers name' parts)
    (hstep : ∀ fuel, computeTableVirtualName words numbers (fuel + 1) name =
      computeTableVirtualName words numbers fuel name') : ComesTo words numbers name parts := by
  constructor
  · intro hparts
    obtain ⟨fuel, hfuel⟩ := h.ends hparts
    refine ⟨fuel + 1, ?_⟩
    rw [hstep]
    exact hfuel
  · intro fuel
    cases fuel with
    | zero =>
      left
      rfl
    | succ fuel =>
      rw [hstep]
      exact h.only fuel

theorem onlyIdChars_ne_nil (hne : name ≠ []) : onlyIdChars name ≠ [] := by
  rw [onlyIdChars, ne_eq, List.map_eq_nil_iff]
  exact hne

theorem comesTo_resting (hne : name ≠ []) (hn : otherChars name ≤ n) :
    ComesTo words numbers name (nameParts numbers (restingName numbers n name)) := by
  induction n generalizing name with
  | zero => exact comesTo_idChars hne (otherChars_zero.1 (Nat.le_zero.1 hn))
  | succ n ih =>
    rw [restingName]
    split
    · next h => exact comesTo_parts hne h
    · next h =>
      rw [not_not] at h
      split
      · next hfixed =>
        apply ComesTo.step (comesTo_idChars (onlyIdChars_ne_nil hne) (idChar_onlyIdChars name))
        intro fuel
        exact compute_fixed hne h hfixed
      · next hchanged =>
        have hless := (withoutPairs_less name).resolve_left hchanged
        have hnext : withoutPairs name ≠ [] := by
          intro hnil
          rcases withoutPairs_nil hnil with hnil' | hquotes
          · exact hne hnil'
          · exact nameParts_quotes (hquotes ▸ h)
        apply ComesTo.step (ih hnext (by omega))
        intro fuel
        exact compute_cleaned hne h hchanged

end Recursion

section Quoting

variable {words : ReservedWords} {p text tmp v w s t : List Char}

theorem lowerPlain_true {first : Bool} (h : (lowerPlain first tmp).2 = true) :
    (lowerPlain first tmp).1 = tmp.map Char.toLower ∧
      (first = true → ∀ c, tmp.head? = some c → c.toLower.isDigit = false) ∧
      ∀ c ∈ tmp, c ≠ '"' ∧ c ≠ '.' ∧ c ≠ '-' := by
  induction tmp generalizing first with
  | nil => simp [lowerPlain]
  | cons c rest ih =>
    rw [lowerPlain] at h ⊢
    by_cases hc : c.toLower.isLower ∨ c.isDigit ∧ first = false ∨
        95 ≤ c.toLower.toNat ∧ c.toNat < 128
    · rw [if_pos hc] at h ⊢
      obtain ⟨hlower, -, hchars⟩ := ih h
      refine ⟨by rw [hlower, List.map_cons], ?_, ?_⟩
      · intro hfirst d hd
        obtain rfl := Option.some.inj hd
        apply eq_false_of_ne_true
        intro hdigit
        have hrange := isDigit_iff.1 hdigit
        rcases hc with hletter | ⟨-, hno⟩ | ⟨hhigh, -⟩
        · have hletter' := isLower_iff.1 hletter
          omega
        · rw [hfirst] at hno
          cases hno
        · change 95 ≤ c.toLower.val.toNat at hhigh
          omega
      · intro d hd
        rcases List.mem_cons.1 hd with rfl | hd
        · refine ⟨?_, ?_, ?_⟩
          all_goals
            intro heq
            rw [heq] at hc
            revert hc
            simp [isLower_def, Char.isDigit]
        · exact hchars d hd
    · rw [if_neg hc] at h
      cases h

theorem lowerPlain_ne_nil {first : Bool} (h : tmp ≠ []) : (lowerPlain first tmp).1 ≠ [] := by
  cases tmp with
  | nil => exact absurd rfl h
  | cons c rest =>
    rw [lowerPlain]
    split <;> exact List.cons_ne_nil _ _

theorem idChar_toLower {c : Char} : idChar c.toLower = idChar c := by
  by_cases hupper : c.isUpper = true
  · have hlower := isLower_toLower hupper
    simp [idChar, Char.isAlphanum, isAlpha_def, hupper, hlower]
  · rw [toLower_of_not_upper (eq_false_of_ne_true hupper)]

theorem quotePart_proper (h : Quotable words p) :
    ∃ q : IdentifierPart, q.Proper words ∧ quotePart words p = some q.text := by
  obtain ⟨hstar, tmp, htmp, hne, hform⟩ := h
  rw [quotePart, if_neg hstar, sqliteIdentifierQuote, htmp, Option.map_some]
  by_cases hreserved : words.reserves tmp = true
  · refine ⟨.quoted tmp, hne, ?_⟩
    rw [if_pos hreserved]
    rfl
  · rw [if_neg hreserved]
    by_cases hplain : (lowerPlain true tmp).2 = true
    · have hchars : ∀ c ∈ tmp, idChar c = true := by
        rcases hform with h | h | h
        · exact absurd h hreserved
        · rw [hplain] at h
          cases h
        · exact h
      obtain ⟨hlower, hdigit, -⟩ := lowerPlain_true hplain
      refine ⟨.unquoted (tmp.map Char.toLower), ⟨?_, ?_, ?_, ?_⟩, ?_⟩
      · simp [hne]
      · intro c hc
        obtain ⟨d, hd, rfl⟩ := List.mem_map.1 hc
        rw [idChar_toLower]
        exact hchars d hd
      · rw [words.lower]
        exact eq_false_of_ne_true hreserved
      · intro c hc
        rw [List.head?_map, Option.map_eq_some_iff] at hc
        obtain ⟨d, hd, rfl⟩ := hc
        exact hdigit rfl d hd
      · rw [if_pos hplain, hlower]
        rfl
    · refine ⟨.quoted (lowerPlain true tmp).1, lowerPlain_ne_nil hne, ?_⟩
      rw [if_neg hplain]
      rfl

theorem doubledQuotes_closing (hs : AtBoundary s) (ht : AtBoundary t)
    (h : doubledQuotes v ++ '"' :: s = doubledQuotes w ++ '"' :: t) : v = w ∧ s = t := by
  have hquote {u x : List Char} (hu : AtBoundary u) : u ≠ '"' :: x := by
    intro heq
    exact boundary_head hu (by rw [heq]; rfl)
  induction v generalizing w with
  | nil =>
    cases w with
    | nil => exact ⟨rfl, List.tail_eq_of_cons_eq h⟩
    | cons d w =>
      by_cases hd : d = '"'
      · subst hd
        exact absurd (List.tail_eq_of_cons_eq h) (hquote hs)
      · rw [doubledQuotes_cons hd] at h
        exact absurd (List.head_eq_of_cons_eq h).symm hd
  | cons c v ih =>
    by_cases hc : c = '"'
    · subst hc
      cases w with
      | nil => exact absurd (List.tail_eq_of_cons_eq h).symm (hquote ht)
      | cons d w =>
        by_cases hd : d = '"'
        · subst hd
          obtain ⟨hv, hst⟩ := ih (List.tail_eq_of_cons_eq (List.tail_eq_of_cons_eq h))
          exact ⟨by rw [hv], hst⟩
        · rw [doubledQuotes_cons hd] at h
          exact absurd (List.head_eq_of_cons_eq h).symm hd
    · rw [doubledQuotes_cons hc] at h
      cases w with
      | nil => exact absurd (List.head_eq_of_cons_eq h) hc
      | cons d w =>
        by_cases hd : d = '"'
        · subst hd
          exact absurd (List.head_eq_of_cons_eq h) hc
        · rw [doubledQuotes_cons hd] at h
          obtain ⟨hv, hst⟩ := ih (List.tail_eq_of_cons_eq h)
          exact ⟨by rw [hv, List.head_eq_of_cons_eq h], hst⟩

theorem idChars_closing (hv : ∀ c ∈ v, idChar c = true) (hw : ∀ c ∈ w, idChar c = true)
    (hs : AtBoundary s) (ht : AtBoundary t) (h : v ++ s = w ++ t) : v = w ∧ s = t := by
  have hhead {c : Char} {u x : List Char} (hu : AtBoundary u) (hc : idChar c = true) :
      u ≠ c :: x := by
    intro heq
    rcases hu with hnil | hdot
    · rw [hnil] at heq
      cases heq
    · rw [heq] at hdot
      exact (idChar_ne hc).2.1 (Option.some.inj hdot)
  induction v generalizing w with
  | nil =>
    cases w with
    | nil => exact ⟨rfl, h⟩
    | cons d w => exact absurd h (hhead hs (hw d List.mem_cons_self))
  | cons c v ih =>
    cases w with
    | nil => exact absurd h.symm (hhead ht (hv c List.mem_cons_self))
    | cons d w =>
      obtain ⟨hvw, hst⟩ := ih (fun e he => hv e (List.mem_cons_of_mem c he))
        (fun e he => hw e (List.mem_cons_of_mem d he)) (List.tail_eq_of_cons_eq h)
      exact ⟨by rw [hvw, List.head_eq_of_cons_eq h], hst⟩

theorem forceQuotes_append (v s : List Char) :
    forceQuotes v ++ s = '"' :: (doubledQuotes v ++ '"' :: s) := by
  rw [forceQuotes_eq, List.cons_append, List.append_assoc, List.singleton_append]

theorem proper_closing {p q : IdentifierPart} (hp : p.Proper words) (hq : q.Proper words)
    (hs : AtBoundary s) (ht : AtBoundary t) (h : p.text ++ s = q.text ++ t) : s = t := by
  have hapart {v w s t : List Char} (hne : v ≠ []) (hv : ∀ c ∈ v, idChar c = true) :
      v ++ s ≠ forceQuotes w ++ t := by
    intro heq
    cases v with
    | nil => exact hne rfl
    | cons c v =>
      rw [forceQuotes_append] at heq
      exact (idChar_ne (hv c List.mem_cons_self)).1 (List.head_eq_of_cons_eq heq)
  cases p with
  | unquoted v =>
    cases q with
    | unquoted w => exact (idChars_closing hp.2.1 hq.2.1 hs ht h).2
    | quoted w => exact absurd h (hapart hp.1 hp.2.1)
  | quoted v =>
    cases q with
    | unquoted w => exact absurd h.symm (hapart hq.1 hq.2.1)
    | quoted w =>
      change forceQuotes v ++ s = forceQuotes w ++ t at h
      rw [forceQuotes_append, forceQuotes_append] at h
      exact (doubledQuotes_closing hs ht (List.tail_eq_of_cons_eq h)).2

def NoIdentifier (words : ReservedWords) (text : List Char) : Prop :=
  ∀ (q : IdentifierPart) (s t : List Char), q.Proper words → AtBoundary s → AtBoundary t →
    text ++ s ≠ q.text ++ t

theorem noIdentifier_of_char {c : Char} {rest : List Char} (hid : idChar c = false)
    (hquote : c ≠ '"') (hw : ∀ d ∈ w, idChar d = true) (hdot : c ≠ '.') :
    NoIdentifier words (w ++ c :: rest) := by
  intro q s t hq hs ht h
  rw [List.append_assoc, List.cons_append] at h
  cases q with
  | unquoted v =>
    have hstop : ∀ {v w u : List Char}, (∀ d ∈ v, idChar d = true) → (∀ d ∈ w, idChar d = true) →
        w ++ c :: u ≠ v ++ t := by
      intro v w u hv hw h
      induction w generalizing v with
      | nil =>
        cases v with
        | nil =>
          rcases ht with hnil | hhead
          · rw [hnil] at h
            cases h
          · rw [← List.nil_append t, ← h] at hhead
            exact hdot (Option.some.inj hhead)
        | cons d v =>
          have heq := List.head_eq_of_cons_eq h
          have hd := hv d List.mem_cons_self
          rw [← heq, hid] at hd
          cases hd
      | cons e w ih =>
        cases v with
        | nil =>
          have he := idChar_ne (hw e List.mem_cons_self)
          rcases ht with hnil | hhead
          · rw [hnil] at h
            cases h
          · rw [← List.nil_append t, ← h] at hhead
            exact he.2.1 (Option.some.inj hhead)
        | cons d v =>
          exact ih (fun x hx => hv x (List.mem_cons_of_mem d hx))
            (fun x hx => hw x (List.mem_cons_of_mem e hx)) (List.tail_eq_of_cons_eq h)
    exact hstop hq.2.1 hw h
  | quoted v =>
    change _ = forceQuotes v ++ t at h
    rw [forceQuotes_append] at h
    cases w with
    | nil => exact hquote (List.head_eq_of_cons_eq h)
    | cons d w =>
      exact (idChar_ne (hw d List.mem_cons_self)).1 (List.head_eq_of_cons_eq h)

theorem noIdentifier_nil : NoIdentifier words [] := by
  intro q s t hq hs ht h
  rw [List.nil_append] at h
  cases q with
  | unquoted v =>
    obtain ⟨c, v', rfl⟩ := List.exists_cons_of_ne_nil hq.1
    have hc := idChar_ne (hq.2.1 c List.mem_cons_self)
    rcases hs with hnil | hdot
    · rw [hnil] at h
      cases h
    · rw [h] at hdot
      exact hc.2.1 (Option.some.inj hdot)
  | quoted v =>
    apply boundary_head hs
    rw [h]
    rfl

theorem noIdentifier_empty : NoIdentifier words (forceQuotes []) := by
  intro q s t hq hs ht h
  cases q with
  | unquoted v =>
    obtain ⟨c, v', rfl⟩ := List.exists_cons_of_ne_nil hq.1
    have hc := idChar_ne (hq.2.1 c List.mem_cons_self)
    exact hc.1 (List.head_eq_of_cons_eq h).symm
  | quoted v =>
    change forceQuotes [] ++ s = forceQuotes v ++ t at h
    rw [forceQuotes_append, forceQuotes_append] at h
    exact hq (doubledQuotes_closing hs ht (List.tail_eq_of_cons_eq h)).1.symm

theorem quotePart_improper (h : ¬Quotable words p) (htext : quotePart words p = some text) :
    NoIdentifier words text := by
  rw [quotePart] at htext
  by_cases hstar : p = ['*']
  · rw [if_pos hstar, hstar] at htext
    rw [← Option.some.inj htext]
    exact noIdentifier_of_char (w := []) (by decide) (by decide) (by simp) (by decide)
  · rw [if_neg hstar, sqliteIdentifierQuote, Option.map_eq_some_iff] at htext
    obtain ⟨tmp, htmp, htext⟩ := htext
    by_cases hnil : tmp = []
    · rw [hnil] at htext
      split at htext
      · rw [← htext]
        exact noIdentifier_empty
      · rw [← htext]
        exact noIdentifier_nil
    · have hform : ¬(words.reserves tmp = true ∨ (lowerPlain true tmp).2 = false ∨
          ∀ c ∈ tmp, idChar c = true) := fun hform => h ⟨hstar, tmp, htmp, hnil, hform⟩
      rw [not_or, not_or] at hform
      obtain ⟨hreserved, hplain, hchars⟩ := hform
      have hplain := eq_true_of_ne_false hplain
      obtain ⟨hlower, -, hother⟩ := lowerPlain_true hplain
      rw [if_neg hreserved, if_pos hplain, hlower] at htext
      have hdrop : tmp.dropWhile idChar ≠ [] := by
        intro hdrop
        rw [List.dropWhile_eq_nil_iff] at hdrop
        exact hchars hdrop
      obtain ⟨c, rest, hrest⟩ := List.exists_cons_of_ne_nil hdrop
      have hsplit := List.takeWhile_append_dropWhile (p := idChar) (l := tmp)
      rw [hrest] at hsplit
      have hc : idChar c = false := by
        have hhead := List.head?_dropWhile_not idChar tmp
        rw [hrest] at hhead
        exact hhead
      have hmem : c ∈ tmp := by
        rw [← hsplit]
        simp
      have hupper : c.toLower = c := by
        apply toLower_of_not_upper
        apply eq_false_of_ne_true
        intro hupper
        rw [idChar, Char.isAlphanum, isAlpha_def, hupper] at hc
        simp at hc
      rw [← htext, ← hsplit, List.map_append, List.map_cons, hupper]
      apply noIdentifier_of_char hc (hother c hmem).1 _ (hother c hmem).2.1
      intro d hd
      obtain ⟨e, he, rfl⟩ := List.mem_map.1 hd
      rw [idChar_toLower]
      exact List.mem_takeWhile_imp he

end Quoting

section Joined

variable {words : ReservedWords} {numbers : NumberReader} {name : List Char} {n : Nat}
  {parts texts : List (List Char)} {q : IdentifierPart}

def dotted : List (List Char) → List Char
  | [] => []
  | texts => '.' :: joinDots texts

theorem joinDots_dotted (text : List Char) (texts : List (List Char)) :
    joinDots (text :: texts) = text ++ dotted texts := by
  cases texts with
  | nil => exact (List.append_nil text).symm
  | cons t ts => rfl

theorem dotted_boundary (texts : List (List Char)) : AtBoundary (dotted texts) := by
  cases texts with
  | nil => exact .inl rfl
  | cons t ts => exact .inr rfl

theorem isSqlName_cons (hq : q.Proper words) :
    IsSqlName words (joinDots (q.text :: texts)) ↔
      texts = [] ∨ IsSqlName words (joinDots texts) := by
  constructor
  · intro ⟨parts, hne, hproper, heq⟩
    obtain ⟨q', qs, rfl⟩ := List.exists_cons_of_ne_nil hne
    rw [List.map_cons, joinDots_dotted, joinDots_dotted] at heq
    have hrest := proper_closing hq (hproper q' List.mem_cons_self) (dotted_boundary _)
      (dotted_boundary _) heq
    cases texts with
    | nil =>
      left
      rfl
    | cons t ts =>
      right
      cases qs with
      | nil => cases hrest
      | cons q'' qs =>
        refine ⟨q'' :: qs, List.cons_ne_nil _ _, ?_, List.tail_eq_of_cons_eq hrest⟩
        intro r hr
        exact hproper r (List.mem_cons_of_mem q' hr)
  · intro h
    cases texts with
    | nil =>
      refine ⟨[q], List.cons_ne_nil _ _, ?_, rfl⟩
      intro r hr
      rw [List.mem_singleton.1 hr]
      exact hq
    | cons t ts =>
      obtain ⟨qs, hne, hproper, heq⟩ := h.resolve_left (List.cons_ne_nil _ _)
      refine ⟨q :: qs, List.cons_ne_nil _ _, ?_, ?_⟩
      · intro r hr
        rcases List.mem_cons.1 hr with rfl | hr
        · exact hq
        · exact hproper r hr
      · obtain ⟨q', qs', rfl⟩ := List.exists_cons_of_ne_nil hne
        rw [List.map_cons, joinDots_dotted, joinDots_dotted]
        show _ ++ '.' :: joinDots (t :: ts) = _ ++ '.' :: joinDots ((q' :: qs').map _)
        rw [heq]

theorem not_isSqlName (h : NoIdentifier words text) : ¬IsSqlName words
    (joinDots (text :: texts)) := by
  intro ⟨parts, hne, hproper, heq⟩
  obtain ⟨q, qs, rfl⟩ := List.exists_cons_of_ne_nil hne
  rw [List.map_cons, joinDots_dotted, joinDots_dotted] at heq
  exact h q _ _ (hproper q List.mem_cons_self) (dotted_boundary _) (dotted_boundary _) heq

theorem isSqlName_quoted (hne : parts ≠ []) (h : parts.mapM (quotePart words) = some texts) :
    IsSqlName words (joinDots texts) ↔ ∀ p ∈ parts, Quotable words p := by
  induction parts generalizing texts with
  | nil => exact absurd rfl hne
  | cons p ps ih =>
    rw [List.mapM_cons] at h
    obtain ⟨text, htext, h⟩ := Option.bind_eq_some_iff.1 h
    obtain ⟨rest, hrest, h⟩ := Option.bind_eq_some_iff.1 h
    obtain rfl := Option.some.inj h
    rw [List.forall_mem_cons]
    by_cases hp : Quotable words p
    · obtain ⟨q, hq, hquote⟩ := quotePart_proper hp
      rw [htext] at hquote
      rw [Option.some.inj hquote, isSqlName_cons hq, and_iff_right hp]
      cases ps with
      | nil =>
        obtain rfl := Option.some.inj hrest
        simp
      | cons p' ps' =>
        have hcons : rest ≠ [] := by
          intro hnil
          rw [hnil, List.mapM_cons] at hrest
          obtain ⟨t, -, hrest⟩ := Option.bind_eq_some_iff.1 hrest
          obtain ⟨ts, -, hrest⟩ := Option.bind_eq_some_iff.1 hrest
          cases hrest
        rw [or_iff_right hcons]
        exact ih (List.cons_ne_nil _ _) hrest
    · have hno : ¬IsSqlName words (joinDots (text :: rest)) :=
        not_isSqlName (quotePart_improper hp htext)
      simp [hno, hp]

theorem mapM_quotable (h : ∀ p ∈ parts, Quotable words p) :
    ∃ texts, parts.mapM (quotePart words) = some texts := by
  induction parts with
  | nil => exact ⟨[], rfl⟩
  | cons p ps ih =>
    obtain ⟨q, -, hquote⟩ := quotePart_proper (h p List.mem_cons_self)
    obtain ⟨texts, htexts⟩ := ih fun r hr => h r (List.mem_cons_of_mem p hr)
    refine ⟨q.text :: texts, ?_⟩
    rw [List.mapM_cons, hquote, htexts]
    rfl

theorem restingName_parts (h : nameParts numbers name ≠ []) : restingName numbers n name =
    name := by
  cases n with
  | zero => rfl
  | succ n => rw [restingName, if_pos h]

theorem returnsSqlName_iff (hne : name ≠ []) :
    ReturnsSqlName words numbers name ↔ RestsWell words numbers name := by
  have hcomes := @comesTo_resting words numbers name _ hne le_rfl
  rw [RestsWell]
  generalize hresting : restingName numbers (otherChars name) name = resting at hcomes ⊢
  constructor
  · intro ⟨fuel, text, hcompute, hname, _⟩
    rcases hcomes.only fuel with hnone | ⟨hparts, hsome⟩
    · rw [hcompute] at hnone
      cases hnone
    · rw [hcompute, quotedName] at hsome
      cases htexts : (nameParts numbers resting).mapM (quotePart words) with
      | none =>
        rw [htexts] at hsome
        cases hsome
      | some texts =>
        rw [htexts] at hsome
        have htext : text = joinDots texts := VirtualName.text.inj (Option.some.inj hsome)
        rw [htext] at hname
        exact ⟨hparts, (isSqlName_quoted hparts htexts).1 hname⟩
  · intro ⟨hparts, hquotable⟩
    obtain ⟨fuel, hfuel⟩ := hcomes.ends hparts
    obtain ⟨texts, htexts⟩ := mapM_quotable hquotable
    rw [quotedName, htexts] at hfuel
    refine ⟨fuel, joinDots texts, hfuel, (isSqlName_quoted hparts htexts).2 hquotable, ?_⟩
    intro hsplits
    rw [restingName_parts hsplits] at hresting
    refine ⟨texts, ?_, rfl⟩
    rw [hresting]
    exact htexts

end Joined

section Plain

variable {words : ReservedWords} {numbers : NumberReader} {name : List Char} {n : Nat}

def PlainTableName (name : List Char) : Prop := '"' ∉ name ∧ '`' ∉ name ∧ '*' ∉ name

theorem chomped_mem {str : List Char} {c : Char} (h : c ∈ chomped str) : c ∈ str := by
  rw [chomped, List.mem_reverse] at h
  exact List.mem_reverse.1 ((List.dropWhile_suffix _).subset h)

theorem splitIdentifierString_mem {isNumber : List Char → Bool} {copy last : List Char}
    {remain : Option (List Char)} (h : splitIdentifierString isNumber copy = some (remain, last)) :
    stringIsIdentifier isNumber last = true ∧ (∀ c ∈ last, c ∈ copy) ∧
      ∀ r, remain = some r → ∀ c ∈ r, c ∈ copy := by
  by_cases haccepted : Accepted isNumber (chomped copy)
  · rw [splitIdentifierString_accepted haccepted, Option.some.injEq, Prod.mk.injEq] at h
    obtain ⟨hfront, hlast⟩ := h
    rw [← hlast]
    refine ⟨haccepted.2.2, ?_, ?_⟩
    · intro c hc
      apply chomped_mem
      cases hsome : frontOf (chomped copy) with
      | none =>
        rw [lastOf_none hsome] at hc
        exact hc
      | some r =>
        rw [frontOf_some hsome]
        exact List.mem_append_right r (List.mem_cons_of_mem '.' hc)
    · intro r hr c hc
      apply chomped_mem
      rw [frontOf_some (hfront.trans hr)]
      exact List.mem_append_left _ hc
  · rw [splitIdentifierString_rejected haccepted] at h
    cases h

theorem splitFrom_mem {isNumber : List Char → Bool} {fuel : Nat} {copy : List Char}
    {array parts : List (List Char)} (h : splitFrom isNumber fuel copy array = some parts) :
    ∀ p ∈ parts, p ∈ array ∨ stringIsIdentifier isNumber p = true ∧ ∀ c ∈ p, c ∈ copy := by
  induction fuel generalizing copy array with
  | zero => cases h
  | succ fuel ih =>
    rw [splitFrom] at h
    cases hsplit : splitIdentifierString isNumber copy with
    | none =>
      rw [hsplit] at h
      obtain rfl := Option.some.inj h
      intro p hp
      exact .inl hp
    | some cut =>
      obtain ⟨remain, last⟩ := cut
      obtain ⟨hid, hlast, hremain⟩ := splitIdentifierString_mem hsplit
      cases remain with
      | none =>
        rw [hsplit] at h
        obtain rfl := Option.some.inj h
        intro p hp
        rcases List.mem_cons.1 hp with rfl | hp
        · exact .inr ⟨hid, hlast⟩
        · exact .inl hp
      | some r =>
        rw [hsplit] at h
        intro p hp
        rcases ih h p hp with hp | ⟨hid', hchars⟩
        · rcases List.mem_cons.1 hp with rfl | hp
          · exact .inr ⟨hid, hlast⟩
          · exact .inl hp
        · exact .inr ⟨hid', fun c hc => hremain r rfl c (hchars c hc)⟩

theorem nameParts_mem {p : List Char} (hp : p ∈ nameParts numbers name) :
    stringIsIdentifier numbers.reads p = true ∧ ∀ c ∈ p, c ∈ name := by
  rw [nameParts] at hp
  cases hsplit : sqlIdentifierSplit numbers.reads name with
  | none =>
    rw [hsplit] at hp
    cases hp
  | some parts =>
    rw [hsplit] at hp
    exact (splitFrom_mem hsplit p hp).resolve_left List.not_mem_nil

theorem identifierChars_plain {v : List Char} (h : identifierChars v = true)
    (hplain : PlainTableName v) : ∀ c ∈ v, idChar c = true ∨ c = '.' ∨ c = '-' := by
  obtain ⟨hquote, hback, hstar⟩ := hplain
  induction v with
  | nil =>
    intro c hc
    cases hc
  | cons d v ih =>
    rw [List.mem_cons, not_or] at hquote hback hstar
    by_cases hd : idChar d = true ∨ d = '*' ∨ d = '.' ∨ d = '-'
    · rw [identifierChars_char hd] at h
      intro c hc
      rcases List.mem_cons.1 hc with rfl | hc
      · rcases hd with hid | hd | hd | hd
        · exact .inl hid
        · exact absurd hd.symm hstar.1
        · exact .inr (.inl hd)
        · exact .inr (.inr hd)
      · exact ih h hquote.2 hback.2 hstar.2 c hc
    · rw [identifierChars.eq_def] at h
      simp only [if_neg hd] at h
      rw [if_neg (Ne.symm hquote.1), decide_eq_true_eq] at h
      exact absurd h.1.symm hback.1

theorem quotable_plain {p : List Char} (hplain : PlainTableName name)
    (hp : p ∈ nameParts numbers name) : Quotable words p := by
  obtain ⟨hid, hmem⟩ := nameParts_mem hp
  have hpart : PlainTableName p :=
    ⟨fun h => hplain.1 (hmem _ h), fun h => hplain.2.1 (hmem _ h), fun h => hplain.2.2 (hmem _ h)⟩
  rw [stringIsIdentifier] at hid
  cases p with
  | nil => cases hid
  | cons c rest =>
    have hhead : ¬((c :: rest).head? = some '"' ∨ (c :: rest).head? = some '`') := by
      rw [List.head?_cons, Option.some.injEq, Option.some.injEq, not_or]
      exact ⟨fun h => hpart.1 (h ▸ List.mem_cons_self), fun h => hpart.2.1 (h ▸ List.mem_cons_self)⟩
    have hchars : identifierChars (c :: rest) = true := by
      apply eq_true_of_ne_false
      intro hno
      rw [if_neg (List.cons_ne_nil _ _), if_neg hhead, if_pos hno] at hid
      cases hid
    have hform := identifierChars_plain hchars hpart
    refine ⟨?_, c :: rest, ?_, List.cons_ne_nil _ _, ?_⟩
    · intro heq
      apply hpart.2.2
      rw [heq]
      exact List.mem_cons_self
    · have hc : c ≠ '[' ∧ c ≠ '`' ∧ c ≠ '\'' ∧ c ≠ '"' := by
        refine ⟨?_, ?_, ?_, ?_⟩
        all_goals
          intro heq
          have hc := hform c List.mem_cons_self
          rw [heq] at hc
          revert hc
          decide
      rw [sqliteRemoveQuotes]
      simp only [hc.1, hc.2.1, or_self, if_false]
      rw [removeQuotesIn]
      simp only [if_pos (show c ≠ '\'' ∧ c ≠ '"' from ⟨hc.2.2.1, hc.2.2.2⟩)]
    · by_cases hall : ∀ d ∈ c :: rest, idChar d = true
      · exact .inr (.inr hall)
      · right
        left
        push Not at hall
        obtain ⟨d, hd, hno⟩ := hall
        apply eq_false_of_ne_true
        intro htrue
        have hother := (lowerPlain_true htrue).2.2 d hd
        rcases hform d hd with hid | hdot | hdash
        · exact hno hid
        · exact hother.2.1 hdot
        · exact hother.2.2 hdash

theorem mem_withoutPairs {c : Char} (h : c ∈ withoutPairs name) : c ∈ name ∨ c = '_' := by
  fun_induction withoutPairs name with
  | case1 => cases h
  | case2 d rest hd ih => simp only [List.mem_cons] at h ⊢; tauto
  | case3 => exact .inl h
  | case4 => cases h
  | case5 e rest hd ih => simp only [List.mem_cons] at h ⊢; tauto
  | case6 d rest hd hq ih => simp only [List.mem_cons] at h ih ⊢; tauto
  | case7 rest hd hq ih => simp only [List.mem_cons] at h ⊢; tauto
  | case8 d rest hd hq hdot ih => simp only [List.mem_cons] at h ⊢; tauto

theorem underscore_withoutPairs (h : '_' ∈ name) : '_' ∈ withoutPairs name := by
  fun_induction withoutPairs name with
  | case1 => cases h
  | case2 d rest hd ih => simp only [List.mem_cons] at h ⊢; tauto
  | case3 => exact h
  | case4 => simp at h
  | case5 e rest hd ih => simp at h ⊢; tauto
  | case6 d rest hd hq ih => simp at h ih ⊢; tauto
  | case7 rest hd hq ih => simp at h ⊢; tauto
  | case8 d rest hd hq hdot ih => simp

theorem underscore_changed (hquote : '"' ∉ name) (h : withoutPairs name ≠ name) :
    '_' ∈ withoutPairs name := by
  fun_induction withoutPairs name with
  | case1 => exact absurd rfl h
  | case2 d rest hd ih =>
    rw [List.mem_cons, not_or] at hquote
    have hrest : withoutPairs rest ≠ rest := fun heq => h (by rw [heq])
    exact List.mem_cons_of_mem d (ih hquote.2 hrest)
  | case3 => exact absurd rfl h
  | case4 => exact absurd List.mem_cons_self hquote
  | case5 => exact absurd List.mem_cons_self hquote
  | case6 => exact absurd List.mem_cons_self hquote
  | case7 rest hd hq ih =>
    rw [List.mem_cons, not_or] at hquote
    have hrest : withoutPairs rest ≠ rest := fun heq => h (by rw [heq])
    exact List.mem_cons_of_mem '.' (ih hquote.2 hrest)
  | case8 => exact List.mem_cons_self

theorem underscore_onlyIdChars (h : ∃ c ∈ name, idChar c = false ∨ c = '_') :
    '_' ∈ onlyIdChars name := by
  obtain ⟨c, hc, hform⟩ := h
  apply List.mem_map.2
  refine ⟨c, hc, ?_⟩
  rcases hform with hno | rfl
  · rw [if_neg (by simp [hno])]
  · rfl

theorem underscore_parts (h : ∀ c ∈ name, idChar c = true) (hmem : '_' ∈ name) :
    nameParts numbers name ≠ [] := by
  rw [ne_eq, nameParts_idChars (List.ne_nil_of_mem hmem) h, numbers.underscore name h hmem]
  exact Bool.false_ne_true

theorem underscore_rests (hn : otherChars name ≤ n) (h : '_' ∈ name) :
    nameParts numbers (restingName numbers n name) ≠ [] := by
  induction n generalizing name with
  | zero => exact underscore_parts (otherChars_zero.1 (Nat.le_zero.1 hn)) h
  | succ n ih =>
    rw [restingName]
    split
    · next hsplits => exact hsplits
    · split
      · exact underscore_parts (idChar_onlyIdChars name) (underscore_onlyIdChars ⟨_, h, .inr rfl⟩)
      · next hchanged =>
        have hless := (withoutPairs_less name).resolve_left hchanged
        have hnext := underscore_withoutPairs h
        exact ih (by omega) hnext

theorem plain_withoutPairs (h : PlainTableName name) : PlainTableName (withoutPairs name) := by
  obtain ⟨hquote, hback, hstar⟩ := h
  refine ⟨?_, ?_, ?_⟩
  · intro hmem
    rcases mem_withoutPairs hmem with h | h
    · exact hquote h
    · cases h
  · intro hmem
    rcases mem_withoutPairs hmem with h | h
    · exact hback h
    · cases h
  · intro hmem
    rcases mem_withoutPairs hmem with h | h
    · exact hstar h
    · cases h

theorem plain_onlyIdChars (name : List Char) : PlainTableName (onlyIdChars name) := by
  have hid := idChar_onlyIdChars name
  exact ⟨fun h => absurd (hid _ h) (by decide), fun h => absurd (hid _ h) (by decide),
    fun h => absurd (hid _ h) (by decide)⟩

theorem plain_restingName (h : PlainTableName name) : PlainTableName
    (restingName numbers n name) := by
  induction n generalizing name with
  | zero => exact h
  | succ n ih =>
    rw [restingName]
    split
    · exact h
    · split
      · exact plain_onlyIdChars name
      · exact ih (plain_withoutPairs h)

theorem plain_rests_iff (hplain : PlainTableName name) (hne : name ≠ [])
    (hn : otherChars name ≤ n) : nameParts numbers (restingName numbers n name) ≠ [] ↔
      ¬((∀ c ∈ name, idChar c = true) ∧ numbers.reads name = true) := by
  by_cases hchars : ∀ c ∈ name, idChar c = true
  · have hresting : restingName numbers n name = name := by
      cases n with
      | zero => rfl
      | succ n =>
        rw [restingName]
        split
        · rfl
        · rw [if_pos (withoutPairs_idChars hchars), onlyIdChars_idChars hchars]
    rw [hresting, ne_eq, nameParts_idChars hne hchars, and_iff_right hchars]
  · refine iff_of_true ?_ fun h => hchars h.1
    cases n with
    | zero => exact absurd (otherChars_zero.1 (Nat.le_zero.1 hn)) hchars
    | succ n =>
      rw [restingName]
      split
      · next hsplits => exact hsplits
      · split
        · push Not at hchars
          obtain ⟨c, hc, hno⟩ := hchars
          have hmem := underscore_onlyIdChars ⟨c, hc, .inl (eq_false_of_ne_true hno)⟩
          exact underscore_parts (idChar_onlyIdChars name) hmem
        · next hchanged =>
          have hless := (withoutPairs_less name).resolve_left hchanged
          exact underscore_rests (by omega) (underscore_changed hplain.1 hchanged)

theorem restsWell_plain (hplain : PlainTableName name) (hne : name ≠ []) :
    RestsWell words numbers name ↔
      ¬((∀ c ∈ name, idChar c = true) ∧ numbers.reads name = true) := by
  rw [RestsWell, plain_rests_iff hplain hne le_rfl, and_iff_left]
  intro p hp
  exact quotable_plain (plain_restingName hplain) hp

end Plain

/-- A name becomes an identifier where the cleaning rests at parts which can be quoted; without
quotes, these are the names which are no number. -/
theorem computeTableVirtualName_contract (words : ReservedWords) (numbers : NumberReader) (c : Char)
    (rest : List Char) :
    (ReturnsSqlName words numbers (c :: rest) ↔ RestsWell words numbers (c :: rest)) ∧
    (PlainTableName (c :: rest) → (ReturnsSqlName words numbers (c :: rest) ↔
      ¬((∀ d ∈ c :: rest, idChar d = true) ∧ numbers.reads (c :: rest) = true))) := by
  have hne := List.cons_ne_nil c rest
  refine ⟨returnsSqlName_iff hne, ?_⟩
  intro hplain
  rw [returnsSqlName_iff hne, restsWell_plain hplain hne]

def digitReader : NumberReader where
  reads str := str.all Char.isDigit
  underscore str _ h := by
    apply eq_false_of_ne_true
    intro hall
    exact absurd (List.all_eq_true.1 hall '_' h) (by decide)

def noWords : ReservedWords := ⟨fun _ => false, fun _ => rfl⟩

/-- The table `12` has no name. -/
theorem digits_unnamed : ¬ReturnsSqlName noWords digitReader ['1', '2'] := by
  intro h
  have hplain : PlainTableName ['1', '2'] := by
    refine ⟨?_, ?_, ?_⟩ <;> decide
  have hno := (returnsSqlName_iff (List.cons_ne_nil _ _)).1 h
  rw [restsWell_plain hplain (List.cons_ne_nil _ _)] at hno
  exact hno ⟨List.all_eq_true.1 (by decide), by decide⟩

end LibGda
