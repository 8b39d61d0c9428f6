import LibGda.IdentifierAgreement
import Mathlib.Algebra.Order.Ring.Int

/-! `gda_identifier_equal` and `gda_identifier_hash` agree with what SQL makes of two names, if there
is no quote inside of them. A name is the list of its bytes, written as characters. -/

namespace LibGda

/-- The loop of `gda_identifier_equal`, with the names behind their first quote. -/
def identifierEqualFrom (dq1 dq2 : Bool) : List Char → List Char → Bool
  | c1 :: rest1, c2 :: rest2 =>
    if (if dq1 then c1 else c1.toLower) ≠ (if dq2 then c2 else c2.toLower) then false
    else identifierEqualFrom dq1 dq2 rest1 rest2
  | c :: _, [] => c = '"'
  | [], c :: _ => c = '"'
  | [], [] => true

def startQuote : List Char → Bool × List Char
  | [] => (false, [])
  | c :: rest => if c = '"' then (true, rest) else (false, c :: rest)

def identifierEqual (id1 id2 : List Char) : Bool :=
  identifierEqualFrom (startQuote id1).1 (startQuote id2).1 (startQuote id1).2 (startQuote id2).2

/-- A byte of a name as a `signed char`. -/
def signedChar (c : Char) : Int := if c.toNat < 128 then c.toNat else c.toNat - 256

def hashChar (h : Int) (c : Char) : Int := (31 * h + signedChar c) % 2 ^ 32

/-- `gda_identifier_hash`: the scan ends at the next quote. -/
def identifierHash (id : List Char) : Int :=
  ((startQuote id).2.takeWhile fun c => c ≠ '"').foldl
    (fun h c => hashChar h (if (startQuote id).1 then c else c.toLower)) 0

def insideQuotes : List Char → List Char
  | [] => []
  | [c] => if c = '"' then [] else [c]
  | c :: d :: rest =>
    if c = '"' ∧ d = '"' then '"' :: insideQuotes rest else c :: insideQuotes (d :: rest)

def sqlName (id : List Char) : List Char :=
  if (startQuote id).1 then insideQuotes (startQuote id).2 else id.map Char.toLower

inductive PlainName : List Char → Prop
  | bare {v : List Char} (h : '"' ∉ v) : PlainName v
  | quoted {v : List Char} (h : '"' ∉ v) : PlainName ('"' :: (v ++ ['"']))

section Equality

variable {v w s t : List Char} {dq1 dq2 : Bool}

def folded (dq : Bool) (v : List Char) : List Char := v.map fun c => if dq then c else c.toLower

theorem toLower_ne_quote {c : Char} (h : c ≠ '"') : c.toLower ≠ '"' := by
  have hnot : '"' ∉ [c] := by
    rw [List.mem_singleton]
    exact Ne.symm h
  have hlower := toLower_not_mem hnot
  rw [List.map_singleton, List.mem_singleton] at hlower
  exact Ne.symm hlower

theorem folded_ne_quote {c : Char} (h : c ≠ '"') (dq : Bool) :
    (if dq then c else c.toLower) ≠ '"' := by
  cases dq with
  | true => exact h
  | false => exact toLower_ne_quote h

theorem folded_quote (dq : Bool) : (if dq then '"' else '"'.toLower) = '"' := by
  cases dq with
  | true => rfl
  | false => rfl

theorem identifierEqualFrom_iff (hv : '"' ∉ v) (hw : '"' ∉ w) (hs : s = [] ∨ s = ['"'])
    (ht : t = [] ∨ t = ['"']) :
    identifierEqualFrom dq1 dq2 (v ++ s) (w ++ t) = true ↔ folded dq1 v = folded dq2 w := by
  induction v generalizing w with
  | nil =>
    cases w with
    | nil =>
      have hempty : identifierEqualFrom dq1 dq2 s t = true := by
        rcases hs with rfl | rfl <;> rcases ht with rfl | rfl
        · rfl
        · rfl
        · rfl
        · rw [identifierEqualFrom, folded_quote, folded_quote, if_neg (not_not.2 rfl)]
          rfl
      simp [hempty, folded]
    | cons d w =>
      have hd : d ≠ '"' := by
        intro heq
        rw [heq] at hw
        exact hw List.mem_cons_self
      rw [List.nil_append, List.cons_append]
      rcases hs with rfl | rfl
      · simp [identifierEqualFrom, folded, hd]
      · have hne := folded_ne_quote hd dq2
        rw [identifierEqualFrom, folded_quote, if_pos (Ne.symm hne)]
        simp [folded]
  | cons c v ih =>
    have hc : c ≠ '"' := by
      intro heq
      rw [heq] at hv
      exact hv List.mem_cons_self
    cases w with
    | nil =>
      rw [List.nil_append, List.cons_append]
      rcases ht with rfl | rfl
      · simp [identifierEqualFrom, folded, hc]
      · have hne := folded_ne_quote hc dq1
        rw [identifierEqualFrom, folded_quote, if_pos hne]
        simp [folded]
    | cons d w =>
      have hrest := ih (fun h => hv (List.mem_cons_of_mem _ h))
        (fun h : '"' ∈ w => hw (List.mem_cons_of_mem _ h))
      rw [List.cons_append, List.cons_append, identifierEqualFrom, folded, folded, List.map_cons,
        List.map_cons, List.cons.injEq]
      by_cases heq : (if dq1 then c else c.toLower) = (if dq2 then d else d.toLower)
      · rw [if_neg (not_not.2 heq), hrest, and_iff_right heq]
        rfl
      · rw [if_pos heq]
        simp [heq]

end Equality

section PlainNames

variable {v id id1 id2 : List Char}

theorem startQuote_bare (h : '"' ∉ v) : startQuote v = (false, v) := by
  cases v with
  | nil => rfl
  | cons c v =>
    have hc : ¬ c = '"' := by
      intro heq
      rw [heq] at h
      exact h List.mem_cons_self
    rw [startQuote, if_neg hc]

theorem startQuote_quoted (v : List Char) : startQuote ('"' :: (v ++ ['"'])) = (true, v ++ ['"']) := by
  rw [startQuote, if_pos rfl]

theorem insideQuotes_plain (h : '"' ∉ v) : insideQuotes (v ++ ['"']) = v := by
  induction v with
  | nil => rfl
  | cons c v ih =>
    have hc : ¬ c = '"' := by
      intro heq
      rw [heq] at h
      exact h List.mem_cons_self
    have hrest := ih fun hmem => h (List.mem_cons_of_mem _ hmem)
    cases v with
    | nil => simp [insideQuotes, hc]
    | cons d v =>
      rw [List.cons_append, List.cons_append, insideQuotes, if_neg (fun hq => hc hq.1)]
      rw [List.cons_append] at hrest
      rw [hrest]

theorem PlainName.parts (h : PlainName id) :
    ∃ dq v s, '"' ∉ v ∧ (s = [] ∨ s = ['"']) ∧ startQuote id = (dq, v ++ s) ∧
      sqlName id = folded dq v := by
  cases h with
  | bare h =>
    refine ⟨false, id, [], h, .inl rfl, ?_, ?_⟩
    · rw [startQuote_bare h, List.append_nil]
    · rw [sqlName, startQuote_bare h]
      rfl
  | quoted h =>
    refine ⟨true, _, ['"'], h, .inr rfl, startQuote_quoted _, ?_⟩
    rw [sqlName, startQuote_quoted, if_pos rfl, insideQuotes_plain h, folded]
    simp

theorem identifierEqual_iff (h1 : PlainName id1) (h2 : PlainName id2) :
    identifierEqual id1 id2 = true ↔ sqlName id1 = sqlName id2 := by
  obtain ⟨dq1, v, s, hv, hs, hstart1, hname1⟩ := h1.parts
  obtain ⟨dq2, w, t, hw, ht, hstart2, hname2⟩ := h2.parts
  rw [identifierEqual, hstart1, hstart2, hname1, hname2]
  exact identifierEqualFrom_iff hv hw hs ht

end PlainNames

end LibGda

/-! `gda_identifier_equal` takes two identifiers for equal if their names are, and also if one name is
the other one with a quote and more behind it. -/

namespace LibGda

/-- An identifier of SQL: a name without quotes, or any name in quotes, where each quote inside is
doubled. -/
inductive SqlIdentifier : List Char → Prop
  | bare {v : List Char} (h : '"' ∉ v) (hne : v ≠ []) : SqlIdentifier v
  | quoted (v : List Char) : SqlIdentifier (forceQuotes v)

section Scan

variable {x y v w r : List Char} {dq1 dq2 : Bool}

def GoesOn (x y : List Char) : Prop := ∃ r, x = y ++ '"' :: r

theorem folded_cons (dq : Bool) (c : Char) (v : List Char) :
    folded dq (c :: v) = (if dq then c else c.toLower) :: folded dq v := rfl

theorem folded_eq_quote {c : Char} (dq : Bool) :
    (if dq then c else c.toLower) = '"' ↔ c = '"' := by
  constructor
  · intro h
    by_contra hc
    exact folded_ne_quote hc dq h
  · intro h
    rw [h]
    exact folded_quote dq

theorem goesOn_nil : GoesOn x [] ↔ x.head? = some '"' := by
  cases x with
  | nil => simp [GoesOn]
  | cons c x => simp [GoesOn]

theorem goesOn_cons {c d : Char} : GoesOn (c :: x) (d :: y) ↔ c = d ∧ GoesOn x y := by
  simp only [GoesOn, List.cons_append, List.cons.injEq]
  constructor
  · intro h
    obtain ⟨r, hcd, hr⟩ := h
    exact ⟨hcd, r, hr⟩
  · intro h
    obtain ⟨hcd, r, hr⟩ := h
    exact ⟨r, hcd, hr⟩

theorem not_goesOn_of_nil {c : Char} : ¬ GoesOn [] (c :: y) := by
  intro h
  obtain ⟨r, hr⟩ := h
  cases hr

theorem not_goesOn (h : '"' ∉ x) : ¬ GoesOn x y := by
  intro hgoes
  obtain ⟨r, rfl⟩ := hgoes
  simp at h

theorem identifierEqualFrom_scan : identifierEqualFrom dq1 dq2 x y = true ↔
    folded dq1 x = folded dq2 y ∨ GoesOn (folded dq1 x) (folded dq2 y) ∨
      GoesOn (folded dq2 y) (folded dq1 x) := by
  induction x generalizing y with
  | nil =>
    cases y with
    | nil => simp [identifierEqualFrom, folded]
    | cons d y =>
      have hnil : folded dq1 [] = [] := rfl
      rw [identifierEqualFrom, hnil, goesOn_nil, folded_cons, List.head?_cons, Option.some.injEq,
        folded_eq_quote, decide_eq_true_eq]
      constructor
      · intro h
        exact .inr (.inr h)
      · intro h
        rcases h with h | h | h
        · cases h
        · exact absurd h not_goesOn_of_nil
        · exact h
  | cons c x ih =>
    cases y with
    | nil =>
      have hnil : folded dq2 [] = [] := rfl
      rw [identifierEqualFrom, hnil, goesOn_nil, folded_cons, List.head?_cons, Option.some.injEq,
        folded_eq_quote, decide_eq_true_eq]
      constructor
      · intro h
        exact .inr (.inl h)
      · intro h
        rcases h with h | h | h
        · cases h
        · exact h
        · exact absurd h not_goesOn_of_nil
    | cons d y =>
      rw [identifierEqualFrom, folded_cons, folded_cons, List.cons.injEq, goesOn_cons, goesOn_cons]
      by_cases heq : (if dq1 then c else c.toLower) = (if dq2 then d else d.toLower)
      · rw [if_neg (not_not.2 heq), ih]
        simp [heq]
      · rw [if_pos heq]
        simp [heq, Ne.symm heq]

theorem doubledQuotes_goesOn :
    doubledQuotes v ++ ['"'] = doubledQuotes w ++ '"' :: r ↔
      v = w ∧ r = [] ∨ ∃ v', v = w ++ '"' :: v' ∧ r = '"' :: (doubledQuotes v' ++ ['"']) := by
  induction w generalizing v with
  | nil =>
    cases v with
    | nil => simp [eq_comm]
    | cons c v =>
      by_cases hc : c = '"'
      · subst hc
        simp [eq_comm]
      · simp [doubledQuotes_cons hc, hc]
  | cons d w ih =>
    cases v with
    | nil =>
      by_cases hd : d = '"'
      · subst hd
        simp
      · simp [doubledQuotes_cons hd, Ne.symm hd]
    | cons c v =>
      by_cases hc : c = '"'
      · by_cases hd : d = '"'
        · subst hc hd
          simp [ih]
        · subst hc
          simp [doubledQuotes_cons hd, Ne.symm hd]
      · by_cases hd : d = '"'
        · subst hd
          simp [doubledQuotes_cons hc, hc]
        · by_cases hcd : c = d
          · subst hcd
            simp [doubledQuotes_cons hc, ih]
          · simp [doubledQuotes_cons hc, doubledQuotes_cons hd, hcd]

theorem doubledQuotes_plain (h : '"' ∉ w) : doubledQuotes w = w := by
  induction w with
  | nil => rfl
  | cons c w ih =>
    rw [List.mem_cons, not_or] at h
    rw [doubledQuotes_cons (Ne.symm h.1), ih h.2]

theorem insideQuotes_doubled (v : List Char) : insideQuotes (doubledQuotes v ++ ['"']) = v := by
  induction v with
  | nil => rfl
  | cons c v ih =>
    by_cases hc : c = '"'
    · subst hc
      rw [doubledQuotes_quote, List.cons_append, List.cons_append, insideQuotes, if_pos ⟨rfl, rfl⟩,
        ih]
    · rw [doubledQuotes_cons hc, List.cons_append]
      cases hrest : doubledQuotes v ++ ['"'] with
      | nil => simp at hrest
      | cons d rest =>
        rw [insideQuotes, if_neg (fun h => hc h.1), ← hrest, ih]

end Scan

section Equality

variable {a b : List Char}

def scanText (a : List Char) : List Char := folded (startQuote a).1 (startQuote a).2

theorem SqlIdentifier.text (h : SqlIdentifier a) :
    ('"' ∉ sqlName a ∧ scanText a = sqlName a) ∨
      scanText a = doubledQuotes (sqlName a) ++ ['"'] := by
  cases h with
  | bare h hne =>
    left
    rw [scanText, sqlName, startQuote_bare h]
    exact ⟨toLower_not_mem h, rfl⟩
  | quoted v =>
    right
    rw [scanText, sqlName, forceQuotes_eq, startQuote, if_pos rfl, if_pos rfl, insideQuotes_doubled]
    simp [folded]

theorem identifierEqual_scan : identifierEqual a b = true ↔
    scanText a = scanText b ∨ GoesOn (scanText a) (scanText b) ∨
      GoesOn (scanText b) (scanText a) := identifierEqualFrom_scan

theorem goesOn_quoted {v w : List Char} :
    GoesOn (doubledQuotes v ++ ['"']) (doubledQuotes w) ↔ v = w ∨ GoesOn v w := by
  simp only [GoesOn, doubledQuotes_goesOn]
  constructor
  · intro h
    obtain ⟨r, ⟨hv, -⟩ | ⟨v', hv, -⟩⟩ := h
    · exact .inl hv
    · exact .inr ⟨v', hv⟩
  · intro h
    rcases h with hv | ⟨v', hv⟩
    · exact ⟨[], .inl ⟨hv, rfl⟩⟩
    · exact ⟨_, .inr ⟨v', hv, rfl⟩⟩

theorem goesOn_both {v w : List Char} :
    GoesOn (doubledQuotes v ++ ['"']) (doubledQuotes w ++ ['"']) ↔ GoesOn v w := by
  simp only [GoesOn, List.append_assoc, List.singleton_append, doubledQuotes_goesOn]
  constructor
  · intro h
    obtain ⟨r, ⟨-, hnil⟩ | ⟨v', hv, -⟩⟩ := h
    · cases hnil
    · exact ⟨v', hv⟩
  · intro h
    obtain ⟨v', hv⟩ := h
    exact ⟨_, .inr ⟨v', hv, rfl⟩⟩

theorem quoted_inj {v w : List Char} :
    doubledQuotes v ++ ['"'] = doubledQuotes w ++ ['"'] ↔ v = w := by
  rw [doubledQuotes_goesOn]
  simp

theorem quoted_ne_bare {v w : List Char} (hw : '"' ∉ w) : doubledQuotes v ++ ['"'] ≠ w := by
  intro heq
  rw [← heq] at hw
  simp at hw

theorem identifierEqual_names (ha : SqlIdentifier a) (hb : SqlIdentifier b) :
    identifierEqual a b = true ↔
      sqlName a = sqlName b ∨ GoesOn (sqlName a) (sqlName b) ∨ GoesOn (sqlName b) (sqlName a) := by
  rw [identifierEqual_scan]
  rcases ha.text with ⟨hplain, htext⟩ | htext
  · rcases hb.text with ⟨hplain', htext'⟩ | htext'
    · rw [htext, htext']
    · have hgoes := @goesOn_quoted (sqlName b) (sqlName a)
      rw [doubledQuotes_plain hplain] at hgoes
      rw [htext, htext', hgoes]
      have hne := @quoted_ne_bare (sqlName b) (sqlName a) hplain
      simp only [Ne.symm hne, not_goesOn hplain, false_or]
      rw [eq_comm]
  · rcases hb.text with ⟨hplain', htext'⟩ | htext'
    · have hgoes := @goesOn_quoted (sqlName a) (sqlName b)
      rw [doubledQuotes_plain hplain'] at hgoes
      rw [htext, htext', hgoes]
      have hne := @quoted_ne_bare (sqlName a) (sqlName b) hplain'
      simp only [hne, not_goesOn hplain', false_or, or_false]
    · rw [htext, htext', quoted_inj, goesOn_both, goesOn_both]

end Equality

section Hash

variable {a b x y : List Char}

theorem identifierHash_scan (a : List Char) :
    identifierHash a = ((scanText a).takeWhile fun c => c ≠ '"').foldl hashChar 0 := by
  have htake : (scanText a).takeWhile (fun c => c ≠ '"') =
      folded (startQuote a).1 ((startQuote a).2.takeWhile fun c => c ≠ '"') := by
    rw [scanText]
    generalize (startQuote a).1 = dq
    induction (startQuote a).2 with
    | nil => rfl
    | cons c rest ih =>
      rw [folded_cons]
      by_cases hc : c = '"'
      · subst hc
        simp [folded]
      · simpa [folded_ne_quote hc dq, hc, folded_cons] using ih
  rw [identifierHash, htake, folded, List.foldl_map]

theorem takeWhile_goesOn (h : GoesOn x y) :
    (x.takeWhile fun c => c ≠ '"') = y.takeWhile fun c => c ≠ '"' := by
  obtain ⟨r, rfl⟩ := h
  induction y with
  | nil => simp
  | cons c y ih =>
    by_cases hc : c = '"'
    · simp [hc]
    · simpa [hc] using ih

theorem identifierHash_of_equal (h : identifierEqual a b = true) :
    identifierHash a = identifierHash b := by
  rw [identifierHash_scan, identifierHash_scan]
  rcases identifierEqual_scan.1 h with heq | hgoes | hgoes
  · rw [heq]
  · rw [takeWhile_goesOn hgoes]
  · rw [takeWhile_goesOn hgoes]

end Hash

section Contract

structure ComparesNames (S : Set (List Char)) : Prop where
  names : ∀ a ∈ S, ∀ b ∈ S, identifierEqual a b = true ↔ sqlName a = sqlName b
  equivalence : Equivalence fun a b : S => identifierEqual a b = true

def NamesApart (S : Set (List Char)) : Prop :=
  ∀ a ∈ S, ∀ b ∈ S, ¬ GoesOn (sqlName a) (sqlName b)

theorem identifierEqual_contract (S : Set (List Char)) (hS : ∀ a ∈ S, SqlIdentifier a) :
    (ComparesNames S ↔ NamesApart S) ∧
    ∀ a b, identifierEqual a b = true → identifierHash a = identifierHash b := by
  refine ⟨?_, fun a b => identifierHash_of_equal⟩
  constructor
  · intro h a ha b hb hgoes
    have heq := (identifierEqual_names (hS a ha) (hS b hb)).2 (.inr (.inl hgoes))
    rw [h.names a ha b hb] at heq
    obtain ⟨r, hr⟩ := hgoes
    rw [heq] at hr
    simp at hr
  · intro h
    have hnames : ∀ a ∈ S, ∀ b ∈ S, identifierEqual a b = true ↔ sqlName a = sqlName b := by
      intro a ha b hb
      rw [identifierEqual_names (hS a ha) (hS b hb)]
      constructor
      · intro hor
        rcases hor with heq | hgoes | hgoes
        · exact heq
        · exact absurd hgoes (h a ha b hb)
        · exact absurd hgoes (h b hb a ha)
      · intro heq
        exact .inl heq
    refine ⟨hnames, ?_, ?_, ?_⟩
    · intro a
      exact (hnames a a.2 a a.2).2 rfl
    · intro a b hab
      exact (hnames b b.2 a a.2).2 ((hnames a a.2 b b.2).1 hab).symm
    · intro a b c hab hbc
      exact (hnames a a.2 c c.2).2
        (((hnames a a.2 b b.2).1 hab).trans ((hnames b b.2 c c.2).1 hbc))

/-- `a`, `A` and `"a"` -/
theorem identifierEqual_contract_letter :
    (∀ a ∈ [['a'], ['A'], forceQuotes ['a']], SqlIdentifier a) ∧
      ComparesNames {a | a ∈ [['a'], ['A'], forceQuotes ['a']]} := by
  have hall : ∀ a ∈ [['a'], ['A'], forceQuotes ['a']], SqlIdentifier a ∧ sqlName a = ['a'] := by
    intro a ha
    simp only [List.mem_cons, List.not_mem_nil, or_false] at ha
    rcases ha with rfl | rfl | rfl
    · exact ⟨.bare (by decide) (by decide), by decide⟩
    · exact ⟨.bare (by decide) (by decide), by decide⟩
    · exact ⟨.quoted _, by decide⟩
  refine ⟨fun a ha => (hall a ha).1, ?_⟩
  refine (identifierEqual_contract {a | a ∈ [['a'], ['A'], forceQuotes ['a']]}
    fun a ha => (hall a ha).1).1.2 ?_
  intro a ha b hb hgoes
  rw [(hall a ha).2, (hall b hb).2] at hgoes
  exact not_goesOn (by decide) hgoes

/-- `"a""b"` is taken for `a` and `a` for `"a""c"`, but not `"a""b"` for `"a""c"`. -/
theorem identifierEqual_not_transitive :
    ¬ ∀ S : Set (List Char), (∀ a ∈ S, SqlIdentifier a) → ComparesNames S := by
  intro hall
  have hS : ∀ a ∈ {a | SqlIdentifier a}, SqlIdentifier a := fun a ha => ha
  have hcompares := hall {a | SqlIdentifier a} hS
  rw [(identifierEqual_contract _ hS).1] at hcompares
  exact hcompares (forceQuotes ['a', '"', 'b']) (.quoted _) ['a'] (.bare (by decide) (by decide))
    ⟨['b'], by decide⟩

end Contract

end LibGda
