import LibGda.RunInvariant
import LibGda.TokenLexemes

/-! Literals: a text which is read to its end as one literal is read so when a space follows it. -/

namespace LibGda

open TerminatedBuffer RunInvariant

def TokenType.Literal (type : TokenType) : Prop :=
  type ∈ [TokenType.string, .textual, .integer, .float]

instance : DecidablePred TokenType.Literal :=
  fun type => inferInstanceAs (Decidable (type ∈ [TokenType.string, .textual, .integer, .float]))

def Scanned.IsLiteral (s : Scanned) : Prop := ∃ type, s.tokenType = some type ∧ type.Literal

def GdaSqlParserMode.Value : GdaSqlParserMode → TokenType → Prop
  | .parse, type => type = .string ∨ type = .integer ∨ type = .float
  | .delimit, type => type.Literal

section Extension

variable {z t : List Char} {i j : Nat} {p : Char → Bool} {delim : Char}

theorem skip_append (h0 : p '\x00' = false) (hs : p ' ' = false) (hi : i ≤ z.length) :
    skip p (z ++ ' ' :: t) i = skip p z i := by
  have hi' : i ≤ (z ++ ' ' :: t).length := by
    rw [List.length_append]
    omega
  have hstop : ((z ++ ' ' :: t).drop i).takeWhile p = (z.drop i).takeWhile p := by
    rw [List.drop_append_of_le_length hi, List.takeWhile_append]
    split
    · rw [List.takeWhile_cons_of_neg (by simp [hs]), List.append_nil]
      rename_i hlen
      exact ((List.takeWhile_prefix p).eq_of_length hlen).symm
    · rfl
  rw [skip, skip, scan_of_stops h0 hi', scan_of_stops h0 hi, hstop]

theorem holdsAt_append (h0 : p '\x00' = false) (hs : p ' ' = false) (hi : i ≤ z.length) :
    holdsAt p (z ++ ' ' :: t) i = holdsAt p z i := by
  have hi' : i ≤ (z ++ ' ' :: t).length := by
    rw [List.length_append]
    omega
  rw [holdsAt, holdsAt, peek_of_le hi', peek_of_le hi]
  rcases Nat.lt_or_eq_of_le hi with hlt | rfl
  · rw [List.getD_append _ _ _ _ hlt]
  · rw [List.getD_append_right _ _ _ _ (Nat.le_refl _), Nat.sub_self,
      List.getD_eq_default _ _ (Nat.le_refl _)]
    simp [Except.map, h0, hs]

theorem lt_of_holdsAt (h0 : p '\x00' = false) (h : holdsAt p z i = .ok true) : i < z.length := by
  rw [holdsAt] at h
  obtain ⟨c, hc, hp⟩ := map_ok h
  refine lt_of_peek hc ?_
  rintro rfl
  rw [h0] at hp
  cases hp

theorem andAlso_congr {x y x' y' : Except ScanFault Bool} (hx : x' = x) (hy : x = .ok true →
    y' = y) :
    andAlso x' y' = andAlso x y := by
  subst hx
  rcases x' with e | b
  · rfl
  · cases b with
    | false => rfl
    | true => exact congrArg (andAlso (.ok true)) (hy rfl)

theorem exponentAt_append (hi : i ≤ z.length) : exponentAt (z ++ ' ' :: t) i = exponentAt z i := by
  refine andAlso_congr (holdsAt_append (by decide) (by decide) hi) ?_
  intro he
  have hi1 := lt_of_holdsAt (by decide) he
  have hdigit := holdsAt_append (t := t) (p := Char.isDigit) (by decide) (by decide) hi1
  rw [orElse, orElse, hdigit]
  have hsign : andAlso (holdsAt (fun c => c == '+' || c == '-') (z ++ ' ' :: t) (i + 1))
      (holdsAt Char.isDigit (z ++ ' ' :: t) (i + 2)) =
        andAlso (holdsAt (fun c => c == '+' || c == '-') z (i + 1))
          (holdsAt Char.isDigit z (i + 2)) := by
    refine andAlso_congr (holdsAt_append (by decide) (by decide) hi1) ?_
    intro hsign
    exact holdsAt_append (by decide) (by decide) (lt_of_holdsAt (by decide) hsign)
  rw [hsign]

theorem decimalEnd_append : decimalEnd (z ++ ' ' :: t) = decimalEnd z := by
  have hfirst := skip_append (t := t) (p := Char.isDigit) (by decide) (by decide)
    (Nat.zero_le z.length)
  have hstop : Char.isDigit '\x00' = false := by decide
  obtain ⟨i, hi, -, hile⟩ := scan_within hstop (Nat.zero_le z.length)
  have hexponent : ∀ (type : TokenType) (j : Nat), j ≤ z.length →
      (exponentAt (z ++ ' ' :: t) j >>= fun b =>
        if b = true then (skip Char.isDigit (z ++ ' ' :: t) (j + 2)).map (TokenType.float, ·)
        else pure (type, j)) =
      (exponentAt z j >>= fun b =>
        if b = true then (skip Char.isDigit z (j + 2)).map (TokenType.float, ·)
        else pure (type, j)) := by
    intro type j hj
    rw [exponentAt_append hj]
    rcases hexp : exponentAt z j with e | b
    · rfl
    · cases b with
      | false => rfl
      | true =>
        have hlt : j + 2 ≤ z.length := by
          obtain ⟨b, hb, hlt⟩ := (reads_exponentAt hj).exists_ok id
          rw [hexp] at hb
          cases hb
          exact hlt rfl
        show (skip Char.isDigit (z ++ ' ' :: t) (j + 2)).map _ = (skip Char.isDigit z (j + 2)).map _
        rw [skip_append (by decide) (by decide) hlt]
  have hskip : skip Char.isDigit z 0 = .ok i := hi
  rw [decimalEnd, decimalEnd, hfirst, hskip]
  show (holdsAt (· == '.') (z ++ ' ' :: t) i >>= _) = (holdsAt (· == '.') z i >>= _)
  rw [holdsAt_append (by decide) (by decide) hile]
  rcases hpoint : holdsAt (· == '.') z i with e | b
  · rfl
  · cases b with
    | false => exact hexponent .integer i hile
    | true =>
      have hlt := lt_of_holdsAt (by decide) hpoint
      obtain ⟨j, hj, -, hjle⟩ := scan_within hstop hlt
      have hskip' : skip Char.isDigit z (i + 1) = .ok j := hj
      show ((skip Char.isDigit (z ++ ' ' :: t) (i + 1)).map (TokenType.float, ·) >>= _) =
        ((skip Char.isDigit z (i + 1)).map (TokenType.float, ·) >>= _)
      rw [skip_append (by decide) (by decide) hlt, hskip']
      exact hexponent .float j hjle

theorem closingQuote_append (hh : t.head? ≠ some delim) {l : List Char}
    (h : closingQuote delim l i = .ok (some j)) : closingQuote delim (l ++ t) i = .ok (some j) := by
  induction l, i using closingQuote.induct delim with
  | case1 => cases h
  | case2 i =>
    rw [closingQuote_delim] at h
    cases h
    show closingQuote delim (delim :: t) _ = _
    rw [closingQuote_delim]
    cases t with
    | nil => rfl
    | cons d t => exact if_neg (fun hd => hh (by rw [hd]; rfl))
  | case3 i rest ih =>
    rw [closingQuote_delim] at h
    show closingQuote delim (delim :: delim :: (rest ++ t)) i = _
    rw [closingQuote_delim]
    simp only [if_true] at h ⊢
    exact ih h
  | case4 i d rest hne =>
    rw [closingQuote_delim] at h
    show closingQuote delim (delim :: d :: (rest ++ t)) i = _
    rw [closingQuote_delim]
    simp only [if_neg hne] at h ⊢
    exact h
  | case5 i hne =>
    rw [closingQuote_escape (Ne.symm hne)] at h
    cases h
  | case6 i c rest hne ih =>
    rw [closingQuote_escape (Ne.symm hne)] at h
    show closingQuote delim ('\\' :: c :: (rest ++ t)) i = _
    rw [closingQuote_escape (Ne.symm hne)]
    exact ih h
  | case7 c rest i hc he ih =>
    rw [closingQuote_plain hc he] at h
    show closingQuote delim (c :: (rest ++ t)) i = _
    rw [closingQuote_plain hc he]
    exact ih h

theorem closingTag_append {tag : List Char} {search : TagSearch} {l : List Char}
    (h : closingTag tag search l i = .ok (some j)) :
    closingTag tag search (l ++ t) i = .ok (some j) := by
  induction search, l, i using closingTag.induct tag with
  | case1 l i =>
    rw [closingTag] at h ⊢
    exact h
  | case2 => cases h
  | case3 search i hc hh =>
    rw [closingTag] at h
    · cases h
    · exact hc
    · exact hh
  | case4 left c rest i ih =>
    rw [closingTag, if_pos rfl] at h
    rw [List.cons_append, closingTag, if_pos rfl]
    exact ih h
  | case5 d left c rest i hne ih =>
    rw [closingTag, if_neg hne] at h
    rw [List.cons_append, closingTag, if_neg hne]
    exact ih h
  | case6 search rest i hn hc ih =>
    have hstep : ∀ r, closingTag tag search ('$' :: r) i =
        closingTag tag (.comparing tag.tail) r (i + 1) := by
      intro r
      rw [closingTag, if_pos rfl]
      · exact hn
      · exact hc
    rw [hstep] at h
    rw [List.cons_append, hstep]
    exact ih h
  | case7 search c rest i hn hc hne ih =>
    have hstep : ∀ r, closingTag tag search (c :: r) i = closingTag tag .seeking r (i + 1) := by
      intro r
      rw [closingTag, if_neg hne]
      · exact hn
      · exact hc
    rw [hstep] at h
    rw [List.cons_append, hstep]
    exact ih h

end Extension

section Readers

variable {mode : GdaSqlParserMode} {flavour : GdaSqlParserFlavour} {delimiter c : Char}
  {z t : List Char} {s r : Scanned}

theorem literal_of_token {type : TokenType} {n : Nat} (h : (s.token type n).IsLiteral) :
    type.Literal := by
  obtain ⟨type', htype, hlit⟩ := h
  cases htype
  exact hlit

theorem quotedToken_append {delim : Char} (hs : delim ≠ ' ') {text : List Char}
    (h : quotedToken delim (delim :: text) s = .ok r) (hlit : r.IsLiteral) :
    quotedToken delim (delim :: text ++ ' ' :: t) s = .ok r ∧ r.inParamSpec = s.inParamSpec := by
  obtain ⟨found, hfound, hr⟩ := bind_ok h
  cases found with
  | none =>
    cases hr
    exact absurd (literal_of_token hlit) (by decide)
  | some i =>
    have hclosed : closingQuote delim (text ++ ' ' :: t) 1 = .ok (some i) := by
      refine closingQuote_append ?_ hfound
      intro hh
      exact hs (Option.some.inj hh).symm
    refine ⟨?_, ?_⟩
    · show closingQuote delim (text ++ ' ' :: t) 1 >>= _ = _
      rw [hclosed]
      exact hr
    · cases hr
      rfl

theorem dollarQuotedToken_append (h : dollarQuotedToken z s = .ok r) (hs : s.tokenType = none)
    (hz : 1 ≤ z.length) (hlit : r.IsLiteral) (hend : r.consumedChars ≤ z.length) :
    dollarQuotedToken (z ++ ' ' :: t) s = .ok r ∧ r.inParamSpec = s.inParamSpec := by
  obtain ⟨i, hi, h⟩ := bind_ok h
  obtain ⟨b, hb, h⟩ := bind_ok h
  have hi' : skip tagChar (z ++ ' ' :: t) 1 = .ok i := by
    rw [skip_append (by decide) (by decide) hz]
    exact hi
  cases b with
  | false =>
    cases h
    obtain ⟨type, htype, -⟩ := hlit
    rw [hs] at htype
    cases htype
  | true =>
    have hlt := lt_of_holdsAt (by decide) hb
    simp only [if_true] at h
    obtain ⟨found, hfound, h⟩ := bind_ok h
    cases found with
    | none =>
      cases h
      obtain ⟨type, htype, hl⟩ := hlit
      cases htype
      exact absurd hl (by decide)
    | some j =>
      have hj : j ≤ z.length ∧ r.inParamSpec = s.inParamSpec := by
        obtain ⟨retval, -, h⟩ := bind_ok h
        cases h
        exact ⟨hend, rfl⟩
      have hfound' : closingTag ((z ++ ' ' :: t).take (i + 1)) .head ((z ++ ' ' :: t).drop (i + 1))
        (i + 1) =
          .ok (some j) := by
        rw [List.take_append_of_le_length hlt, List.drop_append_of_le_length hlt]
        exact closingTag_append hfound
      refine ⟨?_, hj.2⟩
      rw [dollarQuotedToken, hi']
      show (holdsAt (· == '$') (z ++ ' ' :: t) i >>= _) = _
      rw [holdsAt_append (by decide) (by decide) (Nat.le_of_lt hlt), hb]
      show (closingTag ((z ++ ' ' :: t).take (i + 1)) .head ((z ++ ' ' :: t).drop (i + 1)) (i + 1)
        >>= _) = _
      rw [hfound']
      show (stripComments .lineStart ((z ++ ' ' :: t).take j) >>= _) = _
      rw [List.take_append_of_le_length hj.1]
      exact h

theorem hexadecimalAt_append (hz : z ≠ ['0', 'x']) (hz' : z ≠ ['0', 'X']) :
    hexadecimalAt (z ++ ' ' :: t) = hexadecimalAt z := by
  refine andAlso_congr (holdsAt_append (by decide) (by decide) (Nat.zero_le _)) ?_
  intro h0
  have hlt0 := lt_of_holdsAt (by decide) h0
  refine andAlso_congr (holdsAt_append (by decide) (by decide) hlt0) ?_
  intro h1
  have hlt1 := lt_of_holdsAt (by decide) h1
  match z, hlt1, h0, h1 with
  | [a, b], _, h0, h1 =>
    have ha : a = '0' := by simpa [holdsAt, peek, Except.map] using h0
    have hb : b = 'x' ∨ b = 'X' := by simpa [holdsAt, peek, Except.map] using h1
    subst ha
    rcases hb with rfl | rfl
    · exact absurd rfl hz
    · exact absurd rfl hz'
  | a :: b :: d :: z, _, _, _ => simp [holdsAt, peek, Except.map]

theorem numberToken_eq : numberToken mode z s = hexadecimalAt z >>= fun b =>
    (if b = true then (skip isxdigit z 2).map (TokenType.integer, ·) else decimalEnd z) >>= fun r =>
      skip idChar z r.2 >>= fun j =>
        if j = r.2 then pure (s.token r.1 r.2)
        else
          match mode with
          | .parse => pure (s.token .illegal j)
          | .delimit => pure (s.token .rawString j) := by
  rw [numberToken]
  rcases hexadecimalAt z with e | b
  · rfl
  · cases b <;> rfl

theorem numberToken_append {text : List Char} (hc : c.isDigit ∨ c = '.')
    (h : numberToken mode (c :: text) s = .ok r) (hlit : r.IsLiteral) :
    numberToken mode (c :: text ++ ' ' :: t) s = .ok r ∧ r.inParamSpec = s.inParamSpec := by
  have hz : c :: text ≠ ['0', 'x'] := by
    intro hz
    rw [hz] at h
    cases mode <;> cases h <;> exact absurd (literal_of_token hlit) (by decide)
  have hz' : c :: text ≠ ['0', 'X'] := by
    intro hz'
    rw [hz'] at h
    cases mode <;> cases h <;> exact absurd (literal_of_token hlit) (by decide)
  rw [numberToken_eq] at h
  obtain ⟨b, hb, h⟩ := bind_ok h
  obtain ⟨⟨type, i⟩, hi, h⟩ := bind_ok h
  have hread : ((if b = true then (skip isxdigit (c :: text ++ ' ' :: t) 2).map
    (TokenType.integer, ·)
      else decimalEnd (c :: text ++ ' ' :: t)) = .ok (type, i)) ∧ i ≤ (c :: text).length := by
    cases b with
    | false =>
      obtain ⟨found, hfound, -, -, hle⟩ := (reads_decimalEnd hc).exists_ok id
      have hfound' : decimalEnd (c :: text) = .ok (type, i) := hi
      rw [hfound] at hfound'
      cases hfound'
      exact ⟨(decimalEnd_append (t := t)).trans hfound, hle⟩
    | true =>
      have hlt : 2 ≤ (c :: text).length := by
        obtain ⟨b0, -, hb⟩ := bind_ok hb
        cases b0 with
        | false => cases hb
        | true =>
          obtain ⟨b1, hb1, hb⟩ := bind_ok hb
          cases b1 with
          | false => cases hb
          | true => exact lt_of_holdsAt (by decide) hb1
      have hscan : Reads False _ (skip isxdigit (c :: text) 2) := reads_skip (by decide) hlt
      obtain ⟨j, hj, -, hle⟩ := hscan.exists_ok id
      have hi' : (skip isxdigit (c :: text) 2).map (TokenType.integer, ·) = .ok (type, i) := hi
      rw [hj] at hi'
      cases hi'
      refine ⟨?_, hle⟩
      rw [if_pos rfl, skip_append (by decide) (by decide) hlt, hj]
      rfl
  have hspec : r.inParamSpec = s.inParamSpec := by
    obtain ⟨j, -, h⟩ := bind_ok h
    by_cases hj : j = i
    · simp only [if_pos hj] at h
      cases h
      rfl
    · simp only [if_neg hj] at h
      cases mode <;> cases h <;> rfl
  refine ⟨?_, hspec⟩
  rw [numberToken_eq, hexadecimalAt_append hz hz', hb]
  show ((if b = true then (skip isxdigit (c :: text ++ ' ' :: t) 2).map (TokenType.integer, ·)
      else decimalEnd (c :: text ++ ' ' :: t)) >>= _) = _
  rw [hread.1]
  show (skip idChar (c :: text ++ ' ' :: t) i >>= _) = _
  rw [skip_append (by decide) (by decide) hread.2]
  exact h

end Readers

def NoLiteral (x : Except ScanFault Scanned) : Prop := ∀ s, x = .ok s → ¬ s.IsLiteral

section NoLiteral

variable {mode : GdaSqlParserMode} {flavour : GdaSqlParserFlavour} {delimiter c : Char}
  {z t : List Char} {s r : Scanned} {type : TokenType} {n : Nat} {p : Char → Bool}

theorem noLiteral_token {s' : Scanned} (htype : s'.tokenType = some type) (h : ¬ type.Literal) :
    NoLiteral (.ok s') := by
  rintro r hr ⟨type', ht, hlit⟩
  cases hr
  rw [htype] at ht
  cases ht
  exact h hlit

theorem noLiteral_none (hs : s.tokenType = none) : NoLiteral (.ok s) := by
  rintro r hr ⟨type, ht, -⟩
  cases hr
  rw [hs] at ht
  cases ht

theorem noLiteral_bind {α : Type} {x : Except ScanFault α} {f : α → Except ScanFault Scanned}
    (h : ∀ a, NoLiteral (f a)) : NoLiteral (x >>= f) := by
  intro r hr
  obtain ⟨a, -, hf⟩ := bind_ok hr
  exact h a r hf

theorem noLiteral_test {x : Except ScanFault Bool} {yes no : Except ScanFault Scanned}
    (hyes : NoLiteral yes) (hno : NoLiteral no) : NoLiteral (x >>= fun b => if b = true then
      yes else no) :=
  noLiteral_bind fun b => by cases b <;> assumption

theorem noLiteral_spaceToken : NoLiteral (spaceToken z s) :=
  noLiteral_bind fun _ => noLiteral_test (noLiteral_token rfl (by decide))
    (noLiteral_token rfl (by decide))

theorem noLiteral_minusToken : NoLiteral (minusToken z s) :=
  noLiteral_test (noLiteral_bind fun _ => noLiteral_token rfl (by decide))
    (noLiteral_token rfl (by decide))

theorem noLiteral_starToken : NoLiteral (starToken z s) :=
  noLiteral_test (noLiteral_token rfl (by decide)) (noLiteral_token rfl (by decide))

theorem noLiteral_slashToken (hs : s.tokenType = none) : NoLiteral (slashToken mode z s) := by
  cases mode with
  | parse => exact noLiteral_test (noLiteral_none hs) (noLiteral_token rfl (by decide))
  | delimit => exact noLiteral_test (noLiteral_token rfl (by decide)) (noLiteral_none hs)

theorem noLiteral_eqToken : NoLiteral (eqToken z s) :=
  noLiteral_test (noLiteral_token rfl (by decide)) (noLiteral_token rfl (by decide))

theorem noLiteral_ltToken : NoLiteral (ltToken z s) := by
  refine noLiteral_bind fun c => ?_
  split <;> exact noLiteral_token rfl (by decide)

theorem noLiteral_gtToken : NoLiteral (gtToken z s) := by
  refine noLiteral_bind fun c => ?_
  split <;> exact noLiteral_token rfl (by decide)

theorem noLiteral_bangToken (hs : s.tokenType = none) : NoLiteral (bangToken z s) := by
  refine noLiteral_bind fun c => ?_
  split
  · exact noLiteral_token rfl (by decide)
  · exact noLiteral_test (noLiteral_token rfl (by decide)) (noLiteral_token rfl (by decide))
  · exact noLiteral_none hs

theorem noLiteral_barToken : NoLiteral (barToken mode z s) := by
  cases mode with
  | parse =>
    exact noLiteral_test (noLiteral_token rfl (by decide)) (noLiteral_token rfl (by decide))
  | delimit => exact noLiteral_token rfl (by decide)

theorem noLiteral_tildeToken : NoLiteral (tildeToken flavour z s) := by
  refine noLiteral_test (noLiteral_token rfl (by decide)) ?_
  by_cases h : flavour = .postgresql
  · rw [if_pos h]
    exact noLiteral_token rfl (by decide)
  · rw [if_neg h]
    exact noLiteral_token rfl (by decide)

theorem noLiteral_simpleParamToken : NoLiteral (simpleParamToken p z s) :=
  noLiteral_bind fun _ => noLiteral_token rfl (by decide)

theorem noLiteral_questionToken (hs : s.tokenType = none) : NoLiteral (questionToken flavour z
    s) := by
  rw [questionToken]
  split
  · exact noLiteral_simpleParamToken
  · exact noLiteral_none hs

theorem noLiteral_sharpToken : NoLiteral (sharpToken flavour delimiter z s) := by
  refine noLiteral_test (noLiteral_bind fun i => ?_) ?_
  · by_cases h : 2 < i
    · rw [if_pos h]
      exact noLiteral_token rfl (by decide)
    · rw [if_neg h]
      exact noLiteral_token rfl (by decide)
  · by_cases h : flavour = .mysql
    · rw [if_pos h]
      exact noLiteral_bind fun _ => noLiteral_token rfl (by decide)
    · rw [if_neg h]
      exact noLiteral_token rfl (by decide)

theorem noLiteral_colonToken (hs : s.tokenType = none) : NoLiteral (colonToken flavour z s) := by
  refine noLiteral_test (noLiteral_token rfl (by decide)) ?_
  by_cases h : flavour = .sqlite
  · rw [if_pos h]
    exact noLiteral_simpleParamToken
  · rw [if_neg h]
    exact noLiteral_none hs

theorem noLiteral_blobToken (hs : s.tokenType = none) : NoLiteral (blobToken z s) := by
  refine noLiteral_bind fun delim => ?_
  split
  · refine noLiteral_bind fun i => noLiteral_bind fun c => ?_
    split
    · exact noLiteral_token rfl (by decide)
    · split <;> exact noLiteral_token rfl (by decide)
  · exact noLiteral_none hs

theorem switchToken_noLiteral (hs : s.tokenType = none) (hquote : c ≠ '\'') (hdouble : c ≠ '"')
    (hdollar : c ≠ '$') (hpoint : c ≠ '.') (hdigit : ¬ c.isDigit = true) :
    NoLiteral (switchToken mode flavour delimiter c z s) := by
  unfold switchToken
  split
  · exact noLiteral_spaceToken
  · exact noLiteral_spaceToken
  · exact noLiteral_spaceToken
  · exact noLiteral_spaceToken
  · exact noLiteral_spaceToken
  · exact noLiteral_minusToken
  · exact noLiteral_token rfl (by decide)
  · exact noLiteral_token rfl (by decide)
  · exact noLiteral_token rfl (by decide)
  · exact noLiteral_starToken
  · exact noLiteral_token rfl (by decide)
  · exact noLiteral_slashToken hs
  · exact noLiteral_eqToken
  · exact noLiteral_ltToken
  · exact noLiteral_gtToken
  · exact noLiteral_bangToken hs
  · exact noLiteral_barToken
  · exact noLiteral_token rfl (by decide)
  · exact noLiteral_token rfl (by decide)
  · exact noLiteral_tildeToken
  · exact absurd rfl hquote
  · exact absurd rfl hdouble
  · exact absurd rfl hpoint
  · exact noLiteral_questionToken hs
  · exact noLiteral_sharpToken
  · exact absurd rfl hdollar
  · exact noLiteral_colonToken hs
  · exact noLiteral_colonToken hs
  · exact noLiteral_blobToken hs
  · exact noLiteral_blobToken hs
  · rw [if_neg hdigit]
    exact noLiteral_none hs

theorem switchToken_digit (hdigit : c.isDigit = true) :
    switchToken mode flavour delimiter c z s = numberToken mode z s := by
  unfold switchToken
  split
  case h_31 => rw [if_pos hdigit]
  all_goals exact absurd hdigit (by decide)

theorem switchToken_append {text : List Char} (hs : s.tokenType = none)
    (h : switchToken mode flavour delimiter c (c :: text) s = .ok r) (hlit : r.IsLiteral)
    (hend : r.consumedChars ≤ (c :: text).length) :
    switchToken mode flavour delimiter c (c :: text ++ ' ' :: t) s = .ok r ∧
      r.inParamSpec = s.inParamSpec := by
  by_cases hquote : c = '\''
  · subst hquote
    exact quotedToken_append (by decide) h hlit
  by_cases hdouble : c = '"'
  · subst hdouble
    exact quotedToken_append (by decide) h hlit
  by_cases hdollar : c = '$'
  · subst hdollar
    cases flavour with
    | postgresql => exact dollarQuotedToken_append h hs (Nat.succ_pos _) hlit hend
    | sqlite => exact absurd hlit (noLiteral_simpleParamToken r h)
    | standard => exact absurd hlit (noLiteral_none hs r h)
    | mysql => exact absurd hlit (noLiteral_none hs r h)
    | oracle => exact absurd hlit (noLiteral_none hs r h)
  by_cases hpoint : c = '.'
  · subst hpoint
    cases mode with
    | delimit =>
      exact numberToken_append (Or.inr rfl)
        (show numberToken .delimit ('.' :: text) s = .ok r from h) hlit
    | parse =>
      obtain ⟨b, hb, h⟩ := bind_ok (show dotToken .parse ('.' :: text) s = .ok r from h)
      cases b with
      | false =>
        cases h
        exact absurd (literal_of_token hlit) (by decide)
      | true =>
        show dotToken .parse ('.' :: text ++ ' ' :: t) s = _ ∧ _
        rw [dotToken, holdsAt_append (by decide) (by decide) (Nat.succ_pos _), hb]
        exact numberToken_append (Or.inr rfl)
          (show numberToken .parse ('.' :: text) s = .ok r from h) hlit
  by_cases hdigit : c.isDigit = true
  · rw [switchToken_digit hdigit] at h ⊢
    exact numberToken_append (Or.inl hdigit) h hlit
  · exact absurd hlit (switchToken_noLiteral hs hquote hdouble hdollar hpoint hdigit r h)

theorem keywords_not_literal : ∀ entry ∈ keywords, ¬ entry.2.Literal := by decide

theorem keywordCode_not_literal {word : List Char} : ¬ (keywordCode mode flavour word).Literal := by
  rcases keywordCode_cases mode flavour word with h | h | h | h
  · exact keywords_not_literal _ h
  · exact keywords_not_literal _ h
  · rw [h]
    decide
  · rw [h]
    decide

theorem untreatedToken_not_literal (hs : s.tokenType = none)
    (h : untreatedToken mode flavour delimiter c z s = .ok (.token r)) : ¬ r.IsLiteral := by
  have hraw : ∀ {x : Except ScanFault Lexeme}, x = propertyOrRawString delimiter z s →
      x = .ok (.token r) → ¬ r.IsLiteral := by
    rintro x rfl hx hlit
    rw [propertyOrRawString] at hx
    split at hx
    · cases hx
    · obtain ⟨i, -, hi⟩ := bind_ok hx
      cases hi
      exact absurd (literal_of_token hlit) (by decide)
  rw [untreatedToken.eq_def] at h
  split at h
  · exact hraw rfl h
  split at h
  · obtain ⟨i, -, h⟩ := bind_ok h
    simp only at h
    split at h
    · exact hraw rfl h
    · intro hlit
      cases h
      exact absurd (literal_of_token hlit) keywordCode_not_literal
  · cases mode with
    | parse =>
      cases h
      exact noLiteral_none hs _ rfl
    | delimit => exact hraw rfl h

theorem readLexeme_starts {text : List Char}
    (h : readLexeme mode flavour delimiter false c (c :: text) = .ok (.token r))
    (hlit : r.IsLiteral) :
    c ≠ ';' := by
  rintro rfl
  obtain ⟨s, hs, h⟩ := bind_ok h
  cases htype : s.tokenType with
  | none =>
    simp only [htype] at h
    exact untreatedToken_not_literal htype h hlit
  | some type =>
    simp only [htype] at h
    cases h
    exact switchToken_noLiteral rfl (by decide) (by decide) (by decide) (by decide) (by decide) r
      hs hlit

theorem readLexeme_append {text : List Char}
    (h : readLexeme mode flavour delimiter false c (c :: text) = .ok (.token r))
    (hlit : r.IsLiteral)
    (hend : r.consumedChars = (c :: text).length) :
    readLexeme mode flavour delimiter false c (c :: text ++ ' ' :: t) = .ok (.token r) ∧
      r.inParamSpec = false := by
  obtain ⟨s, hs, h⟩ := bind_ok h
  cases htype : s.tokenType with
  | none =>
    simp only [htype] at h
    exact absurd hlit (untreatedToken_not_literal htype h)
  | some type =>
    simp only [htype] at h
    cases h
    obtain ⟨hread, hspec⟩ := switchToken_append (t := t) rfl hs hlit (Nat.le_of_eq hend)
    exact ⟨readLexeme_of_switch hread htype, hspec⟩

end NoLiteral

end LibGda
