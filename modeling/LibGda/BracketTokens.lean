import LibGda.LiteralTokens
import LibGda.StatementParsing

/-! The tokens of a parameter: its default, then the properties between brackets. -/

namespace LibGda

open TerminatedBuffer RunInvariant GdaSqlParser

namespace GdaSqlParser

variable {parser : GdaSqlParser} {c : Char} {text : List Char} {r : Scanned} {type : TokenType}
  {n fuel : Nat} {passed : List TokenType} {value : TokenValue}

theorem getTokenWithFuel_token (hrest : parser.rest = c :: text) (hc : c ≠ parser.context.delimiter)
    (hlex : readLexeme parser.mode parser.flavour parser.context.delimiter
      parser.context.inParamSpec c (c :: text) = .ok (.token r))
    (htype : r.tokenType = some type) (hplain : compositions type = []) :
    getTokenWithFuel (fuel + 1) parser =
      .ok (parser.tokEnd type r.consumedChars r.inParamSpec,
        some (r.retval.getD ((c :: text).take r.consumedChars))) := by
  rw [getTokenWithFuel]
  simp only [hrest, if_neg hc, hlex]
  show tryCompositions (getTokenWithFuel fuel) (compositions (r.tokenType.getD .illegal))
    (parser.tokEnd (r.tokenType.getD .illegal) r.consumedChars r.inParamSpec)
    (some (r.retval.getD ((c :: text).take r.consumedChars))) = _
  rw [htype, Option.getD_some, hplain]
  rfl

theorem getTokenWithFuel_property (hrest : parser.rest = c :: text)
    (hc : c ≠ parser.context.delimiter)
    (hlex : readLexeme parser.mode parser.flavour parser.context.delimiter
      parser.context.inParamSpec c (c :: text) = .ok (.paramProperty n type)) :
    getTokenWithFuel (fuel + 1) parser =
      (getTokenWithFuel fuel (parser.skipPrefix n)).map fun q =>
        (q.1.tokEnd type 0 q.1.context.inParamSpec, some (q.2.getD [])) := by
  rw [getTokenWithFuel]
  simp only [hrest, if_neg hc, hlex]
  show (getTokenWithFuel fuel (parser.skipPrefix n) >>= fun q =>
    pure (q.1.tokEnd type 0 q.1.context.inParamSpec, some (q.2.getD []))) = _
  rcases getTokenWithFuel fuel (parser.skipPrefix n) with e | q <;> rfl

def bracketTypes : List TokenType :=
  [.unspecVal, .string, .textual, .integer, .float, .lsBracket, .rsBracket, .pName, .pType, .pDescr,
   .pNullOk, .endOfFile]

theorem bracketTypes_quiet : ∀ type ∈ bracketTypes, type ≠ .illegal ∧ type ≠ .sqlComment ∧
    type ≠ .space ∧ type ≠ .begin ∧ type ≠ .loop ∧ type ≠ .end ∧ type ≠ .endLoop ∧
      type ≠ .declare ∧ type ≠ .as ∧ type ≠ .is ∧ type ≠ .delimiter := by decide

theorem bracketTypes_plain : ∀ type ∈ bracketTypes, compositions type = [] := by decide

theorem trackBlocks_bracket (htype : parser.context.tokenType ∈ bracketTypes) :
    parser.trackBlocks passed value = .ok parser := by
  have hopens : parser.opensBegin passed value = false := by
    have hne := (bracketTypes_quiet _ htype).2.2.2.1
    simp [opensBegin, hne]
  generalize ht : parser.context.tokenType = type at htype
  unfold trackBlocks
  simp only [hopens, Bool.false_eq_true, if_false, ht]
  simp only [bracketTypes, List.mem_cons, List.not_mem_nil, or_false] at htype
  rcases htype with rfl | rfl | rfl | rfl | rfl | rfl | rfl | rfl | rfl | rfl | rfl | rfl <;> rfl

theorem passes_bracket (htype : parser.context.tokenType ∈ bracketTypes) : parser.passes =
    true := by
  generalize ht : parser.context.tokenType = type at htype
  rw [passes, ht]
  simp only [bracketTypes, List.mem_cons, List.not_mem_nil, or_false] at htype
  rcases htype with rfl | rfl | rfl | rfl | rfl | rfl | rfl | rfl | rfl | rfl | rfl | rfl <;> rfl

end GdaSqlParser

namespace StatementTokens

variable {s : StatementTokens} {parser : GdaSqlParser} {value : TokenValue}

theorem nextToken_bracket (hread : s.parser.getToken = .ok (parser, value))
    (htype : parser.context.tokenType ∈ bracketTypes) :
    s.nextToken = .ok
      ({ parser := parser
         passedTokens := s.passedTokens ++ [parser.context.tokenType]
         ended := endsStatement parser.context.tokenType }, value) := by
  rw [nextToken, hread]
  show (if parser.passes = true then _ else _) = _
  rw [if_pos (passes_bracket htype)]
  cases hmode : parser.mode with
  | parse => rfl
  | delimit =>
    simp only [trackBlocks_bracket htype]
    rfl

theorem nextToken_space (hread : s.parser.getToken = .ok (parser, value))
    (htype : parser.context.tokenType = .space) (hspec : parser.context.inParamSpec = true) :
    s.nextToken = .ok ({ s with parser := parser, ended := false }, value) := by
  have hpasses : ¬ parser.passes = true := by
    rw [passes, htype]
    simp [hspec]
  rw [nextToken, hread]
  show (if parser.passes = true then _ else _) = _
  rw [if_neg hpasses]
  show Except.ok _ = _
  rw [htype]
  rfl

end StatementTokens

section Lexemes

variable {mode : GdaSqlParserMode} {flavour : GdaSqlParserFlavour} {t text : List Char} {d : Char}

theorem readLexeme_treated {c : Char} {z : List Char} {spec : Bool} {r : Scanned} {type : TokenType}
    (h : switchToken mode flavour ';' c z (Scanned.start spec) = .ok r)
    (htype : r.tokenType = some type) : readLexeme mode flavour ';' spec c z = .ok (.token r) :=
  readLexeme_of_switch h htype

theorem readLexeme_unspecified :
    readLexeme mode flavour ';' false '#' ("##".toList ++ ' ' :: t) =
      .ok (.token ((Scanned.start false).token .unspecVal 2)) := by
  have hsharp : sharpToken flavour ';' ("##".toList ++ ' ' :: t) (Scanned.start false) =
      .ok ((Scanned.start false).token .unspecVal 2) := by
    have h1 : holdsAt (· == '#') "##".toList 1 = .ok true := rfl
    have h2 : skip (paramChar ';') "##".toList 2 = .ok 2 := rfl
    rw [sharpToken, holdsAt_append (by decide) (by decide) (by decide), h1,
      skip_append (by decide) (by decide) (by decide), h2]
    rfl
  exact readLexeme_treated hsharp (show _ = some TokenType.unspecVal from rfl)

theorem readLexeme_opens :
    readLexeme mode flavour ';' false ' ' (' ' :: '/' :: '*' :: t) =
      .ok (.token { (Scanned.start false).token .lsBracket 3 with inParamSpec := true }) := by
  have hspace := @spaceToken_eq ('/' :: '*' :: t) (Scanned.start false) ' ' [] nofun
    (by rintro d hd; cases hd; decide)
  have hopens : ['/', '*'] <+: '/' :: '*' :: t := ⟨t, rfl⟩
  rw [if_pos hopens] at hspace
  exact readLexeme_treated hspace rfl

theorem readLexeme_between (hd : isspace d = false) (hopens : d ≠ '/') :
    readLexeme mode flavour ';' true ' ' (' ' :: d :: t) =
      .ok (.token ((Scanned.start true).token .space 1)) := by
  have hspace := @spaceToken_eq (d :: t) (Scanned.start true) ' ' [] nofun
    (by rintro e he; cases he; exact hd)
  have hno : ¬ ['/', '*'] <+: d :: t := fun h => hopens (List.cons_prefix_cons.1 h).1.symm
  rw [if_neg hno] at hspace
  exact readLexeme_treated hspace rfl

theorem readLexeme_closes :
    readLexeme mode flavour ';' true '*' ['*', '/'] =
      .ok (.token { (Scanned.start true).token .rsBracket 2 with inParamSpec := false }) := by
  cases mode <;> cases flavour <;> rfl

def ReadsValue (value : List Char) : Prop :=
  ∀ (mode : GdaSqlParserMode) (flavour : GdaSqlParserFlavour) (t : List Char),
    ∃ c text r type, value = c :: text ∧ c ≠ ';' ∧
      readLexeme mode flavour ';' true c (c :: text ++ ' ' :: t) = .ok (.token r) ∧
        r.tokenType = some type ∧ compositions type = [] ∧ r.retval = none ∧
          r.consumedChars = value.length ∧ r.inParamSpec = true

theorem readsValue_forceQuotes (h : '\\' ∉ text) : ReadsValue (forceQuotes text) := by
  intro mode flavour t
  have hne : '"' ≠ '\\' := by decide
  have hafter : (' ' :: t).head? ≠ some '"' := by simp
  have hclosed := closingQuote_closed hne (doubledQuotes_body h) hafter 1
  have hlen : 1 + (doubledQuotes text).length + 1 = (forceQuotes text).length := by
    rw [forceQuotes_eq, List.length_cons, List.length_append, Nat.add_comm 1]
    rfl
  have hquoted : quotedToken '"' (forceQuotes text ++ ' ' :: t) (Scanned.start true) =
      .ok ((Scanned.start true).token .textual (forceQuotes text).length) := by
    rw [forceQuotes_eq, quotedToken]
    simp only [List.cons_append, List.append_assoc, List.nil_append, List.drop_succ_cons,
      List.drop_zero]
    rw [hclosed]
    show Except.ok ((Scanned.start true).token .textual _) = _
    rw [hlen, forceQuotes_eq]
  exact ⟨'"', doubledQuotes text ++ ['"'], _, .textual, rfl, by decide,
    readLexeme_treated hquoted rfl, rfl, rfl, rfl, rfl, rfl⟩

theorem readsValue_true : ReadsValue "true".toList := by
  intro mode flavour t
  have hraw : propertyOrRawString ';' ("true".toList ++ ' ' :: t) (Scanned.start true) =
      .ok (.token ((Scanned.start true).token .rawString 4)) := by
    have hfind : paramProperties.find? (fun property =>
        property.1.toList.isPrefixOf ("true".toList ++ ' ' :: t)) = none := rfl
    have h4 : skip (rawChar ';') "true".toList 1 = .ok 4 := rfl
    rw [propertyOrRawString, hfind]
    show (skip (rawChar ';') ("true".toList ++ ' ' :: t) 1 >>= _) = _
    rw [skip_append (by decide) (by decide) (by decide), h4]
    rfl
  refine ⟨'t', "rue".toList, (Scanned.start true).token .rawString 4, .rawString, rfl,
    by decide, ?_,
    rfl, rfl, rfl, rfl, rfl⟩
  rw [readLexeme, switchToken_letter (by decide)]
  exact hraw

end Lexemes

section Reaching

variable {G Stmt : Type} {lemon : LemonParser G Stmt}

structure At (mode : GdaSqlParserMode) (flavour : GdaSqlParserFlavour) (s : ParseState G)
    (z : List Char) (inParamSpec : Bool) (passed : List TokenType) (g : G) : Prop where
  mode : s.tokens.parser.mode = mode
  flavour : s.tokens.parser.flavour = flavour
  delimiter : s.tokens.parser.context.delimiter = ';'
  inParamSpec : s.tokens.parser.context.inParamSpec = inParamSpec
  rest : s.tokens.parser.rest = z
  passed : s.tokens.passedTokens = passed
  grammar : s.grammar = g
  error : s.error = none

def Reaches (lemon : LemonParser G Stmt) (s s' : ParseState G) : Prop :=
  ∀ fuel, s.tokens.parser.rest.length < fuel → ∃ fuel', s'.tokens.parser.rest.length < fuel' ∧
    ParseState.parseTokens lemon fuel s = ParseState.parseTokens lemon fuel' s'

theorem Reaches.refl (s : ParseState G) : Reaches lemon s s := fun fuel h => ⟨fuel, h, rfl⟩

theorem Reaches.trans {s s' s'' : ParseState G} (h : Reaches lemon s s')
    (h' : Reaches lemon s' s'') :
    Reaches lemon s s'' := by
  intro fuel hfuel
  obtain ⟨fuel', hfuel', heq⟩ := h fuel hfuel
  obtain ⟨fuel'', hfuel'', heq'⟩ := h' fuel' hfuel'
  exact ⟨fuel'', hfuel'', heq.trans heq'⟩

variable {mode : GdaSqlParserMode} {flavour : GdaSqlParserFlavour} {s : ParseState G} {c d : Char}
  {text z t : List Char} {inParamSpec : Bool} {passed : List TokenType} {g : G} {r : Scanned}
  {type : TokenType}

theorem rest_tokEnd_drop (parser : GdaSqlParser) (type : TokenType) (n : Nat) (b : Bool) :
    (parser.tokEnd type n b).rest = parser.rest.drop n := by
  show parser.sql.1.drop (parser.context.nextTokenStart + n) = (parser.sql.1.drop _).drop n
  rw [List.drop_drop]

theorem getToken_succ {parser : GdaSqlParser} (h : parser.rest = c :: text) :
    ∃ fuel, parser.getToken = getTokenWithFuel (fuel + 2) parser := by
  have hlen : 1 ≤ parser.sql.1.length := by
    have hdrop : (parser.sql.1.drop parser.context.nextTokenStart).length = (c :: text).length :=
      congrArg List.length h
    rw [List.length_drop, List.length_cons] at hdrop
    omega
  refine ⟨parser.sql.1.length - 1, ?_⟩
  rw [getToken]
  congr 1
  omega

theorem At.turn (h : At mode flavour s z inParamSpec passed g) {parser : GdaSqlParser}
    {value : TokenValue} (hread : s.tokens.parser.getToken = .ok (parser, value))
    (htype : parser.context.tokenType = type) (hbracket : type ∈ bracketTypes)
    (heof : type ≠ .endOfFile) (hcallback : lemon.callback (lemon.push g type value) = none)
    (fuel : Nat) :
    ParseState.parseTokens lemon (fuel + 1) s = ParseState.parseTokens lemon fuel
      { tokens := { parser := parser, passedTokens := passed ++ [type], ended := false }
        grammar := lemon.push g type value
        error := none } := by
  have hnext := StatementTokens.nextToken_bracket hread (htype ▸ hbracket)
  have hquiet := bracketTypes_quiet type hbracket
  have hended : StatementTokens.endsStatement type = false := by
    have hsemi : type ≠ .semi := by
      rintro rfl
      exact absurd hbracket (by decide)
    simp [StatementTokens.endsStatement, hquiet.1, heof, hsemi]
  rw [ParseState.parseTokens_succ, hnext]
  show (if parser.context.tokenType = .illegal then _ else _) = _
  rw [if_neg (htype ▸ hquiet.1), htype, hended]
  have hpass : ParseState.pass lemon s
      { parser := parser, passedTokens := s.tokens.passedTokens ++ [type], ended := false } value =
      { tokens := { parser := parser, passedTokens := passed ++ [type], ended := false }
        grammar := lemon.push g type value
        error := none } := by
    rw [ParseState.pass, if_pos (passes_bracket (htype ▸ hbracket)), ParseState.noteCallback]
    simp only [htype, h.grammar, h.passed, h.error, hcallback]
  simp only [hpass]
  rfl

theorem At.reaches (lemon : LemonParser G Stmt) (h : At mode flavour s (c :: text) inParamSpec
    passed g) (hc : c ≠ ';')
    (hlex : readLexeme mode flavour ';' inParamSpec c (c :: text) = .ok (.token r))
    (htype : r.tokenType = some type) (hbracket : type ∈ bracketTypes)
    (heof : type ≠ .endOfFile) (hpos : 0 < r.consumedChars)
    (hcallback : lemon.callback
      (lemon.push g type (some (r.retval.getD ((c :: text).take r.consumedChars)))) = none) :
    ∃ s', Reaches lemon s s' ∧
      At mode flavour s' ((c :: text).drop r.consumedChars) r.inParamSpec (passed ++ [type])
        (lemon.push g type (some (r.retval.getD ((c :: text).take r.consumedChars)))) := by
  obtain ⟨n, hfuel⟩ := getToken_succ h.rest
  have hplain := bracketTypes_plain type hbracket
  have hread : s.tokens.parser.getToken =
    .ok (s.tokens.parser.tokEnd type r.consumedChars r.inParamSpec,
      some (r.retval.getD ((c :: text).take r.consumedChars))) := by
    rw [hfuel]
    refine getTokenWithFuel_token h.rest (by rw [h.delimiter]; exact hc) ?_ htype hplain
    rw [h.mode, h.flavour, h.delimiter, h.inParamSpec]
    exact hlex
  refine ⟨{ tokens :=
              { parser := s.tokens.parser.tokEnd type r.consumedChars r.inParamSpec
                passedTokens := passed ++ [type]
                ended := false }
            grammar := lemon.push g type (some (r.retval.getD ((c :: text).take r.consumedChars)))
            error := none }, ?_, ⟨h.mode, h.flavour, h.delimiter, rfl, ?_, rfl, rfl, rfl⟩⟩
  · intro fuel hfuel
    obtain ⟨fuel, rfl⟩ : ∃ m, fuel = m + 1 := ⟨fuel - 1, by omega⟩
    refine ⟨fuel, ?_, h.turn hread rfl hbracket heof hcallback fuel⟩
    show (s.tokens.parser.tokEnd type r.consumedChars r.inParamSpec).rest.length < fuel
    rw [rest_tokEnd_drop, List.length_drop]
    rw [h.rest, List.length_cons] at hfuel ⊢
    omega
  · show (s.tokens.parser.tokEnd type r.consumedChars r.inParamSpec).rest = _
    rw [rest_tokEnd_drop, h.rest]

theorem At.reaches_space (h : At mode flavour s (' ' :: d :: t) true passed g)
    (hd : isspace d = false) (hopens : d ≠ '/') :
    ∃ s', Reaches lemon s s' ∧ At mode flavour s' (d :: t) true passed g := by
  obtain ⟨n, hfuel⟩ := getToken_succ h.rest
  have hread : s.tokens.parser.getToken = .ok (s.tokens.parser.tokEnd .space 1 true,
      some [' ']) := by
    rw [hfuel]
    refine @getTokenWithFuel_token _ _ _ ((Scanned.start true).token .space 1) .space _ h.rest
      (by rw [h.delimiter]; decide) ?_ rfl rfl
    rw [h.mode, h.flavour, h.delimiter, h.inParamSpec]
    exact readLexeme_between hd hopens
  have hnext := StatementTokens.nextToken_space hread rfl rfl
  refine ⟨{ s with tokens :=
            { s.tokens with parser := s.tokens.parser.tokEnd .space 1 true, ended := false } },
    ?_, ⟨h.mode, h.flavour, h.delimiter, rfl, ?_, h.passed, h.grammar, h.error⟩⟩
  · intro fuel hfuel
    obtain ⟨fuel, rfl⟩ : ∃ m, fuel = m + 1 := ⟨fuel - 1, by omega⟩
    refine ⟨fuel, ?_, ?_⟩
    · show (s.tokens.parser.tokEnd .space 1 true).rest.length < fuel
      rw [rest_tokEnd_drop, List.length_drop]
      rw [h.rest, List.length_cons] at hfuel ⊢
      omega
    · have hpasses : ¬ (s.tokens.parser.tokEnd .space 1 true).passes = true := by
        show ¬ (!true && s.tokens.parser.mode == .delimit) = true
        simp
      have hpass : ∀ value, ParseState.pass lemon s
          { s.tokens with parser := s.tokens.parser.tokEnd .space 1 true, ended := false } value =
          { s with tokens :=
            { s.tokens with parser := s.tokens.parser.tokEnd .space 1 true, ended := false } } := by
        intro value
        rw [ParseState.pass, if_neg hpasses]
      rw [ParseState.parseTokens_succ, hnext]
      simp only [bind, Except.bind, hpass, h.error]
      rfl
  · show (s.tokens.parser.tokEnd .space 1 true).rest = _
    rw [rest_tokEnd_drop, h.rest]
    rfl

end Reaching

end LibGda
