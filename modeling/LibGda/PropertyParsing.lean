import LibGda.BracketTokens

/-! The properties of a parameter, from the tokens between the brackets to the specification. -/

namespace LibGda

open TerminatedBuffer RunInvariant GdaSqlParser

abbrev PropertyText := (String × TokenType) × List Char

def propertiesText (properties : List PropertyText) : List Char :=
  properties.flatMap fun p => ' ' :: (p.1.1.toList ++ p.2)

theorem propertiesText_starts (properties : List PropertyText) (t : List Char) :
    ∃ t', propertiesText properties ++ ' ' :: t = ' ' :: t' := by
  cases properties with
  | nil => exact ⟨t, rfl⟩
  | cons p properties => exact ⟨_, rfl⟩

theorem paramProperties_starts {property : String × TokenType} (h : property ∈ paramProperties) :
    ∃ c word, property.1.toList = c :: word ∧ isspace c = false ∧ c ≠ '/' ∧ c ≠ ';' ∧
      property.2 ∈ [TokenType.pName, .pType, .pDescr, .pNullOk] := by
  simp only [paramProperties, List.mem_cons, List.not_mem_nil, or_false] at h
  rcases h with rfl | rfl | rfl | rfl
  · exact ⟨'n', "ame:".toList, rfl, by decide⟩
  · exact ⟨'t', "ype:".toList, rfl, by decide⟩
  · exact ⟨'d', "escr:".toList, rfl, by decide⟩
  · exact ⟨'n', "ullok:".toList, rfl, by decide⟩

section Steps

variable {G Stmt : Type} {lemon : LemonParser G Stmt} {mode : GdaSqlParserMode}
  {flavour : GdaSqlParserFlavour} {s s' : ParseState G} {c : Char} {text t value : List Char}
  {passed : List TokenType} {g : G} {property : String × TokenType}

theorem rest_skipPrefix_drop (parser : GdaSqlParser) (n : Nat) :
    (parser.skipPrefix n).rest = parser.rest.drop n := by
  show parser.sql.1.drop (parser.context.nextTokenStart + n) = (parser.sql.1.drop _).drop n
  rw [List.drop_drop]

theorem getToken_property {parser : GdaSqlParser} (hmem : property ∈ paramProperties)
    (hdelimiter : parser.context.delimiter = ';') (hspec : parser.context.inParamSpec = true)
    (hrest : parser.rest = property.1.toList ++ text) :
    ∃ fuel, parser.getToken =
      (getTokenWithFuel (fuel + 1) (parser.skipPrefix property.1.length)).map fun q =>
        (q.1.tokEnd property.2 0 q.1.context.inParamSpec, some (q.2.getD [])) := by
  obtain ⟨c, word, hname, -, -, hc, -⟩ := paramProperties_starts hmem
  have hcons : parser.rest = c :: (word ++ text) := by
    rw [hrest, hname]
    rfl
  obtain ⟨n, hfuel⟩ := getToken_succ hcons
  refine ⟨n, ?_⟩
  rw [hfuel]
  refine getTokenWithFuel_property hcons (by rw [hdelimiter]; exact hc) ?_
  exact readLexeme_named (Or.inr hspec) hmem (hcons.symm.trans hrest)

theorem getToken_propertyValue {parser : GdaSqlParser} (hmem : property ∈ paramProperties)
    (hvalue : ReadsValue value) (hdelimiter : parser.context.delimiter = ';')
    (hspec : parser.context.inParamSpec = true)
    (hrest : parser.rest = property.1.toList ++ (value ++ ' ' :: t)) :
    ∃ p, parser.getToken = .ok (p, some value) ∧ p.mode = parser.mode ∧ p.flavour = parser.flavour ∧
      p.context.delimiter = ';' ∧ p.context.inParamSpec = true ∧ p.context.tokenType = property.2 ∧
        p.rest = ' ' :: t := by
  obtain ⟨n, hread⟩ := getToken_property hmem hdelimiter hspec hrest
  obtain ⟨c, text, r, type, rfl, hc, hlex, htype, hplain, hretval, hlen, hout⟩ :=
    hvalue parser.mode parser.flavour t
  have hskip : (parser.skipPrefix property.1.length).rest = c :: (text ++ ' ' :: t) := by
    rw [rest_skipPrefix_drop, hrest, ← String.length_toList, List.drop_left]
    rfl
  have htoken : getTokenWithFuel (n + 1) (parser.skipPrefix property.1.length) = .ok
      ((parser.skipPrefix property.1.length).tokEnd type r.consumedChars r.inParamSpec,
        some (r.retval.getD ((c :: (text ++ ' ' :: t)).take r.consumedChars))) := by
    have hc' : c ≠ parser.context.delimiter := by
      rw [hdelimiter]
      exact hc
    refine getTokenWithFuel_token hskip hc' ?_ htype hplain
    show readLexeme parser.mode parser.flavour parser.context.delimiter parser.context.inParamSpec
      _ _ = _
    rw [hdelimiter, hspec]
    exact hlex
  have htake : r.retval.getD ((c :: (text ++ ' ' :: t)).take r.consumedChars) = c :: text := by
    rw [hretval, hlen, ← List.cons_append]
    exact List.take_left
  rw [htoken] at hread
  refine ⟨((parser.skipPrefix property.1.length).tokEnd type r.consumedChars r.inParamSpec).tokEnd
    property.2 0 r.inParamSpec, hread.trans ?_, rfl, rfl, hdelimiter, hout, rfl, ?_⟩
  · rw [htake]
    rfl
  · rw [rest_tokEnd_drop, rest_tokEnd_drop, hskip, hlen, ← List.cons_append, List.drop_left,
      List.drop_zero]

theorem At.reaches_property
    (h : At mode flavour s (' ' :: (property.1.toList ++ (value ++ ' ' :: t))) true passed g)
    (hmem : property ∈ paramProperties) (hvalue : ReadsValue value)
    (hcallback : lemon.callback (lemon.push g property.2 (some value)) = none) :
    ∃ s', Reaches lemon s s' ∧
      At mode flavour s' (' ' :: t) true (passed ++ [property.2])
        (lemon.push g property.2 (some value)) := by
  obtain ⟨c, word, hname, hspace, hopens, hc, htypes⟩ := paramProperties_starts hmem
  rw [hname] at h
  obtain ⟨s1, hreach, h1⟩ := @At.reaches_space G Stmt lemon _ _ _ _ _ _ _ h hspace hopens
  have hrest : s1.tokens.parser.rest = property.1.toList ++ (value ++ ' ' :: t) := by
    rw [h1.rest, hname]
    rfl
  obtain ⟨p, hread, hmode, hflavour, hdelimiter, hspec, htype, hafter⟩ :=
    getToken_propertyValue hmem hvalue h1.delimiter h1.inParamSpec hrest
  have hbracket : property.2 ∈ bracketTypes ∧ property.2 ≠ .endOfFile := by
    revert htypes
    generalize property.2 = type
    revert type
    decide
  refine ⟨{ tokens := { parser := p, passedTokens := passed ++ [property.2], ended := false }
            grammar := lemon.push g property.2 (some value)
            error := none }, hreach.trans ?_,
    ⟨hmode.trans h1.mode, hflavour.trans h1.flavour, hdelimiter, hspec, hafter, rfl, rfl, rfl⟩⟩
  intro fuel hfuel
  obtain ⟨fuel, rfl⟩ : ∃ m, fuel = m + 1 := ⟨fuel - 1, by omega⟩
  refine ⟨fuel, ?_, h1.turn hread htype hbracket.1 hbracket.2 hcallback fuel⟩
  show p.rest.length < fuel
  rw [hafter, List.length_cons]
  rw [hrest, hname] at hfuel
  simp only [List.length_append, List.length_cons] at hfuel
  omega

theorem At.parse_ends (lemon : LemonParser G Stmt) (h : At mode flavour s [] false passed g)
    (fuel : Nat) :
    ∃ s', ParseState.parseTokens lemon (fuel + 1) s = .ok s' ∧
      s'.tokens.passedTokens = passed ++ [.endOfFile] ∧ s'.grammar = lemon.push g .endOfFile
        none := by
  have hread : s.tokens.parser.getToken = .ok (s.tokens.parser.tokEnd .endOfFile 0
      s.tokens.parser.context.inParamSpec, none) := by
    rw [getToken, getTokenWithFuel]
    simp only [h.rest]
  have hnext := StatementTokens.nextToken_bracket hread (by show TokenType.endOfFile ∈ _; decide)
  refine ⟨ParseState.pass lemon s
    { parser := s.tokens.parser.tokEnd .endOfFile 0 s.tokens.parser.context.inParamSpec
      passedTokens := s.tokens.passedTokens ++ [.endOfFile]
      ended := true } none, ?_, ?_, ?_⟩
  · rw [ParseState.parseTokens_succ, hnext]
    rfl
  · rw [ParseState.pass_tokens]
    show s.tokens.passedTokens ++ [TokenType.endOfFile] = _
    rw [h.passed]
  · rw [ParseState.pass, if_pos (passes_bracket (by show TokenType.endOfFile ∈ _; decide)),
      ParseState.noteCallback_grammar]
    show lemon.push s.grammar .endOfFile none = _
    rw [h.grammar]

end Steps

namespace Delimiter

variable {T : Type} {types : GTypes T} {g : Stack T} {b : Bracket T} {type : TokenType}
  {value : TokenValue} {spec : GdaSqlParamSpec T} {tokens : List (TokenType × TokenValue)}

def Bracket.specified (b : Bracket T) (spec : GdaSqlParamSpec T) : Bracket T :=
  { b with paramSpec := some spec }

def propertyTypes : List TokenType := [.pName, .pDescr, .pType, .pNullOk]

def takeProperty (types : GTypes T) (type : TokenType) (value : TokenValue)
    (spec : GdaSqlParamSpec T) : GdaSqlParamSpec T :=
  match type with
  | .pName => spec.takeName value
  | .pDescr => spec.takeDescr value
  | .pType => spec.takeType types value
  | _ => spec.takeNullok value

def takeProperties (types : GTypes T) (tokens : List (TokenType × TokenValue))
    (spec : GdaSqlParamSpec T) : GdaSqlParamSpec T :=
  tokens.foldl (fun spec t => takeProperty types t.1 t.2 spec) spec

theorem push_bracket (hpending : g.pending = .bracket b) :
    g.push types type value = g.pushProperty types b type value := by
  rw [Stack.push.eq_def, hpending]

theorem push_property (types : GTypes T) (value : TokenValue) (hpending : g.pending = .bracket b)
    (htype : type ∈ propertyTypes) :
    g.push types type value =
      { g with
        pending := .bracket
          (b.specified (takeProperty types type value (b.paramSpec.getD (.empty types)))) } := by
  rw [push_bracket hpending]
  simp only [propertyTypes, List.mem_cons, List.not_mem_nil, or_false] at htype
  rcases htype with rfl | rfl | rfl | rfl <;> rfl

theorem foldl_push_properties (hpending : g.pending = .bracket (b.specified spec))
    (htypes : ∀ t ∈ tokens, t.1 ∈ propertyTypes) :
    tokens.foldl (fun g t => g.push types t.1 t.2) g =
      { g with pending := .bracket (b.specified (takeProperties types tokens spec)) } := by
  induction tokens generalizing g spec with
  | nil =>
    obtain ⟨expressions, pending⟩ := g
    cases hpending
    rfl
  | cons t tokens ih =>
    have hpush := push_property types t.2 hpending (htypes t (List.mem_cons_self ..))
    rw [List.foldl_cons, hpush]
    exact ih rfl (fun t' ht' => htypes t' (List.mem_cons_of_mem _ ht'))

theorem parsedStatement_closed {S : Type} {v v' : TokenValue} (hexpr : g.expressions = [])
    (hpending : g.pending = .bracket (b.specified spec)) :
    (grammar types S).parsedStatement ((grammar types S).finish
      ((g.push types .rsBracket v).push types .endOfFile v')) =
        some (.unknown [{ value := b.value, paramSpec := some spec }]) := by
  obtain ⟨expressions, pending⟩ := g
  cases hexpr
  cases hpending
  rfl

theorem foldl_push_bracket (types : GTypes T) (hpending : g.pending = .bracket b)
    (hne : tokens ≠ [])
    (htypes : ∀ t ∈ tokens, t.1 ∈ propertyTypes) :
    tokens.foldl (fun g t => g.push types t.1 t.2) g =
      { g with
        pending := .bracket
          (b.specified (takeProperties types tokens (b.paramSpec.getD (.empty types)))) } := by
  obtain ⟨t, tokens, rfl⟩ := List.exists_cons_of_ne_nil hne
  rw [List.foldl_cons, push_property types t.2 hpending (htypes t (List.mem_cons_self ..))]
  exact foldl_push_properties rfl fun t' ht' => htypes t' (List.mem_cons_of_mem _ ht')

theorem takeProperties_name (h : ∀ t ∈ tokens, t.1 ≠ .pName) :
    (takeProperties types tokens spec).name = spec.name := by
  induction tokens generalizing spec with
  | nil => rfl
  | cons t tokens ih =>
    have hkeep : (takeProperty types t.1 t.2 spec).name = spec.name := by
      have ht := h t (List.mem_cons_self ..)
      unfold takeProperty
      split
      · exact absurd ‹_› ht
      · rfl
      · rfl
      · rfl
    exact (ih fun t' ht' => h t' (List.mem_cons_of_mem _ ht')).trans hkeep

theorem takeProperties_descr (h : ∀ t ∈ tokens, t.1 ≠ .pDescr) :
    (takeProperties types tokens spec).descr = spec.descr := by
  induction tokens generalizing spec with
  | nil => rfl
  | cons t tokens ih =>
    have hkeep : (takeProperty types t.1 t.2 spec).descr = spec.descr := by
      have ht := h t (List.mem_cons_self ..)
      unfold takeProperty
      split
      · rfl
      · exact absurd ‹_› ht
      · rfl
      · rfl
    exact (ih fun t' ht' => h t' (List.mem_cons_of_mem _ ht')).trans hkeep

end Delimiter

section Brackets

variable {T S : Type} {types : GTypes T} {mode : GdaSqlParserMode} {flavour : GdaSqlParserFlavour}
  {s s' : ParseState (Delimiter.Stack T)} {passed : List TokenType} {g : Delimiter.Stack T}
  {b : Delimiter.Bracket T} {spec : GdaSqlParamSpec T} {t x : List Char}
  {properties : List PropertyText} {property : String × TokenType}

theorem mem_propertyTypes (h : property ∈ paramProperties) :
    property.2 ∈ Delimiter.propertyTypes := by
  revert property
  decide

def propertyTokens (properties : List PropertyText) : List (TokenType × TokenValue) :=
  properties.map fun p => (p.1.2, some p.2)

theorem At.reaches_properties (types : GTypes T) (S : Type)
    (hproperties : ∀ p ∈ properties, p.1 ∈ paramProperties ∧ ReadsValue p.2)
    (h : At mode flavour s (propertiesText properties ++ ' ' :: t) true passed g)
    (hpending : g.pending = .bracket b) :
    ∃ s', Reaches (Delimiter.grammar types S) s s' ∧
      At mode flavour s' (' ' :: t) true (passed ++ properties.map fun p => p.1.2)
        ((propertyTokens properties).foldl (fun g t => g.push types t.1 t.2) g) := by
  induction properties generalizing s passed g b with
  | nil =>
    refine ⟨s, Reaches.refl s, ?_⟩
    rw [List.map_nil, List.append_nil]
    exact h
  | cons p properties ih =>
    obtain ⟨hmem, hvalue⟩ := hproperties p (List.mem_cons_self ..)
    obtain ⟨t', ht'⟩ := propertiesText_starts properties t
    have htext : propertiesText (p :: properties) ++ ' ' :: t =
        ' ' :: (p.1.1.toList ++ (p.2 ++ ' ' :: t')) := by
      rw [← ht', propertiesText, List.flatMap_cons]
      simp [propertiesText]
    rw [htext] at h
    have hpush := Delimiter.push_property types (some p.2) hpending (mem_propertyTypes hmem)
    have hcallback : (Delimiter.grammar types S).callback
        ((Delimiter.grammar types S).push g p.1.2 (some p.2)) = none := by
      show Delimiter.Stack.callback (g.push types p.1.2 (some p.2)) = none
      rw [hpush]
      rfl
    obtain ⟨s1, hreach, h1⟩ := h.reaches_property hmem hvalue hcallback
    rw [← ht'] at h1
    have hpending1 : (g.push types p.1.2 (some p.2)).pending = .bracket (b.specified
        (Delimiter.takeProperty types p.1.2 (some p.2) (b.paramSpec.getD (.empty types)))) := by
      rw [hpush]
    obtain ⟨s2, hreach', h2⟩ := ih (fun q hq => hproperties q (List.mem_cons_of_mem _ hq)) h1
      hpending1
    refine ⟨s2, hreach.trans hreach', ?_⟩
    rw [List.append_assoc] at h2
    exact h2

theorem At.parse_closed (types : GTypes T) (S : Type)
    (h : At mode flavour s " */".toList true passed g)
    (hexpr : g.expressions = []) (hpending : g.pending = .bracket (b.specified spec))
    (fuel : Nat) (hfuel : s.tokens.parser.rest.length < fuel) :
    ∃ s', ParseState.parseTokens (Delimiter.grammar types S) fuel s = .ok s' ∧
      s'.tokens.passedTokens = passed ++ [.rsBracket, .endOfFile] ∧
        (Delimiter.grammar types S).parsedStatement ((Delimiter.grammar types S).finish
          s'.grammar) =
          some (.unknown [{ value := b.value, paramSpec := some spec }]) := by
  obtain ⟨s1, hreach, h1⟩ := @At.reaches_space _ _ (Delimiter.grammar types S) _ _ _ _ _ _ _ h
    (by decide) (by decide)
  have hcallback : (Delimiter.grammar types S).callback
      ((Delimiter.grammar types S).push g .rsBracket (some ['*', '/'])) = none := by
    show Delimiter.Stack.callback (g.push types .rsBracket (some ['*', '/'])) = none
    rw [Delimiter.push_bracket hpending]
    rfl
  obtain ⟨s2, hreach', h2⟩ := h1.reaches (Delimiter.grammar types S) (by decide) readLexeme_closes
    (show _ = some TokenType.rsBracket from rfl) (by decide) (by decide) (by decide) hcallback
  obtain ⟨fuel1, hfuel1, heq1⟩ := hreach.trans hreach' fuel hfuel
  obtain ⟨fuel2, rfl⟩ : ∃ m, fuel1 = m + 1 := ⟨fuel1 - 1, by omega⟩
  obtain ⟨s3, hs3, hpassed, hgrammar⟩ := h2.parse_ends (Delimiter.grammar types S) fuel2
  refine ⟨s3, heq1.trans hs3, ?_, ?_⟩
  · rw [hpassed, List.append_assoc]
    rfl
  · rw [hgrammar]
    exact Delimiter.parsedStatement_closed hexpr hpending

end Brackets

section Opening

variable {T S : Type} {types : GTypes T} {mode : GdaSqlParserMode} {flavour : GdaSqlParserFlavour}
  {s : ParseState (Delimiter.Stack T)} {t text : List Char} {value : TokenValue}

def LiteralText (mode : GdaSqlParserMode) (flavour : GdaSqlParserFlavour) (text : List Char) :
    Prop :=
  ∃ c rest r type, text = c :: rest ∧
    readLexeme mode flavour ';' false c (c :: rest) = .ok (.token r) ∧
      r.tokenType = some type ∧ mode.Value type ∧ r.consumedChars = text.length ∧
        r.retval.getD text = text

theorem value_literal {type : TokenType} (h : mode.Value type) : type.Literal := by
  cases mode with
  | parse => rcases h with rfl | rfl | rfl <;> decide
  | delimit => exact h

theorem literal_bracket {type : TokenType} (h : type.Literal) :
    type ∈ bracketTypes ∧ type ≠ .endOfFile := by
  simp only [TokenType.Literal, List.mem_cons, List.not_mem_nil, or_false] at h
  rcases h with rfl | rfl | rfl | rfl <;> decide

def beforeBracket (T : Type) (value : TokenValue) : Delimiter.Stack T where
  expressions := []
  pending :=
    match value with
    | none => .unspecVal
    | some v => .value (some v)

def openBracket (T : Type) (value : TokenValue) : Delimiter.Stack T where
  expressions := []
  pending := .bracket { value := value, paramSpec := none }

theorem push_open (v : TokenValue) :
    (beforeBracket T value).push types .lsBracket v = openBracket T value := by
  cases value <;> rfl

theorem push_literal {type : TokenType} (h : type.Literal) :
    Delimiter.Stack.push types .start type value =
      { expressions := [], pending := .value value } := by
  simp only [TokenType.Literal, List.mem_cons, List.not_mem_nil, or_false] at h
  rcases h with rfl | rfl | rfl | rfl <;> rfl

theorem At.reaches_bracket (types : GTypes T) (S : Type)
    (hvalue : ∀ v, value = some v → LiteralText mode flavour v)
    (h : At mode flavour s (value.getD "##".toList ++ ' ' :: '/' :: '*' :: t) false []
      Delimiter.Stack.start) :
    ∃ s' type, Reaches (Delimiter.grammar types S) s s' ∧
      At mode flavour s' t true [type, .lsBracket] (openBracket T value) := by
  have hfirst : ∃ s1 type, Reaches (Delimiter.grammar types S) s s1 ∧
      At mode flavour s1 (' ' :: '/' :: '*' :: t) false [type] (beforeBracket T value) := by
    cases value with
    | none =>
      obtain ⟨s1, hreach, h1⟩ := h.reaches (Delimiter.grammar types S) (by decide)
        readLexeme_unspecified (show _ = some TokenType.unspecVal from rfl) (by decide) (by decide)
          (by decide) rfl
      exact ⟨s1, .unspecVal, hreach, h1⟩
    | some v =>
      obtain ⟨c, rest, r, type, rfl, hlex, htype, hval, hlen, hretval⟩ := hvalue v rfl
      have h0 : At mode flavour s (c :: (rest ++ ' ' :: '/' :: '*' :: t)) false []
        Delimiter.Stack.start := h
      have hlit : r.IsLiteral := ⟨type, htype, value_literal hval⟩
      obtain ⟨hlex', hspec⟩ := readLexeme_append (t := '/' :: '*' :: t) hlex hlit hlen
      have htake : r.retval.getD ((c :: rest ++ ' ' :: '/' :: '*' :: t).take r.consumedChars) =
          c :: rest := by
        rw [hlen, List.take_left]
        exact hretval
      have hpush : ∀ w, Delimiter.Stack.push types .start type w =
          { expressions := [], pending := .value w } := fun w => push_literal (value_literal hval)
      have hbracket := literal_bracket (value_literal hval)
      have hpos : 0 < r.consumedChars := by
        rw [hlen]
        exact Nat.succ_pos _
      have hcallback : (Delimiter.grammar types S).callback ((Delimiter.grammar types S).push
          Delimiter.Stack.start type
          (some (r.retval.getD ((c :: rest ++ ' ' :: '/' :: '*' :: t).take r.consumedChars)))) =
            none := by
        show Delimiter.Stack.callback (Delimiter.Stack.push types .start type _) = none
        rw [hpush]
        rfl
      obtain ⟨s1, hreach, h1⟩ := h0.reaches (Delimiter.grammar types S)
        (readLexeme_starts hlex hlit) hlex' htype hbracket.1 hbracket.2 hpos hcallback
      refine ⟨s1, type, hreach, ?_⟩
      have hdrop : (c :: (rest ++ ' ' :: '/' :: '*' :: t)).drop r.consumedChars =
        ' ' :: '/' :: '*' :: t := by
        rw [hlen, ← List.cons_append, List.drop_left]
      have hg : (Delimiter.grammar types S).push Delimiter.Stack.start type (some (r.retval.getD
          ((c :: (rest ++ ' ' :: '/' :: '*' :: t)).take r.consumedChars))) =
            beforeBracket T (some (c :: rest)) := by
        show Delimiter.Stack.push types .start type _ = _
        rw [hpush, ← List.cons_append, htake]
        rfl
      rw [hdrop, hspec, hg] at h1
      exact h1
  obtain ⟨s1, type, hreach, h1⟩ := hfirst
  have hcallback : ∀ v, (Delimiter.grammar types S).callback ((Delimiter.grammar types S).push
      (beforeBracket T value) .lsBracket v) = none := by
    intro v
    show Delimiter.Stack.callback ((beforeBracket T value).push types .lsBracket v) = none
    rw [push_open]
    rfl
  obtain ⟨s2, hreach', h2⟩ := h1.reaches (Delimiter.grammar types S) (by decide)
    readLexeme_opens (show _ = some TokenType.lsBracket from rfl) (by decide) (by decide)
      (by decide) (hcallback _)
  have hg : (Delimiter.grammar types S).push (beforeBracket T value) .lsBracket
      (some [' ', '/', '*']) = openBracket T value := push_open _
  exact ⟨s2, type, hreach.trans hreach', hg ▸ h2⟩

end Opening

section QuotedValue

variable {G Stmt : Type} {lemon : LemonParser G Stmt} {mode : GdaSqlParserMode}
  {flavour : GdaSqlParserFlavour} {s s' : ParseState G} {x r : List Char}
  {passed : List TokenType} {g : G} {property : String × TokenType}

theorem quotedValue_read {parser p : GdaSqlParser} {v : TokenValue} {n : Nat}
    (hrest : parser.rest = '"' :: (doubledQuotes x ++ '"' :: r))
    (hdelimiter : parser.context.delimiter = ';')
    (h : getTokenWithFuel (n + 1) parser = .ok (p, v)) :
    ∃ w, v = some w ∧ (removeQuotes w = x → '\\' ∉ x) := by
  have hd : '"' ≠ parser.context.delimiter := by
    rw [hdelimiter]
    decide
  have htoken : ∀ (type : TokenType) (k : Nat), compositions type = [] →
      quotedToken '"' ('"' :: (doubledQuotes x ++ '"' :: r))
        (Scanned.start parser.context.inParamSpec) =
        .ok ((Scanned.start parser.context.inParamSpec).token type k) →
      v = some (('"' :: (doubledQuotes x ++ '"' :: r)).take k) := by
    intro type k hplain hquoted
    have hlex : readLexeme parser.mode parser.flavour parser.context.delimiter
        parser.context.inParamSpec '"' ('"' :: (doubledQuotes x ++ '"' :: r)) =
          .ok (.token ((Scanned.start parser.context.inParamSpec).token type k)) := by
      rw [hdelimiter]
      exact readLexeme_treated hquoted rfl
    rw [getTokenWithFuel_token hrest hd hlex rfl hplain] at h
    cases h
    rfl
  rcases quoted_cases '"' (doubledQuotes x ++ '"' :: r) with ⟨body, rest, hb, hr, heq⟩ | hb |
    ⟨body, hb, heq⟩
  · have hquoted : quotedToken '"' ('"' :: (doubledQuotes x ++ '"' :: r))
        (Scanned.start parser.context.inParamSpec) =
          .ok ((Scanned.start parser.context.inParamSpec).token .textual
            (1 + body.length + 1)) := by
      rw [quotedToken, List.drop_succ_cons, List.drop_zero, heq,
        closingQuote_closed (by decide) hb hr 1]
      rfl
    have htake : ('"' :: (doubledQuotes x ++ '"' :: r)).take (1 + body.length + 1) =
        '"' :: (body ++ ['"']) := by
      have hlen : 1 + body.length + 1 = ('"' :: (body ++ ['"'])).length := by
        simp only [List.length_cons, List.length_append, List.length_nil]
        omega
      have hsplit : '"' :: (body ++ '"' :: rest) = '"' :: (body ++ ['"']) ++ rest := by
        simp
      rw [heq, hlen, hsplit, List.take_left]
    refine ⟨_, htoken _ _ rfl hquoted, ?_⟩
    rw [htake, removeQuotes_quoted]
    intro hx
    cases hbody : unquoted '"' body with
    | none =>
      rw [hbody] at hx
      cases hx
      exact List.not_mem_nil
    | some y =>
      rw [hbody] at hx
      obtain rfl : y = x := hx
      exact not_mem_of_unquoted (heq ▸ List.prefix_append body _) hbody
  · have hquoted : quotedToken '"' ('"' :: (doubledQuotes x ++ '"' :: r))
        (Scanned.start parser.context.inParamSpec) =
          .ok ((Scanned.start parser.context.inParamSpec).token .illegal 0) := by
      rw [quotedToken, List.drop_succ_cons, List.drop_zero, closingQuote_unterminated (by decide)
        hb 1]
      rfl
    refine ⟨_, htoken _ _ rfl hquoted, ?_⟩
    intro hx
    have hnil : x = [] := hx.symm
    rw [hnil]
    exact List.not_mem_nil
  · have herr : getTokenWithFuel (n + 1) parser = .error .beyondEnd := by
      rw [getTokenWithFuel]
      simp only [hrest, if_neg hd]
      have hlex : readLexeme parser.mode parser.flavour parser.context.delimiter
          parser.context.inParamSpec '"' ('"' :: (doubledQuotes x ++ '"' :: r)) =
            .error .beyondEnd := by
        have hquoted : quotedToken '"' ('"' :: (doubledQuotes x ++ '"' :: r))
            (Scanned.start parser.context.inParamSpec) = .error .beyondEnd := by
          rw [quotedToken, List.drop_succ_cons, List.drop_zero, heq,
            closingQuote_cut (by decide) hb]
          rfl
        show (quotedToken '"' _ _ >>= _) = _
        rw [hquoted]
        rfl
      rw [hlex]
      rfl
    rw [h] at herr
    cases herr

theorem At.parse_property
    (h : At mode flavour s (' ' :: (property.1.toList ++ (forceQuotes x ++ r))) true passed g)
    (hmem : property ∈ paramProperties) (fuel : Nat) (hfuel : s.tokens.parser.rest.length < fuel)
    (hparse : ParseState.parseTokens lemon fuel s = .ok s') :
    ∃ (w : List Char) (tokens : List (TokenType × TokenValue)), (removeQuotes w = x → '\\' ∉ x) ∧
      s'.tokens.passedTokens = passed ++ property.2 :: tokens.map Prod.fst ∧
        s'.grammar = tokens.foldl (fun g t => lemon.push g t.1 t.2)
          (lemon.push g property.2 (some w)) := by
  obtain ⟨c, word, hname, hspace, hopens, hc, htypes⟩ := paramProperties_starts hmem
  rw [hname] at h
  obtain ⟨s1, hreach, h1⟩ := @At.reaches_space G Stmt lemon _ _ _ _ _ _ _ h hspace hopens
  obtain ⟨fuel1, hfuel1, heq⟩ := hreach fuel hfuel
  rw [heq] at hparse
  have hrest : s1.tokens.parser.rest = property.1.toList ++ (forceQuotes x ++ r) := by
    rw [h1.rest, hname]
    rfl
  obtain ⟨n, hread⟩ := getToken_property hmem h1.delimiter h1.inParamSpec hrest
  have hwithin : s1.tokens.parser.context.nextTokenStart ≤ s1.tokens.parser.sql.1.length := by
    have hlen : (s1.tokens.parser.sql.1.drop s1.tokens.parser.context.nextTokenStart).length =
        (c :: (word ++ (forceQuotes x ++ r))).length := congrArg List.length h1.rest
    rw [List.length_drop, List.length_cons] at hlen
    omega
  obtain ⟨fuel2, rfl⟩ : ∃ m, fuel1 = m + 1 := ⟨fuel1 - 1, by omega⟩
  rw [ParseState.parseTokens_succ] at hparse
  obtain ⟨⟨next, value⟩, hnext, hparse⟩ := bind_ok hparse
  obtain ⟨⟨p, v⟩, hget, -⟩ := bind_ok hnext
  rw [hread] at hget
  obtain ⟨⟨p', v'⟩, htoken, hpv⟩ := map_ok hget
  have hskip : (s1.tokens.parser.skipPrefix property.1.length).rest =
      '"' :: (doubledQuotes x ++ '"' :: r) := by
    rw [rest_skipPrefix_drop, hrest, ← String.length_toList, List.drop_left, forceQuotes_eq]
    simp
  obtain ⟨w, rfl, hw⟩ := quotedValue_read hskip h1.delimiter htoken
  have hget' : s1.tokens.parser.getToken =
      .ok (p'.tokEnd property.2 0 p'.context.inParamSpec, some w) := by
    rw [hread, htoken]
    rfl
  have hbracket : property.2 ∈ bracketTypes := by
    have hall : ∀ type ∈ [TokenType.pName, .pType, .pDescr, .pNullOk],
      type ∈ bracketTypes := by decide
    exact hall _ htypes
  have hnext' := StatementTokens.nextToken_bracket hget' hbracket
  have hmoved := nextToken_moved hwithin hnext'
  rw [hnext'] at hnext
  cases hnext
  have hlegal : (p'.tokEnd property.2 0 p'.context.inParamSpec).context.tokenType ≠ .illegal :=
    (bracketTypes_quiet _ hbracket).1
  simp only [if_neg hlegal] at hparse
  have hpassed : ∀ tokens, (ParseState.pass lemon s1 tokens (some w)).tokens = tokens :=
    fun _ => ParseState.pass_tokens
  have hgrammar : (ParseState.pass lemon s1
      { parser := p'.tokEnd property.2 0 p'.context.inParamSpec
        passedTokens := s1.tokens.passedTokens ++ [property.2]
        ended := StatementTokens.endsStatement property.2 } (some w)).grammar =
          lemon.push g property.2 (some w) := by
    rw [ParseState.pass, if_pos (passes_bracket hbracket), ParseState.noteCallback_grammar]
    show lemon.push s1.grammar property.2 (some w) = _
    rw [h1.grammar]
  split at hparse
  · cases hparse
    refine ⟨w, [], hw, ?_, hgrammar⟩
    rw [hpassed]
    show s1.tokens.passedTokens ++ [property.2] = _
    rw [h1.passed]
    rfl
  · obtain ⟨tokens, hp, hg⟩ := parseTokens_folds _ _ _ (by rw [hpassed]; exact hmoved.within) hparse
    refine ⟨w, tokens, hw, ?_, ?_⟩
    · rw [hp, hpassed]
      show s1.tokens.passedTokens ++ [property.2] ++ _ = _
      rw [h1.passed, List.append_assoc]
      rfl
    · exact hg.trans (congrArg (fun g' => tokens.foldl (fun g t => lemon.push g t.1 t.2) g')
        hgrammar)

end QuotedValue

section Start

variable {T : Type} {types : GTypes T} {mode : GdaSqlParserMode} {flavour : GdaSqlParserFlavour}
  {value : TokenValue}

theorem zero_notMem_empty : '\x00' ∉ ([] : List Char) := List.not_mem_nil

def startState (T : Type) (mode : GdaSqlParserMode) (flavour : GdaSqlParserFlavour)
    (text : CString) :
    ParseState (Delimiter.Stack T) where
  tokens := .start (onText ⟨[], zero_notMem_empty⟩ mode flavour) text
  grammar := .start
  error := none

theorem startState_at (text : CString) :
    At mode flavour (startState T mode flavour text) text.1 false [] .start :=
  ⟨rfl, rfl, rfl, rfl, rfl, rfl, rfl, rfl⟩

theorem parseWith_eq {S : Type} (text : CString) :
    parseWith (Delimiter.grammar types S) (onText ⟨[], List.not_mem_nil⟩ mode flavour) text =
      (ParseState.parseTokens (Delimiter.grammar types S) (text.1.length + 1)
        (startState T mode flavour text)).map (ParseState.finish (Delimiter.grammar types S)) := rfl

theorem startState_fuel (text : CString) :
    (startState T mode flavour text).tokens.parser.rest.length < text.1.length + 1 := by
  rw [(startState_at text).rest]
  exact Nat.lt_succ_self _

theorem closed_statement {S : Type} {g : Delimiter.Stack T} {b : Delimiter.Bracket T}
    {spec : GdaSqlParamSpec T} {l : List TokenType} {tokens : List (TokenType × TokenValue)}
    (hexpr : g.expressions = []) (hpending : g.pending = .bracket (b.specified spec))
    (htypes : tokens.map Prod.fst = l ++ [.rsBracket, .endOfFile])
    (hl : ∀ type ∈ l, type ∈ Delimiter.propertyTypes) :
    ∃ props : List (TokenType × TokenValue), props.map Prod.fst = l ∧
      (Delimiter.grammar types S).parsedStatement ((Delimiter.grammar types S).finish
        (tokens.foldl (fun g t => g.push types t.1 t.2) g)) =
          some (.unknown [{ value := b.value
                            paramSpec := some (Delimiter.takeProperties types props spec) }]) := by
  obtain ⟨props, ends, rfl, hprops, hends⟩ := List.map_eq_append_iff.1 htypes
  refine ⟨props, hprops, ?_⟩
  obtain ⟨⟨type, v⟩, ends', rfl, htype, hends'⟩ := List.map_eq_cons_iff.1 hends
  obtain ⟨⟨type', v'⟩, ends'', rfl, htype', hnil⟩ := List.map_eq_cons_iff.1 hends'
  obtain rfl := List.map_eq_nil_iff.1 hnil
  obtain rfl : type = .rsBracket := htype
  obtain rfl : type' = .endOfFile := htype'
  have hmem : ∀ t ∈ props, t.1 ∈ Delimiter.propertyTypes := by
    intro t ht
    rw [← hprops] at hl
    exact hl _ (List.mem_map_of_mem ht)
  rw [List.foldl_append, Delimiter.foldl_push_properties hpending hmem]
  exact @Delimiter.parsedStatement_closed T types
    { g with pending := .bracket (b.specified (Delimiter.takeProperties types props spec)) } b
    (Delimiter.takeProperties types props spec) S v v' hexpr rfl

theorem parse_to_properties (types : GTypes T) {first others : List PropertyText} {text : CString}
    (hvalue : ∀ v, value = some v → LiteralText mode flavour v)
    (hread : ∀ p ∈ first, p.1 ∈ paramProperties ∧ ReadsValue p.2)
    (htext : text.1 = value.getD "##".toList ++ ' ' :: '/' :: '*' ::
      (propertiesText (first ++ others) ++ " */".toList)) :
    ∃ s type, Reaches (Delimiter.grammar types Empty) (startState T mode flavour text) s ∧
      At mode flavour s (propertiesText others ++ " */".toList) true
        ([type, .lsBracket] ++ first.map fun p => p.1.2)
        ((propertyTokens first).foldl (fun g t => g.push types t.1 t.2) (openBracket T value)) := by
  have h0 : At mode flavour (startState T mode flavour text) text.1 false [] .start :=
    startState_at text
  rw [htext] at h0
  obtain ⟨s1, type, hreach1, h1⟩ := h0.reaches_bracket types Empty hvalue
  obtain ⟨t, ht⟩ := propertiesText_starts others "*/".toList
  have hsplit : propertiesText (first ++ others) ++ " */".toList = propertiesText first ++
    ' ' :: t := by
    rw [propertiesText, List.flatMap_append, List.append_assoc]
    exact congrArg (propertiesText first ++ ·) ht
  rw [hsplit] at h1
  obtain ⟨s2, hreach2, h2⟩ := h1.reaches_properties types Empty hread rfl
  refine ⟨s2, type, hreach1.trans hreach2, ?_⟩
  rw [← ht] at h2
  exact h2

theorem parse_quoted_property {first others : List PropertyText} {property : String × TokenType}
    {x : List Char} {text : CString} {s : ParseState (Delimiter.Stack T)} {type : TokenType}
    (hvalue : ∀ v, value = some v → LiteralText mode flavour v)
    (hread : ∀ p ∈ first, p.1 ∈ paramProperties ∧ ReadsValue p.2)
    (hmem : property ∈ paramProperties)
    (hothers : ∀ p ∈ others, p.1 ∈ paramProperties)
    (htext : text.1 = value.getD "##".toList ++ ' ' :: '/' :: '*' ::
      (propertiesText (first ++ (property, forceQuotes x) :: others) ++ " */".toList))
    (hparse : ParseState.parseTokens (Delimiter.grammar types Empty) (text.1.length + 1)
      (startState T mode flavour text) = .ok s)
    (hpassed : s.tokens.passedTokens = type :: .lsBracket ::
      ((first ++ (property, forceQuotes x) :: others).map fun p => p.1.2) ++
        [.rsBracket, .endOfFile]) :
    ∃ (w : List Char) (props : List (TokenType × TokenValue)), (removeQuotes w = x → '\\' ∉ x) ∧
      props.map Prod.fst = (others.map fun p => p.1.2) ∧
        (Delimiter.grammar types Empty).parsedStatement
          ((Delimiter.grammar types Empty).finish s.grammar) = some (.unknown
            [{ value := value
               paramSpec := some (Delimiter.takeProperties types props
                (Delimiter.takeProperties types (propertyTokens first ++ [(property.2, some w)])
                  (.empty types))) }]) := by
  obtain ⟨s1, type', hreach, h1⟩ := parse_to_properties types hvalue hread htext
  have hcons : propertiesText ((property, forceQuotes x) :: others) ++ " */".toList =
      ' ' :: (property.1.toList ++ (forceQuotes x ++ (propertiesText others ++ " */".toList))) := by
    rw [propertiesText, List.flatMap_cons]
    simp [propertiesText]
  rw [hcons] at h1
  obtain ⟨fuel, hfuel, heq⟩ := hreach _ (startState_fuel text)
  rw [heq] at hparse
  obtain ⟨w, tokens, hw, hpassed', hgrammar⟩ := h1.parse_property hmem fuel hfuel hparse
  have htypes : tokens.map Prod.fst = (others.map fun p => p.1.2) ++ [.rsBracket, .endOfFile] := by
    rw [hpassed'] at hpassed
    simp only [List.map_append, List.map_cons, List.cons_append, List.nil_append, List.append_assoc,
      List.cons.injEq, List.append_cancel_left_eq, true_and] at hpassed
    exact hpassed.2
  have hfirst : ∀ t ∈ propertyTokens first ++ [(property.2, some w)],
    t.1 ∈ Delimiter.propertyTypes := by
    intro t ht
    rcases List.mem_append.1 ht with ht | ht
    · obtain ⟨p, hp, rfl⟩ := List.mem_map.1 ht
      exact mem_propertyTypes (hread p hp).1
    · obtain rfl := List.mem_singleton.1 ht
      exact mem_propertyTypes hmem
  have hpending : (openBracket T value).pending =
    .bracket { value := value, paramSpec := none } := rfl
  have hpush : Delimiter.Stack.push types ((propertyTokens first).foldl
      (fun g t => Delimiter.Stack.push types g t.1 t.2) (openBracket T value)) property.2 (some w) =
      { expressions := []
        pending := .bracket (Delimiter.Bracket.specified { value := value, paramSpec := none }
          (Delimiter.takeProperties types (propertyTokens first ++ [(property.2, some w)])
            (.empty types))) } := by
    have hfold := Delimiter.foldl_push_bracket types hpending
      (List.append_ne_nil_of_right_ne_nil _ (List.cons_ne_nil _ _)) hfirst
    rw [List.foldl_append] at hfold
    exact hfold
  have hothersTypes : ∀ type ∈ others.map (fun p => p.1.2), type ∈ Delimiter.propertyTypes := by
    intro type htype
    obtain ⟨p, hp, rfl⟩ := List.mem_map.1 htype
    exact mem_propertyTypes (hothers p hp)
  obtain ⟨props, hprops, hstatement⟩ := @closed_statement T types Empty _
    { value := value, paramSpec := none }
    (Delimiter.takeProperties types (propertyTokens first ++ [(property.2, some w)]) (.empty types))
      _ tokens
    (congrArg Delimiter.Stack.expressions hpush) (congrArg Delimiter.Stack.pending hpush) htypes
      hothersTypes
  refine ⟨w, props, hw, hprops, ?_⟩
  rw [hgrammar]
  exact hstatement

end Start

end LibGda
