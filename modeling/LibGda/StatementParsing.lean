import LibGda.BlockLevels
import LibGda.SqlStatementParser

/-! What `gda_sql_parser_parse_string` consumes: it ends, and but for an error what remains is
shorter than the text. -/

namespace LibGda

open TerminatedBuffer RunInvariant GdaSqlParser

abbrev Ends {α : Type} (x : Except ScanFault α) : Prop := Avoids (· = .outOfFuel) x

theorem reads_ends {α : Type} {cut : Prop} {post : α → Prop} {x : Except ScanFault α}
    (h : Reads cut post x) : Ends x := by
  rcases h with ⟨-, rfl⟩ | ⟨-, a, rfl, -⟩
  · exact avoids_error nofun
  · exact avoids_ok a

namespace GdaSqlParser

variable {parser : GdaSqlParser} {passed : List TokenType} {value : TokenValue}

theorem getToken_ends (hwithin : parser.context.nextTokenStart ≤ parser.sql.1.length) :
    Ends parser.getToken :=
  reads_ends (reads_getToken parser hwithin)

theorem Kept.within_self {parser' : GdaSqlParser} (h : Kept parser parser') :
    parser'.context.nextTokenStart ≤ parser'.sql.1.length := by
  rw [h.sql]
  exact h.within

theorem delimiterValue_ends (hwithin : parser.context.nextTokenStart ≤ parser.sql.1.length) :
    Ends parser.delimiterValue := by
  have hends : Ends parser.pushTokenizerContext.getToken := getToken_ends hwithin
  refine hends.bind ?_
  rintro ⟨p1, v1⟩ h1
  have hread1 : TokenRead parser.pushTokenizerContext (p1, v1) := tokenRead_of_ok hwithin h1
  have hwithin1 : p1.context.nextTokenStart ≤ p1.sql.1.length := hread1.kept.within_self
  by_cases hspace : p1.context.tokenType = .space
  · simp only [if_pos hspace]
    have hends1 : Ends p1.pushTokenizerContext.getToken := getToken_ends hwithin1
    refine hends1.bind ?_
    intro r _
    exact avoids_ok _
  · simp only [if_neg hspace]
    exact avoids_ok _

theorem trackBlocks_ends (hwithin : parser.context.nextTokenStart ≤ parser.sql.1.length) :
    Ends (parser.trackBlocks passed value) := by
  have hopened : ∀ p : GdaSqlParser, p.sql = parser.sql → p.context.nextTokenStart =
      parser.context.nextTokenStart → Ends p.delimiterValue := by
    intro p hsql hnext
    apply delimiterValue_ends
    rw [hsql, hnext]
    exact hwithin
  unfold trackBlocks
  generalize hp : (if parser.opensBegin passed value then parser.addLevel 1 else parser) = p
  have hsql : p.sql = parser.sql ∧ p.context.nextTokenStart = parser.context.nextTokenStart := by
    subst hp
    split <;> exact ⟨rfl, rfl⟩
  simp only
  split
  · exact avoids_ok _
  · split
    · exact avoids_ok _
    · split <;> exact avoids_ok _
  · exact avoids_ok _
  · exact avoids_ok _
  · split <;> exact avoids_ok _
  · split <;> exact avoids_ok _
  · split
    · refine (hopened p hsql.1 hsql.2).bind ?_
      rintro ⟨p', v⟩ _
      cases v <;> exact avoids_ok _
    · exact avoids_ok _
  · exact avoids_ok _

end GdaSqlParser

section NextToken

variable {s n : StatementTokens} {value : TokenValue}

theorem nextToken_ends (hwithin : s.parser.context.nextTokenStart ≤ s.parser.sql.1.length) :
    Ends s.nextToken := by
  refine (getToken_ends hwithin).bind ?_
  rintro ⟨parser, v⟩ hget
  have hwithin' := (tokenRead_of_ok hwithin hget).kept.within_self
  by_cases hp : parser.passes
  · simp only [if_pos hp]
    cases hm : parser.mode with
    | parse => exact avoids_ok _
    | delimit => exact (trackBlocks_ends hwithin').bind (fun _ _ => avoids_ok _)
  · simp only [if_neg hp]
    exact avoids_ok _

structure Moved (s n : StatementTokens) : Prop where
  sql : n.parser.sql = s.parser.sql
  ahead : s.parser.context.nextTokenStart ≤ n.parser.context.nextTokenStart
  within : n.parser.context.nextTokenStart ≤ n.parser.sql.1.length
  ended : n.ended = StatementTokens.endsStatement n.parser.context.tokenType
  progress : n.parser.context.nextTokenStart = s.parser.context.nextTokenStart →
    n.parser.context.tokenType = .endOfFile ∧ n.parser.rest = [] ∨
      n.parser.context.tokenType = .illegal

theorem moved_of_read {parser : GdaSqlParser} (hread : TokenRead s.parser (parser, value))
    (hsql : n.parser.sql = parser.sql)
    (hnext : n.parser.context.nextTokenStart = parser.context.nextTokenStart)
    (htype : n.parser.context.tokenType = parser.context.tokenType)
    (hended : n.ended = StatementTokens.endsStatement parser.context.tokenType) : Moved s n where
  sql := hsql.trans hread.kept.sql
  ahead := by
    rw [hnext]
    exact hread.kept.ahead
  within := by
    rw [hnext, hsql]
    exact hread.kept.within_self
  ended := by rw [hended, htype]
  progress := by
    intro h
    have hsame : parser.context.nextTokenStart = s.parser.context.nextTokenStart :=
      hnext.symm.trans h
    rw [htype]
    rcases hread.progress hsame with ⟨hend, hrest⟩ | ⟨hillegal, -⟩
    · refine Or.inl ⟨hend, ?_⟩
      rw [rest, hsql, h, show parser.sql = s.parser.sql from hread.kept.sql]
      exact hrest
    · exact Or.inr hillegal

theorem nextToken_moved (hwithin : s.parser.context.nextTokenStart ≤ s.parser.sql.1.length)
    (h : s.nextToken = .ok (n, value)) : Moved s n := by
  obtain ⟨⟨parser, v⟩, hget, h⟩ := bind_ok h
  have hread := tokenRead_of_ok hwithin hget
  by_cases hp : parser.passes
  · simp only [if_pos hp] at h
    cases hm : parser.mode with
    | parse =>
      rw [hm] at h
      cases h
      exact moved_of_read hread rfl rfl rfl rfl
    | delimit =>
      rw [hm] at h
      obtain ⟨parser', htrack, h⟩ := bind_ok h
      have htracked := trackBlocks_tracked hread.kept.within_self htrack
      cases h
      exact moved_of_read hread htracked.sql htracked.nextTokenStart htracked.tokenType rfl
  · simp only [if_neg hp] at h
    cases h
    exact moved_of_read hread rfl rfl rfl rfl

end NextToken

namespace ParseState

variable {G Stmt : Type} {lemon : LemonParser G Stmt} {s s' : ParseState G}

@[simp] theorem noteCallback_tokens : (noteCallback lemon s).tokens = s.tokens := by
  rw [noteCallback]
  split <;> rfl

@[simp] theorem noteCallback_grammar : (noteCallback lemon s).grammar = s.grammar := by
  rw [noteCallback]
  split <;> rfl

@[simp] theorem finish_tokens : (finish lemon s).tokens = s.tokens := noteCallback_tokens

@[simp] theorem finish_grammar : (finish lemon s).grammar = lemon.finish s.grammar :=
  noteCallback_grammar

def pass (lemon : LemonParser G Stmt) (s : ParseState G) (tokens : StatementTokens)
    (value : TokenValue) : ParseState G :=
  if tokens.parser.passes then
    noteCallback lemon
      { s with
        tokens := tokens
        grammar := lemon.push s.grammar tokens.parser.context.tokenType value }
  else { s with tokens := tokens }

theorem pass_tokens {tokens : StatementTokens} {value : TokenValue} :
    (pass lemon s tokens value).tokens = tokens := by
  rw [pass]
  split
  · exact noteCallback_tokens
  · rfl

theorem parseTokens_succ (fuel : Nat) :
    parseTokens lemon (fuel + 1) s = s.tokens.nextToken >>= fun r =>
      if r.1.parser.context.tokenType = .illegal then
        pure { s with
          tokens := r.1
          error := some (r.1.parser.recordError s.error .syntaxError) }
      else if r.1.ended ∨ (pass lemon s r.1 r.2).error.isSome then pure (pass lemon s r.1 r.2)
      else parseTokens lemon fuel (pass lemon s r.1 r.2) := rfl

theorem moves_on {n : StatementTokens} (hmoved : Moved s.tokens n)
    (hlegal : n.parser.context.tokenType ≠ .illegal) (hended : ¬ n.ended = true) :
    s.tokens.parser.context.nextTokenStart < n.parser.context.nextTokenStart := by
  rcases Nat.lt_or_eq_of_le hmoved.ahead with hlt | heq
  · exact hlt
  · rcases hmoved.progress heq.symm with ⟨hend, -⟩ | hillegal
    · rw [hmoved.ended, hend] at hended
      exact absurd rfl hended
    · exact absurd hillegal hlegal

theorem parseTokens_ends (fuel : Nat) (s : ParseState G)
    (hwithin : s.tokens.parser.context.nextTokenStart ≤ s.tokens.parser.sql.1.length)
    (hfuel : s.tokens.parser.rest.length < fuel) : Ends (parseTokens lemon fuel s) := by
  induction fuel generalizing s with
  | zero => exact absurd hfuel (Nat.not_lt_zero _)
  | succ fuel ih =>
    rw [parseTokens_succ]
    refine (nextToken_ends hwithin).bind ?_
    rintro ⟨n, value⟩ hnext
    have hmoved := nextToken_moved hwithin hnext
    by_cases hlegal : n.parser.context.tokenType = .illegal
    · rw [if_pos hlegal]
      exact avoids_ok _
    · rw [if_neg hlegal]
      by_cases hstop : n.ended ∨ (pass lemon s n value).error.isSome
      · rw [if_pos hstop]
        exact avoids_ok _
      · rw [if_neg hstop]
        have hlt := moves_on hmoved hlegal (fun h => hstop (Or.inl h))
        have hsql := hmoved.sql
        have hle := hmoved.within
        refine ih _ ?_ ?_
        · rw [pass_tokens]
          exact hle
        · rw [length_rest] at hfuel
          rw [hsql] at hle
          rw [pass_tokens, length_rest, hsql]
          show s.tokens.parser.sql.1.length - n.parser.context.nextTokenStart < fuel
          omega

structure Parsed (s s' : ParseState G) : Prop where
  sql : s'.tokens.parser.sql = s.tokens.parser.sql
  ahead : s.tokens.parser.context.nextTokenStart ≤ s'.tokens.parser.context.nextTokenStart
  within : s'.tokens.parser.context.nextTokenStart ≤ s'.tokens.parser.sql.1.length
  progress : s'.tokens.parser.context.nextTokenStart = s.tokens.parser.context.nextTokenStart →
    s'.tokens.parser.rest = [] ∨
      s'.tokens.parser.context.tokenType = .illegal ∧ s'.grammar = s.grammar

theorem parsed_of_moved (hmoved : Moved s.tokens s'.tokens)
    (hillegal : s'.tokens.parser.context.tokenType = .illegal → s'.grammar = s.grammar) :
    Parsed s s' where
  sql := hmoved.sql
  ahead := hmoved.ahead
  within := hmoved.within
  progress h := by
    rcases hmoved.progress h with ⟨-, hrest⟩ | ht
    · exact Or.inl hrest
    · exact Or.inr ⟨ht, hillegal ht⟩

theorem parseTokens_parsed (fuel : Nat) (s s' : ParseState G)
    (hwithin : s.tokens.parser.context.nextTokenStart ≤ s.tokens.parser.sql.1.length)
    (h : parseTokens lemon fuel s = .ok s') : Parsed s s' := by
  induction fuel generalizing s with
  | zero => cases h
  | succ fuel ih =>
    rw [parseTokens_succ] at h
    obtain ⟨⟨n, value⟩, hnext, h⟩ := bind_ok h
    have hmoved := nextToken_moved hwithin hnext
    by_cases hlegal : n.parser.context.tokenType = .illegal
    · simp only [if_pos hlegal] at h
      cases h
      exact parsed_of_moved hmoved (fun _ => rfl)
    · simp only [if_neg hlegal] at h
      have htokens : (pass lemon s n value).tokens = n := pass_tokens
      by_cases hstop : n.ended ∨ (pass lemon s n value).error.isSome
      · rw [if_pos hstop] at h
        cases h
        refine parsed_of_moved (by rwa [htokens]) ?_
        intro ht
        rw [htokens] at ht
        exact absurd ht hlegal
      · rw [if_neg hstop] at h
        have hlt := moves_on hmoved hlegal (fun h => hstop (Or.inl h))
        have hparsed := ih _ (by rw [htokens]; exact hmoved.within) h
        have hahead := hparsed.ahead
        have hsql := hparsed.sql
        rw [htokens] at hahead hsql
        refine ⟨hsql.trans hmoved.sql, by omega, hparsed.within, ?_⟩
        intro heq
        omega

end ParseState

section Folding

variable {parser parser' : GdaSqlParser} {passed : List TokenType} {value : TokenValue}

theorem trackBlocks_space (htype : parser.context.tokenType = .space) :
    parser.trackBlocks passed value = .ok parser := by
  have hopens : parser.opensBegin passed value = false := by
    simp [opensBegin, htype]
  unfold trackBlocks
  simp only [hopens, Bool.false_eq_true, if_false, htype]
  rfl

theorem trackBlocks_passes (hwithin : parser.context.nextTokenStart ≤ parser.sql.1.length)
    (h : parser.trackBlocks passed value = .ok parser') : parser'.passes = parser.passes := by
  have htracked := trackBlocks_tracked hwithin h
  by_cases hspace : parser.context.tokenType = .space
  · rw [trackBlocks_space hspace] at h
    cases h
    rfl
  · rw [passes, passes, htracked.tokenType]
    split
    · rfl
    · rfl
    · exact absurd ‹_› hspace
    · rfl

theorem nextToken_passes {s n : StatementTokens}
    (hwithin : s.parser.context.nextTokenStart ≤ s.parser.sql.1.length)
    (h : s.nextToken = .ok (n, value)) :
    n.passedTokens = s.passedTokens ++
      if n.parser.passes then [n.parser.context.tokenType] else [] := by
  obtain ⟨⟨parser, v⟩, hget, h⟩ := bind_ok h
  have hread := tokenRead_of_ok hwithin hget
  by_cases hp : parser.passes
  · simp only [if_pos hp] at h
    cases hm : parser.mode with
    | parse =>
      rw [hm] at h
      cases h
      rw [if_pos hp]
    | delimit =>
      rw [hm] at h
      obtain ⟨parser', htrack, h⟩ := bind_ok h
      have htracked := trackBlocks_tracked hread.kept.within_self htrack
      have hpasses := trackBlocks_passes hread.kept.within_self htrack
      cases h
      rw [hpasses, if_pos hp, htracked.tokenType]
  · simp only [if_neg hp] at h
    cases h
    rw [if_neg hp, List.append_nil]

variable {G Stmt : Type} {lemon : LemonParser G Stmt}

theorem pass_folds {s : ParseState G} {n : StatementTokens}
    (hwithin : s.tokens.parser.context.nextTokenStart ≤ s.tokens.parser.sql.1.length)
    (h : s.tokens.nextToken = .ok (n, value)) :
    ∃ tokens : List (TokenType × TokenValue),
      (ParseState.pass lemon s n value).tokens.passedTokens =
          s.tokens.passedTokens ++ tokens.map Prod.fst ∧
        (ParseState.pass lemon s n value).grammar =
          tokens.foldl (fun g t => lemon.push g t.1 t.2) s.grammar := by
  rw [ParseState.pass_tokens, nextToken_passes hwithin h, ParseState.pass]
  by_cases hp : n.parser.passes
  · refine ⟨[(n.parser.context.tokenType, value)], ?_, ?_⟩
    · rw [if_pos hp]
      rfl
    · rw [if_pos hp, ParseState.noteCallback_grammar]
      rfl
  · refine ⟨[], ?_, ?_⟩
    · rw [if_neg hp]
      rfl
    · rw [if_neg hp]
      rfl

theorem parseTokens_folds (fuel : Nat) (s s' : ParseState G)
    (hwithin : s.tokens.parser.context.nextTokenStart ≤ s.tokens.parser.sql.1.length)
    (h : ParseState.parseTokens lemon fuel s = .ok s') :
    ∃ tokens : List (TokenType × TokenValue),
      s'.tokens.passedTokens = s.tokens.passedTokens ++ tokens.map Prod.fst ∧
        s'.grammar = tokens.foldl (fun g t => lemon.push g t.1 t.2) s.grammar := by
  induction fuel generalizing s with
  | zero => cases h
  | succ fuel ih =>
    rw [ParseState.parseTokens_succ] at h
    obtain ⟨⟨n, value⟩, hnext, h⟩ := bind_ok h
    have hmoved := nextToken_moved hwithin hnext
    by_cases hlegal : n.parser.context.tokenType = .illegal
    · simp only [if_pos hlegal] at h
      cases h
      have hno : ¬ n.parser.passes = true := by
        rw [passes, hlegal]
        exact Bool.false_ne_true
      refine ⟨[], ?_, rfl⟩
      show n.passedTokens = _
      rw [nextToken_passes hwithin hnext, if_neg hno]
      rfl
    · simp only [if_neg hlegal] at h
      obtain ⟨tokens, hpassed, hgrammar⟩ := @pass_folds value G Stmt lemon s n hwithin hnext
      by_cases hstop : n.ended ∨ (ParseState.pass lemon s n value).error.isSome
      · rw [if_pos hstop] at h
        cases h
        exact ⟨tokens, hpassed, hgrammar⟩
      · rw [if_neg hstop] at h
        have hwithin' : (ParseState.pass lemon s n value).tokens.parser.context.nextTokenStart ≤
            (ParseState.pass lemon s n value).tokens.parser.sql.1.length := by
          rw [ParseState.pass_tokens]
          exact hmoved.within
        obtain ⟨tokens', hpassed', hgrammar'⟩ := ih _ hwithin' h
        refine ⟨tokens ++ tokens', ?_, ?_⟩
        · rw [hpassed', hpassed, List.map_append, List.append_assoc]
        · rw [hgrammar', hgrammar, List.foldl_append]

end Folding

section ParseString

variable {T S G : Type} {lemon : LemonParser G (GdaSqlParsedStatement T S)}
  {parser parser' : GdaSqlParser} {sql : CString} {outcome : ParseOutcome T S}

theorem parseWith_ends {H : Type} {lemon : LemonParser H (GdaSqlParsedStatement T S)} :
    Ends (parseWith lemon parser sql) := by
  refine (ParseState.parseTokens_ends _ _ (Nat.zero_le _) ?_).map _
  exact Nat.lt_succ_self _

theorem parseWith_progress {H : Type} {lemon : LemonParser H (GdaSqlParsedStatement T S)}
    {s : ParseState H} (h : parseWith lemon parser sql = .ok s) :
    s.tokens.parser.sql = sql ∧
      (0 < s.tokens.parser.context.nextTokenStart ∨ s.tokens.parser.rest = [] ∨
        s.tokens.parser.context.tokenType = .illegal ∧ s.statement lemon = none) := by
  obtain ⟨s', hs', rfl⟩ := map_ok h
  have hparsed := ParseState.parseTokens_parsed _ _ _ (Nat.zero_le _) hs'
  rw [ParseState.finish_tokens]
  refine ⟨hparsed.sql, ?_⟩
  rcases Nat.eq_zero_or_pos s'.tokens.parser.context.nextTokenStart with h0 | hpos
  · rcases hparsed.progress h0 with hrest | ⟨ht, hgrammar⟩
    · exact Or.inr (Or.inl hrest)
    · refine Or.inr (Or.inr ⟨ht, ?_⟩)
      rw [ParseState.statement, ParseState.finish_grammar, hgrammar, lemon.noTokens]
      rfl
  · exact Or.inl hpos

def ParseOutcome.Fails (outcome : ParseOutcome T S) : Prop :=
  ∃ recorded, outcome.result = .error (.parse recorded)

def ParseOutcome.Consumes (sql : CString) (outcome : ParseOutcome T S) : Prop :=
  ∀ remaining, outcome.remain = some remaining → ¬ outcome.Fails →
    remaining.1.length < sql.1.length

theorem remain_shorter {remaining : CString} (hsql : parser.sql = sql)
    (hpos : 0 < parser.context.nextTokenStart) (h : parser.remain = some remaining) :
    remaining.1.length < sql.1.length := by
  rw [GdaSqlParser.remain] at h
  split at h
  · cases h
  · rename_i hrest
    cases h
    have hle := (List.dropWhile_suffix (l := parser.rest) (fun c => c = ' ' ∨ c = '\n')).length_le
    have hne : 0 < parser.rest.length := List.length_pos_iff.2 hrest
    rw [length_rest, hsql] at hle hne
    show (parser.rest.dropWhile _).length < _
    omega

theorem remain_consumes {H : Type} {lemon : LemonParser H (GdaSqlParsedStatement T S)}
    {s : ParseState H}
    {remaining : CString} (hs : parseWith lemon parser sql = .ok s)
    (hremain : s.tokens.parser.remain = some remaining)
    (hstatement : s.statement lemon = none → s.tokens.parser.context.tokenType ≠ .illegal) :
    remaining.1.length < sql.1.length := by
  obtain ⟨hsql, hpos | hrest | ⟨hillegal, hnone⟩⟩ := parseWith_progress hs
  · exact remain_shorter hsql hpos hremain
  · rw [GdaSqlParser.remain, if_pos hrest] at hremain
    cases hremain
  · exact absurd hillegal (hstatement hnone)

variable {types : GTypes T}

theorem parseDelimited_ends : Ends (parseDelimited types S parser sql) :=
  parseWith_ends.bind (fun _ _ => avoids_ok _)

theorem parseDelimited_consumes (h : parseDelimited types S parser sql = .ok (parser', outcome)) :
    outcome.Consumes sql := by
  obtain ⟨s, hs, h⟩ := bind_ok h
  cases h
  intro remaining hremain hok
  refine remain_consumes hs hremain ?_
  intro hnone hillegal
  apply hok
  refine ⟨s.error, ?_⟩
  simp only [hnone]
  exact if_neg (fun h => h.2 hillegal)

theorem parseString_ends : Ends (parseString types lemon parser sql) := by
  rw [parseString]
  cases parser.mode with
  | delimit => exact parseDelimited_ends
  | parse =>
    refine parseWith_ends.bind ?_
    intro s _
    split
    · exact avoids_ok _
    · exact parseDelimited_ends.bind (fun _ _ => avoids_ok _)

theorem parseString_consumes (h : parseString types lemon parser sql = .ok (parser', outcome)) :
    outcome.Consumes sql := by
  rw [parseString] at h
  cases hm : parser.mode with
  | delimit =>
    rw [hm] at h
    exact parseDelimited_consumes h
  | parse =>
    rw [hm] at h
    obtain ⟨s, hs, h⟩ := bind_ok h
    simp only at h
    split at h
    · rename_i stmt hstmt
      cases h
      intro remaining hremain _
      refine remain_consumes hs hremain ?_
      intro hnone
      rw [hstmt] at hnone
      cases hnone
    · obtain ⟨⟨p, o⟩, hdelimited, h⟩ := bind_ok h
      cases h
      exact parseDelimited_consumes hdelimited

end ParseString

end LibGda
