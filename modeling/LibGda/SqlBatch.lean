import LibGda.StatementParsing

/-! `gda_sql_parser_parse_string_as_batch`: the statements of a script, up to the first which cannot
be parsed. -/

namespace LibGda

open TerminatedBuffer RunInvariant

structure BatchState (T S : Type) where
  parser : GdaSqlParser
  statements : List (GdaStatement T S)
  nEmpty : Nat
  error : Option GdaSqlParserError
  intSql : Option CString
  allok : Bool

structure BatchResult (T S : Type) where
  batch : Option (List (GdaStatement T S))
  remain : Option CString
  error : Option GdaSqlParserError

section Batch

variable {T S G : Type} (types : GTypes T)
  (lemon : LemonParser G (GdaSqlParsedStatement T S))

/-- What the loop makes of one call of `gda_sql_parser_parse_string`. -/
def BatchState.absorb (s : BatchState T S) (parser : GdaSqlParser) (outcome : ParseOutcome T S) :
    BatchState T S :=
  let s := { s with parser := parser, intSql := outcome.remain }
  match outcome.result with
  | .ok stmt =>
    if stmt.isUseless then { s with nEmpty := s.nEmpty + 1 }
    else { s with statements := s.statements ++ [stmt] }
  | .error .emptySql => { s with nEmpty := s.nEmpty + 1 }
  | .error error =>
    { s with
      -- only when something remains
      allok := if outcome.remain.isSome then false else s.allok
      error := s.error.or (some error) }

def batchLoop : Nat → BatchState T S → Except ScanFault (BatchState T S)
  | 0, _ => .error .outOfFuel
  | fuel + 1, s =>
    match s.intSql, s.allok with
    | some sql, true => do
      let (parser, outcome) ← parseString types lemon s.parser sql
      batchLoop fuel (s.absorb parser outcome)
    | _, _ => .ok s

def BatchState.result (s : BatchState T S) : BatchResult T S :=
  let error :=
    if s.statements = [] ∧ s.nEmpty ≠ 0 then s.error.or (some .emptySql) else s.error
  if s.allok = false ∨ s.statements = [] then
    { batch := none, remain := s.intSql, error := error }
  else { batch := some s.statements, remain := none, error := error }

def parseStringAsBatch (parser : GdaSqlParser) (sql : CString) :
    Except ScanFault (BatchResult T S) :=
  (batchLoop types lemon (sql.1.length + 2)
    { parser := parser
      statements := []
      nEmpty := 0
      error := none
      intSql := some sql
      allok := true }).map BatchState.result

inductive Splits : GdaSqlParser → CString → List (ParseOutcome T S) → Prop
  | last {parser parser' : GdaSqlParser} {sql : CString} {outcome : ParseOutcome T S} :
    parseString types lemon parser sql = .ok (parser', outcome) →
    outcome.remain = none ∨ outcome.Fails → Splits parser sql [outcome]
  | more {parser parser' : GdaSqlParser} {sql remaining : CString} {outcome : ParseOutcome T S}
    {outcomes : List (ParseOutcome T S)} :
    parseString types lemon parser sql = .ok (parser', outcome) →
    outcome.remain = some remaining → ¬ outcome.Fails → Splits parser' remaining outcomes →
    Splits parser sql (outcome :: outcomes)

end Batch

section Outcomes

variable {T S G : Type} {types : GTypes T} {lemon : LemonParser G (GdaSqlParsedStatement T S)}
  {parser : GdaSqlParser} {sql : CString} {outcome : ParseOutcome T S}
  {outcomes : List (ParseOutcome T S)} {s : BatchState T S}

def ParseOutcome.statement (outcome : ParseOutcome T S) : Option (GdaStatement T S) :=
  match outcome.result with
  | .ok stmt => if stmt.isUseless then none else some stmt
  | .error _ => none

/-- A batch of the statements in order and no error, or no batch and the error of the statement
which cannot be parsed, or no batch for a script without statements. -/
def ReportsScript (outcomes : List (ParseOutcome T S)) (r : BatchResult T S) : Prop :=
  (∃ outcome ∈ outcomes, ∃ recorded, outcome.result = .error (.parse recorded) ∧
      r.batch = none ∧ r.error = some (.parse recorded)) ∨
    (∀ outcome ∈ outcomes, ¬ outcome.Fails) ∧
      (outcomes.filterMap ParseOutcome.statement ≠ [] ∧
          r.batch = some (outcomes.filterMap ParseOutcome.statement) ∧ r.error = none ∨
        outcomes.filterMap ParseOutcome.statement = [] ∧ r.batch = none ∧ r.error = some .emptySql)

def LastFails (outcomes : List (ParseOutcome T S)) : Prop :=
  outcomes.filterMap ParseOutcome.statement ≠ [] ∧
    ∃ outcome ∈ outcomes, outcome.Fails ∧ outcome.remain = none

structure Counted (outcomes : List (ParseOutcome T S)) (s : BatchState T S) : Prop where
  statements : s.statements = outcomes.filterMap ParseOutcome.statement
  nEmpty : outcomes ≠ [] → s.statements = [] → s.nEmpty ≠ 0
  error : s.error = none
  allok : s.allok = true

theorem absorb_statement {stmt : GdaStatement T S} (h : outcome.statement = some stmt) :
    s.absorb parser outcome = { s with
      parser := parser
      intSql := outcome.remain
      statements := s.statements ++ [stmt] } := by
  rw [ParseOutcome.statement] at h
  split at h
  · rename_i stmt' hresult
    split at h
    · cases h
    · rename_i huseless
      cases h
      simp only [BatchState.absorb, hresult, if_neg huseless]
  · cases h

theorem absorb_empty (h : outcome.statement = none) (hok : ¬ outcome.Fails) :
    s.absorb parser outcome = { s with
      parser := parser
      intSql := outcome.remain
      nEmpty := s.nEmpty + 1 } := by
  rw [ParseOutcome.statement] at h
  rcases hresult : outcome.result with e | stmt
  · cases e with
    | emptySql => simp only [BatchState.absorb, hresult]
    | parse recorded => exact absurd ⟨recorded, hresult⟩ hok
  · rw [hresult] at h
    cases huseless : stmt.isUseless with
    | true => simp only [BatchState.absorb, hresult, huseless, if_true]
    | false =>
      simp only [huseless] at h
      cases h

theorem absorb_fails {recorded : Option RecordedError}
    (h : outcome.result = .error (.parse recorded)) :
    s.absorb parser outcome = { s with
      parser := parser
      intSql := outcome.remain
      allok := if outcome.remain.isSome then false else s.allok
      error := s.error.or (some (.parse recorded)) } := by
  simp only [BatchState.absorb, h]

theorem statement_fails (h : outcome.Fails) : outcome.statement = none := by
  obtain ⟨recorded, h⟩ := h
  rw [ParseOutcome.statement, h]

theorem statements_fails {last : ParseOutcome T S} (h : last.Fails) :
    (outcomes ++ [last]).filterMap ParseOutcome.statement =
      outcomes.filterMap ParseOutcome.statement := by
  rw [List.filterMap_append]
  simp [statement_fails h]

theorem Counted.absorb (h : Counted outcomes s) (hok : ¬ outcome.Fails) (parser : GdaSqlParser) :
    Counted (outcomes ++ [outcome]) (s.absorb parser outcome) := by
  cases hs : outcome.statement with
  | none =>
    rw [absorb_empty hs hok]
    refine ⟨?_, ?_, h.error, h.allok⟩
    · rw [List.filterMap_append, ← h.statements]
      simp [hs]
    · intro _ _
      exact Nat.succ_ne_zero _
  | some stmt =>
    rw [absorb_statement hs]
    refine ⟨?_, ?_, h.error, h.allok⟩
    · rw [List.filterMap_append, ← h.statements]
      simp [hs]
    · intro _ hnil
      simp at hnil

theorem batchLoop_done {fuel : Nat} (h : s.intSql = none ∨ s.allok = false) :
    batchLoop types lemon (fuel + 1) s = .ok s := by
  rw [batchLoop]
  split
  · rename_i hsql hallok
    rcases h with h | h
    · rw [h] at hsql
      cases hsql
    · rw [h] at hallok
      cases hallok
  · rfl

theorem batchLoop_ends (fuel : Nat) (s : BatchState T S)
    (hfuel : ∀ sql, s.intSql = some sql → s.allok = true → sql.1.length + 1 < fuel)
    (hpos : 0 < fuel) :
    Ends (batchLoop types lemon fuel s) := by
  induction fuel generalizing s with
  | zero => exact absurd hpos (Nat.lt_irrefl _)
  | succ fuel ih =>
    rw [batchLoop]
    split
    · rename_i sql hsql hallok
      have hlen := hfuel sql hsql hallok
      refine parseString_ends.bind ?_
      rintro ⟨parser, outcome⟩ hparse
      have hconsumes := parseString_consumes hparse
      refine ih _ ?_ (by omega)
      intro remaining hremain hallok'
      by_cases hfails : outcome.Fails
      · obtain ⟨recorded, hresult⟩ := hfails
        rw [absorb_fails hresult] at hremain hallok'
        simp only at hremain hallok'
        rw [hremain] at hallok'
        cases hallok'
      · have hremain' : outcome.remain = some remaining := by
          cases hst : outcome.statement with
          | none =>
            rw [absorb_empty hst hfails] at hremain
            exact hremain
          | some stmt =>
            rw [absorb_statement hst] at hremain
            exact hremain
        have hlt := hconsumes remaining hremain' hfails
        omega
    · exact avoids_ok _

def EndsOn (before outcomes : List (ParseOutcome T S)) (s : BatchState T S) : Prop :=
  (∀ outcome ∈ outcomes, ¬ outcome.Fails) ∧ Counted (before ++ outcomes) s ∨
    ∃ parsed last s' parser, outcomes = parsed ++ [last] ∧ last.Fails ∧
      (∀ outcome ∈ parsed, ¬ outcome.Fails) ∧ Counted (before ++ parsed) s' ∧
        s = s'.absorb parser last

theorem EndsOn.cons {before : List (ParseOutcome T S)} (hok : ¬ outcome.Fails)
    (h : EndsOn (before ++ [outcome]) outcomes s) : EndsOn before (outcome :: outcomes) s := by
  have hcons : ∀ {l : List (ParseOutcome T S)}, (∀ o ∈ l, ¬ o.Fails) → ∀ o ∈ outcome :: l,
    ¬ o.Fails := by
    intro l hl o ho
    rcases List.mem_cons.1 ho with rfl | ho
    · exact hok
    · exact hl o ho
  rcases h with ⟨hall, hcounted⟩ | ⟨parsed, last, s', parser, rfl, hfails, hall, hcounted, hs⟩
  · refine Or.inl ⟨hcons hall, ?_⟩
    rwa [List.append_assoc] at hcounted
  · refine Or.inr ⟨outcome :: parsed, last, s', parser, rfl, hfails, hcons hall, ?_, hs⟩
    rwa [List.append_assoc] at hcounted

theorem batchLoop_splits (h : Splits types lemon parser sql outcomes)
    {before : List (ParseOutcome T S)} {fuel : Nat} (hs : Counted before s)
    (hparser : s.parser = parser) (hsql : s.intSql = some sql) (hfuel : sql.1.length + 1 < fuel) :
    ∃ s', batchLoop types lemon fuel s = .ok s' ∧ EndsOn before outcomes s' := by
  induction h generalizing s before fuel with
  | @last parser parser' sql outcome hparse hend =>
    obtain ⟨fuel, rfl⟩ : ∃ n, fuel = n + 2 := ⟨fuel - 2, by omega⟩
    subst hparser
    refine ⟨s.absorb parser' outcome, ?_, ?_⟩
    · rw [batchLoop, hsql, hs.allok]
      show (parseString types lemon s.parser sql >>= _) = _
      rw [hparse]
      refine batchLoop_done ?_
      by_cases hfails : outcome.Fails
      · obtain ⟨recorded, hresult⟩ := hfails
        rw [absorb_fails hresult]
        cases hremain : outcome.remain with
        | none => exact Or.inl rfl
        | some remaining => exact Or.inr rfl
      · have hnone := hend.resolve_right hfails
        cases hst : outcome.statement with
        | none =>
          rw [absorb_empty hst hfails]
          exact Or.inl hnone
        | some stmt =>
          rw [absorb_statement hst]
          exact Or.inl hnone
    · by_cases hfails : outcome.Fails
      · exact Or.inr ⟨[], outcome, s, parser', rfl, hfails, nofun, by rwa [List.append_nil], rfl⟩
      · refine Or.inl ⟨?_, hs.absorb hfails _⟩
        intro o ho
        obtain rfl := List.mem_singleton.1 ho
        exact hfails
  | @more parser parser' sql remaining outcome outcomes hparse hremain hok _ ih =>
    obtain ⟨fuel, rfl⟩ : ∃ n, fuel = n + 1 := ⟨fuel - 1, by omega⟩
    subst hparser
    have hlt := parseString_consumes hparse remaining hremain hok
    have habsorbed : (s.absorb parser' outcome).parser = parser' ∧
        (s.absorb parser' outcome).intSql = some remaining := by
      cases hst : outcome.statement with
      | none =>
        rw [absorb_empty hst hok]
        exact ⟨rfl, hremain⟩
      | some stmt =>
        rw [absorb_statement hst]
        exact ⟨rfl, hremain⟩
    have hfuel' : remaining.1.length + 1 < fuel := by omega
    obtain ⟨s', hs', hends⟩ := ih (hs.absorb hok parser') habsorbed.1 habsorbed.2 hfuel'
    refine ⟨s', ?_, hends.cons hok⟩
    rw [batchLoop, hsql, hs.allok]
    show (parseString types lemon s.parser sql >>= _) = _
    rw [hparse]
    exact hs'

theorem parseStringAsBatch_splits (h : Splits types lemon parser sql outcomes) :
    ∃ s, parseStringAsBatch types lemon parser sql = .ok s.result ∧ EndsOn [] outcomes s := by
  have hfuel : sql.1.length + 1 < sql.1.length + 2 := Nat.lt_succ_self _
  have hstart : Counted ([] : List (ParseOutcome T S))
      { parser := parser
        statements := []
        nEmpty := 0
        error := none
        intSql := some sql
        allok := true } := ⟨rfl, fun h => absurd rfl h, rfl, rfl⟩
  obtain ⟨s, hs, hends⟩ := batchLoop_splits h hstart rfl rfl hfuel
  exact ⟨s, by rw [parseStringAsBatch, hs]; rfl, hends⟩

theorem reports_parsed (hne : outcomes ≠ []) (hall : ∀ outcome ∈ outcomes, ¬ outcome.Fails)
    (hs : Counted outcomes s) : ReportsScript outcomes s.result := by
  refine Or.inr ⟨hall, ?_⟩
  rw [BatchState.result, hs.allok, hs.error, ← hs.statements]
  by_cases hnil : s.statements = []
  · have hempty := hs.nEmpty hne hnil
    exact Or.inr ⟨hnil, by simp [hnil], by simp [hnil, hempty]⟩
  · exact Or.inl ⟨hnil, by simp [hnil], by simp [hnil]⟩

theorem Counted.result_fails {parsed : List (ParseOutcome T S)} {recorded : Option RecordedError}
    (hs : Counted parsed s) (hresult : outcome.result = .error (.parse recorded))
    (parser : GdaSqlParser) :
    (s.absorb parser outcome).result.error = some (.parse recorded) ∧
      ((s.absorb parser outcome).result.batch = none ↔
        s.statements = [] ∨ outcome.remain ≠ none) := by
  rw [absorb_fails hresult, BatchState.result, hs.error, hs.allok]
  by_cases hnil : s.statements = []
  · simp [hnil]
  · cases hremain : outcome.remain with
    | none => simp [hnil]
    | some remaining => simp [hnil]

theorem Splits.ne_nil (h : Splits types lemon parser sql outcomes) : outcomes ≠ [] := by
  cases h <;> exact List.cons_ne_nil _ _

/-- The batch ends, and reports the script but where statements were found before the one which
cannot be parsed and nothing remains behind it. -/
theorem parseStringAsBatch_reports_iff {T S G : Type} (types : GTypes T)
    (lemon : LemonParser G (GdaSqlParsedStatement T S)) (parser : GdaSqlParser) (sql : CString) :
    parseStringAsBatch types lemon parser sql ≠ .error .outOfFuel ∧
      ((∃ outcomes r, Splits types lemon parser sql outcomes ∧
          parseStringAsBatch types lemon parser sql = .ok r ∧ ReportsScript outcomes r) ↔
        ∃ outcomes, Splits types lemon parser sql outcomes ∧ ¬ LastFails outcomes) := by
  refine ⟨?_, ?_, ?_⟩
  · intro h
    have hends : Ends (parseStringAsBatch types lemon parser sql) := by
      refine (batchLoop_ends _ _ ?_ (Nat.succ_pos _)).map _
      intro sql' hsql _
      cases hsql
      exact Nat.lt_succ_self _
    exact hends _ h rfl
  · rintro ⟨outcomes, r, hsplits, hr, hreports⟩
    refine ⟨outcomes, hsplits, ?_⟩
    rintro ⟨hstatements, outcome, hmem, hfails, hremain⟩
    obtain ⟨s, hs, hends⟩ := parseStringAsBatch_splits hsplits
    rw [hs] at hr
    cases hr
    rcases hends with ⟨hall, -⟩ | ⟨parsed, last, s', parser', rfl, hlast, hall, hcounted, rfl⟩
    · exact hall outcome hmem hfails
    obtain ⟨recorded, hresult⟩ := hlast
    have hlastmem : last ∈ parsed ++ [last] := List.mem_append_right _ (List.mem_singleton_self _)
    obtain rfl : outcome = last := by
      rcases List.mem_append.1 hmem with hp | hp
      · exact absurd hfails (hall outcome hp)
      · exact List.mem_singleton.1 hp
    have hsome : (s'.absorb parser' outcome).result.batch ≠ none := by
      intro hnone
      rcases (hcounted.result_fails hresult parser').2.1 hnone with hnil | hne
      · rw [statements_fails hfails] at hstatements
        exact hstatements (hcounted.statements.symm.trans hnil)
      · exact hne hremain
    rcases hreports with ⟨_, _, _, _, hnone, _⟩ | ⟨hall', _⟩
    · exact hsome hnone
    · exact hall' outcome hlastmem hfails
  · rintro ⟨outcomes, hsplits, hno⟩
    obtain ⟨s, hs, hends⟩ := parseStringAsBatch_splits hsplits
    refine ⟨outcomes, s.result, hsplits, hs, ?_⟩
    rcases hends with ⟨hall, hcounted⟩ | ⟨parsed, last, s', parser', rfl, hlast, hall,
      hcounted, rfl⟩
    · exact reports_parsed hsplits.ne_nil hall hcounted
    · obtain ⟨recorded, hresult⟩ := id hlast
      have hlastmem : last ∈ parsed ++ [last] := List.mem_append_right _ (List.mem_singleton_self _)
      have hreport := hcounted.result_fails hresult parser'
      refine Or.inl ⟨last, hlastmem, recorded, hresult, hreport.2.2 ?_, hreport.1⟩
      by_cases hnil : s'.statements = []
      · exact Or.inl hnil
      · refine Or.inr ?_
        intro hremain
        apply hno
        refine ⟨?_, last, hlastmem, hlast, hremain⟩
        rw [statements_fails hlast]
        exact fun h => hnil (hcounted.statements.trans h)

end Outcomes

/-- `##` with no specification cannot be parsed, and nothing remains behind it: the batch of the
first statement comes with the error. -/
theorem lastUnparsed_not_reported :
    ¬ ∀ (types : GTypes Nat) (parser : GdaSqlParser) (sql : CString),
      ∃ (outcomes : List (ParseOutcome Nat Unit)) (r : BatchResult Nat Unit),
        Splits types (Delimiter.grammar types Unit) parser sql outcomes ∧
          parseStringAsBatch types (Delimiter.grammar types Unit) parser sql = .ok r ∧
            ReportsScript outcomes r := by
  intro h
  have hbatch : ∃ r, parseStringAsBatch numberedTypes (Delimiter.grammar numberedTypes Unit)
      standardParser ⟨"a;##".toList, by decide⟩ = .ok r ∧
        r.batch.isSome = true ∧ r.error.isSome = true := ⟨_, rfl, rfl, rfl⟩
  obtain ⟨r, hr, hbatch, herror⟩ := hbatch
  obtain ⟨outcomes, r', -, hr', hreports⟩ := h numberedTypes standardParser
    ⟨"a;##".toList, by decide⟩
  rw [hr] at hr'
  cases hr'
  rcases hreports with ⟨_, _, _, _, hnone, _⟩ | ⟨_, ⟨_, _, hnone⟩ | ⟨_, hnone, _⟩⟩
  · rw [hnone] at hbatch
    cases hbatch
  · rw [hnone] at herror
    cases herror
  · rw [hnone] at hbatch
    cases hbatch

end LibGda
