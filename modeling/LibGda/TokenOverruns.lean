import LibGda.TokenLexemes

/-! The texts at which `getToken` reads behind the terminator, through the properties of the
parameters and the composed keywords, and what each call does elsewhere. -/

namespace LibGda

open TerminatedBuffer GdaSqlParser

/-- The texts at which `getToken` reads behind the terminator: at the start, behind the name of a
property, or behind the first word of a composed keyword. -/
inductive Overruns (mode : GdaSqlParserMode) (flavour : GdaSqlParserFlavour) (delimiter : Char) :
    Bool → List Char → Prop
  | start {inParamSpec : Bool} {z : List Char} : z.head? ≠ some delimiter →
    StartCut flavour z → Overruns mode flavour delimiter inParamSpec z
  | property {inParamSpec : Bool} {z rest : List Char} : z.head? ≠ some delimiter →
    (mode = .delimit ∨ inParamSpec = true) → PropertyName z rest →
    Overruns mode flavour delimiter inParamSpec rest → Overruns mode flavour delimiter inParamSpec z
  | keyword {z rest : List Char} : z.head? ≠ some delimiter → FirstKeyword z rest →
    Overruns mode flavour delimiter false rest → Overruns mode flavour delimiter false z
  | keywordSpace {z rest after : List Char} : z.head? ≠ some delimiter → FirstKeyword z rest →
    LeadingSpace delimiter rest after → Overruns mode flavour delimiter false after →
    Overruns mode flavour delimiter false z

namespace GdaSqlParser

def overruns (parser : GdaSqlParser) : Prop :=
  Overruns parser.mode parser.flavour parser.context.delimiter parser.context.inParamSpec parser.rest

structure Kept (parser parser' : GdaSqlParser) : Prop where
  sql : parser'.sql = parser.sql
  mode : parser'.mode = parser.mode
  flavour : parser'.flavour = parser.flavour
  delimiter : parser'.context.delimiter = parser.context.delimiter
  blockLevel : parser'.context.blockLevel = parser.context.blockLevel
  ignoreSemi : parser'.context.ignoreSemi = parser.context.ignoreSemi
  pushedContexts : parser'.pushedContexts = parser.pushedContexts
  ahead : parser.context.nextTokenStart ≤ parser'.context.nextTokenStart
  within : parser'.context.nextTokenStart ≤ parser.sql.1.length

structure TokenRead (parser : GdaSqlParser) (r : GdaSqlParser × TokenValue) : Prop where
  kept : Kept parser r.1
  progress : r.1.context.nextTokenStart = parser.context.nextTokenStart →
    r.1.context.tokenType = .endOfFile ∧ parser.rest = [] ∨
      r.1.context.tokenType = .illegal ∧ Unterminated parser.rest
  space : r.1.context.tokenType = .space →
    r.1.context.inParamSpec = parser.context.inParamSpec ∧
      LeadingSpace parser.context.delimiter parser.rest r.1.rest
  leading : ∀ rest, LeadingSpace parser.context.delimiter parser.rest rest →
    r.1.context.tokenType = .space ∧ r.1.rest = rest

section Lookahead

variable {parser : GdaSqlParser} {next : GdaSqlParser → Except ScanFault (GdaSqlParser × TokenValue)}

def lookaheadCut (parser : GdaSqlParser) : Prop :=
  Overruns parser.mode parser.flavour parser.context.delimiter false parser.rest ∨
    ∃ after, LeadingSpace parser.context.delimiter parser.rest after ∧
      Overruns parser.mode parser.flavour parser.context.delimiter false after

/-- The calls which start from `parser` on are known. -/
def ReadsNext (parser : GdaSqlParser)
    (next : GdaSqlParser → Except ScanFault (GdaSqlParser × TokenValue)) : Prop :=
  ∀ p : GdaSqlParser, p.sql = parser.sql →
    parser.context.nextTokenStart ≤ p.context.nextTokenStart →
    p.context.nextTokenStart ≤ parser.sql.1.length → Reads p.overruns (TokenRead p) (next p)

theorem popTokenizerContext_eq {p : GdaSqlParser} (hsql : p.sql = parser.sql)
    (hmode : p.mode = parser.mode) (hflavour : p.flavour = parser.flavour)
    (hpushed : p.pushedContexts = parser.context :: parser.pushedContexts) :
    p.popTokenizerContext = parser := by
  obtain ⟨sql, mode, flavour, context, pushed⟩ := p
  simp only at hsql hmode hflavour hpushed
  subst hsql hmode hflavour hpushed
  rfl

def Fetched (parser : GdaSqlParser) (r : GdaSqlParser × Option (TokenValue × Nat)) : Prop :=
  match r.2 with
  | none => r.1 = parser
  | some (_, n) =>
    (∃ contexts, r.1.pushedContexts = contexts ++ parser.context :: parser.pushedContexts ∧
      contexts.length + 1 = n) ∧
      Kept parser { r.1 with pushedContexts := parser.pushedContexts }

theorem reads_fetchForward (hnext : ReadsNext parser next)
    (hparam : parser.context.inParamSpec = false)
    (hwithin : parser.context.nextTokenStart ≤ parser.sql.1.length) (second : TokenType) :
    Reads parser.lookaheadCut (Fetched parser) (fetchForward next parser second) := by
  have hfirst : Reads parser.pushTokenizerContext.overruns _ _ :=
    hnext parser.pushTokenizerContext rfl (Nat.le_refl _) hwithin
  have hcut : parser.pushTokenizerContext.overruns ↔
      Overruns parser.mode parser.flavour parser.context.delimiter false parser.rest := by
    rw [overruns, ← hparam]
    exact Iff.rfl
  rw [fetchForward]
  rcases hfirst.congr hcut with ⟨hover, herr⟩ | ⟨hno, ⟨p1, v1⟩, hok, hread⟩
  · rw [herr]
    exact .error (Or.inl hover)
  rw [hok]
  show Reads _ _ (if p1.context.tokenType = .space then _ else _)
  have hpop1 : p1.popTokenizerContext = parser :=
    popTokenizerContext_eq hread.kept.sql hread.kept.mode hread.kept.flavour hread.kept.pushedContexts
  by_cases hspace : p1.context.tokenType = .space
  · rw [if_pos hspace]
    obtain ⟨hp1, hleading⟩ := hread.space hspace
    have hlater : Reads p1.pushTokenizerContext.overruns _ _ :=
      hnext p1.pushTokenizerContext hread.kept.sql hread.kept.ahead hread.kept.within
    have hcut2 : p1.pushTokenizerContext.overruns ↔ parser.lookaheadCut := by
      have hp1rest : p1.pushTokenizerContext.overruns ↔
          Overruns parser.mode parser.flavour parser.context.delimiter false p1.rest := by
        have hmode : p1.mode = parser.mode := hread.kept.mode
        have hflavour : p1.flavour = parser.flavour := hread.kept.flavour
        have hdelimiter : p1.context.delimiter = parser.context.delimiter := hread.kept.delimiter
        have hspec : p1.context.inParamSpec = false := hp1.trans hparam
        rw [← hmode, ← hflavour, ← hdelimiter, ← hspec]
        exact Iff.rfl
      rw [hp1rest]
      constructor
      · intro h
        exact Or.inr ⟨p1.rest, hleading, h⟩
      · rintro (h | ⟨after, hafter, h⟩)
        · exact absurd h hno
        · rwa [(hread.leading after hafter).2]
    refine (hlater.congr hcut2).bind_ok ?_
    rintro - ⟨p2, v2⟩ hread2
    by_cases hsecond : p2.context.tokenType = second
    · simp only [if_pos hsecond]
      refine ⟨_, rfl, ⟨[p1.context], ?_, rfl⟩, ?_⟩
      · rw [hread2.kept.pushedContexts]
        show p1.context :: p1.pushedContexts = _
        rw [hread.kept.pushedContexts]
        rfl
      · exact ⟨hread2.kept.sql.trans hread.kept.sql, hread2.kept.mode.trans hread.kept.mode,
          hread2.kept.flavour.trans hread.kept.flavour,
          hread2.kept.delimiter.trans hread.kept.delimiter,
          hread2.kept.blockLevel.trans hread.kept.blockLevel,
          hread2.kept.ignoreSemi.trans hread.kept.ignoreSemi, rfl,
          Nat.le_trans hread.kept.ahead hread2.kept.ahead,
          hread.kept.sql ▸ hread2.kept.within⟩
    · simp only [if_neg hsecond]
      have hpop2 : p2.popTokenizerContext = p1 :=
        popTokenizerContext_eq hread2.kept.sql hread2.kept.mode hread2.kept.flavour
          hread2.kept.pushedContexts
      refine ⟨_, rfl, ?_⟩
      show p2.popTokenizerContext.popTokenizerContext = parser
      rw [hpop2, hpop1]
  · rw [if_neg hspace]
    have hnocut : ¬ parser.lookaheadCut := by
      rintro (h | ⟨after, hleading, -⟩)
      · exact hno h
      · exact hspace (hread.leading after hleading).1
    by_cases hsecond : p1.context.tokenType = second
    · rw [if_pos hsecond]
      refine .ok hnocut ⟨⟨[], hread.kept.pushedContexts, rfl⟩, ?_⟩
      exact ⟨hread.kept.sql, hread.kept.mode, hread.kept.flavour, hread.kept.delimiter,
        hread.kept.blockLevel, hread.kept.ignoreSemi, rfl, hread.kept.ahead, hread.kept.within⟩
    · rw [if_neg hsecond]
      exact .ok hnocut hpop1

theorem Kept.refl (hwithin : parser.context.nextTokenStart ≤ parser.sql.1.length) :
    Kept parser parser :=
  ⟨rfl, rfl, rfl, rfl, rfl, rfl, rfl, Nat.le_refl _, hwithin⟩

theorem mergeTokenizerContexts_kept {p : GdaSqlParser} {contexts : List TokenizerContext} {n : Nat}
    (hpushed : p.pushedContexts = contexts ++ parser.context :: parser.pushedContexts)
    (hn : contexts.length + 1 = n)
    (hkept : Kept parser { p with pushedContexts := parser.pushedContexts }) :
    Kept parser (p.mergeTokenizerContexts n) := by
  have hget : p.pushedContexts[n - 1]? = some parser.context := by
    rw [hpushed, ← hn, Nat.add_sub_cancel, List.getElem?_append_right (Nat.le_refl _), Nat.sub_self]
    rfl
  have hdrop : p.pushedContexts.drop n = parser.pushedContexts := by
    rw [hpushed, ← hn, ← List.drop_drop, List.drop_left]
    rfl
  rw [mergeTokenizerContexts, hget]
  exact ⟨hkept.sql, hkept.mode, hkept.flavour, rfl, hkept.blockLevel, hkept.ignoreSemi, hdrop,
    hkept.ahead, hkept.within⟩

theorem reads_tryCompositions (hnext : ReadsNext parser next)
    (hparam : parser.context.inParamSpec = false)
    (hwithin : parser.context.nextTokenStart ≤ parser.sql.1.length)
    {tries : List (TokenType × TokenType)} (hne : tries ≠ []) (retval : TokenValue) :
    Reads parser.lookaheadCut (fun r => Kept parser r.1 ∧
      (r.1.context.tokenType = parser.context.tokenType ∨
        ∃ composition ∈ tries, r.1.context.tokenType = composition.2))
      (tryCompositions next tries parser retval) := by
  induction tries with
  | nil => exact absurd rfl hne
  | cons composition others ih =>
    obtain ⟨second, replacer⟩ := composition
    rw [tryCompositions, handleComposed2Keywords]
    rcases reads_fetchForward hnext hparam hwithin second with ⟨hcut, herr⟩ | ⟨hno, ⟨p, r⟩, hok, hp⟩
    · rw [herr]
      exact .error hcut
    rw [hok]
    cases r with
    | some found =>
      obtain ⟨v, n⟩ := found
      obtain ⟨⟨contexts, hpushed, hn⟩, hkept⟩ := hp
      have hmerged := mergeTokenizerContexts_kept hpushed hn hkept
      refine .ok hno ⟨?_, Or.inr ⟨(second, replacer), List.mem_cons_self .., rfl⟩⟩
      exact ⟨hmerged.sql, hmerged.mode, hmerged.flavour, hmerged.delimiter, hmerged.blockLevel,
        hmerged.ignoreSemi, hmerged.pushedContexts, hmerged.ahead, hmerged.within⟩
    | none =>
      obtain rfl : p = parser := hp
      show Reads _ _ (tryCompositions next others p retval)
      cases others with
      | nil => exact .ok hno ⟨Kept.refl hwithin, Or.inl rfl⟩
      | cons other others =>
        refine (ih (List.cons_ne_nil _ _)).imp ?_
        rintro r ⟨hkept, htype | ⟨composition, hmem, htype⟩⟩
        · exact ⟨hkept, Or.inl htype⟩
        · exact ⟨hkept, Or.inr ⟨composition, List.mem_cons_of_mem _ hmem, htype⟩⟩

end Lookahead

end GdaSqlParser

section Inversion

variable {mode : GdaSqlParserMode} {flavour : GdaSqlParserFlavour} {delimiter c : Char}
  {inParamSpec : Bool} {text rest : List Char}

theorem not_overruns_delimiter : ¬ Overruns mode flavour delimiter inParamSpec (delimiter :: text) := by
  intro h
  cases h with
  | start hd _ => exact hd rfl
  | property hd _ _ _ => exact hd rfl
  | keyword hd _ _ => exact hd rfl
  | keywordSpace hd _ _ _ => exact hd rfl

theorem not_firstKeyword_nil : ¬ FirstKeyword [] rest := by
  rintro ⟨word, -, hmem, -, heq⟩
  obtain ⟨rfl, rfl⟩ := List.append_eq_nil_iff.1 heq.symm
  exact absurd hmem (by decide)

theorem not_propertyName_nil : ¬ PropertyName [] rest := by
  rintro ⟨property, hmem, heq⟩
  obtain ⟨c, word, hname, -⟩ := property_word hmem
  rw [hname] at heq
  cases heq

theorem not_overruns_nil : ¬ Overruns mode flavour delimiter inParamSpec [] := by
  intro h
  cases h with
  | start _ h =>
    rcases h with ⟨_, _, _, _, h⟩ | ⟨_, tag, t, ⟨name, -, rfl⟩, h, -⟩ <;> cases h
  | property _ _ h _ => exact not_propertyName_nil h
  | keyword _ h _ => exact not_firstKeyword_nil h
  | keywordSpace _ h _ _ => exact not_firstKeyword_nil h

theorem overruns_inversion {lexeme : Lexeme} (hno : ¬ StartCut flavour (c :: text))
    (hok : readLexeme mode flavour delimiter inParamSpec c (c :: text) = .ok lexeme)
    (h : Overruns mode flavour delimiter inParamSpec (c :: text)) :
    (∃ n type, lexeme = .paramProperty n type ∧
      Overruns mode flavour delimiter inParamSpec ((c :: text).drop n)) ∨
    ∃ s type, lexeme = .token s ∧ s.tokenType = some type ∧ compositions type ≠ [] ∧
      (Overruns mode flavour delimiter false ((c :: text).drop s.consumedChars) ∨
        ∃ after, LeadingSpace delimiter ((c :: text).drop s.consumedChars) after ∧
          Overruns mode flavour delimiter false after) := by
  cases h with
  | start _ h => exact absurd h hno
  | property _ hm hname hover =>
    have hproperty : ∃ n type, readLexeme mode flavour delimiter inParamSpec c (c :: text) = _ ∧ _ :=
      readLexeme_property hm hname
    obtain ⟨n, type, hread, rfl⟩ := hproperty
    rw [hok] at hread
    exact Or.inl ⟨n, type, Except.ok.inj hread, hover⟩
  | keyword _ hword hover =>
    have hkeyword : ∃ s type, readLexeme mode flavour delimiter false c (c :: text) = _ ∧ _ :=
      readLexeme_keyword hword
    obtain ⟨s, type, hread, htype, hne, rfl⟩ := hkeyword
    rw [hok] at hread
    exact Or.inr ⟨s, type, Except.ok.inj hread, htype, hne, Or.inl hover⟩
  | keywordSpace _ hword hspace hover =>
    have hkeyword : ∃ s type, readLexeme mode flavour delimiter false c (c :: text) = _ ∧ _ :=
      readLexeme_keyword hword
    obtain ⟨s, type, hread, htype, hne, rfl⟩ := hkeyword
    rw [hok] at hread
    exact Or.inr ⟨s, type, Except.ok.inj hread, htype, hne, Or.inr ⟨_, hspace, hover⟩⟩

end Inversion

namespace GdaSqlParser

variable {parser : GdaSqlParser}

theorem length_rest (parser : GdaSqlParser) :
    parser.rest.length = parser.sql.1.length - parser.context.nextTokenStart :=
  List.length_drop

theorem rest_tokEnd (type : TokenType) (n : Nat) (b : Bool) :
    (parser.tokEnd type n b).rest = parser.rest.drop n :=
  (List.drop_drop ..).symm

theorem rest_skipPrefix (n : Nat) : (parser.skipPrefix n).rest = parser.rest.drop n :=
  (List.drop_drop ..).symm

theorem tokEnd_kept {n : Nat} (hwithin : parser.context.nextTokenStart ≤ parser.sql.1.length)
    (hn : n ≤ parser.rest.length) (type : TokenType) (b : Bool) :
    Kept parser (parser.tokEnd type n b) where
  sql := rfl
  mode := rfl
  flavour := rfl
  delimiter := rfl
  blockLevel := rfl
  ignoreSemi := rfl
  pushedContexts := rfl
  ahead := Nat.le_add_right _ _
  within := by
    rw [length_rest] at hn
    show parser.context.nextTokenStart + n ≤ _
    omega

theorem Kept.trans {p q : GdaSqlParser} (h : Kept parser p) (h' : Kept p q) : Kept parser q :=
  ⟨h'.sql.trans h.sql, h'.mode.trans h.mode, h'.flavour.trans h.flavour,
    h'.delimiter.trans h.delimiter, h'.blockLevel.trans h.blockLevel,
    h'.ignoreSemi.trans h.ignoreSemi, h'.pushedContexts.trans h.pushedContexts,
    Nat.le_trans h.ahead h'.ahead, h.sql ▸ h'.within⟩

theorem composition_ne_space {type : TokenType} {composition : TokenType × TokenType}
    (h : composition ∈ compositions type) : composition.2 ≠ .space := by
  unfold compositions at h
  split at h <;> revert composition <;> decide

section Lexemes

variable {c : Char} {text : List Char} {s : Scanned}

theorem tokenRead_alone (hwithin : parser.context.nextTokenStart ≤ parser.sql.1.length)
    (hrest : parser.rest = c :: text)
    (hok : readLexeme parser.mode parser.flavour parser.context.delimiter parser.context.inParamSpec
      c parser.rest = .ok (.token s))
    (hread : LexemeRead parser.mode parser.context.delimiter parser.context.inParamSpec parser.rest
      (.token s))
    (hcomposed : compositions (s.tokenType.getD .illegal) = []) (v : TokenValue) :
    TokenRead parser
      (parser.tokEnd (s.tokenType.getD .illegal) s.consumedChars s.inParamSpec, v) := by
  have hleading : ∀ rest, LeadingSpace parser.context.delimiter parser.rest rest →
      s.tokenType.getD .illegal = .space ∧ parser.rest.drop s.consumedChars = rest := by
    intro rest h
    rw [hrest] at h hok ⊢
    have hspace : ∃ s, readLexeme parser.mode parser.flavour parser.context.delimiter
        parser.context.inParamSpec c (c :: text) = _ ∧ _ := readLexeme_space h
    obtain ⟨s', hs', htype, hdrop⟩ := hspace
    rw [hok] at hs'
    obtain rfl : s = s' := Lexeme.token.inj (Except.ok.inj hs')
    rw [htype]
    exact ⟨rfl, hdrop⟩
  cases hread with
  | plain hconsumed hplain =>
    refine ⟨tokEnd_kept hwithin ?_ _ _, ?_, ?_, ?_⟩
    · rcases hconsumed with ⟨-, h⟩ | ⟨-, -, h⟩
      · exact h
      · omega
    · intro h
      have h0 : s.consumedChars = 0 := Nat.add_eq_left.1 h
      rcases hconsumed with ⟨hpos, -⟩ | ⟨hu, ht, -⟩
      · omega
      · refine Or.inr ⟨?_, hu⟩
        show s.tokenType.getD .illegal = .illegal
        rw [ht]
        rfl
    · intro h
      exact absurd h hplain.2
    · intro rest h
      rw [rest_tokEnd]
      exact hleading rest h
  | space htype hparam hpos hle hspace =>
    refine ⟨tokEnd_kept hwithin hle _ _, ?_, ?_, ?_⟩
    · intro h
      have h0 : s.consumedChars = 0 := Nat.add_eq_left.1 h
      omega
    · intro _
      rw [rest_tokEnd]
      exact ⟨hparam, hspace⟩
    · intro rest h
      rw [rest_tokEnd]
      exact hleading rest h
  | keyword _ _ htype hne _ _ _ _ =>
    rw [htype] at hcomposed
    exact absurd hcomposed hne

end Lexemes

theorem reads_getTokenWithFuel (fuel : Nat) (parser : GdaSqlParser)
    (hwithin : parser.context.nextTokenStart ≤ parser.sql.1.length)
    (hfuel : parser.rest.length < fuel) :
    Reads parser.overruns (TokenRead parser) (getTokenWithFuel fuel parser) := by
  induction fuel generalizing parser with
  | zero => exact absurd hfuel (Nat.not_lt_zero _)
  | succ fuel ih =>
    rw [getTokenWithFuel]
    split
    · rename_i hrest
      have hno : ¬ parser.overruns := by
        rw [overruns, hrest]
        exact not_overruns_nil
      refine .ok hno ⟨tokEnd_kept hwithin (Nat.zero_le _) _ _, fun _ => Or.inl ⟨rfl, hrest⟩, nofun, ?_⟩
      rintro rest ⟨c, run, -, -, -, -, -, heq⟩
      rw [hrest] at heq
      cases heq
    rename_i c text hrest
    have hlen : parser.rest.length = text.length + 1 := by rw [hrest, List.length_cons]
    by_cases hd : c = parser.context.delimiter
    · rw [if_pos hd]
      subst hd
      have hno : ¬ parser.overruns := by
        rw [overruns, hrest]
        exact not_overruns_delimiter
      have hne : ∀ p : Prop, [Decidable p] → (if p then TokenType.semi else .rawString) ≠ .space := by
        intro p _
        split <;> decide
      refine .ok hno ⟨tokEnd_kept hwithin (by omega) _ _, ?_, ?_, ?_⟩
      · intro h
        exact absurd h (Nat.succ_ne_self _)
      · intro h
        exact absurd h (hne _)
      · rintro rest ⟨c, run, -, hc, -, -, -, heq⟩
        rw [hrest] at heq
        cases heq
        exact absurd rfl hc
    rw [if_neg hd]
    have hhead : parser.rest.head? ≠ some parser.context.delimiter := by
      rw [hrest]
      exact fun h => hd (Option.some.inj h)
    have hlexeme : Reads _ _ (readLexeme parser.mode parser.flavour parser.context.delimiter
        parser.context.inParamSpec c (c :: text)) := reads_readLexeme hd
    rw [← hrest] at hlexeme
    rcases hlexeme with ⟨hcut, herr⟩ | ⟨hnocut, lexeme, hok, hread⟩
    · rw [herr]
      exact .error (.start hhead hcut)
    rw [hok]
    have hinv : parser.overruns → _ := fun h => overruns_inversion (hrest ▸ hnocut) (hrest ▸ hok) (hrest ▸ h)
    rw [← hrest] at hinv
    have hspace : ∀ rest, LeadingSpace parser.context.delimiter parser.rest rest →
        ∃ s, lexeme = .token s ∧ s.tokenType = some .space := by
      intro rest h
      rw [hrest] at h hok
      have hlexeme : ∃ s, readLexeme parser.mode parser.flavour parser.context.delimiter
          parser.context.inParamSpec c (c :: text) = _ ∧ _ := readLexeme_space h
      obtain ⟨s, hs, htype, -⟩ := hlexeme
      rw [hok] at hs
      exact ⟨s, Except.ok.inj hs, htype⟩
    cases lexeme with
    | paramProperty n type =>
      cases hread with
      | property hm htype hpos hle hname =>
      have hskip : (parser.skipPrefix n).context.nextTokenStart ≤ parser.sql.1.length := by
        rw [length_rest] at hle
        show parser.context.nextTokenStart + n ≤ _
        omega
      have hrec := ih (parser.skipPrefix n) hskip (by rw [rest_skipPrefix, List.length_drop]; omega)
      have hcut : (parser.skipPrefix n).overruns ↔ parser.overruns := by
        have hsame : (parser.skipPrefix n).overruns ↔ Overruns parser.mode parser.flavour
            parser.context.delimiter parser.context.inParamSpec (parser.rest.drop n) := by
          rw [← rest_skipPrefix]
          exact Iff.rfl
        rw [hsame]
        constructor
        · exact .property hhead hm hname
        · intro h
          rcases hinv h with ⟨m, t, heq, hover⟩ | ⟨s, t, heq, -⟩
          · cases heq
            exact hover
          · cases heq
      refine (hrec.congr hcut).bind_ok ?_
      rintro - ⟨p, v⟩ hp
      refine ⟨_, rfl, ?_, ?_, ?_, ?_⟩
      · have hkept := hp.kept
        exact ⟨hkept.sql, hkept.mode, hkept.flavour, hkept.delimiter, hkept.blockLevel,
          hkept.ignoreSemi, hkept.pushedContexts, Nat.le_trans (Nat.le_add_right _ _) hkept.ahead, hkept.within⟩
      · intro h
        have h' : p.context.nextTokenStart = parser.context.nextTokenStart := h
        have hahead : parser.context.nextTokenStart + n ≤ p.context.nextTokenStart := hp.kept.ahead
        omega
      · intro h
        exact absurd h htype
      · intro rest h
        obtain ⟨s, hs, -⟩ := hspace rest h
        cases hs
    | token s =>
      by_cases hcomposed : compositions (s.tokenType.getD .illegal) = []
      · have hno : ¬ parser.overruns := by
          intro h
          rcases hinv h with ⟨m, t, heq, -⟩ | ⟨s', t, heq, htype, hne, -⟩
          · cases heq
          · cases heq
            rw [htype] at hcomposed
            exact hne hcomposed
        show Reads _ _ (tryCompositions _ (compositions (s.tokenType.getD .illegal)) _ _)
        rw [hcomposed]
        exact .ok hno (tokenRead_alone hwithin hrest hok hread hcomposed _)
      · cases hread with
        | plain _ hplain => exact absurd hplain.1 hcomposed
        | space htype _ _ _ _ =>
          rw [htype] at hcomposed
          exact absurd rfl hcomposed
        | @keyword _ type hparam hparam' htype hne hnotspace hpos hle hword =>
        have hstart : (parser.tokEnd type s.consumedChars false).context.nextTokenStart ≤
            parser.sql.1.length := (tokEnd_kept hwithin hle _ _).within
        have hnext : ReadsNext (parser.tokEnd type s.consumedChars false) (getTokenWithFuel fuel) := by
          intro p hsql hahead hp
          have hp' : p.context.nextTokenStart ≤ p.sql.1.length := by
            rw [hsql]
            exact hp
          refine ih p hp' ?_
          have hahead' : parser.context.nextTokenStart + s.consumedChars ≤ p.context.nextTokenStart :=
            hahead
          have hsql' : p.sql = parser.sql := hsql
          rw [length_rest] at hfuel ⊢
          rw [hsql'] at hp' ⊢
          omega
        have hcut : (parser.tokEnd type s.consumedChars false).lookaheadCut ↔ parser.overruns := by
          rw [lookaheadCut, rest_tokEnd]
          constructor
          · intro h
            rw [overruns, hparam]
            rcases h with h | ⟨after, hafter, h⟩
            · exact .keyword hhead hword h
            · exact .keywordSpace hhead hword hafter h
          · intro h
            rcases hinv h with ⟨m, t, heq, -⟩ | ⟨s', t, heq, -, -, hover⟩
            · cases heq
            · cases heq
              exact hover
        have hread := (reads_tryCompositions hnext rfl hstart hne
          (some (s.retval.getD (parser.rest.take s.consumedChars)))).congr hcut
        show Reads _ _ (tryCompositions (getTokenWithFuel fuel)
          (compositions (s.tokenType.getD .illegal))
          (parser.tokEnd (s.tokenType.getD .illegal) s.consumedChars s.inParamSpec) _)
        rw [htype, hparam']
        refine hread.imp ?_
        rintro ⟨p, v⟩ ⟨hkept, hp⟩
        have hne' : p.context.tokenType ≠ .space := by
          rcases hp with hp | ⟨composition, hmem, hp⟩
          · exact fun h => hnotspace (hp.symm.trans h)
          · exact fun h => composition_ne_space hmem (hp.symm.trans h)
        refine ⟨(tokEnd_kept hwithin hle _ _).trans hkept, ?_, ?_, ?_⟩
        · intro h
          have h' : p.context.nextTokenStart = parser.context.nextTokenStart := h
          have hahead : parser.context.nextTokenStart + s.consumedChars ≤ p.context.nextTokenStart :=
            hkept.ahead
          omega
        · intro h
          exact absurd h hne'
        · intro rest h
          obtain ⟨s', hs, hspace⟩ := hspace rest h
          cases hs
          rw [htype] at hspace
          exact absurd (Option.some.inj hspace) hnotspace

theorem reads_getToken (parser : GdaSqlParser)
    (hwithin : parser.context.nextTokenStart ≤ parser.sql.1.length) :
    Reads parser.overruns (TokenRead parser) parser.getToken := by
  have hfuel : parser.rest.length < parser.sql.1.length + 1 := by
    rw [length_rest]
    omega
  exact reads_getTokenWithFuel _ parser hwithin hfuel

theorem tokenRead_of_ok {parser : GdaSqlParser} {r : GdaSqlParser × TokenValue}
    (hwithin : parser.context.nextTokenStart ≤ parser.sql.1.length) (h : parser.getToken = .ok r) :
    TokenRead parser r := by
  rcases reads_getToken parser hwithin with ⟨-, herr⟩ | ⟨-, r', hok, hread⟩
  · rw [herr] at h
    cases h
  · rw [hok] at h
    exact Except.ok.inj h ▸ hread

/-- A call reads nothing behind the terminator, does not move behind it, and moves, but at the end
of the text and at a string without its closing quote. -/
def StaysWithin (parser : GdaSqlParser) : Prop :=
  ∃ parser' value, parser.getToken = .ok (parser', value) ∧
    parser'.context.nextTokenStart ≤ parser.sql.1.length ∧
    (parser.context.nextTokenStart < parser'.context.nextTokenStart ∨
      parser'.context.tokenType = .endOfFile ∨
        parser'.context.tokenType = .illegal ∧ Unterminated parser.rest)

theorem staysWithin_iff (parser : GdaSqlParser)
    (hwithin : parser.context.nextTokenStart ≤ parser.sql.1.length) :
    parser.StaysWithin ↔ ¬ Overruns parser.mode parser.flavour parser.context.delimiter
      parser.context.inParamSpec parser.rest := by
  have hreads := reads_getToken parser hwithin
  constructor
  · rintro ⟨parser', value, hok, -⟩ hover
    have herr := hreads.eq_error hover
    rw [hok] at herr
    cases herr
  · intro hno
    obtain ⟨⟨parser', value⟩, hok, hread⟩ := hreads.exists_ok hno
    refine ⟨parser', value, hok, hread.kept.within, ?_⟩
    rcases Nat.lt_or_eq_of_le hread.kept.ahead with hlt | heq
    · exact Or.inl hlt
    · rcases hread.progress heq.symm with ⟨hend, -⟩ | h
      · exact Or.inr (Or.inl hend)
      · exact Or.inr (Or.inr h)

def startContext : TokenizerContext where
  tokenType := .illegal
  nextTokenStart := 0
  lastTokenStart := 0
  delimiter := ';'
  inParamSpec := false
  blockLevel := 0
  ignoreSemi := false

def onText (sql : CString) (mode : GdaSqlParserMode) (flavour : GdaSqlParserFlavour) : GdaSqlParser where
  sql := sql
  mode := mode
  flavour := flavour
  context := startContext
  pushedContexts := []

theorem composedKeyword_not_overruns :
    ¬ Overruns .parse .postgresql ';' false "IS NULL 'a".toList :=
  (staysWithin_iff (onText ⟨"IS NULL 'a".toList, by decide⟩ .parse .postgresql)
    (Nat.zero_le _)).1 ⟨_, _, rfl, by decide, Or.inl (by decide)⟩

/-- A string whose only character is a backslash. -/
theorem escapedTerminator_overruns :
    ¬ ∀ parser : GdaSqlParser, parser.context.nextTokenStart ≤ parser.sql.1.length →
      parser.StaysWithin := by
  intro h
  obtain ⟨parser', value, hok, -⟩ := h (onText ⟨['\'', '\\'], by decide⟩ .parse .standard) (Nat.zero_le _)
  have herr : (onText ⟨['\'', '\\'], by decide⟩ .parse .standard).getToken = .error .beyondEnd := rfl
  rw [hok] at herr
  cases herr

end GdaSqlParser

end LibGda
