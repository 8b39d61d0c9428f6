import LibGda.RunInvariant
import LibGda.TokenOverruns

/-! The blocks of a statement read in DELIMIT mode: `block_level` against the constructs which the
words of the statement open and close. -/

namespace LibGda

open TerminatedBuffer RunInvariant

inductive Construct where
  | block
  | caseExpression
  deriving DecidableEq

/-- What the words read so far say: the constructs open, the innermost first, and whether a
declaration part is open. -/
structure Reading where
  constructs : List Construct
  declaring : Bool
  words : List TokenType
  deriving DecidableEq

abbrev Token := TokenType × TokenValue

namespace Reading

def blocks (r : Reading) : Nat := r.constructs.count .block

def beginsBlock (r : Reading) (t : Token) : Prop :=
  t.1 = .begin ∧ lowered (t.2.getD []) = "begin" ∧ r.words ≠ []

instance (r : Reading) (t : Token) : Decidable (r.beginsBlock t) :=
  inferInstanceAs (Decidable (_ ∧ _ ∧ _))

def endsConstruct (r : Reading) (t : Token) : Prop :=
  t.1 = .end ∧ r.words ≠ [] ∨ t.1 = .endLoop

instance (r : Reading) (t : Token) : Decidable (r.endsConstruct t) :=
  inferInstanceAs (Decidable (_ ∧ _ ∨ _))

def constructsAfter (r : Reading) (t : Token) : List Construct :=
  if r.beginsBlock t ∨ t.1 = .loop then .block :: r.constructs
  else if t.1 = .case then .caseExpression :: r.constructs
  else if r.endsConstruct t then r.constructs.tail
  else r.constructs

def declaringAfter (flavour : GdaSqlParserFlavour) (r : Reading) (t : Token) : Bool :=
  if t.1 = .declare ∨ flavour = .oracle ∧ (t.1 = .as ∨ t.1 = .is) ∧ .create ∈ r.words then true
  else if t.1 = .end ∧ r.words ≠ [] ∧ (r.constructsAfter t).count .block = 0 then false
  else r.declaring

def read (flavour : GdaSqlParserFlavour) (r : Reading) (t : Token) : Reading :=
  if t.1 = .sqlComment ∨ t.1 = .space ∨ t.1 = .illegal then r
  else
    { constructs := r.constructsAfter t
      declaring := r.declaringAfter flavour t
      words := r.words ++ [t.1] }

end Reading

inductive StatementFault where
  | scan (fault : ScanFault)
  | ended
  | otherToken
  deriving DecidableEq

/-- The loop reads the token `t`. -/
def readToken (s : StatementTokens × Reading) (t : Token) :
    Except StatementFault (StatementTokens × Reading) :=
  if s.1.ended then .error .ended
  else
    match s.1.nextToken with
    | .error fault => .error (.scan fault)
    | .ok (s', value) =>
      if (s'.parser.context.tokenType, value) = t then .ok (s', s.2.read s.1.parser.flavour t)
      else .error .otherToken

/-- The start of `gda_sql_parser_parse_string` in DELIMIT mode, on a parser which other texts may
have been given to. -/
def delimitStart (parser : GdaSqlParser) (sql : CString) : StatementTokens × Reading :=
  (.start { parser with mode := .delimit } sql,
    { constructs := [], declaring := parser.context.ignoreSemi, words := [] })

def atDelimiter (s : StatementTokens × Reading) : Prop :=
  s.1.parser.rest.head? = some s.1.parser.context.delimiter

instance (s : StatementTokens × Reading) : Decidable (atDelimiter s) :=
  inferInstanceAs (Decidable (_ = _))

/-- Each END closes a block, a BEGIN or END at the start has no space before it, and a delimiter
outside of the blocks is not in a declaration part. -/
structure KeepsBlocks (s : StatementTokens × Reading) (t : Token) : Prop where
  endsBlock : s.2.endsConstruct t → s.2.constructs.head? = some .block
  firstWord : t.1 = .end ∨ t.1 = .begin ∧ lowered (t.2.getD []) = "begin" →
    s.2.words = [] → s.1.passedTokens = []
  notDeclaring : atDelimiter s → s.2.blocks = 0 → s.2.declaring = false

instance (s : StatementTokens × Reading) (t : Token) : Decidable (KeepsBlocks s t) :=
  decidable_of_iff ((s.2.endsConstruct t → s.2.constructs.head? = some .block) ∧
    (t.1 = .end ∨ t.1 = .begin ∧ lowered (t.2.getD []) = "begin" →
      s.2.words = [] → s.1.passedTokens = []) ∧
    (atDelimiter s → s.2.blocks = 0 → s.2.declaring = false))
    ⟨fun h => ⟨h.1, h.2.1, h.2.2⟩, fun h => ⟨h.1, h.2, h.3⟩⟩

def LevelCounts (s : StatementTokens × Reading) : Prop :=
  s.1.parser.context.blockLevel = s.2.blocks

def DelimiterEnds (s : StatementTokens × Reading) (t : Token) : Prop :=
  ∀ s', readToken s t = .ok s' → atDelimiter s → s.2.blocks = 0 →
    t.1 = .semi ∧ s'.1.ended = true ∧ s'.1.parser.rest = s.1.parser.rest.tail

namespace GdaSqlParser

variable {parser parser' : GdaSqlParser} {passed : List TokenType} {value : TokenValue}

theorem delimiterValue_sameParser (hwithin : parser.context.nextTokenStart ≤ parser.sql.1.length)
    {v : TokenValue} (h : parser.delimiterValue = .ok (parser', v)) : parser' = parser := by
  obtain ⟨⟨p1, v1⟩, h1, h⟩ := bind_ok h
  have hread1 : TokenRead parser.pushTokenizerContext (p1, v1) := tokenRead_of_ok hwithin h1
  have hpop1 : p1.popTokenizerContext = parser :=
    popTokenizerContext_eq hread1.kept.sql hread1.kept.mode hread1.kept.flavour
      hread1.kept.pushedContexts
  by_cases hspace : p1.context.tokenType = .space
  · simp only [if_pos hspace] at h
    obtain ⟨⟨p2, v2⟩, h2, h⟩ := bind_ok h
    have hwithin1 : p1.context.nextTokenStart ≤ p1.sql.1.length := by
      rw [show p1.sql = parser.sql from hread1.kept.sql]
      exact hread1.kept.within
    have hread2 : TokenRead p1.pushTokenizerContext (p2, v2) := tokenRead_of_ok hwithin1 h2
    have hpop2 : p2.popTokenizerContext = p1 :=
      popTokenizerContext_eq hread2.kept.sql hread2.kept.mode hread2.kept.flavour
        hread2.kept.pushedContexts
    cases h
    rw [hpop2, hpop1]
  · simp only [if_neg hspace] at h
    cases h
    exact hpop1

def levelChange (type : TokenType) (passed : List TokenType) (value : TokenValue) : Int :=
  if type = .begin ∧ passed ≠ [] ∧ lowered (value.getD []) = "begin" ∨ type = .loop then 1
  else if type = .end ∧ passed ≠ [] ∨ type = .endLoop then -1
  else 0

/-- How a token moves `ignore_semi`, from the new block level. -/
def ignoreSemiAfter (flavour : GdaSqlParserFlavour) (type : TokenType) (passed : List TokenType)
    (level : Int) (ignore : Bool) : Bool :=
  if type = .declare ∨ flavour = .oracle ∧ (type = .as ∨ type = .is) ∧ .create ∈ passed then true
  else if type = .end ∧ passed ≠ [] ∧ level = 0 then false
  else ignore

structure Tracked (parser : GdaSqlParser) (passed : List TokenType) (value : TokenValue)
    (parser' : GdaSqlParser) : Prop where
  level : parser'.context.blockLevel =
    parser.context.blockLevel + levelChange parser.context.tokenType passed value
  ignoreSemi : parser'.context.ignoreSemi =
    ignoreSemiAfter parser.flavour parser.context.tokenType passed parser'.context.blockLevel
      parser.context.ignoreSemi
  sql : parser'.sql = parser.sql
  mode : parser'.mode = parser.mode
  flavour : parser'.flavour = parser.flavour
  tokenType : parser'.context.tokenType = parser.context.tokenType
  nextTokenStart : parser'.context.nextTokenStart = parser.context.nextTokenStart

theorem tracked_begin (htype : parser.context.tokenType = .begin)
    (h : parser.trackBlocks passed value = .ok parser') : Tracked parser passed value parser' := by
  unfold trackBlocks at h
  by_cases hopens : passed ≠ [] ∧ lowered (value.getD []) = "begin"
  · have hb : parser.opensBegin passed value = true := by
      simp [opensBegin, htype, hopens.1, hopens.2]
    simp only [hb, if_true, addLevel, htype] at h
    cases h
    refine ⟨?_, ?_, rfl, rfl, rfl, htype.symm, rfl⟩
    · simp [levelChange, htype, hopens.1, hopens.2]
    · simp [ignoreSemiAfter, htype]
  · have hb : ¬ parser.opensBegin passed value = true := by
      simp only [opensBegin, decide_eq_true_eq]
      exact fun h => hopens h.2
    simp only [if_neg hb, htype] at h
    cases h
    refine ⟨?_, ?_, rfl, rfl, rfl, rfl, rfl⟩
    · simp [levelChange, htype, hopens]
    · simp [ignoreSemiAfter, htype]

theorem tracked_oracle (htype : parser.context.tokenType = .as ∨ parser.context.tokenType = .is)
    (h : (if parser.flavour = .oracle ∧ .create ∈ passed then .ok (parser.setIgnoreSemi true)
      else .ok parser : Except ScanFault GdaSqlParser) = .ok parser') :
    Tracked parser passed value parser' := by
  by_cases hcreate : parser.flavour = .oracle ∧ .create ∈ passed
  · rw [if_pos hcreate] at h
    cases h
    refine ⟨?_, ?_, rfl, rfl, rfl, rfl, rfl⟩
    · rcases htype with htype | htype <;> simp [levelChange, htype, setIgnoreSemi]
    · rcases htype with htype | htype <;>
        simp [ignoreSemiAfter, htype, setIgnoreSemi, hcreate.1, hcreate.2]
  · rw [if_neg hcreate] at h
    cases h
    refine ⟨?_, ?_, rfl, rfl, rfl, rfl, rfl⟩
    · rcases htype with htype | htype <;> simp [levelChange, htype]
    · rcases htype with htype | htype <;> simp [ignoreSemiAfter, htype, hcreate]

theorem trackBlocks_tracked (hwithin : parser.context.nextTokenStart ≤ parser.sql.1.length)
    (h : parser.trackBlocks passed value = .ok parser') : Tracked parser passed value parser' := by
  by_cases hbegin : parser.context.tokenType = .begin
  · exact tracked_begin hbegin h
  have hb : ¬ parser.opensBegin passed value = true := by
    simp [opensBegin, hbegin]
  unfold trackBlocks at h
  simp only [if_neg hb] at h
  split at h
  · rename_i htype
    cases h
    exact ⟨by simp [levelChange, htype, addLevel], by simp [ignoreSemiAfter, htype, addLevel],
      rfl, rfl, rfl, rfl, rfl⟩
  · rename_i htype
    by_cases hpassed : passed = []
    · rw [if_pos hpassed] at h
      cases h
      exact ⟨by simp [levelChange, htype, hpassed], by simp [ignoreSemiAfter, htype, hpassed],
        rfl, rfl, rfl, rfl, rfl⟩
    · rw [if_neg hpassed] at h
      by_cases hlevel : (parser.addLevel (-1)).context.blockLevel = 0
      · simp only [if_pos hlevel] at h
        cases h
        refine ⟨?_, ?_, rfl, rfl, rfl, rfl, rfl⟩
        · simp [levelChange, htype, hpassed, addLevel, setIgnoreSemi]
        · simp [ignoreSemiAfter, htype, hpassed, hlevel, setIgnoreSemi]
      · simp only [if_neg hlevel] at h
        cases h
        refine ⟨?_, ?_, rfl, rfl, rfl, rfl, rfl⟩
        · simp [levelChange, htype, hpassed, addLevel]
        · simp [ignoreSemiAfter, htype, hlevel]
          rfl
  · rename_i htype
    cases h
    exact ⟨by simp [levelChange, htype, addLevel], by simp [ignoreSemiAfter, htype, addLevel],
      rfl, rfl, rfl, rfl, rfl⟩
  · rename_i htype
    cases h
    exact ⟨by simp [levelChange, htype, setIgnoreSemi], by simp [ignoreSemiAfter, htype,
      setIgnoreSemi],
      rfl, rfl, rfl, rfl, rfl⟩
  · exact tracked_oracle (Or.inl ‹_›) h
  · exact tracked_oracle (Or.inr ‹_›) h
  · rename_i htype
    have hplain : ∀ c, Tracked parser passed value (parser.setDelimiter c) := by
      intro c
      exact ⟨by simp [levelChange, htype, setDelimiter], by simp [ignoreSemiAfter, htype,
        setDelimiter],
        rfl, rfl, rfl, rfl, rfl⟩
    have hsame : Tracked parser passed value parser := hplain parser.context.delimiter
    by_cases hmysql : parser.flavour = .mysql
    · rw [if_pos hmysql] at h
      obtain ⟨⟨p, v⟩, hv, h⟩ := bind_ok h
      obtain rfl := delimiterValue_sameParser hwithin hv
      cases v with
      | none =>
        cases h
        exact hsame
      | some v =>
        cases h
        exact hplain _
    · rw [if_neg hmysql] at h
      cases h
      exact hsame
  · rename_i hloop hend hendLoop hdeclare has his _
    cases h
    have hchange : levelChange parser.context.tokenType passed value = 0 := by
      rw [levelChange, if_neg (by rintro (⟨h, -⟩ | h); exacts [hbegin h, hloop h]),
        if_neg (by rintro (⟨h, -⟩ | h); exacts [hend h, hendLoop h])]
    have hignore : ∀ level, ignoreSemiAfter parser.flavour parser.context.tokenType passed level
        parser.context.ignoreSemi = parser.context.ignoreSemi := by
      intro level
      rw [ignoreSemiAfter,
        if_neg (by rintro (h | ⟨-, h | h, -⟩); exacts [hdeclare h, has h, his h]),
        if_neg (fun h => hend h.1)]
    refine ⟨?_, (hignore _).symm, rfl, rfl, rfl, rfl, rfl⟩
    rw [hchange, Int.add_zero]

end GdaSqlParser

open GdaSqlParser

structure BlocksKept (s : StatementTokens × Reading) : Prop where
  level : LevelCounts s
  declaring : s.1.parser.context.ignoreSemi = s.2.declaring
  words : s.2.words = s.1.passedTokens.filter (· ≠ .space)
  mode : s.1.parser.mode = .delimit
  within : s.1.parser.context.nextTokenStart ≤ s.1.parser.sql.1.length

theorem nextToken_cases {s n : StatementTokens} {value : TokenValue} (hmode : s.parser.mode =
    .delimit)
    (hwithin : s.parser.context.nextTokenStart ≤ s.parser.sql.1.length)
    (h : s.nextToken = .ok (n, value)) :
    ∃ parser, s.parser.getToken = .ok (parser, value) ∧ TokenRead s.parser (parser, value) ∧
      (parser.passes = false ∧ n = { s with
          parser := parser
          ended := StatementTokens.endsStatement parser.context.tokenType } ∨
        parser.passes = true ∧ ∃ parser', Tracked parser s.passedTokens value parser' ∧
          n = {
            parser := parser'
            passedTokens := s.passedTokens ++ [parser.context.tokenType]
            ended := StatementTokens.endsStatement parser.context.tokenType }) := by
  obtain ⟨⟨parser, v⟩, hget, h⟩ := bind_ok h
  have hread := tokenRead_of_ok hwithin hget
  have hmode' : parser.mode = .delimit := hread.kept.mode.trans hmode
  cases hp : parser.passes with
  | false =>
    simp only [hp, Bool.false_eq_true, if_false] at h
    cases h
    exact ⟨parser, hget, hread, Or.inl ⟨hp, rfl⟩⟩
  | true =>
    simp only [hp, if_true, hmode'] at h
    obtain ⟨parser', htrack, h⟩ := bind_ok h
    cases h
    have hwithin' : parser.context.nextTokenStart ≤ parser.sql.1.length := by
      rw [show parser.sql = s.parser.sql from hread.kept.sql]
      exact hread.kept.within
    exact ⟨parser, hget, hread, Or.inr ⟨hp, parser', trackBlocks_tracked hwithin' htrack, rfl⟩⟩

theorem readToken_ok {s s' : StatementTokens × Reading} {t : Token} (h : readToken s t = .ok s') :
    s.1.nextToken = .ok (s'.1, t.2) ∧ s'.1.parser.context.tokenType = t.1 ∧
      s'.2 = s.2.read s.1.parser.flavour t := by
  rw [readToken] at h
  split at h
  · cases h
  split at h
  · cases h
  · rename_i n value hnext
    split at h
    · rename_i ht
      cases h
      subst ht
      exact ⟨hnext, rfl, rfl⟩
    · cases h

section Step

variable {s s' : StatementTokens × Reading} {t : Token} {type : TokenType} {value : TokenValue}

theorem BlocksKept.words_eq_nil (h : BlocksKept s) (hpassed : s.1.passedTokens = []) :
    s.2.words = [] := by
  rw [h.words, hpassed]
  rfl

theorem levelChange_eq (h : BlocksKept s) (hkeeps : KeepsBlocks s (type, value)) :
    (((s.2.constructsAfter (type, value)).count .block : Nat) : Int) =
      s.2.blocks + levelChange type s.1.passedTokens value := by
  have hfirst : type = .end ∨ type = .begin ∧ lowered (value.getD []) = "begin" →
      (s.1.passedTokens = [] ↔ s.2.words = []) :=
    fun ht => ⟨h.words_eq_nil, hkeeps.firstWord ht⟩
  by_cases hopens : s.2.beginsBlock (type, value) ∨ type = .loop
  · have hchange : levelChange type s.1.passedTokens value = 1 := by
      rw [levelChange, if_pos]
      rcases hopens with ⟨htype, htext, hwords⟩ | hloop
      · exact Or.inl ⟨htype, fun hp => hwords (h.words_eq_nil hp), htext⟩
      · exact Or.inr hloop
    rw [Reading.constructsAfter, if_pos hopens, List.count_cons_self, hchange]
    rfl
  rw [Reading.constructsAfter, if_neg hopens]
  have hnotOpens : ¬ (type = .begin ∧ s.1.passedTokens ≠ [] ∧ lowered (value.getD []) = "begin" ∨
      type = .loop) := by
    rintro (⟨htype, hpassed, htext⟩ | hloop)
    · have hw := (hfirst (Or.inr ⟨htype, htext⟩)).not.1 hpassed
      exact hopens (Or.inl ⟨htype, htext, hw⟩)
    · exact hopens (Or.inr hloop)
  rw [levelChange, if_neg hnotOpens]
  by_cases hcase : type = .case
  · have hnotEnds : ¬ (type = .end ∧ s.1.passedTokens ≠ [] ∨ type = .endLoop) := by
      rw [hcase]
      simp
    rw [if_pos hcase, if_neg hnotEnds, List.count_cons_of_ne (by decide), Int.add_zero]
    rfl
  rw [if_neg hcase]
  have hends : s.2.endsConstruct (type, value) ↔
      type = .end ∧ s.1.passedTokens ≠ [] ∨ type = .endLoop := by
    constructor
    · rintro (⟨htype, hwords⟩ | hloop)
      · exact Or.inl ⟨htype, fun hp => hwords (h.words_eq_nil hp)⟩
      · exact Or.inr hloop
    · rintro (⟨htype, hpassed⟩ | hloop)
      · exact Or.inl ⟨htype, (hfirst (Or.inl htype)).not.1 hpassed⟩
      · exact Or.inr hloop
  by_cases he : s.2.endsConstruct (type, value)
  · rw [if_pos he, if_pos (hends.1 he)]
    have hblock := hkeeps.endsBlock he
    rw [Reading.blocks]
    cases hc : s.2.constructs with
    | nil =>
      rw [hc] at hblock
      cases hblock
    | cons c cs =>
      rw [hc] at hblock
      obtain rfl : c = .block := Option.some.inj hblock
      rw [List.tail_cons, List.count_cons_self]
      omega
  · rw [if_neg he, if_neg (fun h => he (hends.2 h)), Int.add_zero]
    rfl

theorem ignoreSemiAfter_eq (h : BlocksKept s) (hkeeps : KeepsBlocks s (type, value))
    {flavour : GdaSqlParserFlavour} {level : Int}
    (hlevel : level = ((s.2.constructsAfter (type, value)).count .block : Nat)) :
    ignoreSemiAfter flavour type s.1.passedTokens level s.1.parser.context.ignoreSemi =
      s.2.declaringAfter flavour (type, value) := by
  have hcreate : TokenType.create ∈ s.1.passedTokens ↔ TokenType.create ∈ s.2.words := by
    rw [h.words]
    simp
  have hend : type = .end → (s.1.passedTokens ≠ [] ↔ s.2.words ≠ []) :=
    fun ht => not_congr ⟨h.words_eq_nil, hkeeps.firstWord (Or.inl ht)⟩
  have hcond : (type = .end ∧ s.1.passedTokens ≠ [] ∧ level = 0) ↔
      (type = .end ∧ s.2.words ≠ [] ∧ (s.2.constructsAfter (type, value)).count .block = 0) := by
    rw [hlevel]
    constructor
    · rintro ⟨ht, hp, hl⟩
      exact ⟨ht, (hend ht).1 hp, by omega⟩
    · rintro ⟨ht, hw, hl⟩
      exact ⟨ht, (hend ht).2 hw, by omega⟩
  simp only [ignoreSemiAfter, Reading.declaringAfter, hcreate, hcond, h.declaring]

theorem readToken_kept (h : BlocksKept s) (hkeeps : KeepsBlocks s t) (hread : readToken s t =
    .ok s') :
    BlocksKept s' := by
  obtain ⟨hnext, htype, hreading⟩ := readToken_ok hread
  obtain ⟨type, value⟩ := t
  obtain ⟨n, r⟩ := s'
  simp only at hnext htype hreading
  obtain ⟨parser, -, hget, ⟨hp, rfl⟩ | ⟨hp, parser', htrack, rfl⟩⟩ := nextToken_cases h.mode
    h.within hnext
  · have hkept := hget.kept
    have hskipped : type = .sqlComment ∨ type = .space ∨ type = .illegal := by
      subst htype
      simp only [passes] at hp
      split at hp
      · exact Or.inr (Or.inr ‹_›)
      · exact Or.inl ‹_›
      · exact Or.inr (Or.inl ‹_›)
      · cases hp
    have hr : r = s.2 := hreading.trans (if_pos hskipped)
    subst hr
    exact ⟨hkept.blockLevel.trans h.level, hkept.ignoreSemi.trans h.declaring, h.words,
      hkept.mode.trans h.mode, by rw [show parser.sql = _ from hkept.sql]; exact hkept.within⟩
  · have hkept := hget.kept
    have htype' : parser.context.tokenType = type := htrack.tokenType.symm.trans htype
    have hlevel := htrack.level
    have hignore := htrack.ignoreSemi
    have hblockLevel : parser.context.blockLevel = s.1.parser.context.blockLevel := hkept.blockLevel
    have hignoreSemi : parser.context.ignoreSemi = s.1.parser.context.ignoreSemi := hkept.ignoreSemi
    have hflavour : parser.flavour = s.1.parser.flavour := hkept.flavour
    rw [htype', hblockLevel, h.level] at hlevel
    rw [htype', hignoreSemi, hflavour] at hignore
    have hmode' : parser'.mode = .delimit := htrack.mode.trans (hkept.mode.trans h.mode)
    have hwithin' : parser'.context.nextTokenStart ≤ parser'.sql.1.length := by
      rw [htrack.nextTokenStart, htrack.sql, show parser.sql = _ from hkept.sql]
      exact hkept.within
    by_cases hspace : type = .space
    · have hr : r = s.2 := hreading.trans (if_pos (Or.inr (Or.inl hspace)))
      subst hr hspace
      have hchange : levelChange .space s.1.passedTokens value = 0 := by simp [levelChange]
      rw [hchange, Int.add_zero] at hlevel
      refine ⟨hlevel, ?_, ?_, hmode', hwithin'⟩
      · rw [← h.declaring]
        simpa [ignoreSemiAfter] using hignore
      · simp [h.words, htype', List.filter_append]
    · have hread : type ≠ .sqlComment ∧ type ≠ .illegal := by
        subst htype'
        constructor
        · intro ht
          simp [passes, ht] at hp
        · intro ht
          simp [passes, ht] at hp
      have hr : r = {
          constructs := s.2.constructsAfter (type, value)
          declaring := s.2.declaringAfter s.1.parser.flavour (type, value)
          words := s.2.words ++ [type] } := by
        refine hreading.trans (if_neg ?_)
        rintro (ht | ht | ht)
        · exact hread.1 ht
        · exact hspace ht
        · exact hread.2 ht
      have hcount := levelChange_eq h hkeeps
      rw [← hcount] at hlevel
      subst hr
      refine ⟨hlevel, ?_, ?_, hmode', hwithin'⟩
      · rw [hignore]
        exact ignoreSemiAfter_eq h hkeeps hlevel
      · simp [h.words, htype', List.filter_append, hspace]

theorem getToken_delimiter {parser : GdaSqlParser} {text : List Char}
    (h : parser.rest = parser.context.delimiter :: text) :
    parser.getToken = .ok (parser.tokEnd
      (if parser.context.ignoreSemi = false ∧ parser.context.blockLevel = 0 then
        .semi else .rawString)
      1 parser.context.inParamSpec, some [parser.context.delimiter]) := by
  rw [getToken, getTokenWithFuel, h]
  simp only [if_true]

theorem BlocksKept.delimiterEnds (h : BlocksKept s) (hkeeps : KeepsBlocks s t) : DelimiterEnds s
    t := by
  intro s' hread hat hblocks
  obtain ⟨hnext, htype, -⟩ := readToken_ok hread
  obtain ⟨n, r⟩ := s'
  obtain ⟨parser, hget, -, hcases⟩ := nextToken_cases h.mode h.within hnext
  have hdeclaring := hkeeps.notDeclaring hat hblocks
  obtain ⟨text, htext⟩ : ∃ text, s.1.parser.rest = s.1.parser.context.delimiter :: text := by
    rw [atDelimiter] at hat
    cases hrest : s.1.parser.rest with
    | nil =>
      rw [hrest] at hat
      cases hat
    | cons c text =>
      rw [hrest] at hat
      exact ⟨text, by rw [Option.some.inj hat]⟩
  have hlevel : s.1.parser.context.blockLevel = 0 := by
    rw [h.level, hblocks]
    rfl
  have hsemi : s.1.parser.context.ignoreSemi = false ∧ s.1.parser.context.blockLevel = 0 :=
    ⟨h.declaring.trans hdeclaring, hlevel⟩
  rw [getToken_delimiter htext, if_pos hsemi] at hget
  obtain ⟨rfl, -⟩ := Prod.mk.inj (Except.ok.inj hget)
  rcases hcases with ⟨hp, -⟩ | ⟨-, parser', htrack, rfl⟩
  · cases hp
  · refine ⟨htype.symm.trans htrack.tokenType, rfl, ?_⟩
    rw [rest, htrack.sql, htrack.nextTokenStart]
    show (s.1.parser.tokEnd .semi 1 s.1.parser.context.inParamSpec).rest = _
    rw [rest_tokEnd, htext]
    rfl

end Step

section Run

variable {parser : GdaSqlParser} {sql : CString} {ts : List Token} {s : StatementTokens × Reading}

theorem delimitStart_kept : BlocksKept (delimitStart parser sql) where
  level := rfl
  declaring := rfl
  words := rfl
  mode := rfl
  within := Nat.zero_le _

/-- Along every run whose steps keep to the blocks, the block level counts the blocks open, and a
delimiter outside of them ends the statement. -/
theorem blockLevel_run (hmeets : StepsMeet readToken KeepsBlocks (delimitStart parser sql) ts)
    (hrun : run readToken (delimitStart parser sql) ts = .ok s) :
    LevelCounts s ∧ ∀ t, KeepsBlocks s t → DelimiterEnds s t := by
  have hkept : BlocksKept s := run_invariant
    (fun s t s' h hkeeps hstep => readToken_kept h hkeeps hstep) delimitStart_kept hmeets hrun
  exact ⟨hkept.level, fun t hkeeps => hkept.delimiterEnds hkeeps⟩

def blockText : CString := ⟨"p BEGIN q;".toList, by decide⟩

def blockTokens : List Token :=
  [(.rawString, some ['p']), (.space, some [' ']), (.begin, some "BEGIN".toList),
   (.space, some [' ']), (.rawString, some ['q']), (.rawString, some [';'])]

def standardParser : GdaSqlParser := onText ⟨[], by decide⟩ .delimit .standard

def afterBlockTokens : StatementTokens × Reading :=
  ({ parser := { standardParser with
        sql := blockText
        context := { startContext with
          tokenType := .rawString
          nextTokenStart := 10
          lastTokenStart := 9
          blockLevel := 1 } }
     passedTokens := blockTokens.map Prod.fst
     ended := false },
   { constructs := [.block], declaring := false, words := [.rawString, .begin, .rawString, .rawString] })

theorem blockTokens_counted :
    LevelCounts afterBlockTokens ∧
      ∀ t, KeepsBlocks afterBlockTokens t → DelimiterEnds afterBlockTokens t :=
  @blockLevel_run standardParser blockText blockTokens afterBlockTokens (by decide) (by rfl)

def caseText : CString := ⟨"SELECT CASE WHEN p THEN q END; r".toList, by decide⟩

def caseTokens : List Token :=
  [(.select, some "SELECT".toList), (.space, some [' ']), (.case, some "CASE".toList),
   (.space, some [' ']), (.when, some "WHEN".toList), (.space, some [' ']),
   (.rawString, some ['p']), (.space, some [' ']), (.then, some "THEN".toList),
   (.space, some [' ']), (.rawString, some ['q']), (.space, some [' ']),
   (.end, some "END".toList), (.rawString, some [';'])]

/-- The END of a CASE expression closes no block, but the level goes down, and the delimiter after
it does not end the statement. -/
theorem caseTokens_not_counted :
    ¬ ∀ (parser : GdaSqlParser) (sql : CString) (ts : List Token) (s : StatementTokens × Reading),
      run readToken (delimitStart parser sql) ts = .ok s →
        LevelCounts s ∧ ∀ t, DelimiterEnds s t := by
  intro h
  have hrun : ∃ s, run readToken (delimitStart standardParser caseText) caseTokens = .ok s ∧
      s.1.parser.context.blockLevel = -1 := ⟨_, rfl, rfl⟩
  obtain ⟨s, hs, hlevel⟩ := hrun
  have hcounts : s.1.parser.context.blockLevel = s.2.blocks := (h _ _ _ s hs).1
  omega

end Run

end LibGda
