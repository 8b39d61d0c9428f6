import LibGda.TokenizerBounds

/-! What `getToken` finds at the start of a text: a token, the first word of a composed keyword,
or the name of a property of a parameter. -/

namespace LibGda

open TerminatedBuffer GdaSqlParser

def firstWords : List String := ["end", "is", "not", "similar"]

section Keywords

variable {mode : GdaSqlParserMode} {flavour : GdaSqlParserFlavour} {word : List Char}

theorem mem_keywords_of_lookup {key : String} {type : TokenType}
    (h : keywords.lookup key = some type) : (key, type) ∈ keywords := by
  obtain ⟨before, after, heq, -⟩ := List.lookup_eq_some_iff.1 h
  rw [heq]
  simp

theorem keywordCode_cases (mode : GdaSqlParserMode) (flavour : GdaSqlParserFlavour) (word : List Char) :
    (lowered word, keywordCode mode flavour word) ∈ keywords ∨
      (lowered (flavour.code :: word), keywordCode mode flavour word) ∈ keywords ∨
        keywordCode mode flavour word = .id ∨ keywordCode mode flavour word = .rawString := by
  unfold keywordCode
  split
  · exact Or.inl (mem_keywords_of_lookup ‹_›)
  · split
    · exact Or.inr (Or.inl (mem_keywords_of_lookup ‹_›))
    · cases mode
      · exact Or.inr (Or.inr (Or.inl rfl))
      · exact Or.inr (Or.inr (Or.inr rfl))

theorem keywords_ne_space : ∀ entry ∈ keywords, entry.2 ≠ .space := by decide

theorem keywords_composed :
    ∀ entry ∈ keywords, compositions entry.2 ≠ [] → entry.1 ∈ firstWords := by decide

theorem firstWords_head : ∀ word ∈ firstWords, ∀ flavour : GdaSqlParserFlavour,
    word.toList.head? ≠ some (flavour.code.toLower) := by
  intro word hw flavour
  cases flavour <;> revert word <;> decide

theorem keywordCode_ne_space : keywordCode mode flavour word ≠ .space := by
  rcases keywordCode_cases mode flavour word with h | h | h | h
  · exact keywords_ne_space _ h
  · exact keywords_ne_space _ h
  · rw [h]
    decide
  · rw [h]
    decide

theorem lowered_mem_of_composed (h : compositions (keywordCode mode flavour word) ≠ []) :
    lowered word ∈ firstWords := by
  rcases keywordCode_cases mode flavour word with hk | hk | hk | hk
  · exact keywords_composed _ hk h
  · have hmem := keywords_composed _ hk h
    refine absurd ?_ (firstWords_head _ hmem flavour)
    simp [lowered]
  · rw [hk] at h
    exact absurd rfl h
  · rw [hk] at h
    exact absurd rfl h

theorem composed_of_lowered (h : lowered word ∈ firstWords) :
    compositions (keywordCode mode flavour word) ≠ [] := by
  have hlookup : ∀ key ∈ firstWords, (keywords.lookup key).elim [] compositions ≠ [] := by decide
  have hne := hlookup _ h
  unfold keywordCode
  cases hk : keywords.lookup (lowered word) with
  | none =>
    rw [hk] at hne
    exact absurd rfl hne
  | some type =>
    rw [hk] at hne
    exact hne

end Keywords

/-- A space token at the start of `z`, before `rest`. -/
def LeadingSpace (delimiter : Char) (z rest : List Char) : Prop :=
  ∃ c run, blank c ∧ c ≠ delimiter ∧ (∀ d ∈ run, isspace d) ∧
    (∀ d, rest.head? = some d → isspace d = false) ∧ ¬ ['/', '*'] <+: rest ∧ z = c :: (run ++ rest)

/-- One of the first words of the composed keywords at the start of `z`, before `rest`. -/
def FirstKeyword (z rest : List Char) : Prop :=
  ∃ word, (∀ c ∈ word, idChar c) ∧ lowered word ∈ firstWords ∧
    (∀ c, rest.head? = some c → idChar c = false) ∧ z = word ++ rest

/-- The name of a property of a parameter at the start of `z`, before `rest`. -/
def PropertyName (z rest : List Char) : Prop :=
  ∃ property ∈ paramProperties, z = property.1.toList ++ rest

section Lexemes

variable {mode : GdaSqlParserMode} {flavour : GdaSqlParserFlavour} {delimiter : Char}
  {inParamSpec : Bool} {z rest : List Char} {s : Scanned} {c : Char} {text : List Char}

theorem spaceToken_eq {run : List Char} (hrun : ∀ d ∈ run, isspace d)
    (hrest : ∀ d, rest.head? = some d → isspace d = false) :
    spaceToken (c :: (run ++ rest)) s = .ok
      (if ['/', '*'] <+: rest then { s.token .lsBracket (run.length + 3) with inParamSpec := true }
      else s.token .space (run.length + 1)) := by
  have hskip : skip isspace (c :: (run ++ rest)) 1 = .ok (1 + run.length) :=
    scan_boundary [c] (by decide) hrun hrest
  have hpeek : ∀ k, k ≤ rest.length →
      peek '\x00' (c :: (run ++ rest)) (1 + run.length + k) = .ok (rest.getD k '\x00') := by
    intro k hk
    have hle : 1 + run.length + k ≤ (c :: (run ++ rest)).length := by
      simp only [List.length_cons, List.length_append]
      omega
    have hidx : 1 + run.length + k = run.length + k + 1 := by omega
    rw [peek_of_le hle, hidx, List.getD_cons_succ,
      List.getD_append_right _ _ _ _ (Nat.le_add_right _ _), Nat.add_sub_cancel_left]
  have h0 := hpeek 0 (Nat.zero_le _)
  rw [Nat.add_zero] at h0
  have hcond : andAlso (holdsAt (· == '/') (c :: (run ++ rest)) (1 + run.length))
      (holdsAt (· == '*') (c :: (run ++ rest)) (1 + run.length + 1)) =
        .ok (decide (['/', '*'] <+: rest)) := by
    rw [holdsAt, h0]
    cases rest with
    | nil => rfl
    | cons d t =>
      by_cases hd : d = '/'
      · subst hd
        have h1 := hpeek 1 (by simp)
        rw [holdsAt, h1]
        cases t with
        | nil => rfl
        | cons e t =>
          show Except.ok (e == '*') = _
          simp [beq_eq_decide, eq_comm]
      · show andAlso (.ok (d == '/')) _ = _
        rw [beq_eq_false_iff_ne.2 hd]
        have hno : ¬ ['/', '*'] <+: d :: t := fun h => hd (List.cons_prefix_cons.1 h).1.symm
        rw [decide_eq_false hno]
        rfl
  rw [spaceToken, hskip]
  show (andAlso _ _ >>= _) = _
  rw [hcond]
  by_cases hp : ['/', '*'] <+: rest
  · rw [decide_eq_true hp, if_pos hp]
    show Except.ok { s.token .lsBracket (1 + run.length + 2) with inParamSpec := true } = _
    rw [Nat.add_comm 1, Nat.add_assoc]
  · rw [decide_eq_false hp, if_neg hp]
    show Except.ok (s.token .space (1 + run.length)) = _
    rw [Nat.add_comm 1]

theorem switchToken_blank (hc : blank c) :
    switchToken mode flavour delimiter c z s = spaceToken z s := by
  simp only [blank, List.mem_cons, List.not_mem_nil, or_false, decide_eq_true_eq] at hc
  rcases hc with rfl | rfl | rfl | rfl | rfl <;> rfl

inductive LexemeRead (mode : GdaSqlParserMode) (delimiter : Char) (inParamSpec : Bool)
    (z : List Char) : Lexeme → Prop
  | plain {s : Scanned} :
    (0 < s.consumedChars ∧ s.consumedChars ≤ z.length ∨
      Unterminated z ∧ s.tokenType = some .illegal ∧ s.consumedChars = 0) →
    (s.tokenType.getD .illegal).Plain → LexemeRead mode delimiter inParamSpec z (.token s)
  | space {s : Scanned} : s.tokenType = some .space → s.inParamSpec = inParamSpec →
    0 < s.consumedChars → s.consumedChars ≤ z.length →
    LeadingSpace delimiter z (z.drop s.consumedChars) →
    LexemeRead mode delimiter inParamSpec z (.token s)
  | keyword {s : Scanned} {type : TokenType} : inParamSpec = false → s.inParamSpec = false →
    s.tokenType = some type → compositions type ≠ [] → type ≠ .space →
    0 < s.consumedChars → s.consumedChars ≤ z.length →
    FirstKeyword z (z.drop s.consumedChars) → LexemeRead mode delimiter inParamSpec z (.token s)
  | property {n : Nat} {type : TokenType} : (mode = .delimit ∨ inParamSpec = true) →
    type ≠ .space → 0 < n → n ≤ z.length → PropertyName z (z.drop n) →
    LexemeRead mode delimiter inParamSpec z (.paramProperty n type)

theorem reads_propertyOrRawString (hm : mode = .delimit ∨ inParamSpec = true) (hz : 0 < z.length) :
    Reads False (LexemeRead mode delimiter inParamSpec z) (propertyOrRawString delimiter z s) := by
  rw [propertyOrRawString]
  split
  · rename_i name type hfind
    have hmem := List.mem_of_find?_eq_some hfind
    have hpre := List.find?_some hfind
    obtain ⟨rest, rfl⟩ := List.isPrefixOf_iff_prefix.1 hpre
    have hlen : name.length = name.toList.length := String.length_toList.symm
    have hpos : ∀ property ∈ paramProperties, property.2 ≠ .space ∧ 0 < property.1.length := by decide
    obtain ⟨htype, hname⟩ := hpos _ hmem
    refine .ok id (.property hm htype hname ?_ ?_)
    · rw [List.length_append, hlen]
      exact Nat.le_add_right _ _
    · rw [hlen, List.drop_left]
      exact ⟨_, hmem, rfl⟩
  · refine (reads_skip (by simp [rawChar]) hz).bind_safe ?_
    intro i hi
    exact .ok id (.plain (Or.inl hi) (by show TokenType.rawString.Plain; decide))

theorem untreatedToken_word {word : List Char} (hw : ∀ d ∈ c :: word, idChar d)
    (hr : ∀ d, rest.head? = some d → idChar d = false) :
    untreatedToken mode flavour delimiter c (c :: word ++ rest) (Scanned.start false) =
      if mode = .delimit ∧ keywordCode mode flavour (c :: word) = .rawString then
        propertyOrRawString delimiter (c :: word ++ rest) (Scanned.start false)
      else .ok (.token ((Scanned.start false).token (keywordCode mode flavour (c :: word))
        (c :: word).length)) := by
  have hc : idChar c := hw c (List.mem_cons_self ..)
  have hscan : skip idChar (c :: word ++ rest) 1 = .ok (1 + word.length) :=
    scan_boundary [c] (by decide) (fun d hd => hw d (List.mem_cons_of_mem _ hd)) hr
  have hlen : 1 + word.length = (c :: word).length := by
    rw [List.length_cons, Nat.add_comm]
  have htake : (c :: word ++ rest).take (c :: word).length = c :: word := List.take_left
  unfold untreatedToken
  rw [if_neg (show ¬ (Scanned.start false).inParamSpec = true by decide), if_pos hc, hscan, hlen]
  show (if mode = .delimit ∧ keywordCode mode flavour ((c :: word ++ rest).take (c :: word).length)
    = .rawString then _ else Except.ok (Lexeme.token ((Scanned.start false).token
      (keywordCode mode flavour ((c :: word ++ rest).take (c :: word).length)) _))) = _
  rw [htake]

theorem reads_untreatedToken :
    Reads False (LexemeRead mode delimiter inParamSpec (c :: text))
      (untreatedToken mode flavour delimiter c (c :: text) (Scanned.start inParamSpec)) := by
  have hz : 0 < (c :: text).length := by simp
  cases inParamSpec with
  | true => exact reads_propertyOrRawString (Or.inr rfl) hz
  | false =>
    by_cases hc : idChar c
    · have hw : ∀ d ∈ c :: text.takeWhile idChar, idChar d := by
        intro d hd
        rcases List.mem_cons.1 hd with rfl | hd
        · exact hc
        · exact List.mem_takeWhile_imp hd
      have hr := head_dropWhile (p := idChar) text
      have hsplit : c :: text = c :: text.takeWhile idChar ++ text.dropWhile idChar := by
        rw [List.cons_append, List.takeWhile_append_dropWhile]
      generalize text.takeWhile idChar = word at hw hsplit
      generalize text.dropWhile idChar = rest at hr hsplit
      rw [hsplit] at hz ⊢
      rw [untreatedToken_word hw hr]
      by_cases hraw : mode = .delimit ∧ keywordCode mode flavour (c :: word) = .rawString
      · rw [if_pos hraw]
        exact reads_propertyOrRawString (Or.inl hraw.1) hz
      · rw [if_neg hraw]
        have hle : (c :: word).length ≤ (c :: word ++ rest).length := by
          rw [List.length_append]
          exact Nat.le_add_right _ _
        by_cases hcomposed : compositions (keywordCode mode flavour (c :: word)) = []
        · exact .ok id (.plain (Or.inl ⟨Nat.succ_pos _, hle⟩) ⟨hcomposed, keywordCode_ne_space⟩)
        · refine .ok id (.keyword rfl rfl rfl hcomposed keywordCode_ne_space (Nat.succ_pos _) hle ?_)
          show FirstKeyword (c :: word ++ rest) ((c :: word ++ rest).drop (c :: word).length)
          rw [List.drop_left]
          exact ⟨c :: word, hw, lowered_mem_of_composed hcomposed, hr, rfl⟩
    · unfold untreatedToken
      rw [if_neg (show ¬ (Scanned.start false).inParamSpec = true by decide), if_neg hc]
      cases mode with
      | parse =>
        exact .ok id (.plain (Or.inl ⟨Nat.one_pos, hz⟩) (by show TokenType.illegal.Plain; decide))
      | delimit => exact reads_propertyOrRawString (Or.inl rfl) hz

theorem reads_readLexeme (hd : c ≠ delimiter) :
    Reads (StartCut flavour (c :: text)) (LexemeRead mode delimiter inParamSpec (c :: text))
      (readLexeme mode flavour delimiter inParamSpec c (c :: text)) := by
  rw [readLexeme]
  cases hb : blank c with
  | true =>
    have hno : ¬ StartCut flavour (c :: text) := by
      apply not_startCut <;> (rintro rfl; exact absurd hb (by decide))
    have hrun : ∀ d ∈ text.takeWhile isspace, isspace d := fun d hd => List.mem_takeWhile_imp hd
    have hr := head_dropWhile (p := isspace) text
    have hsplit : c :: text = c :: (text.takeWhile isspace ++ text.dropWhile isspace) := by
      rw [List.takeWhile_append_dropWhile]
    generalize text.takeWhile isspace = run at hrun hsplit
    generalize text.dropWhile isspace = rest at hr hsplit
    rw [hsplit, switchToken_blank hb, spaceToken_eq hrun hr]
    by_cases hp : ['/', '*'] <+: rest
    · rw [if_pos hp]
      obtain ⟨after, rfl⟩ := hp
      refine .ok (hsplit ▸ hno) (.plain (Or.inl ⟨Nat.succ_pos _, ?_⟩) ?_)
      · show run.length + 3 ≤ _
        simp only [List.length_cons, List.length_append, List.length_nil]
        omega
      · show TokenType.lsBracket.Plain
        decide
    · rw [if_neg hp]
      have hdrop : (c :: (run ++ rest)).drop (run.length + 1) = rest := by
        rw [List.drop_succ_cons, List.drop_left]
      refine .ok (hsplit ▸ hno) (.space rfl rfl (Nat.succ_pos _) ?_ ?_)
      · show run.length + 1 ≤ _
        simp only [List.length_cons, List.length_append]
        omega
      · show LeadingSpace delimiter _ ((c :: (run ++ rest)).drop (run.length + 1))
        rw [hdrop]
        exact ⟨c, run, hb, hd, hrun, hr, hp, rfl⟩
  | false =>
    have hswitch : Reads (StartCut flavour (c :: text)) (Treated (c :: text) (.start inParamSpec))
        (switchToken mode flavour delimiter c (c :: text) (.start inParamSpec)) :=
      reads_switchToken rfl rfl hb
    refine hswitch.bind_within ?_
    intro s' hs'
    cases ht : s'.tokenType with
    | none =>
      rw [hs'.untouched ht]
      exact reads_untreatedToken
    | some type =>
      refine .ok id (.plain ?_ ?_)
      · exact hs'.consumed
      · rw [ht]
        exact hs'.plain type ht

theorem readLexeme_space (h : LeadingSpace delimiter (c :: text) rest) :
    ∃ s, readLexeme mode flavour delimiter inParamSpec c (c :: text) = .ok (.token s) ∧
      s.tokenType = some .space ∧ (c :: text).drop s.consumedChars = rest := by
  obtain ⟨c', run, hc, -, hrun, hr, hp, heq⟩ := h
  obtain ⟨rfl, rfl⟩ := List.cons.inj heq
  refine ⟨(Scanned.start inParamSpec).token .space (run.length + 1), ?_, rfl, ?_⟩
  · rw [readLexeme, switchToken_blank hc, spaceToken_eq hrun hr, if_neg hp]
    rfl
  · show (c :: (run ++ rest)).drop (run.length + 1) = rest
    rw [List.drop_succ_cons, List.drop_left]

theorem toLower_of_isDigit (h : c.isDigit) : c.toLower = c := by
  have hnot : ¬ (c.val ≥ 'A'.val ∧ c.val ≤ 'Z'.val) := by
    simp only [Char.isDigit, Bool.and_eq_true, decide_eq_true_eq] at h
    rintro ⟨h1, -⟩
    have h2 : c.val ≤ 57 := h.2
    have h3 : (65 : UInt32) ≤ c.val := h1
    exact absurd (UInt32.le_trans h3 h2) (by decide)
  exact dif_neg hnot

theorem switchToken_letter (hc : c.toLower ∈ ['e', 'i', 'n', 's', 't', 'd']) :
    switchToken mode flavour delimiter c z s = .ok s := by
  unfold switchToken
  split
  case h_31 =>
    by_cases hdigit : c.isDigit
    · rw [toLower_of_isDigit hdigit] at hc
      have hno : (['e', 'i', 'n', 's', 't', 'd'].all fun d => !d.isDigit) = true := by decide
      have hc' := List.all_eq_true.1 hno c hc
      rw [hdigit] at hc'
      cases hc'
    · rw [if_neg hdigit]
  all_goals exact absurd hc (by decide)

theorem lowered_cons_mem (h : lowered z ∈ firstWords) :
    ∃ c word, z = c :: word ∧ c.toLower ∈ ['e', 'i', 'n', 's', 't', 'd'] := by
  have hheads : (firstWords.all fun key =>
      ['e', 'i', 'n', 's', 't', 'd'].any fun d => key.toList.head? == some d) = true := by decide
  obtain ⟨d, hd, hhead⟩ := List.any_eq_true.1 (List.all_eq_true.1 hheads _ h)
  replace hhead := eq_of_beq hhead
  rw [lowered, String.toList_ofList] at hhead
  cases z with
  | nil => cases hhead
  | cons c word =>
    have hc : c.toLower = d := Option.some.inj hhead
    exact ⟨c, word, rfl, hc ▸ hd⟩

theorem readLexeme_keyword (h : FirstKeyword (c :: text) rest) :
    ∃ s type, readLexeme mode flavour delimiter false c (c :: text) = .ok (.token s) ∧
      s.tokenType = some type ∧ compositions type ≠ [] ∧ (c :: text).drop s.consumedChars = rest := by
  obtain ⟨word, hw, hmem, hr, heq⟩ := h
  obtain ⟨c', word, rfl, hlower⟩ := lowered_cons_mem hmem
  obtain ⟨rfl, rfl⟩ := List.cons.inj heq
  have hcomposed : compositions (keywordCode mode flavour (c :: word)) ≠ [] :=
    composed_of_lowered hmem
  have hraw : ¬ (mode = .delimit ∧ keywordCode mode flavour (c :: word) = .rawString) := by
    rintro ⟨-, h⟩
    rw [h] at hcomposed
    exact hcomposed rfl
  refine ⟨(Scanned.start false).token (keywordCode mode flavour (c :: word)) (c :: word).length, _,
    ?_, rfl, hcomposed, ?_⟩
  · rw [readLexeme, switchToken_letter hlower]
    show untreatedToken mode flavour delimiter c (c :: word ++ rest) (Scanned.start false) = _
    rw [untreatedToken_word hw hr, if_neg hraw]
  · show (c :: word ++ rest).drop (c :: word).length = rest
    exact List.drop_left

theorem propertyOrRawString_property {property : String × TokenType}
    (h : property ∈ paramProperties) :
    propertyOrRawString delimiter (property.1.toList ++ rest) s =
      .ok (.paramProperty property.1.length property.2) := by
  simp only [paramProperties, List.mem_cons, List.not_mem_nil, or_false] at h
  rcases h with rfl | rfl | rfl | rfl <;> rfl

theorem property_word {property : String × TokenType} (h : property ∈ paramProperties) :
    ∃ c word, property.1.toList = c :: word ++ [':'] ∧ (∀ d ∈ c :: word, idChar d) ∧
      c.toLower ∈ ['e', 'i', 'n', 's', 't', 'd'] ∧
        ∀ flavour, keywordCode .delimit flavour (c :: word) = .rawString := by
  simp only [paramProperties, List.mem_cons, List.not_mem_nil, or_false] at h
  rcases h with rfl | rfl | rfl | rfl
  · exact ⟨'n', "ame".toList, rfl, List.all_eq_true.1 (by decide), by decide,
      fun f => by cases f <;> decide⟩
  · exact ⟨'t', "ype".toList, rfl, List.all_eq_true.1 (by decide), by decide,
      fun f => by cases f <;> decide⟩
  · exact ⟨'d', "escr".toList, rfl, List.all_eq_true.1 (by decide), by decide,
      fun f => by cases f <;> decide⟩
  · exact ⟨'n', "ullok".toList, rfl, List.all_eq_true.1 (by decide), by decide,
      fun f => by cases f <;> decide⟩

theorem readLexeme_named {property : String × TokenType} (hm : mode = .delimit ∨ inParamSpec = true)
    (hmem : property ∈ paramProperties) (heq : c :: text = property.1.toList ++ rest) :
    readLexeme mode flavour delimiter inParamSpec c (c :: text) =
      .ok (.paramProperty property.1.length property.2) := by
  obtain ⟨c', word, hname, hw, hlower, hraw⟩ := property_word hmem
  have hprop : ∀ s, propertyOrRawString delimiter (c :: text) s =
      .ok (.paramProperty property.1.length property.2) := by
    intro s
    rw [heq]
    exact propertyOrRawString_property hmem
  have hsplit : c :: text = c' :: word ++ (':' :: rest) := by
    rw [heq, hname, List.append_assoc]
    rfl
  obtain rfl : c = c' := (List.cons.inj hsplit).1
  rw [readLexeme, switchToken_letter hlower]
  show untreatedToken mode flavour delimiter c (c :: text) (Scanned.start inParamSpec) = _
  cases inParamSpec with
  | true => exact hprop _
  | false =>
    have hmode : mode = .delimit := hm.resolve_right Bool.false_ne_true
    subst hmode
    have hcolon : ∀ d, (':' :: rest).head? = some d → idChar d = false := by
      intro d hd
      cases hd
      decide
    rw [hsplit, untreatedToken_word hw hcolon, if_pos ⟨rfl, hraw flavour⟩, ← hsplit]
    exact hprop _

theorem readLexeme_property (hm : mode = .delimit ∨ inParamSpec = true)
    (h : PropertyName (c :: text) rest) :
    ∃ n type, readLexeme mode flavour delimiter inParamSpec c (c :: text) =
      .ok (.paramProperty n type) ∧ (c :: text).drop n = rest := by
  obtain ⟨property, hmem, heq⟩ := h
  refine ⟨property.1.length, property.2, readLexeme_named hm hmem heq, ?_⟩
  rw [heq, ← String.length_toList, List.drop_left]

end Lexemes

end LibGda
