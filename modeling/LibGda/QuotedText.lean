import LibGda.SqlTokens

/-! What the loops on quoted texts find, against the shape of the text: quoted strings,
dollar-quoted strings, and the comments of a dollar-quoted string. -/

namespace LibGda

open TerminatedBuffer

/-- What is between two quotes `delim`. -/
inductive QuotedBody (delim : Char) : List Char → Prop
  | nil : QuotedBody delim []
  | plain {c : Char} {s : List Char} :
    c ≠ delim → c ≠ '\\' → QuotedBody delim s → QuotedBody delim (c :: s)
  | doubled {s : List Char} : QuotedBody delim s → QuotedBody delim (delim :: delim :: s)
  | escaped {c : Char} {s : List Char} : QuotedBody delim s → QuotedBody delim ('\\' :: c :: s)

section Quoted

variable {delim : Char} {body text rest : List Char}

theorem closingQuote_plain {c : Char} (hc : c ≠ delim) (he : c ≠ '\\') (i : Nat) :
    closingQuote delim (c :: rest) i = closingQuote delim rest (i + 1) := by
  rw [closingQuote.eq_def]
  simp only [if_neg hc, if_neg he]

theorem closingQuote_escape (hd : delim ≠ '\\') (i : Nat) :
    closingQuote delim ('\\' :: rest) i =
      match rest with
      | [] => .error .beyondEnd
      | _ :: rest => closingQuote delim rest (i + 2) := by
  rw [closingQuote.eq_def]
  simp only [if_neg hd.symm, if_true]
  all_goals cases rest <;> rfl

theorem closingQuote_delim (i : Nat) :
    closingQuote delim (delim :: rest) i =
      match rest with
      | [] => .ok (some i)
      | d :: rest => if d = delim then closingQuote delim rest (i + 2) else .ok (some i) := by
  rw [closingQuote.eq_def]
  simp only [if_true]
  all_goals cases rest <;> rfl

theorem closingQuote_body (hd : delim ≠ '\\') (h : QuotedBody delim body) (t : List Char) (i : Nat) :
    closingQuote delim (body ++ t) i = closingQuote delim t (i + body.length) := by
  induction h generalizing i with
  | nil => rfl
  | plain hc he _ ih =>
    rw [List.cons_append, closingQuote_plain hc he, ih, List.length_cons]
    congr 1
    omega
  | doubled _ ih =>
    rw [List.cons_append, List.cons_append, closingQuote_delim]
    simp only [if_true, ih, List.length_cons]
    congr 1
    omega
  | escaped _ ih =>
    rw [List.cons_append, List.cons_append, closingQuote_escape hd]
    simp only [ih, List.length_cons]
    congr 1
    omega

theorem closingQuote_unterminated (hd : delim ≠ '\\') (h : QuotedBody delim body) (i : Nat) :
    closingQuote delim body i = .ok none := by
  have := closingQuote_body hd h [] i
  rwa [List.append_nil, closingQuote] at this

theorem closingQuote_cut (hd : delim ≠ '\\') (h : QuotedBody delim body) (i : Nat) :
    closingQuote delim (body ++ ['\\']) i = .error .beyondEnd := by
  rw [closingQuote_body hd h, closingQuote_escape hd]

theorem closingQuote_closed (hd : delim ≠ '\\') (h : QuotedBody delim body)
    (hr : rest.head? ≠ some delim) (i : Nat) :
    closingQuote delim (body ++ delim :: rest) i = .ok (some (i + body.length)) := by
  rw [closingQuote_body hd h, closingQuote_delim]
  cases rest with
  | nil => rfl
  | cons d rest =>
    have hne : d ≠ delim := fun h => hr (by rw [h]; rfl)
    exact if_neg hne

theorem quoted_cases (delim : Char) (text : List Char) :
    (∃ body rest, QuotedBody delim body ∧ rest.head? ≠ some delim ∧ text = body ++ delim :: rest) ∨
      QuotedBody delim text ∨ ∃ body, QuotedBody delim body ∧ text = body ++ ['\\'] := by
  induction text, 0 using closingQuote.induct delim with
  | case1 => exact Or.inr (Or.inl .nil)
  | case2 => exact Or.inl ⟨[], [], .nil, nofun, rfl⟩
  | case3 _ rest ih =>
    rcases ih with ⟨body, r, hb, hr, rfl⟩ | hb | ⟨body, hb, rfl⟩
    · exact Or.inl ⟨_, r, hb.doubled, hr, rfl⟩
    · exact Or.inr (Or.inl hb.doubled)
    · exact Or.inr (Or.inr ⟨_, hb.doubled, rfl⟩)
  | case4 _ d rest hne =>
    refine Or.inl ⟨[], d :: rest, .nil, ?_, rfl⟩
    intro h
    exact hne (Option.some.inj h)
  | case5 _ hne => exact Or.inr (Or.inr ⟨[], .nil, rfl⟩)
  | case6 _ hne c rest ih =>
    rcases ih with ⟨body, r, hb, hr, rfl⟩ | hb | ⟨body, hb, rfl⟩
    · exact Or.inl ⟨_, r, hb.escaped, hr, rfl⟩
    · exact Or.inr (Or.inl hb.escaped)
    · exact Or.inr (Or.inr ⟨_, hb.escaped, rfl⟩)
  | case7 _ c rest hc he ih =>
    rcases ih with ⟨body, r, hb, hr, rfl⟩ | hb | ⟨body, hb, rfl⟩
    · exact Or.inl ⟨_, r, hb.plain hc he, hr, rfl⟩
    · exact Or.inr (Or.inl (hb.plain hc he))
    · exact Or.inr (Or.inr ⟨_, hb.plain hc he, rfl⟩)

end Quoted

/-- What the search of a closing tag passes: up to a `$`, then the start of the tag, then a
character which is not that of the tag. -/
inductive TagMisses (tag : List Char) : List Char → Prop
  | nil : TagMisses tag []
  | miss {gap start left s : List Char} {c t : Char} :
    '$' ∉ gap → start ≠ [] → tag = start ++ t :: left → c ≠ t → TagMisses tag s →
      TagMisses tag (gap ++ start ++ c :: s)

section Dollar

variable {tag gap start left text misses rest : List Char}

/-- A tag opens with its only first `$`. -/
def DollarTag (tag : List Char) : Prop :=
  ∃ name, (∀ c ∈ name, tagChar c) ∧ tag = '$' :: (name ++ ['$'])

theorem closingTag_gap (hg : '$' ∉ gap) (hne : gap ≠ []) (t : List Char) (i : Nat) (b : TagSearch)
    (hb : b = .head ∨ b = .seeking) :
    closingTag tag b (gap ++ t) i = closingTag tag .seeking t (i + gap.length) := by
  induction gap generalizing i b with
  | nil => exact absurd rfl hne
  | cons c gap ih =>
    have hc : c ≠ '$' := fun h => hg (by simp [h])
    have hgap : '$' ∉ gap := fun h => hg (List.mem_cons_of_mem _ h)
    have hstep : closingTag tag b (c :: gap ++ t) i = closingTag tag .seeking (gap ++ t) (i + 1) := by
      rcases hb with rfl | rfl <;> simp [closingTag, hc]
    rw [hstep]
    by_cases hnil : gap = []
    · simp [hnil]
    · rw [ih hgap hnil _ _ (Or.inr rfl), List.length_cons]
      congr 1
      omega

theorem closingTag_comparing (left t : List Char) (i : Nat) :
    closingTag tag (.comparing (start ++ left)) (start ++ t) i =
      closingTag tag (.comparing left) t (i + start.length) := by
  induction start generalizing i with
  | nil => rfl
  | cons c start ih =>
    rw [List.cons_append, List.cons_append, closingTag, if_pos rfl, ih, List.length_cons]
    congr 1
    omega

theorem closingTag_start (hg : '$' ∉ gap) (htag : tag = '$' :: start ++ left) (t : List Char)
    (i : Nat) :
    closingTag tag .head (gap ++ ('$' :: start ++ t)) i =
      closingTag tag (.comparing left) t (i + gap.length + (start.length + 1)) := by
  have htail : tag.tail = start ++ left := by rw [htag]; rfl
  have henter : ∀ (b : TagSearch) (i : Nat), b = .head ∨ b = .seeking →
      closingTag tag b ('$' :: start ++ t) i =
        closingTag tag (.comparing left) t (i + (start.length + 1)) := by
    intro b i hb
    have : closingTag tag b ('$' :: start ++ t) i =
        closingTag tag (.comparing tag.tail) (start ++ t) (i + 1) := by
      rcases hb with rfl | rfl <;> simp [closingTag]
    rw [this, htail, closingTag_comparing]
    congr 1
    omega
  by_cases hne : gap = []
  · rw [hne]
    exact henter .head i (Or.inl rfl)
  · rw [closingTag_gap hg hne _ _ _ (Or.inl rfl)]
    exact henter .seeking _ (Or.inr rfl)

theorem DollarTag.start_eq (h : DollarTag tag) (hne : start ≠ []) (hs : tag = start ++ left) :
    ∃ s, start = '$' :: s := by
  obtain ⟨name, -, rfl⟩ := h
  cases start with
  | nil => exact absurd rfl hne
  | cons c s =>
    have : '$' = c := (List.cons.inj hs).1
    exact ⟨s, by rw [this]⟩

theorem closingTag_misses (ht : DollarTag tag) (h : TagMisses tag misses) (t : List Char) (i : Nat) :
    closingTag tag .head (misses ++ t) i = closingTag tag .head t (i + misses.length) := by
  induction h generalizing i with
  | nil => rfl
  | @miss gap start left s c u hg hne htag hc _ ih =>
    obtain ⟨start, rfl⟩ := ht.start_eq hne htag
    have hsplit : gap ++ '$' :: start ++ c :: s ++ t = gap ++ ('$' :: start ++ (c :: s ++ t)) := by
      simp only [List.append_assoc, List.cons_append]
    rw [hsplit, closingTag_start hg htag, List.cons_append, closingTag, if_neg hc, ih]
    simp only [List.length_append, List.length_cons]
    congr 1
    omega

theorem closingTag_missed (ht : DollarTag tag) (h : TagMisses tag misses) (i : Nat) :
    closingTag tag .head misses i = .ok none := by
  have := closingTag_misses ht h [] i
  rwa [List.append_nil, closingTag] at this

def DollarCloses (tag text : List Char) : Prop :=
  ∃ misses gap, TagMisses tag misses ∧ '$' ∉ gap ∧ text = misses ++ (gap ++ tag)

theorem closingTag_closed (rest : List Char) (ht : DollarTag tag) (h : DollarCloses tag text) (i : Nat) :
    closingTag tag .head (text ++ rest) i = .ok (some (i + text.length)) := by
  obtain ⟨misses, gap, h, hg, rfl⟩ := h
  obtain ⟨name, -, htag⟩ := id ht
  have hsplit : tag = '$' :: (name ++ ['$']) ++ [] := by rw [htag, List.append_nil]
  have hstart := closingTag_start hg hsplit rest (i + misses.length)
  rw [← List.append_nil ('$' :: (name ++ ['$'])), ← hsplit] at hstart
  rw [List.append_assoc, List.append_assoc, closingTag_misses ht h, hstart, closingTag, htag]
  simp only [List.length_append, List.length_cons]
  congr 2
  omega

/-- The text ends in the search of the tag `tag`. -/
def DollarUnclosed (tag text : List Char) : Prop :=
  ∃ misses gap start left, TagMisses tag misses ∧ '$' ∉ gap ∧ tag = start ++ left ∧ left ≠ [] ∧
    gap ++ start ≠ [] ∧ text = misses ++ (gap ++ start)

theorem closingTag_unclosed (ht : DollarTag tag) (h : DollarUnclosed tag text) (i : Nat) :
    closingTag tag .head text i = .error .beyondEnd := by
  obtain ⟨misses, gap, start, left, hm, hg, htag, hleft, hne, rfl⟩ := h
  rw [closingTag_misses ht hm]
  by_cases hs : start = []
  · subst hs
    rw [List.append_nil] at hne
    rw [closingTag_gap hg hne _ _ _ (Or.inl rfl)]
    rfl
  · obtain ⟨start, rfl⟩ := ht.start_eq hs htag
    have hstart := closingTag_start hg htag [] (i + misses.length)
    rw [List.append_nil] at hstart
    rw [hstart]
    cases left with
    | nil => exact absurd rfl hleft
    | cons t left => rfl

theorem prefix_cases {α : Type} (tag r : List α) :
    (∃ rest, r = tag ++ rest) ∨ (∃ left, left ≠ [] ∧ tag = r ++ left) ∨
      ∃ start t left c s, c ≠ t ∧ tag = start ++ t :: left ∧ r = start ++ c :: s := by
  induction tag generalizing r with
  | nil => exact Or.inl ⟨r, rfl⟩
  | cons t tag ih =>
    cases r with
    | nil => exact Or.inr (Or.inl ⟨t :: tag, nofun, rfl⟩)
    | cons c r =>
      by_cases hc : c = t
      · subst hc
        rcases ih r with ⟨rest, rfl⟩ | ⟨left, hl, rfl⟩ | ⟨start, u, left, d, s, hd, rfl, rfl⟩
        · exact Or.inl ⟨rest, rfl⟩
        · exact Or.inr (Or.inl ⟨left, hl, rfl⟩)
        · exact Or.inr (Or.inr ⟨c :: start, u, left, d, s, hd, rfl, rfl⟩)
      · exact Or.inr (Or.inr ⟨[], t, tag, c, r, hc, rfl, rfl⟩)

theorem dollar_cases (ht : DollarTag tag) (text : List Char) :
    (∃ closed rest, DollarCloses tag closed ∧ text = closed ++ rest) ∨
      TagMisses tag text ∨ DollarUnclosed tag text := by
  induction hn : text.length using Nat.strong_induction_on generalizing text with
  | _ n ih =>
    subst hn
    obtain ⟨name, -, htag⟩ := id ht
    by_cases hg : '$' ∉ text
    · by_cases hnil : text = []
      · rw [hnil]
        exact Or.inr (Or.inl .nil)
      · refine Or.inr (Or.inr ⟨[], text, [], tag, .nil, hg, rfl, ?_, ?_, ?_⟩)
        · rw [htag]
          exact nofun
        · rwa [List.append_nil]
        · simp
    · have hmem := not_not.1 hg
      clear hg
      obtain ⟨gap, r, rfl, hg⟩ := List.eq_append_cons_of_mem hmem
      rcases prefix_cases tag ('$' :: r) with
        ⟨rest, hr⟩ | ⟨left, hl, hr⟩ | ⟨start, t, left, c, s, hc, hst, hr⟩
      · refine Or.inl ⟨gap ++ tag, rest, ⟨[], gap, .nil, hg, rfl⟩, ?_⟩
        rw [hr, List.append_assoc]
      · exact Or.inr (Or.inr ⟨[], gap, '$' :: r, left, .nil, hg, hr, hl, by simp, rfl⟩)
      · have hne : start ≠ [] := by
          rintro rfl
          rw [htag] at hst
          rw [List.nil_append] at hst hr
          exact hc ((List.cons.inj hr).1.symm.trans (List.cons.inj hst).1)
        have hlen : s.length < (gap ++ '$' :: r).length := by
          rw [hr]
          simp only [List.length_append, List.length_cons]
          omega
        have hmiss : ∀ {m}, TagMisses tag m → TagMisses tag (gap ++ start ++ c :: m) :=
          fun hm => .miss hg hne hst hc hm
        have hsplit : gap ++ '$' :: r = gap ++ start ++ c :: s := by
          rw [hr, List.append_assoc]
        rw [hsplit]
        rcases ih _ hlen s rfl with
          ⟨_, rest, ⟨m, g, hm, hg', rfl⟩, rfl⟩ | hm | ⟨m, g, st, l, hm, hg', h1, h2, h3, rfl⟩
        · refine Or.inl ⟨_, rest, ⟨_, g, hmiss hm, hg', rfl⟩, ?_⟩
          simp only [List.append_assoc, List.cons_append]
        · exact Or.inr (Or.inl (hmiss hm))
        · refine Or.inr (Or.inr ⟨_, g, st, l, hmiss hm, hg', h1, h2, h3, ?_⟩)
          simp only [List.append_assoc, List.cons_append]

end Dollar

def CommentCut (text : List Char) : Prop :=
  ∃ before comment, text = before ++ '\n' :: '-' :: '-' :: comment ∧ '\n' ∉ comment

def stateCut : CopyState → List Char → Prop
  | .lineStart, text => CommentCut ('\n' :: text)
  | .inLine, text => CommentCut text
  | .inComment, text => '\n' ∉ text ∨ CommentCut text

theorem commentCut_cons {c : Char} {text : List Char} (hc : c ≠ '\n') :
    CommentCut (c :: text) ↔ CommentCut text := by
  constructor
  · rintro ⟨before, comment, heq, hn⟩
    cases before with
    | nil => exact absurd (List.cons.inj heq).1 hc
    | cons d before => exact ⟨before, comment, (List.cons.inj heq).2, hn⟩
  · rintro ⟨before, comment, rfl, hn⟩
    exact ⟨c :: before, comment, rfl, hn⟩

theorem commentCut_line {text : List Char} :
    CommentCut ('\n' :: text) ↔
      (∃ comment, text = '-' :: '-' :: comment ∧ '\n' ∉ comment) ∨ CommentCut text := by
  constructor
  · rintro ⟨before, comment, heq, hn⟩
    cases before with
    | nil => exact Or.inl ⟨comment, (List.cons.inj heq).2, hn⟩
    | cons d before => exact Or.inr ⟨before, comment, (List.cons.inj heq).2, hn⟩
  · rintro (⟨comment, rfl, hn⟩ | ⟨before, comment, rfl, hn⟩)
    · exact ⟨[], comment, rfl, hn⟩
    · exact ⟨'\n' :: before, comment, rfl, hn⟩

theorem reads_stripComments (state : CopyState) (text : List Char) :
    Reads (stateCut state text) (fun _ => True) (stripComments state text) := by
  have hnil : ∀ before comment, [] ≠ before ++ '\n' :: '-' :: '-' :: (comment : List Char) := by simp
  induction text generalizing state with
  | nil =>
    cases state with
    | lineStart =>
      refine .ok ?_ trivial
      intro h
      rcases commentCut_line.1 h with ⟨comment, hc, -⟩ | ⟨before, comment, hc, -⟩
      · cases hc
      · exact hnil _ _ hc
    | inLine =>
      refine .ok ?_ trivial
      rintro ⟨before, comment, hc, -⟩
      exact hnil _ _ hc
    | inComment => exact .error (Or.inl (by simp))
  | cons c rest ih =>
    have hcopied : Reads (CommentCut (c :: rest)) (fun _ => True)
        ((stripComments (if c = '\n' then .lineStart else .inLine) rest).map (c :: ·)) := by
      by_cases hc : c = '\n'
      · rw [if_pos hc, hc]
        exact (ih .lineStart).map (fun _ _ => trivial)
      · rw [if_neg hc]
        exact ((ih .inLine).map (fun _ _ => trivial)).congr (commentCut_cons hc).symm
    cases state with
    | inLine => exact hcopied
    | inComment =>
      by_cases hc : c = '\n'
      · subst hc
        have hcut : CommentCut ('\n' :: rest) ↔ stateCut .inComment ('\n' :: rest) := by
          simp [stateCut]
        rw [stripComments, if_pos rfl]
        exact ((ih .lineStart).map (fun _ _ => trivial)).congr hcut
      · have hcut : stateCut .inComment rest ↔ stateCut .inComment (c :: rest) := by
          simp only [stateCut, commentCut_cons hc, List.mem_cons, not_or, Ne.symm hc,
            not_false_eq_true, true_and]
        rw [stripComments, if_neg hc]
        exact (ih .inComment).congr hcut
    | lineStart =>
      rw [stripComments]
      by_cases hd : c = '-' ∧ rest.head? = some '-'
      · obtain ⟨rfl, hhead⟩ := hd
        obtain ⟨comment, rfl⟩ : ∃ comment, rest = '-' :: comment := by
          cases rest with
          | nil => cases hhead
          | cons d comment => exact ⟨comment, by rw [Option.some.inj hhead]⟩
        have hcut : stateCut .inComment ('-' :: comment) ↔
            stateCut .lineStart ('-' :: '-' :: comment) := by
          simp only [stateCut]
          have hdash : '-' ≠ '\n' := by decide
          rw [commentCut_line]
          simp [commentCut_cons hdash]
        rw [if_pos ⟨rfl, rfl⟩]
        exact (ih .inComment).congr hcut
      · rw [if_neg hd]
        refine hcopied.congr ?_
        simp only [stateCut]
        rw [commentCut_line]
        constructor
        · exact Or.inr
        · rintro (⟨comment, heq, -⟩ | h)
          · cases heq
            exact absurd ⟨rfl, rfl⟩ hd
          · exact h

end LibGda
