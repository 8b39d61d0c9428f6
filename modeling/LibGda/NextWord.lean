import LibGda.IdentifierForm

/-! `get_next_word`: words are cut from a text in place, one after the other. A text is a list of
bytes, one character for each, without its terminator. -/

namespace LibGda

abbrev Text := List Char

def isWordSpace (c : Char) : Bool := c ∈ [' ', '\n', '\t', '\r']

def isWordChar (c : Char) : Bool := c.isAlphanum || c == '_'

def isIdentQuote (c : Char) : Bool := c ∈ ['"', '\'', '`']

/-- The second loop of `get_next_word`: the text as it is written up to where the loop is left, and
the text from there. -/
def wordFrom (forIdent inquotes : Bool) : Text → Text × Text
  | [] => ([], [])
  | c :: rest =>
    if isWordChar c then
      let result := wordFrom forIdent inquotes rest
      ((if forIdent then c else c.toUpper) :: result.1, result.2)
    else if forIdent then
      if isIdentQuote c then
        if inquotes then (['"'], rest)
        else
          let result := wordFrom forIdent true rest
          ('"' :: result.1, result.2)
      else ([], c :: rest)
    else if inquotes then
      let result := wordFrom forIdent inquotes rest
      (c :: result.1, result.2)
    else ([], c :: rest)

/-- `left` is what the text itself reads as afterwards. -/
structure NextWord where
  word : Option Text
  next : Option Text
  left : Option Text

def getNextWord (str : Option Text) (forIdent : Bool) : NextWord :=
  match str with
  | none => ⟨none, none, none⟩
  | some text =>
    let start := text.dropWhile isWordSpace
    let result := wordFrom forIdent false start
    -- a word without a character is the whole text which is left: nothing is cut behind it
    if result.1 = [] then ⟨some start, none, some text⟩
    else ⟨some result.1, some result.2.tail, some (text.takeWhile isWordSpace ++ result.1)⟩

/-- The text starts with a keyword, in any case: `after` is behind the character which ends it. -/
def Keyword (key text after : Text) : Prop :=
  ∃ blanks word rest, text = blanks ++ (word ++ rest) ∧ (∀ c ∈ blanks, isWordSpace c = true) ∧
    word.map Char.toUpper = key ∧ (∀ c, rest.head? = some c → isWordChar c = false) ∧
    after = rest.tail

inductive Plain : Text → Text → Text → Prop where
  | bare {blanks word rest : Text} (hblanks : ∀ c ∈ blanks, isWordSpace c = true)
      (hne : word ≠ []) (hword : ∀ c ∈ word, isWordChar c = true)
      (hend : ∀ c, rest.head? = some c → isWordChar c = false ∧ isIdentQuote c = false) :
      Plain (blanks ++ (word ++ rest)) word rest.tail
  | quoted {blanks word rest : Text} {q q' : Char} (hblanks : ∀ c ∈ blanks, isWordSpace c = true)
      (hq : isIdentQuote q = true) (hq' : isIdentQuote q' = true)
      (hword : ∀ c ∈ word, isWordChar c = true) :
      Plain (blanks ++ (q :: (word ++ q' :: rest))) ('"' :: (word ++ ['"'])) rest.tail
  | whole {blanks name : Text} {c : Char} (hblanks : ∀ c ∈ blanks, isWordSpace c = true)
      (hspace : isWordSpace c = false) (hword : isWordChar c = false)
      (hquote : isIdentQuote c = false) : Plain (blanks ++ (c :: name)) (c :: name) []

def Spelled (name : Text) : Prop :=
  (name ≠ [] ∧ '"' ∉ name) ∨ ∃ inner, name = '"' :: (inner ++ ['"'])

section Characters

variable {c : Char} {text : Text}

theorem isWordChar_not_space (h : isWordChar c = true) : isWordSpace c = false := by
  by_contra hspace
  have hmem : c ∈ [' ', '\n', '\t', '\r'] := of_decide_eq_true (eq_true_of_ne_false hspace)
  simp only [List.mem_cons, List.not_mem_nil, or_false] at hmem
  obtain rfl | rfl | rfl | rfl := hmem <;> exact absurd h (by decide)

theorem isIdentQuote_cases (h : isIdentQuote c = true) : c = '"' ∨ c = '\'' ∨ c = '`' := by
  have hmem : c ∈ ['"', '\'', '`'] := of_decide_eq_true h
  simpa only [List.mem_cons, List.not_mem_nil, or_false] using hmem

theorem isIdentQuote_not_word (h : isIdentQuote c = true) : isWordChar c = false := by
  obtain rfl | rfl | rfl := isIdentQuote_cases h <;> decide

theorem isIdentQuote_not_space (h : isIdentQuote c = true) : isWordSpace c = false := by
  obtain rfl | rfl | rfl := isIdentQuote_cases h <;> decide

theorem isUpper_toUpper (h : c.isLower = true) : c.toUpper.isUpper = true := by
  have hbounds := isLower_iff.1 h
  have hcond : 'a'.val ≤ c.val ∧ c.val ≤ 'z'.val := by
    simpa [isLower_def] using h
  apply isUpper_iff.2
  unfold Char.toUpper
  rw [dif_pos hcond]
  have hsub : ('A'.val - 'a'.val).toNat = 4294967264 := by decide
  simp only [UInt32.toNat_add, hsub]
  omega

theorem toUpper_of_not_lower (h : ¬ c.isLower = true) : c.toUpper = c := by
  have hcond : ¬ ('a'.val ≤ c.val ∧ c.val ≤ 'z'.val) := by
    simpa [isLower_def] using h
  exact dif_neg hcond

theorem isWordChar_toUpper : isWordChar c.toUpper = isWordChar c := by
  by_cases hlower : c.isLower = true
  · have hupper := isUpper_toUpper hlower
    simp [isWordChar, Char.isAlphanum, isAlpha_def, hlower, hupper]
  · rw [toUpper_of_not_lower hlower]

theorem toUpper_toUpper : c.toUpper.toUpper = c.toUpper := by
  by_cases hlower : c.isLower = true
  · apply toUpper_of_not_lower
    intro hlower'
    have hupper := isUpper_toUpper hlower
    rw [isUpper_eq_false_of_isLower hlower'] at hupper
    cases hupper
  · rw [toUpper_of_not_lower hlower, toUpper_of_not_lower hlower]

theorem quote_not_mem {word : Text} (h : ∀ c ∈ word, isWordChar c = true) : '"' ∉ word := by
  intro hmem
  exact absurd (h _ hmem) (by decide)

end Characters

section Keywords

variable {key text after : Text}

def IsKey (key : Text) : Prop := key ≠ [] ∧ ∀ c ∈ key, isWordChar c = true

theorem wordFrom_keyword (text : Text) : wordFrom false false text =
    ((text.takeWhile isWordChar).map Char.toUpper, text.dropWhile isWordChar) := by
  induction text with
  | nil => simp [wordFrom]
  | cons c rest ih =>
    by_cases hc : isWordChar c = true
    · simp [wordFrom, hc, ih]
    · simp [wordFrom, hc]

theorem dropWhile_blanks {blanks rest : Text} (hblanks : ∀ c ∈ blanks, isWordSpace c = true)
    (hrest : ∀ c, rest.head? = some c → isWordSpace c = false) :
    (blanks ++ rest).dropWhile isWordSpace = rest := by
  rw [List.dropWhile_append_of_pos hblanks]
  cases rest with
  | nil => rfl
  | cons c rest => simp [hrest c rfl]

theorem takeWhile_word {word rest : Text} (hword : ∀ c ∈ word, isWordChar c = true)
    (hend : ∀ c, rest.head? = some c → isWordChar c = false) :
    (word ++ rest).takeWhile isWordChar = word ∧ (word ++ rest).dropWhile isWordChar = rest := by
  refine ⟨TerminatedBuffer.takeWhile_boundary hword hend, ?_⟩
  rw [List.dropWhile_append_of_pos hword]
  cases rest with
  | nil => rfl
  | cons c rest => simp [hend c rfl]

theorem head_word {word : Text} (hne : word ≠ []) (hword : ∀ c ∈ word, isWordChar c = true)
    (rest : Text) :
    ∀ c, (word ++ rest).head? = some c → isWordSpace c = false := by
  cases word with
  | nil => exact absurd rfl hne
  | cons d word =>
    intro c hc
    have heq : d = c := by simpa using hc
    rw [← heq]
    exact isWordChar_not_space (hword d (List.mem_cons_self ..))

theorem getNextWord_keyword (hkey : IsKey key) (h : Keyword key text after) :
    ∃ left, getNextWord (some text) false = ⟨some key, some after, left⟩ := by
  obtain ⟨blanks, word, rest, rfl, hblanks, rfl, hend, rfl⟩ := h
  have hne : word ≠ [] := fun h => hkey.1 (by rw [h, List.map_nil])
  have hword : ∀ c ∈ word, isWordChar c = true := by
    intro c hc
    rw [← isWordChar_toUpper]
    exact hkey.2 _ (List.mem_map_of_mem hc)
  obtain ⟨htake, hdrop⟩ := takeWhile_word hword hend
  have hstart := dropWhile_blanks hblanks (head_word hne hword rest)
  simp only [getNextWord, hstart, wordFrom_keyword, htake, hdrop, if_neg hkey.1]
  exact ⟨_, rfl⟩

theorem keyword_of_word (hkey : IsKey key) (h : (getNextWord (some text) false).word = some key) :
    ∃ after, Keyword key text after := by
  simp only [getNextWord, wordFrom_keyword] at h
  by_cases hnil : ((text.dropWhile isWordSpace).takeWhile isWordChar).map Char.toUpper = []
  · -- the text which is left starts with no character of a word
    rw [if_pos hnil, Option.some.injEq] at h
    rw [h] at hnil
    obtain ⟨hne, hchars⟩ := hkey
    cases key with
    | nil => exact absurd rfl hne
    | cons c key =>
      have hc := hchars c (List.mem_cons_self ..)
      simp [hc] at hnil
  · rw [if_neg hnil, Option.some.injEq] at h
    refine ⟨_, text.takeWhile isWordSpace, (text.dropWhile isWordSpace).takeWhile isWordChar,
      (text.dropWhile isWordSpace).dropWhile isWordChar, ?_, ?_, h, ?_, rfl⟩
    · rw [List.takeWhile_append_dropWhile, List.takeWhile_append_dropWhile]
    · intro c hc
      exact List.mem_takeWhile_imp hc
    · exact TerminatedBuffer.head_dropWhile _

theorem next_of_left {left : Text} (h : (getNextWord (some text) false).left = some left) :
    (getNextWord (some left) false).next.getD [] = [] := by
  simp only [getNextWord, wordFrom_keyword] at h
  by_cases hnil : ((text.dropWhile isWordSpace).takeWhile isWordChar).map Char.toUpper = []
  · rw [if_pos hnil, Option.some.injEq] at h
    subst h
    simp [getNextWord, wordFrom_keyword, hnil]
  · rw [if_neg hnil, Option.some.injEq] at h
    have hword : ∀ c ∈ ((text.dropWhile isWordSpace).takeWhile isWordChar).map Char.toUpper,
        isWordChar c = true := by
      intro c hc
      obtain ⟨d, hd, rfl⟩ := List.mem_map.1 hc
      rw [isWordChar_toUpper]
      exact List.mem_takeWhile_imp hd
    have hupper : (((text.dropWhile isWordSpace).takeWhile isWordChar).map Char.toUpper).map
        Char.toUpper = ((text.dropWhile isWordSpace).takeWhile isWordChar).map Char.toUpper := by
      rw [List.map_map]
      exact List.map_congr_left fun c _ => toUpper_toUpper
    generalize ((text.dropWhile isWordSpace).takeWhile isWordChar).map Char.toUpper = word
      at hnil h hword hupper
    have hkeyword : Keyword word left [] := by
      refine ⟨text.takeWhile isWordSpace, word, [], ?_, ?_, hupper, ?_, rfl⟩
      · rw [List.append_nil]
        exact h.symm
      · intro c hc
        exact List.mem_takeWhile_imp hc
      · intro c hc
        cases hc
    obtain ⟨left', hread⟩ := getNextWord_keyword ⟨hnil, hword⟩ hkeyword
    rw [hread]
    rfl

end Keywords

section Names

variable {name text after : Text}

theorem wordFrom_word {inquotes : Bool} {word : Text} (hword : ∀ c ∈ word, isWordChar c = true)
    (rest : Text) : wordFrom true inquotes (word ++ rest) =
      (word ++ (wordFrom true inquotes rest).1, (wordFrom true inquotes rest).2) := by
  induction word with
  | nil => rfl
  | cons c word ih =>
    have hc := hword c (List.mem_cons_self ..)
    have hrest := ih fun d hd => hword d (List.mem_cons_of_mem _ hd)
    simp [wordFrom, hc, hrest]

theorem wordFrom_end {inquotes : Bool} {rest : Text}
    (hend : ∀ c, rest.head? = some c → isWordChar c = false ∧ isIdentQuote c = false) :
    wordFrom true inquotes rest = ([], rest) := by
  cases rest with
  | nil => rfl
  | cons c rest =>
    obtain ⟨hword, hquote⟩ := hend c rfl
    simp [wordFrom, hword, hquote]

theorem wordFrom_close {q : Char} (hq : isIdentQuote q = true) (rest : Text) :
    wordFrom true true (q :: rest) = (['"'], rest) := by
  simp [wordFrom, isIdentQuote_not_word hq, hq]

theorem wordFrom_open {q : Char} (hq : isIdentQuote q = true) (rest : Text) :
    wordFrom true false (q :: rest) =
      ('"' :: (wordFrom true true rest).1, (wordFrom true true rest).2) := by
  simp [wordFrom, isIdentQuote_not_word hq, hq]

theorem getNextWord_plain (h : Plain text name after) :
    (getNextWord (some text) true).word = some name ∧
      (getNextWord (some text) true).next.getD [] = after := by
  cases h with
  | @bare blanks _ rest hblanks hne hword hend =>
    have hstart := dropWhile_blanks hblanks (head_word hne hword rest)
    have hread : wordFrom true false (name ++ rest) = (name, rest) := by
      rw [wordFrom_word hword, wordFrom_end hend, List.append_nil]
    simp only [getNextWord, hstart, hread, if_neg hne, Option.getD_some, and_self]
  | @quoted blanks word rest q q' hblanks hq hq' hword =>
    have hstart : (blanks ++ (q :: (word ++ q' :: rest))).dropWhile isWordSpace =
        q :: (word ++ q' :: rest) := by
      apply dropWhile_blanks hblanks
      intro c hc
      have heq : q = c := by simpa using hc
      rw [← heq]
      exact isIdentQuote_not_space hq
    have hread : wordFrom true false (q :: (word ++ q' :: rest)) =
        ('"' :: (word ++ ['"']), rest) := by
      rw [wordFrom_open hq, wordFrom_word hword, wordFrom_close hq']
    simp only [getNextWord, hstart, hread, if_neg (List.cons_ne_nil _ _), Option.getD_some,
      and_self]
  | @whole blanks name c hblanks hspace hword hquote =>
    have hstart : (blanks ++ (c :: name)).dropWhile isWordSpace = c :: name := by
      apply dropWhile_blanks hblanks
      intro d hd
      have heq : c = d := by simpa using hd
      rw [← heq]
      exact hspace
    have hread : wordFrom true false (c :: name) = ([], c :: name) := by
      apply wordFrom_end
      intro d hd
      have heq : c = d := by simpa using hd
      rw [← heq]
      exact ⟨hword, hquote⟩
    simp only [getNextWord, hstart, hread, if_true, Option.getD_none, and_self]

theorem quote_or (rest : Text) : (∀ c, rest.head? = some c → isIdentQuote c = false) ∨
    ∃ q tail, rest = q :: tail ∧ isIdentQuote q = true := by
  cases rest with
  | nil => exact .inl fun c hc => nomatch hc
  | cons q tail =>
    cases hq : isIdentQuote q with
    | true => exact .inr ⟨q, tail, rfl, hq⟩
    | false =>
      refine .inl fun c hc => ?_
      have heq : q = c := by simpa using hc
      rw [← heq]
      exact hq

theorem getNextWord_word (text : Text) (forIdent : Bool) :
    ∃ word left, (getNextWord (some text) forIdent).word = some word ∧
      (getNextWord (some text) forIdent).left = some left := by
  simp only [getNextWord]
  split
  · exact ⟨_, _, rfl, rfl⟩
  · exact ⟨_, _, rfl, rfl⟩

theorem getNextWord_next {forIdent : Bool} {c : Char} {word : Text} (hc : isWordChar c = true)
    (h : (getNextWord (some text) forIdent).word = some (c :: word)) :
    ∃ next, (getNextWord (some text) forIdent).next = some next := by
  simp only [getNextWord] at h ⊢
  by_cases hnil : (wordFrom forIdent false (text.dropWhile isWordSpace)).1 = []
  · rw [if_pos hnil, Option.some.injEq] at h
    rw [h] at hnil
    simp [wordFrom, hc] at hnil
  · rw [if_neg hnil]
    exact ⟨_, rfl⟩

theorem start_of_quoted {word read inner : Text} (hword : ∀ c ∈ word, isWordChar c = true)
    (h : word ++ '"' :: read = '"' :: inner) : word = [] ∧ read = inner := by
  cases word with
  | nil => exact ⟨rfl, by simpa using h⟩
  | cons c word =>
    have hc := hword c (List.mem_cons_self ..)
    rw [List.cons_append, List.cons.injEq] at h
    rw [h.1] at hc
    exact absurd hc (by decide)

theorem close_of_read {tail inner : Text} (h : (wordFrom true true tail).1 = inner ++ ['"']) :
    ∃ word q rest, tail = word ++ q :: rest ∧ (∀ c ∈ word, isWordChar c = true) ∧
      isIdentQuote q = true ∧ inner = word := by
  have hword : ∀ c ∈ tail.takeWhile isWordChar, isWordChar c = true :=
    fun c hc => List.mem_takeWhile_imp hc
  have hend := TerminatedBuffer.head_dropWhile (p := isWordChar) tail
  have hsplit := List.takeWhile_append_dropWhile (p := isWordChar) (l := tail)
  generalize tail.takeWhile isWordChar = word at hword hsplit
  generalize tail.dropWhile isWordChar = rest at hend hsplit
  subst hsplit
  rw [wordFrom_word hword] at h
  obtain hquote | ⟨q, rest', rfl, hq⟩ := quote_or rest
  · rw [wordFrom_end fun c hc => ⟨hend c hc, hquote c hc⟩, List.append_nil] at h
    have hmem : '"' ∈ inner ++ ['"'] := by simp
    rw [← h] at hmem
    exact absurd hmem (quote_not_mem hword)
  · rw [wordFrom_close hq] at h
    exact ⟨word, q, rest', rfl, hword, hq, (List.append_cancel_right h).symm⟩

theorem plain_of_word (hname : Spelled name)
    (h : (getNextWord (some text) true).word = some name) : ∃ after, Plain text name after := by
  have hblanks : ∀ c ∈ text.takeWhile isWordSpace, isWordSpace c = true :=
    fun c hc => List.mem_takeWhile_imp hc
  have hhead := TerminatedBuffer.head_dropWhile (p := isWordSpace) text
  have htext := List.takeWhile_append_dropWhile (p := isWordSpace) (l := text)
  generalize text.takeWhile isWordSpace = blanks at hblanks htext
  generalize hstart : text.dropWhile isWordSpace = start at hhead htext
  have hword : ∀ c ∈ start.takeWhile isWordChar, isWordChar c = true :=
    fun c hc => List.mem_takeWhile_imp hc
  have hend := TerminatedBuffer.head_dropWhile (p := isWordChar) start
  have hsplit := List.takeWhile_append_dropWhile (p := isWordChar) (l := start)
  generalize start.takeWhile isWordChar = word at hword hsplit
  generalize start.dropWhile isWordChar = rest at hend hsplit
  simp only [getNextWord, hstart] at h
  rw [← hsplit, wordFrom_word hword] at h
  subst hsplit htext
  obtain hquote | ⟨q, tail, rfl, hq⟩ := quote_or rest
  · have hstop : ∀ c, rest.head? = some c → isWordChar c = false ∧ isIdentQuote c = false :=
      fun c hc => ⟨hend c hc, hquote c hc⟩
    rw [wordFrom_end hstop, List.append_nil] at h
    by_cases hnil : word = []
    · -- no word at all: the name is what is left
      subst hnil
      rw [if_pos rfl, Option.some.injEq, List.nil_append] at h
      subst h
      cases rest with
      | nil =>
        obtain ⟨hne, -⟩ | ⟨inner, hinner⟩ := hname
        · exact absurd rfl hne
        · cases hinner
      | cons c rest =>
        exact ⟨[], .whole hblanks (hhead c rfl) (hend c rfl) (hquote c rfl)⟩
    · rw [if_neg hnil, Option.some.injEq] at h
      subst h
      exact ⟨rest.tail, .bare hblanks hnil hword hstop⟩
  · -- a quote is read, which only a name between quotes has
    have hne : word ++ '"' :: (wordFrom true true tail).1 ≠ [] := by simp
    rw [wordFrom_open hq, if_neg hne, Option.some.injEq] at h
    obtain ⟨-, hno⟩ | ⟨inner, hinner⟩ := hname
    · rw [← h] at hno
      simp at hno
    · rw [hinner] at h
      obtain ⟨rfl, hread⟩ := start_of_quoted hword h
      obtain ⟨word', q', tail', rfl, hword', hq', hinner'⟩ := close_of_read hread
      rw [hinner, hinner']
      exact ⟨tail'.tail, .quoted hblanks hq hq' hword'⟩

end Names

end LibGda
