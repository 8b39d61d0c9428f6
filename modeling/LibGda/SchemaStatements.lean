import LibGda.NextWord

/-! The statements which create, change and drop a table or a view, read from the tokens of their
text: what the text names, whatever a word splitter makes of it. -/

namespace LibGda

inductive SqlToken where
  | word (text : Text)
  | quoted (content : Text)
  | comment
  | mark (c : Char)
  deriving DecidableEq

def quotedContent (q : Char) : Text → Option (Text × Text)
  | [] => none
  | [c] => if c = q then some ([], []) else none
  | c :: d :: rest =>
    if c = q then
      if d = q then (quotedContent q rest).map fun result => (q :: result.1, result.2)
      else some ([], d :: rest)
    else (quotedContent q (d :: rest)).map fun result => (c :: result.1, result.2)

def afterComment : Text → Text
  | [] => []
  | [_] => []
  | c :: d :: rest => if c = '*' ∧ d = '/' then rest else afterComment (d :: rest)

def nextToken (text : Text) : Option (SqlToken × Text) :=
  match text.dropWhile isspace with
  | [] => none
  | c :: rest =>
    if idChar c then some (.word (c :: rest.takeWhile idChar), rest.dropWhile idChar)
    else if isIdentQuote c then
      match quotedContent c rest with
      | some (content, rest') => some (.quoted content, rest')
      | none => some (.mark c, rest)
    else if c = '-' ∧ rest.head? = some '-' then some (.comment, rest.dropWhile (· ≠ '\n'))
    else if c = '/' ∧ rest.head? = some '*' then some (.comment, afterComment rest.tail)
    else some (.mark c, rest)

def tokensWithin : Nat → Text → List SqlToken
  | 0, _ => []
  | n + 1, text =>
    match nextToken text with
    | none => []
    | some (token, rest) => token :: tokensWithin n rest

def sqlTokens (text : Text) : List SqlToken := tokensWithin text.length text

def SqlToken.Is (key : String) : SqlToken → Prop
  | .word text => text.map Char.toUpper = key.toList
  | _ => False

instance (key : String) (token : SqlToken) : Decidable (token.Is key) := by
  cases token <;> unfold SqlToken.Is <;> infer_instance

def SqlToken.identifier : SqlToken → Option Text
  | .word text => if (text.head?.any Char.isDigit) = true then none else some text
  | .quoted content =>
    if content = [] then none else some ('"' :: (doubledQuotes content ++ ['"']))
  | _ => none

def tableName (tokens : List SqlToken) : Option (Text × List SqlToken) :=
  match tokens with
  | [] => none
  | token :: rest => token.identifier.map fun first =>
    match rest with
    | .mark '.' :: part :: rest' =>
      match part.identifier with
      | some second => (second, rest')
      | none => (first, rest)
    | _ => (first, rest)

/-- Behind `IF EXISTS` or `IF NOT EXISTS`. -/
def withoutIf (tokens : List SqlToken) : List SqlToken :=
  match tokens with
  | a :: b :: c :: rest =>
    if a.Is "IF" ∧ b.Is "EXISTS" then c :: rest
    else if a.Is "IF" ∧ b.Is "NOT" ∧ c.Is "EXISTS" then rest
    else tokens
  | _ => tokens

/-- The name behind the first `RENAME TO` which has one. -/
def newName : List SqlToken → Option Text
  | [] => none
  | token :: rest =>
    match (if token.Is "RENAME" ∧ rest.head?.any (fun t => decide (t.Is "TO")) = true then
        tableName rest.tail else none) with
    | some (name, _) => some name
    | none => newName rest

/-- `ALTER|CREATE|DROP TABLE|VIEW [IF [NOT] EXISTS] name ... [RENAME TO new_name]`: the name and the
new one. -/
def schemaStatement (text : Text) : Option (Text × Option Text) :=
  match sqlTokens text with
  | op :: kind :: rest =>
    if (op.Is "ALTER" ∨ op.Is "CREATE" ∨ op.Is "DROP") ∧ (kind.Is "TABLE" ∨ kind.Is "VIEW") then
      (tableName (withoutIf rest)).map fun result => (result.1, newName result.2)
    else none
  | _ => none

def schemaNames (text : Text) : List Text :=
  match schemaStatement text with
  | none => []
  | some (name, new) => new.toList ++ [name]

section Soundness

def SqlToken.Sound : SqlToken → Prop
  | .word text => text ≠ [] ∧ '"' ∉ text
  | _ => True

variable {token : SqlToken} {tokens rest : List SqlToken} {text name : Text}

theorem nextToken_sound {result : SqlToken × Text} (h : nextToken text = some result) :
    result.1.Sound := by
  unfold nextToken at h
  cases hdrop : text.dropWhile isspace with
  | nil =>
    rw [hdrop] at h
    cases h
  | cons c rest =>
    rw [hdrop] at h
    dsimp only at h
    by_cases hid : idChar c = true
    · rw [if_pos hid, Option.some.injEq] at h
      rw [← h]
      refine ⟨List.cons_ne_nil _ _, ?_⟩
      intro hmem
      have hquote : idChar '"' = true := by
        obtain heq | hmem := List.mem_cons.1 hmem
        · rw [heq]
          exact hid
        · exact List.mem_takeWhile_imp hmem
      exact absurd hquote (by decide)
    · -- what is no word has no text
      rw [if_neg hid] at h
      split at h
      · split at h <;> cases h <;> trivial
      · split at h
        · cases h
          trivial
        · split at h <;> cases h <;> trivial

theorem tokensWithin_sound (n : Nat) : ∀ text, ∀ token ∈ tokensWithin n text, token.Sound := by
  induction n with
  | zero =>
    intro text token hmem
    cases hmem
  | succ n ih =>
    intro text token hmem
    rw [tokensWithin] at hmem
    cases hnext : nextToken text with
    | none =>
      rw [hnext] at hmem
      cases hmem
    | some result =>
      rw [hnext] at hmem
      obtain rfl | hmem := List.mem_cons.1 hmem
      · exact nextToken_sound hnext
      · exact ih _ _ hmem

theorem identifier_spelled (hsound : token.Sound) (h : token.identifier = some name) :
    Spelled name := by
  cases token with
  | word text =>
    simp only [SqlToken.identifier] at h
    split at h
    · cases h
    · cases h
      exact .inl hsound
  | quoted content =>
    simp only [SqlToken.identifier] at h
    split at h
    · cases h
    · cases h
      exact .inr ⟨_, rfl⟩
  | comment => cases h
  | mark c => cases h

theorem tableName_spelled (hsound : ∀ token ∈ tokens, token.Sound)
    (h : tableName tokens = some (name, rest)) : Spelled name ∧ ∀ token ∈ rest, token.Sound := by
  cases tokens with
  | nil => cases h
  | cons token tokens =>
    have htail : ∀ t ∈ tokens, t.Sound := fun t ht => hsound t (List.mem_cons_of_mem _ ht)
    simp only [tableName, Option.map_eq_some_iff] at h
    obtain ⟨first, hfirst, h⟩ := h
    have hspelled := identifier_spelled (hsound token (List.mem_cons_self ..)) hfirst
    split at h
    · rename_i part rest'
      split at h
      · rename_i second hsecond
        cases h
        exact ⟨identifier_spelled (htail part (by simp)) hsecond,
          fun t ht => htail t (by simp [ht])⟩
      · cases h
        exact ⟨hspelled, htail⟩
    · cases h
      exact ⟨hspelled, htail⟩

theorem newName_spelled (hsound : ∀ token ∈ tokens, token.Sound)
    (h : newName tokens = some name) : Spelled name := by
  induction tokens with
  | nil => cases h
  | cons token tokens ih =>
    have htail : ∀ t ∈ tokens, t.Sound := fun t ht => hsound t (List.mem_cons_of_mem _ ht)
    rw [newName] at h
    split at h
    · rename_i new rest hnew
      cases h
      split at hnew
      · exact (tableName_spelled (fun t ht => htail t (List.mem_of_mem_tail ht)) hnew).1
      · cases hnew
    · exact ih htail h

theorem withoutIf_subset : withoutIf tokens ⊆ tokens := by
  unfold withoutIf
  split
  · split
    · intro t ht
      exact List.mem_cons_of_mem _ (List.mem_cons_of_mem _ ht)
    · split
      · intro t ht
        exact List.mem_cons_of_mem _ (List.mem_cons_of_mem _ (List.mem_cons_of_mem _ ht))
      · exact List.Subset.refl _
  · exact List.Subset.refl _

theorem schemaStatement_spelled {new : Option Text} (h : schemaStatement text = some (name, new)) :
    Spelled name ∧ ∀ m, new = some m → Spelled m := by
  have hsound : ∀ token ∈ sqlTokens text, token.Sound := tokensWithin_sound _ text
  unfold schemaStatement at h
  split at h
  · rename_i op kind rest htokens
    rw [htokens] at hsound
    split at h
    · rw [Option.map_eq_some_iff] at h
      obtain ⟨⟨n, behind⟩, hname, heq⟩ := h
      cases heq
      have hrest : ∀ token ∈ withoutIf rest, token.Sound := by
        intro t ht
        exact hsound t (List.mem_cons_of_mem _ (List.mem_cons_of_mem _ (withoutIf_subset ht)))
      obtain ⟨hn, hbehind⟩ := tableName_spelled hrest hname
      exact ⟨hn, fun m hm => newName_spelled hbehind hm⟩
    · cases h
  · cases h

end Soundness

example : schemaNames "alter table \"my table\" rename to main.b".toList =
    ["b".toList, "\"my table\"".toList] := by decide

end LibGda
