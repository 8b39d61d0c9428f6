import LibGda.PlainIdentifiers

/-! `_remove_quotes` in its buffer: the moves of `memmove`, and what it makes of a name in forced
quotes. -/

namespace LibGda

def nulChar : Char := '\x00'

/-- `memmove` in a buffer; there is no result if the length is negative or the buffer too short. -/
def moveChars (z : List Char) (dest src : Nat) (n : Int) : Option (List Char) :=
  if n < 0 ∨ z.length < dest + n ∨ z.length < src + n then none
  else some (z.take dest ++ (z.drop src).take n.toNat ++ z.drop (dest + n.toNat))

inductive UnquoteTurn where
  | step (z : List Char) (offset : Nat)
  | cleared

def dropNext (total ptr offset : Nat) (z : List Char) : Option UnquoteTurn :=
  (moveChars z (ptr + 1) (ptr + 2) ((total : Int) - offset)).map fun z' => .step z' (offset + 2)

def unquoteTurn (delim : Char) (total ptr offset : Nat) (z : List Char) : Option UnquoteTurn :=
  if z.getD ptr nulChar = delim then
    if z.getD (ptr + 1) nulChar = delim then dropNext total ptr offset z else some .cleared
  else if z.getD ptr nulChar = '"' then
    if z.getD (ptr + 1) nulChar = '"' then dropNext total ptr offset z else some .cleared
  else if z.getD ptr nulChar = '\\' then
    if z.getD (ptr + 1) nulChar = '\\' then dropNext total ptr offset z
    else if z.getD (ptr + 1) nulChar = delim then dropNext total ptr offset (z.set ptr delim)
    else some .cleared
  else some (.step z (offset + 1))

def textOf (z : List Char) : List Char := z.takeWhile fun c => c ≠ nulChar

/-- `while (offset < total)`; each turn adds to the offset. -/
def unquoteLoop (delim : Char) (total : Nat) : Nat → List Char → Nat → Nat → Option (List Char)
  | 0, _, _, _ => none
  | turns + 1, z, ptr, offset =>
    if offset < total then
      match unquoteTurn delim total ptr offset z with
      | none => none
      | some .cleared => some []
      | some (.step z' offset') => unquoteLoop delim total turns z' (ptr + 1) offset'
    else some (textOf z)

/-- `_remove_quotes` on a string with its terminator. -/
def removeQuotesIn (str : List Char) : Option (List Char) :=
  match str with
  | [] => some []
  | delim :: _ =>
    if delim ≠ '\'' ∧ delim ≠ '"' then some str
    else
      let total : Int := if str.getLast? = some delim then str.length - 2 else str.length - 1
      (moveChars (str ++ [nulChar]) 0 1 total).bind fun z =>
        unquoteLoop delim total.toNat (total.toNat + 1) (z.set total.toNat nulChar) 0 0

def prepareForCompare (str : List Char) : Option (List Char) :=
  if str.head? = some '"' ∨ str.head? = some '\'' then removeQuotesIn str
  else some (str.map Char.toLower)

section Loop

variable {done rest junk body : List Char} {c d j delim : Char} {offset total turns : Nat}

theorem moveChars_rest :
    moveChars (done ++ c :: d :: (rest ++ nulChar :: j :: junk)) (done.length + 1) (done.length + 2)
        ((rest.length : Int) + 2) =
      some (done ++ c :: (rest ++ nulChar :: j :: j :: junk)) := by
  have hlen : (done ++ c :: d :: (rest ++ nulChar :: j :: junk)).length =
      done.length + 4 + rest.length + junk.length := by
    simp only [List.length_append, List.length_cons]
    omega
  have hcond : ¬ ((rest.length : Int) + 2 < 0 ∨
      ((done ++ c :: d :: (rest ++ nulChar :: j :: junk)).length : Int) <
        ((done.length + 1 : Nat) : Int) + ((rest.length : Int) + 2) ∨
      ((done ++ c :: d :: (rest ++ nulChar :: j :: junk)).length : Int) <
        ((done.length + 2 : Nat) : Int) + ((rest.length : Int) + 2)) := by
    rw [hlen]
    omega
  have hnat : ((rest.length : Int) + 2).toNat = rest.length + 2 := by omega
  have htake : (done ++ c :: d :: (rest ++ nulChar :: j :: junk)).take (done.length + 1) =
      done ++ [c] := by
    rw [List.take_length_add_append]
    rfl
  have hdrop : (done ++ c :: d :: (rest ++ nulChar :: j :: junk)).drop (done.length + 2) =
      rest ++ nulChar :: j :: junk := by
    rw [List.drop_length_add_append]
    rfl
  have hmoved : (rest ++ nulChar :: j :: junk).take (rest.length + 2) = rest ++ [nulChar, j] := by
    rw [List.take_length_add_append]
    rfl
  have hbehind : (done ++ c :: d :: (rest ++ nulChar :: j :: junk)).drop
      (done.length + 1 + (rest.length + 2)) = j :: junk := by
    have hsplit : done.length + 1 + (rest.length + 2) = done.length + (2 + (rest.length + 1)) := by
      omega
    rw [hsplit, List.drop_length_add_append, ← List.drop_drop]
    change (rest ++ nulChar :: j :: junk).drop (rest.length + 1) = j :: junk
    rw [List.drop_length_add_append]
    rfl
  rw [moveChars, if_neg hcond, hnat, htake, hdrop, hmoved, hbehind]
  simp

theorem textOf_done (hdone : nulChar ∉ done) : textOf (done ++ nulChar :: junk) = done := by
  have hall : ∀ c ∈ done, decide (c ≠ nulChar) = true := by
    intro c hc
    rw [decide_eq_true_iff]
    intro heq
    rw [heq] at hc
    exact hdone hc
  rw [textOf, List.takeWhile_append_of_pos hall]
  simp

theorem dropNext_rest (hoffset : offset + (rest.length + 2) = total) :
    dropNext total done.length offset (done ++ c :: d :: (rest ++ nulChar :: j :: junk)) =
      some (.step (done ++ c :: (rest ++ nulChar :: j :: j :: junk)) (offset + 2)) := by
  have hn : (total : Int) - offset = (rest.length : Int) + 2 := by omega
  rw [dropNext, hn, moveChars_rest]
  rfl

theorem getD_done (tail : List Char) : (done ++ c :: tail).getD done.length nulChar = c := by
  rw [List.getD_append_right _ _ _ _ (Nat.le_refl _), Nat.sub_self]
  rfl

theorem getD_next (tail : List Char) : (done ++ c :: d :: tail).getD (done.length + 1) nulChar =
    d := by
  rw [List.getD_append_right _ _ _ _ (Nat.le_add_right _ _), Nat.add_sub_cancel_left]
  rfl

theorem quotes_ne_nul (hdelim : delim = '\'' ∨ delim = '"') :
    nulChar ≠ delim ∧ nulChar ≠ '"' ∧ nulChar ≠ '\\' := by
  rcases hdelim with rfl | rfl
  · decide
  · decide

theorem unquoteLoop_eq (hdelim : delim = '\'' ∨ delim = '"') (hbody : nulChar ∉ body)
    (hdone : nulChar ∉ done) (hoffset : offset + body.length = total)
    (hturns : body.length < turns) :
    unquoteLoop delim total turns (done ++ body ++ nulChar :: j :: junk) done.length offset =
      some (match unquoted delim body with
        | some text => done ++ text
        | none => []) := by
  obtain ⟨hnd, hnq, hnb⟩ := quotes_ne_nul hdelim
  induction turns generalizing done body junk offset with
  | zero => omega
  | succ turns ih =>
    rw [unquoteLoop]
    cases body with
    | nil =>
      have hend : ¬ offset < total := by
        rw [List.length_nil] at hoffset
        omega
      rw [if_neg hend, List.append_nil, textOf_done hdone]
      simp [unquoted]
    | cons c body =>
      have hlt : offset < total := by
        rw [List.length_cons] at hoffset
        omega
      rw [List.mem_cons, not_or] at hbody
      rw [if_pos hlt]
      rw [List.length_cons] at hoffset hturns
      cases body with
      | nil =>
        have hz : done ++ [c] ++ nulChar :: j :: junk = done ++ c :: nulChar :: j :: junk := by simp
        have hlast := @ih (done ++ [c]) junk [] (offset + 1) List.not_mem_nil
          (by simp [hdone, hbody.1]) (by simpa using hoffset) (by simpa using hturns)
        rw [List.append_nil, List.length_append] at hlast
        rw [hz, unquoteTurn, getD_done, getD_next]
        by_cases hc : c = delim
        · simp [hc, hnd, unquoted]
        · by_cases hq : c = '"'
          · simp only [if_neg hc, if_pos hq, if_neg hnq]
            simp [hq, unquoted]
          · by_cases hb : c = '\\'
            · simp [hb, hnb, hnd, unquoted]
            · simp only [if_neg hc, if_neg hq, if_neg hb]
              rw [← hz]
              simpa [unquoted, hc, hq, hb] using hlast
      | cons d rest =>
        have hz : done ++ c :: d :: rest ++ nulChar :: j :: junk =
            done ++ c :: d :: (rest ++ nulChar :: j :: junk) := by simp
        rw [List.mem_cons, not_or] at hbody
        rw [List.length_cons] at hoffset hturns
        -- the two characters stand for the delimiter or for one of them
        have hpair : ∀ e, nulChar ≠ e → unquoteLoop delim total turns
            (done ++ e :: (rest ++ nulChar :: j :: j :: junk)) (done.length + 1) (offset + 2) =
              some (match (unquoted delim rest).map (e :: ·) with
                | some text => done ++ text
                | none => []) := by
          intro e he
          have hrest := @ih (done ++ [e]) (j :: junk) rest (offset + 2) hbody.2.2
            (by simp [hdone, he]) (by omega) (by omega)
          rw [List.length_append] at hrest
          have hz' : done ++ [e] ++ rest ++ nulChar :: j :: j :: junk =
              done ++ e :: (rest ++ nulChar :: j :: j :: junk) := by simp
          rw [hz'] at hrest
          rw [List.length_singleton] at hrest
          rw [hrest]
          cases unquoted delim rest with
          | none => rfl
          | some text => simp
        have hdrop : ∀ e, dropNext total done.length offset
            (done ++ e :: d :: (rest ++ nulChar :: j :: junk)) =
              some (.step (done ++ e :: (rest ++ nulChar :: j :: j :: junk)) (offset + 2)) := by
          intro e
          exact dropNext_rest (by omega)
        have hset : (done ++ c :: d :: (rest ++ nulChar :: j :: junk)).set done.length delim =
            done ++ delim :: d :: (rest ++ nulChar :: j :: junk) := by
          rw [List.set_append_right _ _ (Nat.le_refl _), Nat.sub_self]
          rfl
        rw [hz, unquoteTurn, getD_done, getD_next, unquoted, hset]
        by_cases hc : c = delim
        · rw [if_pos hc, if_pos hc]
          by_cases hd : d = delim
          · rw [if_pos hd, if_pos hd, hdrop, hc]
            exact hpair delim hnd
          · rw [if_neg hd, if_neg hd]
        · rw [if_neg hc, if_neg hc]
          by_cases hq : c = '"'
          · rw [if_pos hq, if_pos hq]
            by_cases hd : d = '"'
            · rw [if_pos hd, if_pos hd, hdrop, hq]
              exact hpair '"' hnq
            · rw [if_neg hd, if_neg hd]
          · rw [if_neg hq, if_neg hq]
            by_cases hb : c = '\\'
            · rw [if_pos hb, if_pos hb]
              by_cases hd : d = '\\'
              · rw [if_pos hd, if_pos hd, hdrop, hb]
                exact hpair '\\' hnb
              · rw [if_neg hd, if_neg hd]
                by_cases hd' : d = delim
                · rw [if_pos hd', if_pos hd', hdrop]
                  exact hpair delim hnd
                · rw [if_neg hd', if_neg hd']
            · rw [if_neg hb, if_neg hb]
              have hnext := @ih (done ++ [c]) junk (d :: rest) (offset + 1)
                (by simp [hbody.2.1, hbody.2.2]) (by simp [hdone, hbody.1])
                (by rw [List.length_cons]; omega) (by rw [List.length_cons]; omega)
              have hz' : done ++ [c] ++ d :: rest ++ nulChar :: j :: junk =
                  done ++ c :: d :: (rest ++ nulChar :: j :: junk) := by simp
              rw [hz', List.length_append] at hnext
              rw [List.length_singleton] at hnext
              refine Eq.trans hnext ?_
              cases unquoted delim (d :: rest) with
              | none => rfl
              | some text => simp

end Loop

section Start

variable {str rest body : List Char} {delim : Char}

theorem moved_body (delim : Char) (body : List Char) {after : List Char} : ∃ buf,
    moveChars (delim :: (body ++ after)) 0 1 body.length = some buf ∧
      buf.set body.length nulChar = body ++ nulChar :: after := by
  have hcond : ¬ ((body.length : Int) < 0 ∨
      ((delim :: (body ++ after)).length : Int) < ((0 : Nat) : Int) + body.length ∨
      ((delim :: (body ++ after)).length : Int) < ((1 : Nat) : Int) + body.length) := by
    simp only [List.length_cons, List.length_append]
    omega
  refine ⟨body ++ (delim :: (body ++ after)).drop body.length, ?_, ?_⟩
  · rw [moveChars, if_neg hcond, Int.toNat_natCast]
    simp
  · have hdrop : (delim :: (body ++ after)).drop body.length =
        (delim :: body).drop body.length ++ after := by
      rw [← List.cons_append]
      exact List.drop_append_of_le_length (by rw [List.length_cons]; omega)
    have hone : ((delim :: body).drop body.length).length = 1 := by
      rw [List.length_drop, List.length_cons]
      omega
    obtain ⟨e, he⟩ := List.length_eq_one_iff.1 hone
    rw [hdrop, he, List.set_append_right _ _ (Nat.le_refl _), Nat.sub_self]
    rfl

theorem not_bare (hdelim : delim = '\'' ∨ delim = '"') : ¬ (delim ≠ '\'' ∧ delim ≠ '"') := by
  intro h
  rcases hdelim with hd | hd
  · exact h.1 hd
  · exact h.2 hd

theorem removeQuotesIn_open (hdelim : delim = '\'' ∨ delim = '"') (hrest : nulChar ∉ rest)
    (hlast : (delim :: rest).getLast? ≠ some delim) :
    removeQuotesIn (delim :: rest) = some ((unquoted delim rest).getD []) := by
  have hlen : ((delim :: rest).length : Int) - 1 = rest.length := by
    rw [List.length_cons]
    omega
  obtain ⟨buf, hmove, hset⟩ := @moved_body delim rest [nulChar]
  have hloop := @unquoteLoop_eq [] [] rest nulChar delim 0 rest.length (rest.length + 1) hdelim
    hrest
    List.not_mem_nil (Nat.zero_add _) (Nat.lt_succ_self _)
  simp only [removeQuotesIn, if_neg (not_bare hdelim), if_neg hlast, hlen, List.cons_append, hmove,
    Option.bind_some, Int.toNat_natCast, hset]
  rw [List.nil_append, List.length_nil] at hloop
  rw [hloop]
  cases unquoted delim rest with
  | none => rfl
  | some text => rfl

theorem removeQuotesIn_closed (hdelim : delim = '\'' ∨ delim = '"') (hbody : nulChar ∉ body) :
    removeQuotesIn (delim :: (body ++ [delim])) = some ((unquoted delim body).getD []) := by
  have hlast : (delim :: (body ++ [delim])).getLast? = some delim := by
    rw [← List.cons_append, List.getLast?_append]
    rfl
  have hlen : ((delim :: (body ++ [delim])).length : Int) - 2 = body.length := by
    simp only [List.length_cons, List.length_append, List.length_nil]
    omega
  obtain ⟨buf, hmove, hset⟩ := @moved_body delim body [delim, nulChar]
  have hsplit : delim :: (body ++ [delim]) ++ [nulChar] = delim :: (body ++ [delim, nulChar]) := by
    simp
  have hloop := @unquoteLoop_eq [] [nulChar] body delim delim 0 body.length (body.length + 1) hdelim
    hbody
    List.not_mem_nil (Nat.zero_add _) (Nat.lt_succ_self _)
  simp only [removeQuotesIn, if_neg (not_bare hdelim), if_pos hlast, hlen, hsplit, hmove,
    Option.bind_some, Int.toNat_natCast, hset]
  rw [List.nil_append, List.length_nil] at hloop
  rw [hloop]
  cases unquoted delim body with
  | none => rfl
  | some text => rfl

theorem removeQuotesIn_lone (hdelim : delim = '\'' ∨ delim = '"') : removeQuotesIn [delim] =
    none := by
  rcases hdelim with rfl | rfl
  · rfl
  · rfl

theorem removeQuotesIn_eq (hstr : nulChar ∉ str) (hlone : str ≠ ['\''] ∧ str ≠ ['"']) :
    removeQuotesIn str = some (removeQuotes str) := by
  cases str with
  | nil => rfl
  | cons delim rest =>
    rw [List.mem_cons, not_or] at hstr
    by_cases hdelim : delim = '\'' ∨ delim = '"'
    · rw [removeQuotes, if_pos hdelim]
      by_cases hlast : (delim :: rest).getLast? = some delim
      · simp only [if_pos hlast]
        rcases List.eq_nil_or_concat rest with hnil | ⟨body, e, hconcat⟩
        · subst hnil
          rcases hdelim with rfl | rfl
          · exact absurd rfl hlone.1
          · exact absurd rfl hlone.2
        · subst hconcat
          rw [List.concat_eq_append, ← List.cons_append, List.getLast?_append] at hlast
          obtain rfl : e = delim := Option.some.inj hlast
          rw [List.concat_eq_append, List.dropLast_concat]
          refine removeQuotesIn_closed hdelim ?_
          intro hmem
          apply hstr.2
          rw [List.concat_eq_append]
          exact List.mem_append_left _ hmem
      · simp only [if_neg hlast]
        exact removeQuotesIn_open hdelim hstr.2 hlast
    · have hno : delim ≠ '\'' ∧ delim ≠ '"' := not_or.1 hdelim
      rw [removeQuotes, if_neg hdelim, removeQuotesIn, if_pos hno]

end Start

section Contract

variable {s : List Char}

theorem nulChar_forceQuotes (h : nulChar ∉ s) : nulChar ∉ forceQuotes s := by
  have hmem := @mem_doubledQuotes s nulChar
  rw [forceQuotes_eq, List.mem_cons, List.mem_append, hmem, List.mem_singleton]
  intro hor
  rcases hor with hq | hin | hq
  · revert hq
    decide
  · exact h hin
  · revert hq
    decide

theorem forceQuotes_lone (s : List Char) : forceQuotes s ≠ ['\''] ∧ forceQuotes s ≠ ['"'] := by
  rw [forceQuotes_eq]
  constructor
  · intro h
    simp at h
  · intro h
    simp at h

theorem removeQuotes_forceQuotes_iff (hne : s ≠ []) :
    removeQuotes (forceQuotes s) = s ↔ '\\' ∉ s := by
  constructor
  · intro h
    rw [forceQuotes_eq, removeQuotes_quoted] at h
    cases hbody : unquoted '"' (doubledQuotes s) with
    | none =>
      rw [hbody] at h
      exact absurd h.symm hne
    | some text =>
      rw [hbody] at h
      obtain rfl : text = s := h
      have hpre : doubledQuotes text <+: doubledQuotes text ++ '"' :: [] := List.prefix_append _ _
      exact not_mem_of_unquoted hpre hbody
  · exact removeQuotes_forceQuotes

/-- The strings of the code have no terminator inside. -/
theorem removeQuotesIn_contract (s : List Char) (hs : nulChar ∉ s) (hne : s ≠ []) :
    (removeQuotesIn (forceQuotes s) = some s ↔ '\\' ∉ s) ∧
    (prepareForCompare (forceQuotes s) = some s ↔ '\\' ∉ s) ∧
    (removeQuotesIn s ≠ none ↔ s ≠ ['\''] ∧ s ≠ ['"']) := by
  have hforce := removeQuotesIn_eq (nulChar_forceQuotes hs) (forceQuotes_lone s)
  have hhead : (forceQuotes s).head? = some '"' ∨ (forceQuotes s).head? = some '\'' := .inl rfl
  rw [prepareForCompare, if_pos hhead, hforce, Option.some.injEq, removeQuotes_forceQuotes_iff hne]
  refine ⟨Iff.rfl, Iff.rfl, ?_⟩
  constructor
  · intro h
    constructor
    · intro hlone
      rw [hlone, removeQuotesIn_lone (.inl rfl)] at h
      exact h rfl
    · intro hlone
      rw [hlone, removeQuotesIn_lone (.inr rfl)] at h
      exact h rfl
  · intro h
    rw [removeQuotesIn_eq hs h]
    exact Option.some_ne_none _

/-- A name with a quote inside. -/
theorem removeQuotesIn_contract_quote :
    (removeQuotesIn (forceQuotes ['a', '"', 'b']) = some ['a', '"', 'b'] ↔ '\\' ∉ ['a', '"', 'b']) ∧
    (prepareForCompare (forceQuotes ['a', '"', 'b']) = some ['a', '"', 'b'] ↔
      '\\' ∉ ['a', '"', 'b']) ∧
    (removeQuotesIn ['a', '"', 'b'] ≠ none ↔
      ['a', '"', 'b'] ≠ ['\''] ∧ ['a', '"', 'b'] ≠ ['"']) :=
  removeQuotesIn_contract ['a', '"', 'b'] (by decide) (by decide)

/-- A backslash is taken for an escape, and a lone quote for a quoted text. -/
theorem backslash_or_lone_quote :
    (¬ ∀ s, nulChar ∉ s → s ≠ [] → removeQuotesIn (forceQuotes s) = some s) ∧
      ¬ ∀ s, nulChar ∉ s → s ≠ [] → removeQuotesIn s ≠ none := by
  constructor
  · intro hall
    have hbackslash := hall ['\\'] (by decide) (by decide)
    have hempty : removeQuotesIn (forceQuotes ['\\']) = some [] := by decide
    rw [hempty] at hbackslash
    cases hbackslash
  · intro hall
    exact hall ['"'] (by decide) (by decide) (removeQuotesIn_lone (.inr rfl))

end Contract

end LibGda
