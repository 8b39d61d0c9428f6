import LibGda.TokenOverruns

/-! The dollar-quoted strings of PostgreSQL: at which closing tag the search of `getToken` stops. -/

namespace LibGda

open TerminatedBuffer

def delimiterTag (t : List Char) : List Char := '$' :: (t ++ ['$'])

/-- The first place at which `tag` stands in `text`. -/
structure FirstAt (tag text : List Char) (m : Nat) : Prop where
  here : tag <+: text.drop m
  first : ∀ k < m, ¬ tag <+: text.drop k

/-- How many cut tags stand one behind the other at the end of a text, read backwards: a `$` and the
start of the name, without the whole of it. -/
def cutTagsFrom (name : List Char) : List Char → List Char → Nat
  | [], _ => 0
  | c :: before, behind =>
    if c = '$' then
      if behind <+: name ∧ behind ≠ name then cutTagsFrom name before [] + 1 else 0
    else cutTagsFrom name before (c :: behind)

def cutTags (name text : List Char) : Nat := cutTagsFrom name text.reverse []

section CutTags

variable {name gap u w : List Char}

theorem cutTagsFrom_gap (hgap : '$' ∉ gap) (before behind : List Char) :
    cutTagsFrom name (gap ++ before) behind =
      cutTagsFrom name before (gap.reverse ++ behind) := by
  induction gap generalizing behind with
  | nil => rfl
  | cons c gap ih =>
    have hc : c ≠ '$' := by
      intro hc
      rw [hc] at hgap
      exact hgap List.mem_cons_self
    have hrest : '$' ∉ gap := fun h => hgap (List.mem_cons_of_mem _ h)
    rw [List.cons_append, cutTagsFrom, if_neg hc, ih hrest, List.reverse_cons, List.append_assoc]
    rfl

theorem cutTags_gap (hgap : '$' ∉ gap) : cutTags name gap = 0 := by
  have hrev : '$' ∉ gap.reverse := by
    rw [List.mem_reverse]
    exact hgap
  have h := @cutTagsFrom_gap name gap.reverse hrev [] []
  rw [List.append_nil] at h
  rw [cutTags, h]
  rfl

theorem cutTags_dollar (hu : '$' ∉ u) : cutTags name (w ++ '$' :: u) =
    if u <+: name ∧ u ≠ name then cutTags name w + 1 else 0 := by
  have hrev : '$' ∉ u.reverse := by
    rw [List.mem_reverse]
    exact hu
  have hsplit : (w ++ '$' :: u).reverse = u.reverse ++ '$' :: w.reverse := by simp
  rw [cutTags, hsplit, cutTagsFrom_gap hrev, cutTagsFrom, if_pos rfl, List.reverse_reverse,
    List.append_nil]
  rfl

theorem dollar_induction {motive : List Char → Prop} (gap : ∀ u, '$' ∉ u → motive u)
    (dollar : ∀ w u, '$' ∉ u → motive w → motive (w ++ '$' :: u)) (text : List Char) :
    motive text := by
  induction hn : text.length using Nat.strong_induction_on generalizing text with
  | _ n ih =>
    subst hn
    by_cases hmem : '$' ∈ text.reverse
    · obtain ⟨u, w, hsplit, hu⟩ := List.eq_append_cons_of_mem hmem
      have htext : text = w.reverse ++ '$' :: u.reverse := by
        have h := congrArg List.reverse hsplit
        simpa using h
      have hlen : w.reverse.length < text.length := by
        rw [htext, List.length_append, List.length_cons]
        omega
      rw [htext]
      apply dollar _ _ _ (ih _ hlen _ rfl)
      rw [List.mem_reverse]
      exact hu
    · rw [List.mem_reverse] at hmem
      exact gap text hmem

end CutTags

/-- A comparison which fails: it starts behind `gap`, and the name is left at `c`. -/
structure TagFails (name gap start : List Char) (c : Char) : Prop where
  noGap : '$' ∉ gap
  noStart : '$' ∉ start
  stops : ∃ t left, name ++ ['$'] = start ++ t :: left ∧ c ≠ t

section Search

variable {name tag gap start w r l u : List Char} {c t : Char} {i j : Nat}

namespace TagFails

theorem not_prefix (h : TagFails name gap start c) (x : List Char) : ¬ start ++ c :: x <+: name := by
  obtain ⟨t, left, hname, hc⟩ := h.stops
  rintro ⟨after, hafter⟩
  rw [← hafter, List.append_assoc, List.append_assoc] at hname
  have htail := List.append_cancel_left hname
  exact hc (List.cons.inj htail).1

theorem start_cut (h : TagFails name gap start '$') : start <+: name ∧ start ≠ name := by
  obtain ⟨t, left, hname, hc⟩ := h.stops
  have hne : start ≠ name := by
    intro heq
    rw [heq] at hname
    exact hc (List.cons.inj (List.append_cancel_left hname)).1
  refine ⟨?_, hne⟩
  have hstart : start <+: name ++ ['$'] := ⟨t :: left, hname.symm⟩
  rcases List.prefix_concat_iff.1 hstart with heq | hfront
  · exact absurd heq (fun heq => h.noStart (by rw [heq]; simp))
  · exact hfront

theorem cutTags_behind (h : TagFails name gap start c) (x : List Char) :
    cutTags name (gap ++ '$' :: start ++ c :: x) % 2 = cutTags name x % 2 := by
  induction x using dollar_induction with
  | gap u hu =>
    rw [cutTags_gap hu]
    by_cases hc : c = '$'
    · subst hc
      rw [cutTags_dollar hu, cutTags_dollar h.noStart, if_pos h.start_cut, cutTags_gap h.noGap]
      split
      · rfl
      · rfl
    · have hmem : '$' ∉ start ++ c :: u := by
        simp only [List.mem_append, List.mem_cons, not_or]
        exact ⟨h.noStart, Ne.symm hc, hu⟩
      have hcut : ¬ (start ++ c :: u <+: name ∧ start ++ c :: u ≠ name) := by
        intro hcut
        exact h.not_prefix u hcut.1
      rw [List.append_assoc, List.cons_append, cutTags_dollar hmem, if_neg hcut]
  | dollar v u hu ih =>
    have hsplit : gap ++ '$' :: start ++ c :: (v ++ '$' :: u) =
        gap ++ '$' :: start ++ c :: v ++ '$' :: u := by simp
    rw [hsplit, cutTags_dollar hu, cutTags_dollar hu]
    by_cases hcut : u <+: name ∧ u ≠ name
    · rw [if_pos hcut, if_pos hcut]
      omega
    · rw [if_neg hcut, if_neg hcut]

theorem misses (h : TagFails name gap start c) {s : List Char}
    (hs : TagMisses ('$' :: (name ++ ['$'])) s) :
    TagMisses ('$' :: (name ++ ['$'])) (gap ++ '$' :: start ++ c :: s) := by
  obtain ⟨t, left, hname, hc⟩ := h.stops
  have htag : '$' :: (name ++ ['$']) = '$' :: start ++ t :: left := by
    rw [hname]
    rfl
  exact .miss h.noGap (List.cons_ne_nil _ _) htag hc hs

end TagFails

theorem first_cases (hname : '$' ∉ name)
    (hfirst : ∀ k < w.length, ¬ '$' :: (name ++ ['$']) <+: (w ++ ('$' :: (name ++ ['$']) ++ r)).drop k) :
    '$' ∉ w ∨ (∃ gap start c x, TagFails name gap start c ∧ w = gap ++ '$' :: start ++ c :: x) ∨
      ∃ gap start, TagFails name gap start '$' ∧ w = gap ++ '$' :: start := by
  by_cases hmem : '$' ∈ w
  · obtain ⟨gap, x, rfl, hgap⟩ := List.eq_append_cons_of_mem hmem
    have hhere := hfirst gap.length (by simp)
    rw [List.append_assoc, List.drop_left, List.cons_append, List.prefix_cons_inj] at hhere
    refine Or.inr ?_
    rcases prefix_cases (name ++ ['$']) (x ++ ('$' :: (name ++ ['$']) ++ r)) with
      ⟨after, heq⟩ | ⟨left, hleft, heq⟩ | ⟨start, t, left, c, s, hc, htag, htext⟩
    · exact absurd ⟨after, heq.symm⟩ hhere
    · have hlen := congrArg List.length heq
      simp only [List.length_append, List.length_cons, List.length_nil] at hlen
      omega
    · have hstart : '$' ∉ start := by
        intro hin
        have hfront : start <+: name ++ ['$'] := ⟨t :: left, htag.symm⟩
        rcases List.prefix_concat_iff.1 hfront with heq | hfront
        · rw [heq] at htag
          have hlen := congrArg List.length htag
          simp only [List.length_append, List.length_cons] at hlen
          omega
        · exact hname (hfront.subset hin)
      have hfails : TagFails name gap start c := ⟨hgap, hstart, t, left, htag, hc⟩
      rcases List.append_eq_append_iff.1 htext with ⟨a, rfl, ha⟩ | ⟨b, rfl, hb⟩
      · cases a with
        | nil =>
          rw [List.append_nil] at hfails
          have hc' : '$' = c := (List.cons.inj ha).1
          rw [← hc'] at hfails
          exact Or.inr ⟨gap, x, hfails, rfl⟩
        | cons d a =>
          have hd : '$' = d := (List.cons.inj ha).1
          rw [← hd] at hstart
          exact absurd (by simp) hstart
      · cases b with
        | nil =>
          have hc' : c = '$' := (List.cons.inj hb).1
          rw [hc'] at hfails
          rw [List.append_nil]
          exact Or.inr ⟨gap, start, hfails, rfl⟩
        | cons d b =>
          have hd : c = d := (List.cons.inj hb).1
          rw [← hd]
          exact Or.inl ⟨gap, start, c, b, hfails, by simp⟩
  · exact Or.inl hmem

def TagSearch.left (tag : List Char) : TagSearch → List Char
  | .comparing left => left
  | _ => tag

theorem TagSearch.left_eq {search : TagSearch} (hn : search = .comparing [] → False)
    (hc : ∀ t left, search = .comparing (t :: left) → False) : search.left tag = tag := by
  cases search with
  | comparing left =>
    cases left with
    | nil => exact absurd rfl hn
    | cons t left => exact absurd rfl (hc t left)
  | head => rfl
  | seeking => rfl

theorem closingTag_ge {search : TagSearch} (htag : tag ≠ [])
    (hleft : (search.left tag).length ≤ tag.length)
    (h : closingTag tag search l i = .ok (some j)) : i + (search.left tag).length ≤ j := by
  have htail : tag.tail.length + 1 = tag.length := by
    cases tag with
    | nil => exact absurd rfl htag
    | cons c tag => rfl
  induction search, l, i using closingTag.induct tag with
  | case1 l i =>
    rw [closingTag] at h
    have hi := Option.some.inj (Except.ok.inj h)
    rw [← hi]
    exact Nat.le_refl i
  | case2 => cases h
  | case3 search i hc hh =>
    rw [closingTag] at h
    · cases h
    · exact hc
    · exact hh
  | case4 left c rest i ih =>
    rw [closingTag, if_pos rfl] at h
    simp only [TagSearch.left, List.length_cons] at hleft ih ⊢
    have hj := ih (by omega) h
    omega
  | case5 d left c rest i hne ih =>
    rw [closingTag, if_neg hne] at h
    have hj := ih (Nat.le_refl _) h
    simp only [TagSearch.left, List.length_cons] at hleft hj ⊢
    omega
  | case6 search rest i hn hc ih =>
    rw [closingTag, if_pos rfl] at h
    · have hj := ih (by simp only [TagSearch.left]; omega) h
      rw [TagSearch.left_eq hn hc]
      simp only [TagSearch.left] at hj
      omega
    · exact hn
    · exact hc
  | case7 search c rest i hn hc hne ih =>
    rw [closingTag, if_neg hne] at h
    · have hj := ih (Nat.le_refl _) h
      rw [TagSearch.left_eq hn hc]
      simp only [TagSearch.left] at hj
      omega
    · exact hn
    · exact hc

theorem first_misses (hname : '$' ∉ name)
    (hfirst : ∀ k < w.length,
      ¬ '$' :: (name ++ ['$']) <+: (w ++ ('$' :: (name ++ ['$']) ++ r)).drop k) :
    ∃ missed last, w = missed ++ last ∧ TagMisses ('$' :: (name ++ ['$'])) missed ∧
      cutTags name w % 2 = cutTags name last % 2 ∧
        ('$' ∉ last ∨ ∃ gap start, TagFails name gap start '$' ∧ last = gap ++ '$' :: start) := by
  induction hn : w.length using Nat.strong_induction_on generalizing w with
  | _ n ih =>
    subst hn
    rcases first_cases hname hfirst with hgap | ⟨gap, start, c, x, hfails, hw⟩ | hlast
    · exact ⟨[], w, rfl, .nil, rfl, Or.inl hgap⟩
    · have hlen : w.length = gap.length + start.length + 2 + x.length := by
        rw [hw]
        simp only [List.length_append, List.length_cons]
        omega
      have hbehind : ∀ k < x.length,
          ¬ '$' :: (name ++ ['$']) <+: (x ++ ('$' :: (name ++ ['$']) ++ r)).drop k := by
        intro k hk
        have h := hfirst (gap.length + start.length + 2 + k) (by omega)
        have hsplit : w ++ ('$' :: (name ++ ['$']) ++ r) =
            (gap ++ '$' :: start ++ [c]) ++ (x ++ ('$' :: (name ++ ['$']) ++ r)) := by
          rw [hw]
          simp
        have hk' : gap.length + start.length + 2 + k =
            (gap ++ '$' :: start ++ [c]).length + k := by
          simp only [List.length_append, List.length_cons, List.length_nil]
          omega
        rw [hsplit, hk', List.drop_length_add_append] at h
        exact h
      obtain ⟨missed, last, hx, hmissed, heven, hlast⟩ := ih x.length (by omega) hbehind rfl
      refine ⟨gap ++ '$' :: start ++ c :: missed, last, ?_, hfails.misses hmissed, ?_, hlast⟩
      · rw [hw, hx]
        simp
      · rw [hw, hfails.cutTags_behind, heven]
    · exact ⟨[], w, rfl, .nil, rfl, Or.inr hlast⟩

theorem closingTag_first {text : List Char} {m : Nat} (hchars : ∀ c ∈ name, tagChar c)
    (hm : FirstAt (delimiterTag name) text m) :
    closingTag (delimiterTag name) .head text i =
        .ok (some (i + m + (delimiterTag name).length)) ↔
      cutTags name (text.take m) % 2 = 0 := by
  have ht : DollarTag (delimiterTag name) := ⟨name, hchars, rfl⟩
  generalize htag : delimiterTag name = tag at *
  replace htag : tag = '$' :: (name ++ ['$']) := htag.symm
  have hname : '$' ∉ name := by
    intro hin
    exact absurd (hchars _ hin) (by decide)
  obtain ⟨r, hr⟩ := hm.here
  have hle : m ≤ text.length := by
    by_cases hle : m ≤ text.length
    · exact hle
    · rw [List.drop_eq_nil_of_le (by omega), htag] at hr
      cases hr
  have htext : text = text.take m ++ (tag ++ r) := by
    rw [hr, List.take_append_drop]
  have hlen : (text.take m).length = m := by
    rw [List.length_take]
    omega
  have hfirst : ∀ k < (text.take m).length,
      ¬ '$' :: (name ++ ['$']) <+: (text.take m ++ ('$' :: (name ++ ['$']) ++ r)).drop k := by
    intro k hk
    rw [← htag, ← htext]
    exact hm.first k (by omega)
  obtain ⟨missed, last, hw, hmissed, heven, hlast⟩ := first_misses hname hfirst
  rw [heven]
  rw [← htag] at hmissed
  rw [hw] at hlen
  rw [List.length_append] at hlen
  rcases hlast with hgap | ⟨gap, start, hfails, rfl⟩
  · have hcloses : DollarCloses tag (missed ++ (last ++ tag)) := ⟨missed, last, hmissed, hgap, rfl⟩
    have hread := closingTag_closed r ht hcloses i
    have hsplit : missed ++ (last ++ tag) ++ r = text := by
      rw [htext, hw]
      simp
    have hend : i + (missed ++ (last ++ tag)).length = i + m + tag.length := by
      simp only [List.length_append]
      omega
    rw [hsplit, hend] at hread
    rw [cutTags_gap hgap]
    exact iff_of_true hread rfl
  · have hodd : cutTags name (gap ++ '$' :: start) = 1 := by
      rw [cutTags_dollar hfails.noStart, if_pos hfails.start_cut, cutTags_gap hfails.noGap]
    rw [hodd]
    refine iff_of_false ?_ (by decide)
    intro hread
    obtain ⟨t, left, hsplit, hc⟩ := hfails.stops
    have htail : tag = '$' :: start ++ t :: left := by
      rw [htag, hsplit]
      rfl
    have hbehind : text = missed ++ (gap ++ ('$' :: start ++ '$' :: (name ++ '$' :: r))) := by
      rw [htext, hw, htag]
      simp
    rw [hbehind, closingTag_misses ht hmissed, closingTag_start hfails.noGap htail, closingTag,
      if_neg hc] at hread
    have hne : tag ≠ [] := by
      rw [htag]
      exact List.cons_ne_nil _ _
    have hge := closingTag_ge hne (Nat.le_refl _) hread
    simp only [TagSearch.left, List.length_append, List.length_cons] at hge hlen
    omega

end Search

namespace GdaSqlParser

def ReadsString (parser : GdaSqlParser) (n : Nat) : Prop :=
  ∃ parser' v, parser.getToken = .ok (parser', v) ∧ parser'.context.tokenType = .string ∧
    parser'.context.lastTokenStart = parser.context.nextTokenStart ∧
    parser'.context.nextTokenStart = parser.context.nextTokenStart + n

variable {parser : GdaSqlParser} {t text b r : List Char} {m n : Nat}

theorem getToken_delimiter {c : Char} (hrest : parser.rest = c :: text)
    (hc : c = parser.context.delimiter) : ¬ parser.ReadsString n := by
  rintro ⟨parser', v, hread, htype, -, -⟩
  rw [getToken, getTokenWithFuel, hrest] at hread
  simp only [if_pos hc] at hread
  have hparser := (Prod.mk.inj (Except.ok.inj hread)).1
  rw [← hparser] at htype
  simp only [tokEnd] at htype
  split at htype
  · cases htype
  · cases htype

theorem getToken_tag (hflavour : parser.flavour = .postgresql)
    (hdelimiter : parser.context.delimiter ≠ '$') (ht : ∀ c ∈ t, tagChar c)
    (hrest : parser.rest = delimiterTag t ++ text) :
    parser.getToken = closingTag (delimiterTag t) .head text (delimiterTag t).length >>= fun found =>
      match found with
      | none => pure (parser.tokEnd .illegal 1 parser.context.inParamSpec, some ['$'])
      | some j => stripComments .lineStart ((delimiterTag t ++ text).take j) >>= fun copy =>
        pure (parser.tokEnd .string j parser.context.inParamSpec, some copy) := by
  have htag : DollarTag (delimiterTag t) := ⟨t, ht, rfl⟩
  have hcons : delimiterTag t ++ text = '$' :: (t ++ ['$'] ++ text) := rfl
  have hswitch : switchToken parser.mode .postgresql parser.context.delimiter '$'
      (delimiterTag t ++ text) (Scanned.start parser.context.inParamSpec) =
        dollarQuotedToken (delimiterTag t ++ text) (Scanned.start parser.context.inParamSpec) := rfl
  rw [getToken, getTokenWithFuel, hrest, hcons]
  simp only [if_neg (Ne.symm hdelimiter), hflavour]
  rw [← hcons, readLexeme, hswitch, dollarQuotedToken_tag htag]
  cases hfound : closingTag (delimiterTag t) .head text (delimiterTag t).length with
  | error fault => rfl
  | ok found =>
    cases found with
    | none => rfl
    | some j =>
      show ((stripComments .lineStart _ >>= _) >>= _) >>= _ = (stripComments .lineStart _ >>= _)
      cases hcopy : stripComments .lineStart ((delimiterTag t ++ text).take j) with
      | error fault => rfl
      | ok copy => rfl

theorem readsString_iff (hflavour : parser.flavour = .postgresql)
    (hdelimiter : parser.context.delimiter ≠ '$') (ht : ∀ c ∈ t, tagChar c)
    (hrest : parser.rest = delimiterTag t ++ text) :
    parser.ReadsString n ↔
      closingTag (delimiterTag t) .head text (delimiterTag t).length = .ok (some n) ∧
        ¬ CommentCut ((delimiterTag t ++ text).take n) := by
  have hget := getToken_tag hflavour hdelimiter ht hrest
  constructor
  · rintro ⟨parser', v, hread, htype, -, hend⟩
    rw [hget] at hread
    cases hfound : closingTag (delimiterTag t) .head text (delimiterTag t).length with
    | error fault =>
      rw [hfound] at hread
      cases hread
    | ok found =>
      rw [hfound] at hread
      cases found with
      | none =>
        cases hread
        cases htype
      | some j =>
        change (stripComments .lineStart ((delimiterTag t ++ text).take j) >>= _) = _ at hread
        have hreads := reads_stripComments .lineStart ((delimiterTag t ++ text).take j)
        rcases hreads with ⟨-, herror⟩ | ⟨hcut, copy, hcopy, -⟩
        · rw [herror] at hread
          cases hread
        · rw [hcopy] at hread
          cases hread
          have hj : j = n := Nat.add_left_cancel hend
          rw [← hj]
          refine ⟨rfl, ?_⟩
          intro hcomment
          exact hcut (commentCut_line.2 (Or.inr hcomment))
  · rintro ⟨hfound, hcomment⟩
    have hreads := reads_stripComments .lineStart ((delimiterTag t ++ text).take n)
    have hpos : 0 < n := by
      have hge := closingTag_ge (List.cons_ne_nil _ _) (Nat.le_refl _) hfound
      have hlen : 0 < (delimiterTag t).length := Nat.succ_pos _
      omega
    have hcut : ¬ stateCut .lineStart ((delimiterTag t ++ text).take n) := by
      intro hcut
      rcases commentCut_line.1 hcut with ⟨comment, hstart, -⟩ | hcut
      · obtain ⟨k, rfl⟩ : ∃ k, n = k + 1 := ⟨n - 1, by omega⟩
        have hhead := (List.cons.inj hstart).1
        exact absurd hhead (by decide)
      · exact hcomment hcut
    obtain ⟨copy, hcopy, -⟩ := hreads.exists_ok hcut
    rw [hfound] at hget
    refine ⟨parser.tokEnd .string n parser.context.inParamSpec, some copy, ?_, rfl, rfl, rfl⟩
    rw [hget]
    show (stripComments .lineStart ((delimiterTag t ++ text).take n) >>= _) = _
    rw [hcopy]
    rfl

/-- The token ends at the first closing tag exactly when the delimiter is not a `$`, an even number
of cut tags stands before that tag, and no comment is open. -/
theorem dollarQuoted_contract (hflavour : parser.flavour = .postgresql) (ht : ∀ c ∈ t, tagChar c)
    (hrest : parser.rest = delimiterTag t ++ (b ++ delimiterTag t ++ r))
    (hm : FirstAt (delimiterTag t) (b ++ delimiterTag t ++ r) m) :
    parser.ReadsString ((delimiterTag t).length + m + (delimiterTag t).length) ↔
      parser.context.delimiter ≠ '$' ∧ cutTags t ((b ++ delimiterTag t).take m) % 2 = 0 ∧
        ¬ CommentCut (delimiterTag t ++ (b ++ delimiterTag t).take m ++ delimiterTag t) := by
  have hle : m ≤ b.length := by
    by_cases hle : m ≤ b.length
    · exact hle
    · refine absurd ⟨r, ?_⟩ (hm.first b.length (by omega))
      rw [List.append_assoc, List.drop_left]
  have htake : (b ++ delimiterTag t ++ r).take m = (b ++ delimiterTag t).take m := by
    rw [List.append_assoc, List.take_append_of_le_length hle, List.take_append_of_le_length hle]
  by_cases hdelimiter : parser.context.delimiter = '$'
  · refine iff_of_false (getToken_delimiter hrest hdelimiter.symm) ?_
    intro h
    exact h.1 hdelimiter
  · have htext : (delimiterTag t ++ (b ++ delimiterTag t ++ r)).take
        ((delimiterTag t).length + m + (delimiterTag t).length) =
          delimiterTag t ++ (b ++ delimiterTag t).take m ++ delimiterTag t := by
      obtain ⟨after, hafter⟩ := hm.here
      have hsplit := List.take_append_drop m (b ++ delimiterTag t ++ r)
      rw [← hafter, htake] at hsplit
      have hlen : m = ((b ++ delimiterTag t).take m).length := by
        rw [List.length_take, List.length_append]
        omega
      generalize (b ++ delimiterTag t).take m = body at hsplit hlen
      rw [← hsplit, hlen, Nat.add_assoc, List.take_length_add_append, List.append_assoc,
        List.take_length_add_append, List.take_left]
    rw [readsString_iff hflavour hdelimiter ht hrest, closingTag_first ht hm, htake, htext]
    constructor
    · rintro ⟨heven, hcomment⟩
      exact ⟨hdelimiter, heven, hcomment⟩
    · rintro ⟨-, heven, hcomment⟩
      exact ⟨heven, hcomment⟩

/-- `$a$x$a$` -/
theorem dollarQuoted_plain :
    (onText ⟨"$a$x$a$".toList, by decide⟩ .parse .postgresql).ReadsString 7 := by
  have hchars : ∀ c ∈ ['a'], tagChar c := by simp [tagChar]
  have hm : FirstAt (delimiterTag ['a']) (['x'] ++ delimiterTag ['a'] ++ []) 1 := by
    refine ⟨⟨[], rfl⟩, ?_⟩
    intro k hk
    obtain rfl : k = 0 := by omega
    decide
  have hcomment : ¬ CommentCut (delimiterTag ['a'] ++ ['x'] ++ delimiterTag ['a']) := by
    rintro ⟨before, comment, heq, -⟩
    have hin : '\n' ∈ delimiterTag ['a'] ++ ['x'] ++ delimiterTag ['a'] := by
      rw [heq]
      simp
    exact absurd hin (by decide)
  exact (@dollarQuoted_contract (onText ⟨"$a$x$a$".toList, by decide⟩ .parse .postgresql)
    ['a'] ['x'] [] 1 rfl hchars rfl hm).2 ⟨by decide, rfl, hcomment⟩

/-- `$a$$$a$`: the comparison which starts at the `$` of the body ends at that of the tag. -/
theorem dollarQuoted_missed :
    ¬ ∀ (parser : GdaSqlParser) (t b r : List Char) (m : Nat), parser.flavour = .postgresql →
      (∀ c ∈ t, tagChar c) → ¬ delimiterTag t <:+: b →
        parser.rest = delimiterTag t ++ (b ++ delimiterTag t ++ r) →
          FirstAt (delimiterTag t) (b ++ delimiterTag t ++ r) m →
            parser.ReadsString ((delimiterTag t).length + m + (delimiterTag t).length) := by
  intro h
  have hchars : ∀ c ∈ ['a'], tagChar c := by simp [tagChar]
  have hm : FirstAt (delimiterTag ['a']) (['$'] ++ delimiterTag ['a'] ++ []) 1 := by
    refine ⟨⟨[], rfl⟩, ?_⟩
    intro k hk
    obtain rfl : k = 0 := by omega
    decide
  have hreads := h (onText ⟨"$a$$$a$".toList, by decide⟩ .parse .postgresql) ['a'] ['$'] [] 1 rfl
    hchars (by decide) rfl hm
  have hfound := ((readsString_iff rfl (by decide) hchars rfl).1 hreads).1
  cases hfound

end GdaSqlParser

end LibGda
