import LibGda.IdentifierSplit

/-! Which identifiers `gda_sql_identifier_split` cuts into the parts of which they were made. -/

namespace LibGda

inductive IdentifierPart where
  | unquoted (v : List Char)
  | quoted (v : List Char)

namespace IdentifierPart

def text : IdentifierPart → List Char
  | unquoted v => v
  | quoted v => forceQuotes v

def Valid : IdentifierPart → Prop
  | unquoted v => v ≠ [] ∧ ∀ c ∈ v, idChar c = true
  | quoted v => v ≠ []

/-- The characters which `_string_is_identifier` takes between quotes. -/
def nameChar (c : Char) : Prop := idChar c = true ∨ c = '*' ∨ c = '.' ∨ c = '-' ∨ c = '"'

def Fits (isNumber : List Char → Bool) : IdentifierPart → Prop
  | unquoted v => isNumber v = false
  | quoted v => (∀ c ∈ v, nameChar c) ∧ v.getLast? ≠ some '.'

def StartsWithDot : IdentifierPart → Prop
  | unquoted _ => False
  | quoted v => v.head? = some '.'

end IdentifierPart

open IdentifierPart

def PartsFit (isNumber : List Char → Bool) (parts : List IdentifierPart) : Prop :=
  (∀ p ∈ parts, p.Fits isNumber) ∧ ∀ p, parts.head? = some p → ¬ p.StartsWithDot

section Scan

variable {v rest last : List Char} {inq : Bool} {c : Char}

theorem idChar_ne (h : idChar c = true) :
    c ≠ '"' ∧ c ≠ '.' ∧ c ≠ '`' ∧ c ≠ ' ' ∧ c ≠ '\t' ∧ c ≠ '\n' ∧ c ≠ '\x0c' ∧ c ≠ '\r' := by
  refine ⟨?_, ?_, ?_, ?_, ?_, ?_, ?_, ?_⟩
  all_goals
    rintro rfl
    revert h
    decide

def AtBoundary (rest : List Char) : Prop := rest = [] ∨ rest.head? = some '.'

theorem scanBack_skip (hc : c ≠ '"') (hdot : c = '.' → inq = true) (rest last : List Char) :
    scanBack (c :: rest) inq last = scanBack rest inq (c :: last) := by
  have hno : ¬ (c = '.' ∧ inq = false) := by
    intro h
    rw [hdot h.1] at h
    cases h.2
  cases rest with
  | nil => simp only [scanBack, if_neg hno]
  | cons d rest => rw [scanBack, if_neg hc, if_neg hno]

theorem scanBack_pair (rest last : List Char) :
    scanBack ('"' :: '"' :: rest) inq last = scanBack rest inq ('"' :: '"' :: last) := by
  rw [scanBack, if_pos rfl, if_pos rfl]

theorem scanBack_quote (hrest : rest.head? ≠ some '"') (last : List Char) :
    scanBack ('"' :: rest) inq last = scanBack rest (!inq) ('"' :: last) := by
  cases rest with
  | nil => rfl
  | cons d rest =>
    have hd : ¬ d = '"' := by
      intro heq
      rw [heq] at hrest
      exact hrest rfl
    rw [scanBack, if_pos rfl, if_neg hd]

theorem scanBack_unquoted (h : ∀ c ∈ v, idChar c = true) (rest last : List Char) :
    scanBack (v.reverse ++ rest) false last = scanBack rest false (v ++ last) := by
  induction v generalizing rest with
  | nil => rfl
  | cons c v ih =>
    have hc := idChar_ne (h c List.mem_cons_self)
    rw [List.reverse_cons, List.append_assoc, ih (fun d hd => h d (List.mem_cons_of_mem _ hd)),
      List.singleton_append, scanBack_skip hc.1 (fun heq => absurd heq hc.2.1), List.cons_append]

theorem boundary_head (h : AtBoundary rest) : rest.head? ≠ some '"' := by
  rcases h with rfl | hdot
  · simp
  · rw [hdot]
    decide

theorem head_doubled_ne (hc : c ≠ '"') (v : List Char) :
    (doubledQuotes (c :: v) ++ rest).head? ≠ some '"' := by
  rw [doubledQuotes_cons hc]
  intro h
  exact hc (Option.some.inj h)

theorem scanBack_inside (hrest : AtBoundary rest) (v last : List Char) :
    scanBack (doubledQuotes v ++ '"' :: rest) true last =
      scanBack rest false ('"' :: ((doubledQuotes v).reverse ++ last)) := by
  induction v generalizing last with
  | nil => exact scanBack_quote (boundary_head hrest) last
  | cons c v ih =>
    by_cases hc : c = '"'
    · subst hc
      rw [doubledQuotes_quote, List.cons_append, List.cons_append, scanBack_pair, ih]
      simp
    · rw [doubledQuotes_cons hc, List.cons_append, scanBack_skip hc (fun _ => rfl), ih]
      simp

theorem scanBack_closing (hrest : AtBoundary rest) (v last : List Char) :
    scanBack ('"' :: (doubledQuotes v ++ '"' :: rest)) false last =
      scanBack rest false ('"' :: ((doubledQuotes v).reverse ++ '"' :: last)) := by
  induction v generalizing last with
  | nil => exact scanBack_pair rest last
  | cons c v ih =>
    by_cases hc : c = '"'
    · subst hc
      rw [doubledQuotes_quote, List.cons_append, List.cons_append, scanBack_pair, ih]
      simp
    · have hquote := @scanBack_quote (doubledQuotes (c :: v) ++ '"' :: rest) false
        (head_doubled_ne hc v) last
      rw [hquote, Bool.not_false, scanBack_inside hrest]

theorem doubledQuotes_append (v w : List Char) :
    doubledQuotes (v ++ w) = doubledQuotes v ++ doubledQuotes w := List.flatMap_append

theorem doubledQuotes_reverse (v : List Char) :
    (doubledQuotes v).reverse = doubledQuotes v.reverse := by
  induction v with
  | nil => rfl
  | cons c v ih =>
    rw [List.reverse_cons, doubledQuotes_append, ← ih]
    by_cases hc : c = '"'
    · subst hc
      rw [doubledQuotes_quote]
      simp
    · rw [doubledQuotes_cons hc, doubledQuotes_cons hc]
      simp

theorem scanBack_part {p : IdentifierPart} (hp : p.Valid) (hrest : AtBoundary rest) :
    scanBack (p.text.reverse ++ rest) false [] = scanBack rest false p.text := by
  cases p with
  | unquoted v =>
    have hscan := scanBack_unquoted hp.2 rest []
    rw [List.append_nil] at hscan
    exact hscan
  | quoted v =>
    have hreverse : (forceQuotes v).reverse ++ rest =
        '"' :: (doubledQuotes v.reverse ++ '"' :: rest) := by
      rw [forceQuotes_eq, ← doubledQuotes_reverse]
      simp
    rw [IdentifierPart.text, hreverse, scanBack_closing hrest, doubledQuotes_reverse,
      List.reverse_reverse, forceQuotes_eq]

theorem cutBack_single {p : IdentifierPart} (hp : p.Valid) : cutBack p.text = none := by
  have hscan := @scanBack_part [] p hp (.inl rfl)
  rw [List.append_nil] at hscan
  rw [cutBack, hscan, scanBack]

theorem cutBack_concat {p : IdentifierPart} (hp : p.Valid) (front : List Char) :
    cutBack (front ++ '.' :: p.text) = some (front, p.text) := by
  have hreverse : (front ++ '.' :: p.text).reverse = p.text.reverse ++ '.' :: front.reverse := by
    simp
  rw [cutBack, hreverse, scanBack_part hp (.inr rfl)]
  cases hfront : front.reverse with
  | nil =>
    rw [List.reverse_eq_nil_iff] at hfront
    rw [hfront, scanBack, if_pos ⟨rfl, rfl⟩]
  | cons c rest =>
    have hdot : ¬ ('.' : Char) = '"' := by decide
    rw [scanBack, if_neg hdot, if_pos ⟨rfl, rfl⟩, ← hfront, List.reverse_reverse]

end Scan

section Checks

variable {isNumber : List Char → Bool} {v : List Char} {p : IdentifierPart}

theorem identifierChars_char {c : Char} {rest : List Char}
    (h : idChar c = true ∨ c = '*' ∨ c = '.' ∨ c = '-') :
    identifierChars (c :: rest) = identifierChars rest := by
  rw [identifierChars.eq_def]
  simp only [if_pos h]

theorem identifierChars_other {c d : Char} {rest : List Char}
    (h : ¬ (idChar c = true ∨ c = '*' ∨ c = '.' ∨ c = '-')) (hc : ¬ c = '"') :
    identifierChars (c :: d :: rest) = false := by
  rw [identifierChars.eq_def]
  simp only [if_neg h, if_neg hc]
  simp

theorem identifierChars_unquoted (h : ∀ c ∈ v, idChar c = true) : identifierChars v = true := by
  induction v with
  | nil => rfl
  | cons c v ih =>
    rw [identifierChars_char (.inl (h c List.mem_cons_self))]
    exact ih fun d hd => h d (List.mem_cons_of_mem _ hd)

theorem identifierChars_quoted :
    identifierChars (doubledQuotes v ++ ['"']) = true ↔ ∀ c ∈ v, nameChar c := by
  induction v with
  | nil => simp [doubledQuotes, identifierChars]
  | cons c v ih =>
    rw [List.forall_mem_cons, ← ih]
    by_cases hc : c = '"'
    · subst hc
      have hquote : nameChar '"' := .inr (.inr (.inr (.inr rfl)))
      rw [doubledQuotes_quote, List.cons_append, List.cons_append, identifierChars,
        if_neg (by decide), if_pos rfl]
      simp [hquote]
    · rw [doubledQuotes_cons hc, List.cons_append]
      by_cases hname : idChar c = true ∨ c = '*' ∨ c = '.' ∨ c = '-'
      · have hyes : nameChar c := by
          rcases hname with h | h | h | h
          · exact .inl h
          · exact .inr (.inl h)
          · exact .inr (.inr (.inl h))
          · exact .inr (.inr (.inr (.inl h)))
        rw [identifierChars_char hname, and_iff_right hyes]
      · have hno : ¬ nameChar c := by
          intro hyes
          rcases hyes with h | h | h | h | h
          · exact hname (.inl h)
          · exact hname (.inr (.inl h))
          · exact hname (.inr (.inr (.inl h)))
          · exact hname (.inr (.inr (.inr h)))
          · exact hc h
        cases hrest : doubledQuotes v ++ ['"'] with
        | nil => simp at hrest
        | cons d rest =>
          rw [identifierChars_other hname hc]
          simp [hno]

theorem stringIsIdentifier_text (hp : p.Valid) :
    stringIsIdentifier isNumber p.text = true ↔
      match p with
      | .unquoted v => isNumber v = false
      | .quoted v => ∀ c ∈ v, nameChar c := by
  cases p with
  | unquoted v =>
    obtain ⟨hne, hchars⟩ := hp
    obtain ⟨c, w, rfl⟩ := List.exists_cons_of_ne_nil hne
    have hc := idChar_ne (hchars c List.mem_cons_self)
    simp only [IdentifierPart.text, stringIsIdentifier, if_neg hne, List.head?_cons,
      Option.some.injEq, hc.1, hc.2.2.1, false_or, if_false, identifierChars_unquoted hchars,
      Bool.true_eq_false, false_and, Bool.not_eq_true']
  | quoted v =>
    have hne : forceQuotes v ≠ [] := by
      rw [forceQuotes_eq]
      exact List.cons_ne_nil _ _
    have hhead : (forceQuotes v).head? = some '"' := rfl
    have hlast : (forceQuotes v).getLast? = some '"' := by
      rw [forceQuotes_eq, ← List.cons_append, List.getLast?_append]
      rfl
    have htail : (forceQuotes v).tail = doubledQuotes v ++ ['"'] := rfl
    simp only [IdentifierPart.text, stringIsIdentifier, if_neg hne, hhead, hlast, true_or, if_true,
      true_and, htail]
    rw [← identifierChars_quoted]
    by_cases hchars : identifierChars (doubledQuotes v ++ ['"']) = true
    · simp [hchars]
    · simp [hchars]

end Checks

section Ends

variable {p first : IdentifierPart} {front tail t v : List Char}

theorem getLast_doubled : (doubledQuotes v).getLast? = some '.' ↔ v.getLast? = some '.' := by
  induction v using List.reverseRecOn with
  | nil => simp
  | append_singleton v c ih =>
    rw [doubledQuotes_append, List.getLast?_append]
    by_cases hc : c = '"'
    · subst hc
      rw [doubledQuotes_quote]
      simp
    · rw [doubledQuotes_cons hc]
      simp

theorem malformedEnd_iff (hp : p.Valid) :
    (3 ≤ (front ++ p.text).length ∧ ((front ++ p.text).getLast? = some '.' ∨
        (front ++ p.text).getLast? = some '"' ∧
          (front ++ p.text).dropLast.getLast? = some '.')) ↔
      match p with
      | .unquoted _ => False
      | .quoted v => v.getLast? = some '.' := by
  cases p with
  | unquoted v =>
    obtain ⟨hne, hchars⟩ := hp
    obtain ⟨w, c, rfl⟩ := (List.eq_nil_or_concat v).resolve_left hne
    have hc := idChar_ne (hchars c (by simp))
    have hlast : (front ++ (w.concat c)).getLast? = some c := by
      rw [List.concat_eq_append, ← List.append_assoc, List.getLast?_append]
      rfl
    simp only [IdentifierPart.text, hlast, Option.some.injEq, hc.1, hc.2.1, false_or, false_and,
      and_false]
  | quoted v =>
    have hlast : (front ++ forceQuotes v).getLast? = some '"' := by
      rw [forceQuotes_eq, ← List.cons_append, ← List.append_assoc, List.getLast?_append]
      rfl
    have hdrop : (front ++ forceQuotes v).dropLast.getLast? = some '.' ↔ v.getLast? = some '.' := by
      rw [forceQuotes_eq, ← List.cons_append, ← List.append_assoc, List.dropLast_concat]
      refine Iff.trans ?_ getLast_doubled
      cases hd : doubledQuotes v with
      | nil =>
        simp
      | cons d rest =>
        have hsplit : front ++ '"' :: d :: rest = (front ++ ['"']) ++ (d :: rest) := by simp
        rw [hsplit, List.getLast?_append]
        cases hl : (d :: rest).getLast? with
        | none => simp at hl
        | some e => simp
    have hne : v ≠ [] := hp
    have hlen : 3 ≤ (front ++ forceQuotes v).length := by
      obtain ⟨c, w, rfl⟩ := List.exists_cons_of_ne_nil hne
      have hle := length_forceQuotes (c :: w)
      have hmore : 1 ≤ (doubledQuotes (c :: w)).length := by
        by_cases hc : c = '"'
        · subst hc
          rw [doubledQuotes_quote]
          simp
        · rw [doubledQuotes_cons hc]
          simp
      rw [forceQuotes_eq]
      simp only [List.length_append, List.length_cons, List.length_nil]
      omega
    have hquote : ¬ ('"' : Char) = '.' := by decide
    simp only [IdentifierPart.text, hlast, hdrop, Option.some.injEq, hquote, false_or, true_and]
    rw [and_iff_right hlen]

theorem malformedStart_iff (hp : first.Valid) :
    ((first.text ++ tail).head? = some '.' ∨
      (first.text ++ tail).head? = some '"' ∧ (first.text ++ tail)[1]? = some '.') ↔
      first.StartsWithDot := by
  cases first with
  | unquoted v =>
    obtain ⟨hne, hchars⟩ := hp
    obtain ⟨c, w, rfl⟩ := List.exists_cons_of_ne_nil hne
    have hc := idChar_ne (hchars c List.mem_cons_self)
    simp only [IdentifierPart.text, List.cons_append, List.head?_cons, Option.some.injEq, hc.1,
      hc.2.1, false_or, false_and, StartsWithDot]
  | quoted v =>
    obtain ⟨c, w, rfl⟩ := List.exists_cons_of_ne_nil hp
    have hquote : ¬ ('"' : Char) = '.' := by decide
    by_cases hc : c = '"'
    · subst hc
      simp [IdentifierPart.text, forceQuotes_eq, StartsWithDot]
    · simp [IdentifierPart.text, forceQuotes_eq, doubledQuotes_cons hc, StartsWithDot]

end Ends

section Parts

variable {isNumber : List Char → Bool} {p first : IdentifierPart} {front t : List Char}
  {parts : List IdentifierPart}

theorem text_ne_nil (hp : p.Valid) : p.text ≠ [] := by
  cases p with
  | unquoted v => exact hp.1
  | quoted v =>
    rw [IdentifierPart.text, forceQuotes_eq]
    exact List.cons_ne_nil _ _

theorem accepted_iff (hp : p.Valid) (hfirst : first.Valid) {tail : List Char}
    (ht : t = front ++ p.text) (hstart : t = first.text ++ tail) (hlast : lastOf t = p.text) :
    Accepted isNumber t ↔ p.Fits isNumber ∧ ¬ first.StartsWithDot := by
  have hne : t ≠ [] := by
    rw [hstart]
    intro hnil
    exact text_ne_nil hfirst (List.append_eq_nil_iff.1 hnil).1
  have hend := @malformedEnd_iff p front hp
  have hbegin := @malformedStart_iff first tail hfirst
  rw [← ht] at hend
  rw [← hstart] at hbegin
  rw [Accepted, MalformedEnds, hend, hbegin, hlast, stringIsIdentifier_text hp]
  cases p with
  | unquoted v => simp [hne, Fits, and_comm]
  | quoted v =>
    simp only [hne, ne_eq, not_false_iff, true_and, not_or, Fits]
    constructor
    · intro h
      exact ⟨⟨h.2, h.1.1⟩, h.1.2⟩
    · intro h
      exact ⟨⟨h.1.2, h.2⟩, h.1.1⟩

theorem chomped_of_last (h : ∀ c, t.getLast? = some c → c ∉ [' ', '\t', '\n', '\x0c', '\r']) :
    chomped t = t := by
  have hdrop : (t.reverse.dropWhile fun c => decide (c ∈ [' ', '\t', '\n', '\x0c', '\r'])) =
      t.reverse := by
    cases hreverse : t.reverse with
    | nil => rfl
    | cons c rest =>
      have hlast : t.getLast? = some c := by
        rw [List.getLast?_eq_head?_reverse, hreverse]
        rfl
      rw [List.dropWhile_cons_of_neg]
      rw [decide_eq_true_eq]
      exact h c hlast
  rw [chomped, hdrop, List.reverse_reverse]

theorem chomped_parts (hp : p.Valid) (ht : t = front ++ p.text) : chomped t = t := by
  apply chomped_of_last
  intro c hc
  obtain ⟨d, hd⟩ := Option.ne_none_iff_exists'.1 (mt List.getLast?_eq_none_iff.1 (text_ne_nil hp))
  rw [ht, List.getLast?_append, hd, Option.some_or] at hc
  rw [hc] at hd
  clear hc
  cases p with
  | unquoted v =>
    have hne := idChar_ne (hp.2 c (List.mem_of_getLast? hd))
    simp [hne.2.2.2.1, hne.2.2.2.2.1, hne.2.2.2.2.2.1, hne.2.2.2.2.2.2.1, hne.2.2.2.2.2.2.2]
  | quoted v =>
    rw [IdentifierPart.text, forceQuotes_eq, ← List.cons_append, List.getLast?_append] at hd
    obtain rfl : '"' = c := Option.some.inj hd
    decide

theorem joinDots_start (hhead : parts.head? = some first) :
    ∃ tail, joinDots (parts.map IdentifierPart.text) = first.text ++ tail := by
  cases parts with
  | nil => cases hhead
  | cons p ps =>
    obtain rfl := Option.some.inj hhead
    by_cases hps : ps.map IdentifierPart.text = []
    · rw [List.map_cons, hps]
      exact ⟨[], by simp [joinDots]⟩
    · rw [List.map_cons, joinDots_cons hps]
      exact ⟨_, rfl⟩

theorem partsFit_concat (hhead : parts.head? = some first) :
    PartsFit isNumber (parts ++ [p]) ↔
      PartsFit isNumber parts ∧ p.Fits isNumber ∧ ¬ first.StartsWithDot := by
  have hhead' : (parts ++ [p]).head? = some first := by
    rw [List.head?_append, hhead]
    rfl
  rw [PartsFit, PartsFit, hhead, hhead']
  simp only [List.mem_append, List.mem_singleton, Option.some.injEq, forall_eq']
  constructor
  · intro h
    exact ⟨⟨fun q hq => h.1 q (.inl hq), h.2⟩, h.1 p (.inr rfl), h.2⟩
  · intro h
    refine ⟨?_, h.1.2⟩
    intro q hq
    rcases hq with hq | rfl
    · exact h.1.1 q hq
    · exact h.2.1

theorem split_parts (hvalid : ∀ p ∈ parts, p.Valid) (hne : parts ≠ []) {fuel : Nat}
    (hfuel : (joinDots (parts.map IdentifierPart.text)).length < fuel) :
    ∃ texts, (∀ array, splitFrom isNumber fuel (joinDots (parts.map IdentifierPart.text)) array =
        some (texts ++ array)) ∧
      (texts = parts.map IdentifierPart.text ↔ PartsFit isNumber parts) := by
  induction parts using List.reverseRecOn generalizing fuel with
  | nil => exact absurd rfl hne
  | append_singleton ps p ih =>
    have hp := hvalid p (by simp)
    cases fuel with
    | zero => omega
    | succ fuel =>
      by_cases hps : ps = []
      · subst hps
        have ht : joinDots (([] ++ [p]).map IdentifierPart.text) = [] ++ p.text := rfl
        have hstart : joinDots (([] ++ [p]).map IdentifierPart.text) = p.text ++ [] := by
          rw [List.append_nil]
          rfl
        have hchomped := chomped_parts hp ht
        have hcut := cutBack_single hp
        have hlast : lastOf p.text = p.text := by
          rw [lastOf, hcut]
        have hfront : frontOf p.text = none := by
          rw [frontOf, hcut]
          rfl
        have haccepted := @accepted_iff isNumber _ _ _ _ hp hp _ ht hstart hlast
        have hfit : PartsFit isNumber ([] ++ [p]) ↔ p.Fits isNumber ∧ ¬ p.StartsWithDot := by
          simp [PartsFit]
        rw [hfit, ← haccepted]
        by_cases hacc : Accepted isNumber (joinDots (([] ++ [p]).map IdentifierPart.text))
        · rw [← hchomped] at hacc
          have hsplit := splitIdentifierString_accepted hacc
          rw [hchomped] at hsplit hacc
          refine ⟨[p.text], ?_, iff_of_true rfl hacc⟩
          intro array
          have hsplit' : splitIdentifierString isNumber p.text = some (none, p.text) := by
            rw [← hfront, ← hlast]
            rw [hlast]
            exact hsplit.trans (by
              have heq : joinDots (([] ++ [p]).map IdentifierPart.text) = p.text := rfl
              rw [heq, hlast])
          have heq : joinDots (([] ++ [p]).map IdentifierPart.text) = p.text := rfl
          rw [heq]
          simp only [splitFrom, hsplit']
          rfl
        · rw [← hchomped] at hacc
          have hsplit := splitIdentifierString_rejected hacc
          rw [hchomped] at hacc
          refine ⟨[], ?_, iff_of_false (by simp) hacc⟩
          intro array
          simp only [splitFrom, hsplit]
          rfl
      · obtain ⟨first, rest, rfl⟩ := List.exists_cons_of_ne_nil hps
        have hfirst := hvalid first (by simp)
        have hhead : (first :: rest).head? = some first := rfl
        have hmap : (first :: rest).map IdentifierPart.text ≠ [] := by simp
        have ht : joinDots (((first :: rest) ++ [p]).map IdentifierPart.text) =
            joinDots ((first :: rest).map IdentifierPart.text) ++ '.' :: p.text := by
          rw [List.map_append]
          exact joinDots_concat hmap p.text
        have ht' : joinDots (((first :: rest) ++ [p]).map IdentifierPart.text) =
            (joinDots ((first :: rest).map IdentifierPart.text) ++ ['.']) ++ p.text := by
          rw [ht]
          simp
        obtain ⟨tail, hstart⟩ := @joinDots_start first
          ((first :: rest) ++ [p]) rfl
        have hcut := cutBack_concat hp (joinDots ((first :: rest).map IdentifierPart.text))
        rw [← ht] at hcut
        have hlast : lastOf (joinDots (((first :: rest) ++ [p]).map IdentifierPart.text)) =
            p.text := by
          rw [lastOf, hcut]
        have hfront : frontOf (joinDots (((first :: rest) ++ [p]).map IdentifierPart.text)) =
            some (joinDots ((first :: rest).map IdentifierPart.text)) := by
          rw [frontOf, hcut]
          rfl
        have hchomped := chomped_parts hp ht'
        have haccepted := @accepted_iff isNumber _ _ _ _ hp hfirst _ ht' hstart hlast
        rw [partsFit_concat hhead, ← haccepted]
        by_cases hacc : Accepted isNumber
            (joinDots (((first :: rest) ++ [p]).map IdentifierPart.text))
        · have hlen : (joinDots ((first :: rest).map IdentifierPart.text)).length < fuel := by
            rw [ht, List.length_append, List.length_cons] at hfuel
            omega
          obtain ⟨texts, hloop, htexts⟩ := ih (fun q hq => hvalid q (List.mem_append_left _ hq))
            (List.cons_ne_nil _ _) hlen
          rw [← hchomped] at hacc
          have hsplit := splitIdentifierString_accepted hacc
          rw [hchomped, hfront, hlast] at hsplit
          rw [hchomped] at hacc
          refine ⟨texts ++ [p.text], ?_, ?_⟩
          · intro array
            simp only [splitFrom, hsplit, hloop, List.append_assoc, List.singleton_append]
          · rw [and_iff_left hacc, ← htexts, List.map_append, List.map_singleton,
              List.append_cancel_right_eq]
        · rw [← hchomped] at hacc
          have hsplit := splitIdentifierString_rejected hacc
          rw [hchomped] at hacc
          refine ⟨[], ?_, iff_of_false (by simp) (fun h => hacc h.2)⟩
          intro array
          simp only [splitFrom, hsplit]
          rfl

end Parts

section Contract

variable (isNumber : List Char → Bool)

def SplitsWhole (s : List Char) : Prop :=
  ∃ parts, sqlIdentifierSplit isNumber s = some parts ∧ (parts = [] ∨ joinDots parts = chomped s)

theorem identifierSplit_contract :
    (∀ parts : List IdentifierPart, parts ≠ [] → (∀ p ∈ parts, p.Valid) →
      (sqlIdentifierSplit isNumber (joinDots (parts.map IdentifierPart.text)) =
        some (parts.map IdentifierPart.text) ↔ PartsFit isNumber parts)) ∧
    ∀ s, SplitsWhole isNumber s ↔
      ¬ Accepted isNumber (chomped s) ∨ FrontsFit isNumber (chomped s) := by
  constructor
  · intro parts hne hvalid
    obtain ⟨texts, hloop, htexts⟩ := @split_parts isNumber _ hvalid hne _
      (Nat.lt_succ_self _)
    rw [sqlIdentifierSplit, hloop, List.append_nil, Option.some.injEq, htexts]
  · intro s
    obtain ⟨parts, hparts⟩ := @splitFrom_result isNumber _ _ (Nat.lt_succ_self s.length)
    have hsplit := hparts.eq []
    rw [List.append_nil] at hsplit
    have hwhole : SplitsWhole isNumber s ↔ parts = [] ∨ joinDots parts = chomped s := by
      constructor
      · intro h
        obtain ⟨parts', heq, hor⟩ := h
        rw [sqlIdentifierSplit, hsplit] at heq
        obtain rfl := Option.some.inj heq
        exact hor
      · intro h
        exact ⟨parts, hsplit, h⟩
    rw [hwhole]
    by_cases hnil : parts = []
    · exact iff_of_true (.inl hnil) (.inl (hparts.nil.1 hnil))
    · have hacc : Accepted isNumber (chomped s) := by
        by_contra hno
        exact hnil (hparts.nil.2 hno)
      rw [hparts.whole hnil]
      simp [hnil, hacc]

/-- `a."b.c"`, where no text is a number. -/
theorem identifierSplit_contract_dot :
    PartsFit (fun _ => false) [.unquoted ['a'], .quoted ['b', '.', 'c']] ∧
      sqlIdentifierSplit (fun _ => false)
        (joinDots ([.unquoted ['a'], .quoted ['b', '.', 'c']].map IdentifierPart.text)) =
        some ([.unquoted ['a'], .quoted ['b', '.', 'c']].map IdentifierPart.text) := by
  have hvalid : ∀ p ∈ [IdentifierPart.unquoted ['a'], .quoted ['b', '.', 'c']], p.Valid := by
    intro p hp
    simp only [List.mem_cons, List.not_mem_nil, or_false] at hp
    rcases hp with rfl | rfl
    · refine ⟨List.cons_ne_nil _ _, ?_⟩
      intro c hc
      rw [List.mem_singleton.1 hc]
      rfl
    · exact List.cons_ne_nil _ _
  have hfit : PartsFit (fun _ => false) [.unquoted ['a'], .quoted ['b', '.', 'c']] := by
    constructor
    · intro p hp
      simp only [List.mem_cons, List.not_mem_nil, or_false] at hp
      rcases hp with rfl | rfl
      · rfl
      · refine ⟨?_, by simp⟩
        intro c hc
        simp only [List.mem_cons, List.not_mem_nil, or_false] at hc
        rcases hc with rfl | rfl | rfl
        · exact .inl (by decide)
        · exact .inr (.inr (.inl rfl))
        · exact .inl (by decide)
    · intro p hp
      obtain rfl := Option.some.inj hp
      intro h
      exact h
  exact ⟨hfit, ((identifierSplit_contract fun _ => false).1 _ (by simp) hvalid).2 hfit⟩

/-- `"a b"` is not taken as a part, and of `a b.c` only `c` is left. -/
theorem identifierSplit_drops :
    (¬ ∀ v, v ≠ [] → sqlIdentifierSplit (fun _ => false) (forceQuotes v) = some [forceQuotes v]) ∧
      ¬ ∀ s, SplitsWhole (fun _ => false) s := by
  have hblank : sqlIdentifierSplit (fun _ => false) (forceQuotes ['a', ' ', 'b']) = some [] := by
    decide
  have hdropped : sqlIdentifierSplit (fun _ => false) ['a', ' ', 'b', '.', 'c'] = some [['c']] := by
    decide
  constructor
  · intro hall
    have heq := hall ['a', ' ', 'b'] (by simp)
    rw [hblank] at heq
    cases heq
  · intro hall
    obtain ⟨parts, hsplit, hor⟩ := hall ['a', ' ', 'b', '.', 'c']
    rw [hdropped] at hsplit
    obtain rfl := Option.some.inj hsplit
    revert hor
    decide

end Contract

end LibGda
