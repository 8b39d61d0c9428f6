import LibGda.PlainIdentifiers
import Mathlib.Data.List.Induction

/-! `gda_sql_identifier_split`: the parts of an identifier are cut off from the end, at the dots which
are not between quotes. -/

namespace LibGda

def chomped (str : List Char) : List Char :=
  (str.reverse.dropWhile fun c => c ∈ [' ', '\t', '\n', '\x0c', '\r']).reverse

/-- The loop of `_string_is_identifier` reaches the end of the text. -/
def identifierChars : List Char → Bool
  | [] => true
  | c :: rest =>
    if idChar c ∨ c = '*' ∨ c = '.' ∨ c = '-' then identifierChars rest
    else if c = '"' then
      match rest with
      | [] => true
      | d :: rest' => if d = '"' then identifierChars rest' else false
    else decide (c = '`' ∧ rest = [])

section Split

variable (isNumber : List Char → Bool)

/-- `_string_is_identifier`; `isNumber` is whether `g_ascii_strtod` reads the whole text. -/
def stringIsIdentifier (str : List Char) : Bool :=
  if str = [] then false
  else
    let start := if str.head? = some '"' ∨ str.head? = some '`' then str.tail else str
    if identifierChars start = false then false
    else if (str.head? = some '"' ∧ str.getLast? = some '"') ∨
        (str.head? = some '`' ∧ str.getLast? = some '`') then true
    else !isNumber str

def scanBack : List Char → Bool → List Char → Option (List Char × List Char)
  | [], _, _ => none
  | [c], inq, last => if c = '.' ∧ inq = false then some ([], last) else none
  | c :: d :: rest, inq, last =>
    if c = '"' then
      if d = '"' then scanBack rest inq (d :: c :: last)
      else scanBack (d :: rest) (!inq) (c :: last)
    else if c = '.' ∧ inq = false then some ((d :: rest).reverse, last)
    else scanBack (d :: rest) inq (c :: last)

def MalformedEnds (str : List Char) : Prop :=
  3 ≤ str.length ∧ (str.getLast? = some '.' ∨
      str.getLast? = some '"' ∧ str.dropLast.getLast? = some '.') ∨
    str.head? = some '.' ∨ str.head? = some '"' ∧ str[1]? = some '.'

instance (str : List Char) : Decidable (MalformedEnds str) :=
  inferInstanceAs (Decidable (_ ∨ _))

/-- `_split_identifier_string`, with the remaining text and the last part. -/
def splitIdentifierString (copy : List Char) : Option (Option (List Char) × List Char) :=
  let str := chomped copy
  if str = [] ∨ MalformedEnds str then none
  else
    match scanBack str.reverse false [] with
    | some (remain, last) =>
      if stringIsIdentifier isNumber last then some (some remain, last) else none
    | none => if stringIsIdentifier isNumber str then some (none, str) else none

/-- The loop of `gda_sql_identifier_split`; NULL is the empty array. -/
def splitFrom : Nat → List Char → List (List Char) → Option (List (List Char))
  | 0, _, _ => none
  | fuel + 1, copy, array =>
    match splitIdentifierString isNumber copy with
    | none => some array
    | some (none, last) => some (last :: array)
    | some (some remain, last) => splitFrom fuel remain (last :: array)

def sqlIdentifierSplit (id : List Char) : Option (List (List Char)) :=
  splitFrom isNumber (id.length + 1) id []

end Split

def joinDots : List (List Char) → List Char
  | [] => []
  | [p] => p
  | p :: ps => p ++ '.' :: joinDots ps

section Cuts

variable {isNumber : List Char → Bool} {s t r rest acc last remain : List Char} {inq : Bool}

theorem joinDots_cons {ps : List (List Char)} (hne : ps ≠ []) (p : List Char) :
    joinDots (p :: ps) = p ++ '.' :: joinDots ps := by
  cases ps with
  | nil => exact absurd rfl hne
  | cons q ps => rfl

theorem joinDots_concat {ps : List (List Char)} (hne : ps ≠ []) (p : List Char) :
    joinDots (ps ++ [p]) = joinDots ps ++ '.' :: p := by
  induction ps with
  | nil => exact absurd rfl hne
  | cons q ps ih =>
    by_cases hps : ps = []
    · subst hps
      rfl
    · have hne' : ps ++ [p] ≠ [] := by simp
      rw [List.cons_append, joinDots_cons hne', ih hps, joinDots_cons hps, List.append_assoc]
      rfl

theorem scanBack_some (h : scanBack rest inq acc = some (remain, last)) :
    rest.reverse ++ acc = remain ++ '.' :: last := by
  fun_induction scanBack rest inq acc with
  | case1 => cases h
  | case2 c inq acc hc =>
    obtain ⟨rfl, rfl⟩ := Prod.mk.inj (Option.some.inj h)
    rw [hc.1]
    rfl
  | case3 => cases h
  | case4 acc inq rest ih =>
    rw [← ih h]
    simp
  | case5 inq acc d rest hd ih =>
    rw [← ih h]
    simp
  | case6 c inq acc d rest hq hc =>
    obtain ⟨rfl, rfl⟩ := Prod.mk.inj (Option.some.inj h)
    rw [hc.1]
    simp
  | case7 c inq acc d rest hq hc ih =>
    rw [← ih h]
    simp

def cutBack (str : List Char) : Option (List Char × List Char) := scanBack str.reverse false []

def lastOf (str : List Char) : List Char :=
  match cutBack str with
  | some (_, last) => last
  | none => str

def frontOf (str : List Char) : Option (List Char) := (cutBack str).map Prod.fst

theorem frontOf_some (h : frontOf t = some r) : t = r ++ '.' :: lastOf t := by
  obtain ⟨⟨remain, last⟩, hcut, rfl⟩ := Option.map_eq_some_iff.1 h
  have heq := scanBack_some hcut
  rw [List.reverse_reverse, List.append_nil] at heq
  rw [lastOf, hcut]
  exact heq

theorem lastOf_none (h : frontOf t = none) : lastOf t = t := by
  rw [frontOf, Option.map_eq_none_iff] at h
  rw [lastOf, h]

def Accepted (isNumber : List Char → Bool) (str : List Char) : Prop :=
  str ≠ [] ∧ ¬ MalformedEnds str ∧ stringIsIdentifier isNumber (lastOf str) = true

theorem splitIdentifierString_accepted (h : Accepted isNumber (chomped s)) :
    splitIdentifierString isNumber s = some (frontOf (chomped s), lastOf (chomped s)) := by
  obtain ⟨hne, hends, hid⟩ := h
  have hcond : ¬ (chomped s = [] ∨ MalformedEnds (chomped s)) := by
    rw [not_or]
    exact ⟨hne, hends⟩
  rw [splitIdentifierString]
  simp only [if_neg hcond]
  rw [lastOf] at hid
  rw [frontOf, lastOf]
  rw [cutBack] at hid ⊢
  cases hcut : scanBack (chomped s).reverse false [] with
  | none =>
    rw [hcut] at hid
    simp only [hid, if_true]
    rfl
  | some cut =>
    rw [hcut] at hid
    simp only [hid, if_true]
    rfl

theorem splitIdentifierString_rejected (h : ¬ Accepted isNumber (chomped s)) :
    splitIdentifierString isNumber s = none := by
  rw [splitIdentifierString]
  by_cases hcond : chomped s = [] ∨ MalformedEnds (chomped s)
  · simp only [if_pos hcond]
  · rw [not_or] at hcond
    have hid : ¬ stringIsIdentifier isNumber (lastOf (chomped s)) = true := by
      intro hid
      exact h ⟨hcond.1, hcond.2, hid⟩
    simp only [if_neg (not_or.2 hcond)]
    rw [lastOf, cutBack] at hid
    cases hcut : scanBack (chomped s).reverse false [] with
    | none =>
      rw [hcut] at hid
      simp only [if_neg hid]
    | some cut =>
      rw [hcut] at hid
      simp only [if_neg hid]

inductive FrontsFit (isNumber : List Char → Bool) : List Char → Prop
  | single {t : List Char} (h : Accepted isNumber t) (hfront : frontOf t = none) :
      FrontsFit isNumber t
  | more {t r : List Char} (h : Accepted isNumber t) (hfront : frontOf t = some r)
      (hchomped : chomped r = r) (hrest : FrontsFit isNumber r) : FrontsFit isNumber t

theorem length_chomped_le (s : List Char) : (chomped s).length ≤ s.length := by
  rw [chomped, List.length_reverse]
  have hle := (List.dropWhile_suffix (l := s.reverse)
    (fun c => decide (c ∈ [' ', '\t', '\n', '\x0c', '\r']))).length_le
  rw [List.length_reverse] at hle
  exact hle

theorem chomped_eq_of_length (h : s.length ≤ (chomped s).length) : chomped s = s := by
  have hsuffix := List.dropWhile_suffix (l := s.reverse)
    (fun c => decide (c ∈ [' ', '\t', '\n', '\x0c', '\r']))
  have heq := hsuffix.eq_of_length_le (by
    rw [chomped, List.length_reverse] at h
    rw [List.length_reverse]
    exact h)
  rw [chomped, heq, List.reverse_reverse]

structure SplitResult (isNumber : List Char → Bool) (fuel : Nat) (s : List Char)
    (parts : List (List Char)) : Prop where
  eq : ∀ array, splitFrom isNumber fuel s array = some (parts ++ array)
  nil : parts = [] ↔ ¬ Accepted isNumber (chomped s)
  length : (joinDots parts).length ≤ (chomped s).length
  whole : parts ≠ [] → (joinDots parts = chomped s ↔ FrontsFit isNumber (chomped s))

theorem splitFrom_result {fuel : Nat} (hfuel : s.length < fuel) :
    ∃ parts, SplitResult isNumber fuel s parts := by
  induction fuel generalizing s with
  | zero => omega
  | succ fuel ih =>
    by_cases haccepted : Accepted isNumber (chomped s)
    · have hsplit := splitIdentifierString_accepted haccepted
      cases hfront : frontOf (chomped s) with
      | none =>
        have hlast := lastOf_none hfront
        refine ⟨[chomped s], ?_, ?_, Nat.le_refl _, ?_⟩
        · intro array
          simp only [splitFrom, hsplit, hfront, hlast]
          rfl
        · simp [haccepted]
        · intro _
          exact iff_of_true rfl (.single haccepted hfront)
      | some r =>
        have hcut := frontOf_some hfront
        have hlen := congrArg List.length hcut
        rw [List.length_append, List.length_cons] at hlen
        have hle := length_chomped_le s
        obtain ⟨parts, hparts⟩ := @ih r (by omega)
        have hchomped := length_chomped_le r
        refine ⟨parts ++ [lastOf (chomped s)], ?_, ?_, ?_, ?_⟩
        · intro array
          simp only [splitFrom, hsplit, hfront, hparts.eq, List.append_assoc, List.singleton_append]
        · simp [haccepted]
        · by_cases hnil : parts = []
          · rw [hnil, List.nil_append, joinDots]
            omega
          · rw [joinDots_concat hnil, List.length_append, List.length_cons]
            have hparts' := hparts.length
            omega
        · intro _
          constructor
          · intro hjoin
            have hnil : parts ≠ [] := by
              intro hnil
              rw [hnil, List.nil_append, joinDots] at hjoin
              have hlen' := congrArg List.length hjoin
              omega
            rw [joinDots_concat hnil] at hjoin
            -- the front is what the parts in front make
            have hfrontEq : joinDots parts = r := by
              rw [hcut] at hjoin
              have hlast : '.' :: lastOf (r ++ '.' :: lastOf (chomped s)) =
                  '.' :: lastOf (chomped s) := by
                rw [← hcut]
              rw [hlast] at hjoin
              exact List.append_cancel_right hjoin
            have hsame : chomped r = r := by
              apply chomped_eq_of_length
              have hparts' := hparts.length
              rw [hfrontEq] at hparts'
              exact hparts'
            refine .more haccepted hfront hsame ?_
            have hwhole := hparts.whole hnil
            rw [hsame] at hwhole
            exact hwhole.1 hfrontEq
          · intro hfits
            cases hfits with
            | single h hnone =>
              rw [hfront] at hnone
              cases hnone
            | more h hfront' hsame hrest =>
              rw [hfront] at hfront'
              obtain rfl := Option.some.inj hfront'
              have hacc : Accepted isNumber (chomped r) := by
                rw [hsame]
                cases hrest with
                | single h _ => exact h
                | more h _ _ _ => exact h
              have hnil : parts ≠ [] := by
                intro hnil
                exact hparts.nil.1 hnil hacc
              have hwhole := hparts.whole hnil
              rw [hsame] at hwhole
              rw [joinDots_concat hnil, hwhole.2 hrest]
              exact hcut.symm
    · have hsplit := splitIdentifierString_rejected haccepted
      refine ⟨[], ?_, ?_, Nat.zero_le _, fun hne => absurd rfl hne⟩
      · intro array
        simp only [splitFrom, hsplit]
        rfl
      · simp [haccepted]

end Cuts

end LibGda
