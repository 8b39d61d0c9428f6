import LibGda.DefaultEscape

/-! `gda_default_unescape_string` on any string: where it finds a quote or a backslash which is in
no pair, and what it makes of an escaped string. -/

namespace LibGda

open RepeatedElements

def isPair (c d : UInt8) : Bool :=
  (c == quote && d == quote) || (c == backslash && (d == backslash || d == quote))

inductive Paired : Bytes → Prop where
  | nil : Paired []
  | plain {c : UInt8} {s : Bytes} (hc : isDoubled c = false) (h : Paired s) : Paired (c :: s)
  | pair {c d : UInt8} {s : Bytes} (hpair : isPair c d = true) (h : Paired s) :
      Paired (c :: d :: s)

def loneMark : Nat → Bytes → Option (Nat × Bytes)
  | _, [] => none
  | pairs, [c] => if isDoubled c then some (pairs, [c]) else none
  | pairs, c :: d :: s =>
    if isDoubled c then
      if isPair c d then loneMark (if c = quote then pairs + 1 else pairs) s
      else some (pairs, c :: d :: s)
    else loneMark pairs (d :: s)

section Marks

variable {c d : UInt8} {s left : Bytes} {pairs pairs' : Nat}

theorem isDoubled_of_isPair (h : isPair c d = true) : isDoubled c = true := by
  rw [isPair, Bool.or_eq_true, Bool.and_eq_true, Bool.and_eq_true] at h
  rw [isDoubled, Bool.or_eq_true]
  exact h.imp And.left And.left

theorem paired_iff_plain (hc : isDoubled c = false) : Paired (c :: s) ↔ Paired s := by
  constructor
  · intro h
    cases h with
    | plain _ hs => exact hs
    | pair hpair _ =>
      have := isDoubled_of_isPair hpair
      rw [hc] at this
      cases this
  · exact .plain hc

theorem paired_iff_pair (hpair : isPair c d = true) : Paired (c :: d :: s) ↔ Paired s := by
  constructor
  · intro h
    cases h with
    | plain hc _ =>
      rw [isDoubled_of_isPair hpair] at hc
      cases hc
    | pair _ hs => exact hs
  · exact .pair hpair

theorem not_paired_lone (hc : isDoubled c = true) (hpair : isPair c d = false) :
    ¬ Paired (c :: d :: s) := by
  intro h
  cases h with
  | plain hplain _ =>
    rw [hc] at hplain
    cases hplain
  | pair hp _ =>
    rw [hpair] at hp
    cases hp

theorem loneMark_eq_none (pairs : Nat) (s : Bytes) : loneMark pairs s = none ↔ Paired s := by
  induction pairs, s using loneMark.induct with
  | case1 pairs => exact iff_of_true rfl .nil
  | case2 pairs c hc =>
    rw [loneMark, if_pos hc]
    refine iff_of_false nofun ?_
    intro h
    cases h with
    | plain hplain _ =>
      rw [hc] at hplain
      cases hplain
  | case3 pairs c hc =>
    rw [loneMark, if_neg hc]
    exact iff_of_true rfl (.plain (eq_false_of_ne_true hc) .nil)
  | case4 pairs c d s hc hpair ih =>
    rw [loneMark, if_pos hc, if_pos hpair, paired_iff_pair hpair]
    exact ih
  | case5 pairs c d s hc hpair =>
    rw [loneMark, if_pos hc, if_neg hpair]
    exact iff_of_false nofun (not_paired_lone hc (eq_false_of_ne_true hpair))
  | case6 pairs c d s hc ih =>
    rw [loneMark, if_neg hc, paired_iff_plain (eq_false_of_ne_true hc)]
    exact ih

theorem loneMark_le (h : loneMark pairs s = some (pairs', left)) :
    pairs ≤ pairs' ∧ left.length ≤ s.length := by
  induction pairs, s using loneMark.induct with
  | case1 pairs => cases h
  | case2 pairs c hc =>
    rw [loneMark, if_pos hc] at h
    cases h
    exact ⟨le_rfl, le_rfl⟩
  | case3 pairs c hc =>
    rw [loneMark, if_neg hc] at h
    cases h
  | case4 pairs c d s hc hpair ih =>
    rw [loneMark, if_pos hc, if_pos hpair] at h
    have := ih h
    rw [List.length_cons, List.length_cons]
    split at this <;> omega
  | case5 pairs c d s hc hpair =>
    rw [loneMark, if_pos hc, if_neg hpair] at h
    cases h
    exact ⟨le_rfl, le_rfl⟩
  | case6 pairs c d s hc ih =>
    rw [loneMark, if_neg hc] at h
    have := ih h
    rw [List.length_cons]
    omega

end Marks

section Loop

variable {behind c d : UInt8} {done rest tail left : Bytes} {total turns offset pairs n : Nat}

theorem unescapeLoop_backquote (behind : UInt8) (done rest tail : Bytes) (turns : Nat)
    (h : offset < total) : ∃ rest' tail',
    unescapeLoop behind total (turns + 1) (done ++ backslash :: quote :: (rest ++ 0 :: tail))
      done.length offset =
      unescapeLoop behind total turns (done ++ quote :: (rest' ++ 0 :: tail')) (done.length + 1)
        (offset + 2) ∧
    (rest.length < total - offset → rest' = rest) ∧
    (total - offset ≤ rest.length →
      rest' = rest.take (total - offset) ++ rest.drop (total - offset - 1)) := by
  obtain ⟨rest', tail', hmove, hall, hpart⟩ := memmove_doubled behind quote done rest tail
    (Nat.sub_pos_of_lt h)
  refine ⟨rest', tail', ?_, hall, hpart⟩
  have hread : (done ++ backslash :: quote :: (rest ++ 0 :: tail)).getD done.length behind =
      backslash := getD_behind done _ 0
  have hnext : (done ++ backslash :: quote :: (rest ++ 0 :: tail)).getD (done.length + 1) behind =
      quote := getD_behind done _ 1
  have hset : (done ++ backslash :: quote :: (rest ++ 0 :: tail)).set done.length quote =
      done ++ quote :: quote :: (rest ++ 0 :: tail) := by
    rw [List.set_append_right _ _ le_rfl, Nat.sub_self, List.set_cons_zero]
  apply unescapeLoop_backslash behind turns h
  rw [unescapeBackslash, hread, if_pos rfl, hnext, if_neg (by decide), if_pos rfl, hset, hmove]

theorem unescapeLoop_pair (behind : UInt8) (done rest tail : Bytes) (turns : Nat)
    (h : offset < total) (hpair : isPair c d = true) : ∃ e rest' tail',
    unescapeLoop behind total (turns + 1) (done ++ c :: d :: (rest ++ 0 :: tail)) done.length
      offset =
      unescapeLoop behind total turns (done ++ e :: (rest' ++ 0 :: tail')) (done.length + 1)
        (offset + 2 + if c = quote then 1 else 0) ∧
    (rest.length < total - offset → rest' = rest) ∧
    (total - offset ≤ rest.length →
      rest' = rest.take (total - offset) ++ rest.drop (total - offset - 1)) := by
  have hpair' := hpair
  rw [isPair, Bool.or_eq_true, Bool.and_eq_true, Bool.and_eq_true, Bool.or_eq_true] at hpair'
  simp only [beq_iff_eq] at hpair'
  rcases hpair' with ⟨rfl, rfl⟩ | ⟨rfl, rfl | rfl⟩
  · exact ⟨_, unescapeLoop_doubled behind done rest tail turns h (isDoubled_of_isPair hpair)⟩
  · exact ⟨_, unescapeLoop_doubled behind done rest tail turns h (isDoubled_of_isPair hpair)⟩
  · exact ⟨_, unescapeLoop_backquote behind done rest tail turns h⟩

theorem unescapeLoop_lone (h : offset < total) (hc : isDoubled c = true)
    (hpair : isPair c d = false) (z : Bytes) :
    unescapeLoop behind total (turns + 1) (done ++ c :: d :: z) done.length offset = none := by
  have hread : (done ++ c :: d :: z).getD done.length behind = c := getD_behind done _ 0
  have hnext : (done ++ c :: d :: z).getD (done.length + 1) behind = d := getD_behind done _ 1
  rw [isPair, Bool.or_eq_false_iff, Bool.and_eq_false_iff, Bool.and_eq_false_iff,
    Bool.or_eq_false_iff] at hpair
  simp only [beq_eq_false_iff_ne, ne_eq] at hpair
  rw [isDoubled, Bool.or_eq_true, beq_iff_eq, beq_iff_eq] at hc
  rw [unescapeLoop, if_pos h]
  rcases hc with rfl | rfl
  · have hd : d ≠ quote := hpair.1.resolve_left fun hne => hne rfl
    rw [unescapeQuote, hread, if_pos rfl, hnext, if_neg hd]
    rfl
  · have hd := hpair.2.resolve_left fun hne => hne rfl
    rw [unescapeQuote, hread, if_neg (by decide)]
    show (unescapeBackslash behind total done.length (done ++ backslash :: d :: z, offset)).bind
      _ = _
    rw [unescapeBackslash, hread, if_pos rfl, hnext, if_neg hd.1, if_neg hd.2]
    rfl

def StillThere (left rest : Bytes) (pairs : Nat) : Prop :=
  rest.take (left.length + 1 - pairs) = left.take (left.length + 1 - pairs)

theorem StillThere.of_pair {rest' : Bytes} {pairs' : Nat}
    (h : StillThere (c :: d :: left) (c :: d :: rest) pairs) (hpairs : pairs ≤ pairs')
    (hn : n = left.length + 2 - pairs) (hall : rest.length < n → rest' = rest)
    (hpart : n ≤ rest.length → rest' = rest.take n ++ rest.drop (n - 1)) :
    StillThere left rest' pairs' := by
  have hrest : rest.take (left.length + 1 - pairs) = left.take (left.length + 1 - pairs) := by
    by_cases hle : pairs ≤ left.length + 1
    · have hk : (c :: d :: left).length + 1 - pairs = left.length + 1 - pairs + 2 := by
        rw [List.length_cons, List.length_cons]
        omega
      rw [StillThere, hk, List.take_succ_cons, List.take_succ_cons, List.take_succ_cons,
        List.take_succ_cons] at h
      exact (List.cons.inj (List.cons.inj h).2).2
    · rw [Nat.sub_eq_zero_of_le (by omega), List.take_zero, List.take_zero]
  have hfront : rest'.take (left.length + 1 - pairs') = rest.take (left.length + 1 - pairs') := by
    by_cases hlen : rest.length < n
    · rw [hall hlen]
    · rw [hpart (Nat.not_lt.1 hlen), List.take_append_of_le_length, List.take_take,
        Nat.min_eq_left (by omega)]
      rw [List.length_take]
      omega
  have hmin : left.length + 1 - pairs' = min (left.length + 1 - pairs') (left.length + 1 - pairs) :=
    (Nat.min_eq_left (by omega)).symm
  rw [StillThere, hfront, hmin, ← List.take_take, hrest, List.take_take]

theorem StillThere.head (h : StillThere (c :: left) rest pairs) (hpairs : pairs ≤ left.length + 1) :
    ∃ rest', rest = c :: rest' ∧ rest'.take (left.length + 1 - pairs) =
      left.take (left.length + 1 - pairs) := by
  have hk : (c :: left).length + 1 - pairs = left.length + 1 - pairs + 1 := by
    rw [List.length_cons]
    omega
  rw [StillThere, hk, List.take_succ_cons] at h
  cases rest with
  | nil => cases h
  | cons b rest' =>
    rw [List.take_succ_cons, List.cons.injEq] at h
    obtain ⟨rfl, h⟩ := h
    exact ⟨rest', rfl, h⟩

theorem unescapeLoop_eq_none (behind : UInt8) (left done rest tail : Bytes)
    (pairs offset turns : Nat) (h : StillThere left rest pairs)
    (hoffset : offset + left.length = total + pairs) (hturns : left.length ≤ turns) :
    unescapeLoop behind total turns (done ++ (rest ++ 0 :: tail)) done.length offset = none ↔
      ∃ mark, loneMark pairs left = some mark ∧ mark.1 < mark.2.length := by
  induction hn : left.length using Nat.strong_induction_on generalizing left done rest tail pairs
    offset turns with
  | _ n ih =>
  subst hn
  by_cases hstop : total ≤ offset
  · rw [unescapeLoop_stop hstop]
    refine iff_of_false nofun ?_
    intro ⟨mark, hmark, hlt⟩
    have := loneMark_le hmark
    omega
  cases left with
  | nil =>
    rw [List.length_nil] at hoffset
    omega
  | cons c left =>
    rw [List.length_cons] at hoffset hturns ih
    obtain ⟨rest₁, rfl, hrest₁⟩ := h.head (by omega)
    obtain ⟨turns, rfl⟩ : ∃ k, turns = k + 1 := ⟨turns - 1, by omega⟩
    have hpos : offset < total := by omega
    by_cases hc : isDoubled c = true
    · cases left with
      | nil =>
        -- the mark is the last character, and no pair was miscounted
        have hnone : rest₁ = [] := by
          have hk : ([] : Bytes).length + 1 - pairs = 1 := by
            rw [List.length_nil] at hoffset ⊢
            omega
          rw [hk] at hrest₁
          cases rest₁ with
          | nil => rfl
          | cons b rest₂ => cases hrest₁
        have hzero : isPair c 0 = false := by
          rw [isPair, Bool.or_eq_false_iff, Bool.and_eq_false_iff, Bool.and_eq_false_iff]
          exact ⟨.inr (by decide), .inr (by decide)⟩
        rw [hnone]
        refine iff_of_true (unescapeLoop_lone hpos hc hzero tail) ⟨(pairs, [c]), ?_, ?_⟩
        · rw [loneMark, if_pos hc]
        · rw [List.length_nil] at hoffset
          rw [List.length_singleton]
          omega
      | cons d left =>
        rw [List.length_cons] at hoffset hturns ih
        have hnext : ∃ rest₂, rest₁ = d :: rest₂ := by
          have hk : (d :: left).length + 1 - pairs = left.length + 1 - pairs + 1 := by
            rw [List.length_cons]
            omega
          rw [hk, List.take_succ_cons] at hrest₁
          cases rest₁ with
          | nil => cases hrest₁
          | cons b rest₂ =>
            rw [List.take_succ_cons, List.cons.injEq] at hrest₁
            exact ⟨rest₂, by rw [hrest₁.1]⟩
        obtain ⟨rest₂, rfl⟩ := hnext
        by_cases hpair : isPair c d = true
        · obtain ⟨e, rest', tail', hstep, hall, hpart⟩ :=
            unescapeLoop_pair behind done rest₂ tail turns hpos hpair
          have hthere := h.of_pair (Nat.le_add_right pairs (if c = quote then 1 else 0))
            (by omega) hall hpart
          have hrec := ih left.length (by omega) left (done ++ [e]) rest' tail'
            (pairs + if c = quote then 1 else 0) (offset + 2 + if c = quote then 1 else 0) turns
            hthere (by omega) (by omega) rfl
          have hpairs : (pairs + if c = quote then 1 else 0) =
              if c = quote then pairs + 1 else pairs := by
            split <;> rfl
          rw [List.append_assoc, List.length_append] at hrec
          rw [loneMark, if_pos hc, if_pos hpair, ← hpairs]
          exact (iff_of_eq (congrArg (· = none) hstep)).trans hrec
        · have hpair' := eq_false_of_ne_true hpair
          refine iff_of_true (unescapeLoop_lone hpos hc hpair' _)
            ⟨(pairs, c :: d :: left), ?_, ?_⟩
          · rw [loneMark, if_pos hc, if_neg hpair]
          · rw [List.length_cons, List.length_cons]
            omega
    · have hplain := eq_false_of_ne_true hc
      have hstep := @unescapeLoop_plain behind done c total turns offset hpos hplain
        (rest₁ ++ 0 :: tail)
      have hrec := ih left.length (by omega) left (done ++ [c]) rest₁ tail pairs (offset + 1) turns
        hrest₁ (by omega) (by omega) rfl
      have hmark : loneMark pairs (c :: left) = loneMark pairs left := by
        cases left with
        | nil => rw [loneMark, loneMark, if_neg hc]
        | cons d left => rw [loneMark, if_neg hc]
      rw [List.append_assoc, List.length_append] at hrec
      rw [hmark]
      exact (iff_of_eq (congrArg (· = none) hstep)).trans hrec

end Loop

section Contract

variable (behind : UInt8) (string : CBytes)

/-- `gda_default_unescape_string (gda_default_escape_string (s)) = s` -/
def EscapeRoundTrips : Prop :=
  ∃ text str, defaultEscapeString string = .ok text ∧ defaultUnescapeString behind text = some str ∧
    str = string

/-- `NULL` is for the strings with a mark in no pair, and for no others. -/
def UnescapeRefuses : Prop := defaultUnescapeString behind string = none ↔ ¬ Paired string

variable {behind} {string}

theorem escapeRoundTrips_iff : EscapeRoundTrips behind string ↔
    (escaped string).length + 1 < 2 ^ 31 ∧ lateDoubled 0 string = 0 := by
  by_cases hfits : (escaped string).length + 1 < 2 ^ 31
  · rw [and_iff_right hfits]
    constructor
    · intro ⟨text, str, htext, hstr, heq⟩
      rw [defaultEscapeString_of_fits hfits, Except.ok.injEq] at htext
      subst htext heq
      obtain ⟨read, left, rest, str', hsplit, hread, hparts, -, hlength, -⟩ :=
        @defaultUnescapeString_escaped str.1 behind str.2
      rw [hread, Option.some.injEq] at hstr
      subst hstr
      have hsame : read ++ rest = read ++ left := hparts.symm.trans hsplit
      rw [List.append_cancel_left hsame, length_escaped] at hlength
      have hleft := lateDoubled_le_countP (0 + read.count quote) left
      rw [hsplit, lateDoubled_append]
      omega
    · intro hearly
      exact ⟨_, _, defaultEscapeString_of_fits hfits,
        defaultUnescapeString_of_early behind string.2 hearly, rfl⟩
  · refine iff_of_false ?_ fun h => hfits h.1
    intro ⟨text, str, htext, _⟩
    rw [defaultEscapeString_of_overflows hfits] at htext
    cases htext

theorem defaultUnescapeString_eq_none : defaultUnescapeString behind string = none ↔
    ∃ mark, loneMark 0 string.1 = some mark ∧ mark.1 < mark.2.length := by
  rw [defaultUnescapeString, Option.map_eq_none_iff]
  exact unescapeLoop_eq_none behind string.1 [] string.1 [] 0 0 string.1.length rfl
    (by omega) le_rfl

theorem unescapeRefuses_iff : UnescapeRefuses behind string ↔
    ∀ mark, loneMark 0 string.1 = some mark → mark.1 < mark.2.length := by
  rw [UnescapeRefuses, defaultUnescapeString_eq_none, ← loneMark_eq_none 0]
  cases hmark : loneMark 0 string.1 with
  | none =>
    refine iff_of_true (iff_of_false ?_ fun h => h rfl) nofun
    intro ⟨mark, h, _⟩
    cases h
  | some mark =>
    have hnot : ¬ some mark = none := nofun
    simp [hnot]

variable (behind) (string)

theorem escape_unescape_iff : (EscapeRoundTrips behind string ∧ UnescapeRefuses behind string) ↔
    ((escaped string).length + 1 < 2 ^ 31 ∧ lateDoubled 0 string = 0) ∧
      ∀ mark, loneMark 0 string.1 = some mark → mark.1 < mark.2.length :=
  and_congr escapeRoundTrips_iff unescapeRefuses_iff

end Contract

theorem threeQuotes_escape : let string : CBytes := ⟨[quote, quote, quote], by decide⟩
    ¬ EscapeRoundTrips 0 string ∧ ¬ UnescapeRefuses 0 string := by
  intro string
  rw [escapeRoundTrips_iff, unescapeRefuses_iff]
  refine ⟨fun h => absurd h.2 (by decide), fun h => ?_⟩
  exact absurd (h (1, [quote]) (by decide)) (by decide)

end LibGda
