import LibGda.QuotedText
import LibGda.SqlTokenizer

/-! How far `getToken` reads: the texts whose tokens run over the terminator, and how many
characters the others consume. -/

namespace LibGda

open TerminatedBuffer

section Conditions

variable {p : Char → Bool} {z : List Char} {i : Nat} {P Q : Prop} {x y : Except ScanFault Bool}

theorem reads_holdsAt (hp : p '\x00' = false) (hi : i ≤ z.length) :
    Reads False (fun b => b = true → i < z.length) (holdsAt p z i) := by
  refine (reads_peek hi).map ?_
  intro c hc hb
  apply hc
  rintro rfl
  rw [hp] at hb
  cases hb

theorem reads_andAlso (hx : Reads False (fun b => b = true → P) x)
    (hy : P → Reads False (fun b => b = true → Q) y) :
    Reads False (fun b => b = true → P ∧ Q) (andAlso x y) := by
  refine hx.bind_safe ?_
  intro b hb
  cases b with
  | false => exact .ok id nofun
  | true => exact (hy (hb rfl)).imp (fun _ h hq => ⟨hb rfl, h hq⟩)

theorem reads_orElse (hx : Reads False (fun b => b = true → P) x)
    (hy : Reads False (fun b => b = true → P) y) :
    Reads False (fun b => b = true → P) (orElse x y) := by
  refine hx.bind_safe ?_
  intro b hb
  cases b with
  | false => exact hy
  | true => exact .ok id (fun _ => hb rfl)

theorem reads_test {α : Type} {cut : Prop} {post : α → Prop} {yes no : Except ScanFault α}
    (hx : Reads False (fun b => b = true → P) x) (hyes : P → Reads cut post yes)
    (hno : Reads cut post no) :
    Reads cut post (x >>= fun b => if b = true then yes else no) := by
  refine hx.bind_safe ?_
  intro b hb
  cases b with
  | false => exact hno
  | true => exact hyes (hb rfl)

theorem reads_skip (hp : p '\x00' = false) (hi : i ≤ z.length) :
    Reads False (fun j => i ≤ j ∧ j ≤ z.length) (skip p z i) :=
  reads_scan hp hi

end Conditions

def Unterminated (z : List Char) : Prop :=
  ∃ delim body, (delim = '\'' ∨ delim = '"') ∧ QuotedBody delim body ∧ z = delim :: body

def TokenType.Plain (type : TokenType) : Prop :=
  GdaSqlParser.compositions type = [] ∧ type ≠ .space

instance : DecidablePred TokenType.Plain :=
  fun type => inferInstanceAs (Decidable (GdaSqlParser.compositions type = [] ∧ type ≠ .space))

/-- What the `switch` leaves, `s` being what it starts with. -/
structure Treated (z : List Char) (s s' : Scanned) : Prop where
  consumed : 0 < s'.consumedChars ∧ s'.consumedChars ≤ z.length ∨
    Unterminated z ∧ s'.tokenType = some .illegal ∧ s'.consumedChars = 0
  plain : ∀ t, s'.tokenType = some t → t.Plain
  untouched : s'.tokenType = none → s' = s

section Cases

variable {z : List Char} {s s' : Scanned} {type : TokenType} {p : Char → Bool}
  {mode : GdaSqlParserMode} {flavour : GdaSqlParserFlavour} {delimiter : Char}

theorem Treated.some (ht : s'.tokenType = some type) (hp : type.Plain)
    (h0 : 0 < s'.consumedChars) (hn : s'.consumedChars ≤ z.length) : Treated z s s' where
  consumed := Or.inl ⟨h0, hn⟩
  plain t h := by
    rw [ht] at h
    exact Option.some.inj h ▸ hp
  untouched h := by
    rw [ht] at h
    cases h

theorem Treated.none (hs : s.tokenType = none) (h1 : s.consumedChars = 1) (hz : 0 < z.length) :
    Treated z s s where
  consumed := Or.inl ⟨by omega, by omega⟩
  plain t h := by
    rw [hs] at h
    cases h
  untouched _ := rfl

theorem reads_token {n : Nat} (hp : type.Plain) (h0 : 0 < n) (hn : n ≤ z.length) :
    Reads False (Treated z s) (.ok (s.token type n)) :=
  .ok id (.some rfl hp h0 hn)

theorem reads_minusToken (hz : 0 < z.length) : Reads False (Treated z s) (minusToken z s) := by
  refine reads_test (reads_holdsAt (by decide) hz) ?_ (reads_token (by decide) Nat.one_pos hz)
  intro h1
  refine (reads_skip (by decide) h1).bind_safe ?_
  intro i hi
  exact reads_token (by decide) (by omega) hi.2

theorem reads_starToken (hz : 0 < z.length) : Reads False (Treated z s) (starToken z s) := by
  refine reads_test (reads_holdsAt (by decide) hz) ?_ (reads_token (by decide) Nat.one_pos hz)
  intro h1
  exact .ok id (.some rfl (by decide) Nat.two_pos h1)

theorem reads_slashToken (hs : s.tokenType = none) (h1 : s.consumedChars = 1) (hz : 0 < z.length) :
    Reads False (Treated z s) (slashToken mode z s) := by
  cases mode with
  | parse =>
    refine reads_test (reads_andAlso (reads_holdsAt (by decide) hz)
      (fun h => reads_holdsAt (by decide) h)) ?_ (reads_token (by decide) Nat.one_pos hz)
    intro _
    exact .ok id (.none hs h1 hz)
  | delimit =>
    refine reads_test (reads_holdsAt (by decide) hz) ?_ (.ok id (.none hs h1 hz))
    intro h1
    exact .ok id (.some rfl (by decide) Nat.two_pos h1)

theorem reads_eqToken (hz : 0 < z.length) : Reads False (Treated z s) (eqToken z s) := by
  refine reads_test (reads_holdsAt (by decide) hz) ?_ (reads_token (by decide) Nat.one_pos hz)
  exact reads_token (by decide) Nat.two_pos

theorem reads_second {f : Char → Except ScanFault Scanned} (hz : 0 < z.length)
    (hf : ∀ c, (c ≠ '\x00' → 1 < z.length) → Reads False (Treated z s) (f c)) :
    Reads False (Treated z s) (peek '\x00' z 1 >>= f) :=
  (reads_peek hz).bind_safe hf

theorem reads_ltToken (hz : 0 < z.length) : Reads False (Treated z s) (ltToken z s) := by
  refine reads_second hz ?_
  intro c hc
  split
  · exact reads_token (by decide) Nat.two_pos (hc (by decide))
  · exact reads_token (by decide) Nat.two_pos (hc (by decide))
  · exact reads_token (by decide) Nat.two_pos (hc (by decide))
  · exact reads_token (by decide) Nat.one_pos hz

theorem reads_gtToken (hz : 0 < z.length) : Reads False (Treated z s) (gtToken z s) := by
  refine reads_second hz ?_
  intro c hc
  split
  · exact reads_token (by decide) Nat.two_pos (hc (by decide))
  · exact reads_token (by decide) Nat.two_pos (hc (by decide))
  · exact reads_token (by decide) Nat.one_pos hz

theorem reads_bangToken (hs : s.tokenType = none) (h1 : s.consumedChars = 1) (hz : 0 < z.length) :
    Reads False (Treated z s) (bangToken z s) := by
  refine reads_second hz ?_
  intro c hc
  split
  · exact reads_token (by decide) Nat.two_pos (hc (by decide))
  · refine reads_test (reads_holdsAt (by decide) (hc (by decide))) ?_
      (reads_token (by decide) Nat.two_pos (hc (by decide)))
    exact reads_token (by decide) (by omega)
  · exact .ok id (.none hs h1 hz)

theorem reads_barToken (hz : 0 < z.length) : Reads False (Treated z s) (barToken mode z s) := by
  cases mode with
  | parse =>
    refine reads_test (reads_holdsAt (by decide) hz) ?_ (reads_token (by decide) Nat.one_pos hz)
    exact reads_token (by decide) Nat.two_pos
  | delimit => exact reads_token (by decide) Nat.one_pos hz

theorem reads_tildeToken (hz : 0 < z.length) :
    Reads False (Treated z s) (tildeToken flavour z s) := by
  refine reads_test (reads_holdsAt (by decide) hz) (reads_token (by decide) Nat.two_pos) ?_
  by_cases hf : flavour = .postgresql
  · simp only [if_pos hf]
    exact reads_token (by decide) Nat.one_pos hz
  · simp only [if_neg hf]
    exact reads_token (by decide) Nat.one_pos hz

theorem reads_exponentAt {i : Nat} (hi : i ≤ z.length) :
    Reads False (fun b => b = true → i + 2 ≤ z.length) (exponentAt z i) := by
  refine (reads_andAlso (P := i < z.length) (Q := i + 1 < z.length)
    (reads_holdsAt (by decide) hi) ?_).imp (fun _ h hb => (h hb).2)
  intro hlt
  refine reads_orElse (reads_holdsAt (by decide) hlt) ?_
  refine (reads_andAlso (P := i + 1 < z.length) (Q := i + 2 < z.length)
    (reads_holdsAt (by decide) hlt) ?_).imp (fun _ h hb => (h hb).1)
  exact reads_holdsAt (by decide)

def Number (z : List Char) (r : TokenType × Nat) : Prop :=
  r.1.Plain ∧ 0 < r.2 ∧ r.2 ≤ z.length

theorem reads_digits {q : Char → Bool} {i : Nat} (hq : q '\x00' = false) (ht : type.Plain)
    (h0 : 0 < i) (hi : i ≤ z.length) :
    Reads False (Number z) ((skip q z i).map (type, ·)) := by
  refine (reads_skip hq hi).map ?_
  intro j hj
  exact ⟨ht, by show 0 < j; omega, hj.2⟩

theorem reads_firstDigits {c : Char} {rest : List Char} (hc : c.isDigit ∨ c = '.') :
    Reads False (fun i => i ≤ (c :: rest).length ∧ (i = 0 → c = '.'))
      (skip Char.isDigit (c :: rest) 0) := by
  have hscan := scan_of_stops (z := c :: rest) (show Char.isDigit '\x00' = false by decide) (Nat.zero_le _)
  have hle := length_takeWhile_drop_le (p := Char.isDigit) (Nat.zero_le (c :: rest).length)
  rw [skip, hscan]
  refine .ok id ⟨hle, ?_⟩
  intro h0
  rcases hc with hc | hc
  · rw [List.drop_zero, List.takeWhile_cons_of_pos hc, List.length_cons] at h0
    omega
  · exact hc

theorem reads_decimalEnd {c : Char} {rest : List Char} (hc : c.isDigit ∨ c = '.') :
    Reads False (Number (c :: rest)) (decimalEnd (c :: rest)) := by
  have hexponent : ∀ r, Number (c :: rest) r → Reads False (Number (c :: rest))
      (exponentAt (c :: rest) r.2 >>= fun b =>
        if b = true then (skip Char.isDigit (c :: rest) (r.2 + 2)).map (TokenType.float, ·)
        else pure (r.1, r.2)) := by
    intro r hr
    refine reads_test (reads_exponentAt hr.2.2) ?_ (.ok id hr)
    intro h
    exact reads_digits (by decide) (by decide) (by omega) h
  have hfloat : ∀ i, i < (c :: rest).length → Reads False (Number (c :: rest))
      ((skip Char.isDigit (c :: rest) (i + 1)).map (TokenType.float, ·) >>= fun r =>
        exponentAt (c :: rest) r.2 >>= fun b =>
          if b = true then (skip Char.isDigit (c :: rest) (r.2 + 2)).map (TokenType.float, ·)
          else pure (r.1, r.2)) := by
    intro i h
    exact (reads_digits (by decide) (by decide) (by omega) h).bind_safe hexponent
  refine (reads_firstDigits hc).bind_safe ?_
  rintro i ⟨hi, hpoint⟩
  by_cases h0 : i = 0
  · obtain rfl := hpoint h0
    subst h0
    exact hfloat 0 (by simp)
  · refine reads_test (reads_holdsAt (by decide) hi) (hfloat i) ?_
    exact hexponent (.integer, i) ⟨show TokenType.integer.Plain by decide, Nat.pos_of_ne_zero h0, hi⟩

/-- `numberToken` behind the number. -/
def numberEnd (mode : GdaSqlParserMode) (z : List Char) (s : Scanned) (r : TokenType × Nat) :
    Except ScanFault Scanned :=
  skip idChar z r.2 >>= fun j =>
    if j = r.2 then pure (s.token r.1 r.2)
    else
      match mode with
      | .parse => pure (s.token .illegal j)
      | .delimit => pure (s.token .rawString j)

theorem reads_numberToken {c : Char} {rest : List Char} (hc : c.isDigit ∨ c = '.') :
    Reads False (Treated (c :: rest) s) (numberToken mode (c :: rest) s) := by
  have hend : ∀ r, Number (c :: rest) r → Reads False (Treated (c :: rest) s)
      (numberEnd mode (c :: rest) s r) := by
    intro r hr
    refine (reads_skip (by decide) hr.2.2).bind_safe ?_
    intro j hj
    have h0 : 0 < j := Nat.lt_of_lt_of_le hr.2.1 hj.1
    by_cases hje : j = r.2
    · rw [if_pos hje]
      exact reads_token hr.1 hr.2.1 hr.2.2
    · rw [if_neg hje]
      cases mode with
      | parse => exact reads_token (by decide) h0 hj.2
      | delimit => exact reads_token (by decide) h0 hj.2
  have hhex : Reads False (fun b => b = true → 2 ≤ (c :: rest).length) (hexadecimalAt (c :: rest)) := by
    refine (reads_andAlso (P := 0 < (c :: rest).length) (Q := 1 < (c :: rest).length ∧ 2 < (c :: rest).length)
      (reads_holdsAt (by decide) (Nat.zero_le _)) ?_).imp (fun _ h hb => (h hb).2.1)
    intro h
    exact reads_andAlso (reads_holdsAt (by decide) h) (reads_holdsAt (by decide))
  refine reads_test hhex ?_ ((reads_decimalEnd hc).bind_safe hend)
  intro h
  exact (reads_digits (by decide) (by decide) (by omega) h).bind_safe hend

theorem reads_dotToken {rest : List Char} :
    Reads False (Treated ('.' :: rest) s) (dotToken mode ('.' :: rest) s) := by
  have hnumber : ∀ mode, Reads False (Treated ('.' :: rest) s) (numberToken mode ('.' :: rest) s) :=
    fun mode => reads_numberToken (Or.inr rfl)
  cases mode with
  | parse =>
    refine reads_test (reads_holdsAt (by decide) (by simp)) (fun _ => hnumber _) ?_
    exact reads_token (by decide) Nat.one_pos (by simp)
  | delimit =>
    show Reads False _ (numberToken .delimit ('.' :: rest) s)
    exact hnumber _

theorem reads_simpleParamToken (hp : p '\x00' = false) (hz : 0 < z.length) :
    Reads False (Treated z s) (simpleParamToken p z s) := by
  refine (reads_skip hp hz).bind_safe ?_
  intro i hi
  exact .ok id (.some rfl (by decide) hi.1 hi.2)

theorem reads_questionToken (hs : s.tokenType = none) (h1 : s.consumedChars = 1) (hz : 0 < z.length) :
    Reads False (Treated z s) (questionToken flavour z s) := by
  rw [questionToken]
  by_cases hf : flavour = .sqlite
  · rw [if_pos hf]
    exact reads_simpleParamToken (by decide) hz
  · rw [if_neg hf]
    exact .ok id (.none hs h1 hz)

theorem reads_sharpToken (h1 : s.consumedChars = 1) (hz : 0 < z.length) :
    Reads False (Treated z s) (sharpToken flavour delimiter z s) := by
  refine reads_test (reads_holdsAt (by decide) hz) ?_ ?_
  · intro h
    refine (reads_skip (by simp [paramChar]) h).bind_safe ?_
    intro i hi
    have h0 : 0 < i := by omega
    by_cases hi2 : 2 < i
    · simp only [if_pos hi2]
      exact .ok id (.some rfl (by decide) h0 hi.2)
    · simp only [if_neg hi2]
      exact .ok id (.some rfl (by decide) h0 hi.2)
  · by_cases hf : flavour = .mysql
    · rw [if_pos hf]
      refine (reads_skip (by decide) hz).bind_safe ?_
      intro i hi
      exact reads_token (by decide) hi.1 hi.2
    · rw [if_neg hf]
      refine .ok id (.some rfl (by decide) ?_ ?_)
      · show 0 < s.consumedChars
        omega
      · show s.consumedChars ≤ z.length
        omega

theorem reads_colonToken (hs : s.tokenType = none) (h1 : s.consumedChars = 1) (hz : 0 < z.length) :
    Reads False (Treated z s) (colonToken flavour z s) := by
  refine reads_test (reads_holdsAt (by decide) hz) (reads_token (by decide) Nat.two_pos) ?_
  by_cases hf : flavour = .sqlite
  · rw [if_pos hf]
    exact reads_simpleParamToken (by decide) hz
  · rw [if_neg hf]
    exact .ok id (.none hs h1 hz)

theorem reads_blobToken (hs : s.tokenType = none) (h1 : s.consumedChars = 1) (hz : 0 < z.length) :
    Reads False (Treated z s) (blobToken z s) := by
  refine reads_second hz ?_
  intro delim hdelim
  by_cases hd : delim = '\'' ∨ delim = '"'
  · have h2 : 1 < z.length := by
      apply hdelim
      rcases hd with rfl | rfl <;> decide
    rw [if_pos hd]
    refine (reads_skip (by simp) h2).bind_safe ?_
    intro i hi
    refine (reads_peek hi.2).bind_safe ?_
    intro c hc
    by_cases h0 : c = '\x00'
    · rw [if_pos h0]
      exact reads_token (by decide) (by omega) hi.2
    · rw [if_neg h0]
      by_cases heven : c = delim ∧ i % 2 = 0
      · rw [if_pos heven]
        exact reads_token (by decide) (by omega) (hc h0)
      · rw [if_neg heven]
        exact reads_token (by decide) (by omega) (hc h0)
  · rw [if_neg hd]
    exact .ok id (.none hs h1 hz)

def QuotedCut (z : List Char) : Prop :=
  ∃ delim body, (delim = '\'' ∨ delim = '"') ∧ QuotedBody delim body ∧ z = delim :: (body ++ ['\\'])

/-- `quotedToken` behind the search for the closing character. -/
def quotedEnd (delim : Char) (s : Scanned) : Option Nat → Except ScanFault Scanned
  | some i => pure (s.token (if delim = '"' then .textual else .string) (i + 1))
  | none => pure (s.token .illegal 0)

theorem reads_quotedToken {delim : Char} {text : List Char} (hd : delim = '\'' ∨ delim = '"') :
    Reads (QuotedCut (delim :: text)) (Treated (delim :: text) s)
      (quotedToken delim (delim :: text) s) := by
  have hne : delim ≠ '\\' := by rcases hd with rfl | rfl <;> decide
  have hread : quotedToken delim (delim :: text) s = closingQuote delim text 1 >>=
      quotedEnd delim s := rfl
  have hcut : QuotedCut (delim :: text) ↔ ∃ body, QuotedBody delim body ∧ text = body ++ ['\\'] := by
    constructor
    · rintro ⟨d, body, -, hb, heq⟩
      cases heq
      exact ⟨body, hb, rfl⟩
    · rintro ⟨body, hb, rfl⟩
      exact ⟨delim, body, hd, hb, rfl⟩
  have hnoCut : ∀ r, closingQuote delim text 1 = .ok r → ¬ QuotedCut (delim :: text) := by
    intro r hr h
    obtain ⟨body, hb, rfl⟩ := hcut.1 h
    rw [closingQuote_cut hne hb] at hr
    cases hr
  rw [hread]
  rcases quoted_cases delim text with ⟨body, rest, hb, hr, rfl⟩ | hb | ⟨body, hb, rfl⟩
  · have hclosed := closingQuote_closed hne hb hr 1
    have hlen : 1 + body.length + 1 ≤ (delim :: (body ++ delim :: rest)).length := by
      simp only [List.length_cons, List.length_append]
      omega
    have hno := hnoCut _ hclosed
    rw [hclosed]
    rcases hd with rfl | rfl
    · exact .ok hno (.some rfl (by decide) (by simp [Scanned.token]) hlen)
    · exact .ok hno (.some rfl (by decide) (by simp [Scanned.token]) hlen)
  · have hunterminated := closingQuote_unterminated hne hb 1
    have hno := hnoCut _ hunterminated
    rw [hunterminated]
    refine .ok hno ⟨Or.inr ⟨⟨delim, text, hd, hb, rfl⟩, rfl, rfl⟩, ?_, (fun hno => by cases hno)⟩
    intro t ht
    cases ht
    decide
  · rw [closingQuote_cut hne hb]
    exact .error (hcut.2 ⟨body, hb, rfl⟩)

def DollarCut (z : List Char) : Prop :=
  ∃ tag text, DollarTag tag ∧ z = tag ++ text ∧
    (DollarUnclosed tag text ∨
      ∃ closed rest, DollarCloses tag closed ∧ text = closed ++ rest ∧ CommentCut (tag ++ closed))

theorem takeWhile_tag (rest : List Char) {name : List Char} (hn : ∀ c ∈ name, tagChar c) :
    (name ++ '$' :: rest).takeWhile tagChar = name := by
  refine takeWhile_boundary hn ?_
  intro c hc
  cases hc
  decide

theorem dollarTag_unique {tag tag' text text' : List Char} (ht : DollarTag tag) (ht' : DollarTag tag')
    (h : tag ++ text = tag' ++ text') : tag = tag' ∧ text = text' := by
  obtain ⟨name, hn, rfl⟩ := ht
  obtain ⟨name', hn', rfl⟩ := ht'
  have htail : name ++ '$' :: text = name' ++ '$' :: text' := by
    simpa using h
  have hname : name = name' := by
    rw [← takeWhile_tag text hn, htail, takeWhile_tag text' hn']
  subst hname
  exact ⟨rfl, (List.cons.inj (List.append_cancel_left htail)).2⟩

theorem dollarTag_read (text : List Char) {tag : List Char} (ht : DollarTag tag) :
    ∃ i, skip tagChar (tag ++ text) 1 = .ok i ∧ i + 1 = tag.length ∧
      holdsAt (· == '$') (tag ++ text) i = .ok true := by
  obtain ⟨name, hn, rfl⟩ := ht
  have hlen : 1 ≤ ('$' :: (name ++ ['$']) ++ text).length := by simp
  have hi : 1 + name.length ≤ ('$' :: (name ++ ['$']) ++ text).length := by
    simp only [List.length_append, List.length_cons]
    omega
  refine ⟨1 + name.length, ?_, ?_, ?_⟩
  · rw [skip, scan_of_stops (by decide) hlen]
    have htake := takeWhile_tag text hn
    simp only [List.cons_append, List.drop_succ_cons, List.drop_zero, List.append_assoc,
      List.nil_append, htake]
  · simp only [List.length_append, List.length_cons, List.length_nil]
    omega
  · rw [holdsAt, peek_of_le hi]
    simp [Except.map, Nat.add_comm 1]

theorem dollarTag_of_read {text : List Char} {i : Nat} (hi : skip tagChar ('$' :: text) 1 = .ok i)
    (h : holdsAt (· == '$') ('$' :: text) i = .ok true) :
    ∃ tag t, DollarTag tag ∧ '$' :: text = tag ++ t := by
  have hsplit := List.takeWhile_append_dropWhile (p := tagChar) (l := text)
  have hname : ∀ c ∈ text.takeWhile tagChar, tagChar c := fun c hc => List.mem_takeWhile_imp hc
  rw [skip, scan_of_stops (by decide) (by simp)] at hi
  replace hi := Except.ok.inj hi
  rw [List.drop_succ_cons, List.drop_zero] at hi
  generalize text.takeWhile tagChar = name at hsplit hname hi
  generalize text.dropWhile tagChar = after at hsplit
  subst hsplit hi
  have hle : 1 + name.length ≤ ('$' :: (name ++ after)).length := by
    simp only [List.length_cons, List.length_append]
    omega
  have hget : ('$' :: (name ++ after)).getD (1 + name.length) '\x00' = after.getD 0 '\x00' := by
    rw [Nat.add_comm, List.getD_cons_succ, List.getD_append_right _ _ _ _ (Nat.le_refl _),
      Nat.sub_self]
  rw [holdsAt, peek_of_le hle, hget] at h
  cases after with
  | nil => exact absurd h (by decide)
  | cons c t =>
    have hc : c = '$' := by simpa [Except.map] using h
    subst hc
    refine ⟨'$' :: (name ++ ['$']), t, ⟨name, hname, rfl⟩, ?_⟩
    simp

theorem dollarQuotedToken_tag {tag : List Char} (ht : DollarTag tag) (t : List Char) :
    dollarQuotedToken (tag ++ t) s = closingTag tag .head t tag.length >>= fun r =>
      match r with
      | none => pure { s with tokenType := some .illegal }
      | some j => stripComments .lineStart ((tag ++ t).take j) >>= fun retval =>
        pure { s.token .string j with retval := some retval } := by
  obtain ⟨i, hi, hlen, hat⟩ := dollarTag_read t ht
  rw [dollarQuotedToken, hi]
  show (holdsAt _ _ i >>= _) = _
  rw [hat]
  show (closingTag ((tag ++ t).take (i + 1)) .head ((tag ++ t).drop (i + 1)) (i + 1) >>= _) = _
  rw [hlen, List.take_left, List.drop_left]
  all_goals rfl

theorem reads_dollarQuotedToken {text : List Char} (hs : s.tokenType = none)
    (h1 : s.consumedChars = 1) :
    Reads (DollarCut ('$' :: text)) (Treated ('$' :: text) s)
      (dollarQuotedToken ('$' :: text) s) := by
  have hz : 0 < ('$' :: text).length := by simp
  by_cases htag : ∃ tag t, DollarTag tag ∧ '$' :: text = tag ++ t
  · obtain ⟨tag, t, ht, hsplit⟩ := htag
    have hcut : DollarCut ('$' :: text) ↔ DollarUnclosed tag t ∨
        ∃ closed rest, DollarCloses tag closed ∧ t = closed ++ rest ∧ CommentCut (tag ++ closed) := by
      constructor
      · rintro ⟨tag', t', ht', hsplit', h⟩
        obtain ⟨rfl, rfl⟩ := dollarTag_unique ht ht' (hsplit.symm.trans hsplit')
        exact h
      · intro h
        exact ⟨tag, t, ht, hsplit, h⟩
    refine Reads.congr ?_ hcut.symm
    obtain ⟨i, -, hlen, -⟩ := dollarTag_read t ht
    rw [hsplit] at hz ⊢
    rw [dollarQuotedToken_tag ht, ← hlen]
    rcases dollar_cases ht t with ⟨closed, rest, hclosed, rfl⟩ | hm | hu
    · have hok := closingTag_closed rest ht hclosed (i + 1)
      have hcomment : CommentCut (tag ++ closed) ↔ DollarUnclosed tag (closed ++ rest) ∨
          ∃ closed' rest', DollarCloses tag closed' ∧ closed ++ rest = closed' ++ rest' ∧
            CommentCut (tag ++ closed') := by
        constructor
        · intro h
          exact Or.inr ⟨closed, rest, hclosed, rfl, h⟩
        · rintro (hu | ⟨closed', rest', hclosed', heq, h⟩)
          · rw [closingTag_unclosed ht hu] at hok
            cases hok
          · rw [heq, closingTag_closed _ ht hclosed'] at hok
            have hlen' : closed'.length = closed.length := by
              have := Option.some.inj (Except.ok.inj hok)
              omega
            rwa [(List.append_inj heq hlen'.symm).1]
      have hcopy : (tag ++ (closed ++ rest)).take (i + 1 + closed.length) = tag ++ closed := by
        rw [hlen, ← List.length_append, ← List.append_assoc, List.take_left]
      have hstate : stateCut .lineStart (tag ++ closed) ↔ CommentCut (tag ++ closed) := by
        obtain ⟨name, -, rfl⟩ := ht
        simp only [stateCut, commentCut_line, List.cons_append, List.cons.injEq]
        constructor
        · rintro (⟨comment, ⟨h, -⟩, -⟩ | h)
          · exact absurd h (by decide)
          · exact h
        · exact Or.inr
      rw [hok]
      show Reads _ _ (stripComments .lineStart ((tag ++ (closed ++ rest)).take (i + 1 + closed.length)) >>= _)
      rw [hcopy]
      refine ((reads_stripComments .lineStart (tag ++ closed)).map ?_).congr
        (hstate.trans hcomment)
      intro copy _
      refine .some rfl (by decide) ?_ ?_
      · show 0 < i + 1 + closed.length
        omega
      · show i + 1 + closed.length ≤ (tag ++ (closed ++ rest)).length
        rw [List.length_append, List.length_append]
        omega
    · have hok := closingTag_missed ht hm (i + 1)
      have hno : ¬ (DollarUnclosed tag t ∨ ∃ closed rest, DollarCloses tag closed ∧
          t = closed ++ rest ∧ CommentCut (tag ++ closed)) := by
        rintro (hu | ⟨closed, rest, hclosed, rfl, -⟩)
        · rw [closingTag_unclosed ht hu] at hok
          cases hok
        · rw [closingTag_closed _ ht hclosed] at hok
          cases hok
      rw [hok]
      refine .ok hno (.some rfl (by decide) ?_ ?_)
      · show 0 < s.consumedChars
        omega
      · show s.consumedChars ≤ _
        omega
    · rw [closingTag_unclosed ht hu]
      exact .error (Or.inl hu)
  · have hno : ¬ DollarCut ('$' :: text) := by
      rintro ⟨tag, t, ht, hsplit, -⟩
      exact htag ⟨tag, t, ht, hsplit⟩
    refine Reads.of_within ?_ hno
    have hskip : Reads False _ (skip tagChar ('$' :: text) 1) := reads_skip (by decide) hz
    obtain ⟨i, hi, -, hile⟩ := hskip.exists_ok id
    have hholds : Reads False _ (holdsAt (· == '$') ('$' :: text) i) := reads_holdsAt (by decide) hile
    obtain ⟨b, hb, -⟩ := hholds.exists_ok id
    rw [dollarQuotedToken, hi]
    show Reads False _ (holdsAt (· == '$') ('$' :: text) i >>= _)
    rw [hb]
    cases b with
    | true => exact absurd (dollarTag_of_read hi hb) htag
    | false => exact .ok id (.none hs h1 hz)

def StartCut (flavour : GdaSqlParserFlavour) (z : List Char) : Prop :=
  QuotedCut z ∨ flavour = .postgresql ∧ DollarCut z

theorem startCut_quote {delim : Char} {text : List Char} (hd : delim = '\'' ∨ delim = '"') :
    StartCut flavour (delim :: text) ↔ QuotedCut (delim :: text) := by
  constructor
  · rintro (h | ⟨-, tag, t, ⟨name, -, rfl⟩, heq, -⟩)
    · exact h
    · cases heq
      rcases hd with h | h <;> exact absurd h (by decide)
  · exact Or.inl

theorem startCut_dollar {text : List Char} :
    StartCut flavour ('$' :: text) ↔ flavour = .postgresql ∧ DollarCut ('$' :: text) := by
  constructor
  · rintro (⟨delim, body, hd, -, heq⟩ | h)
    · cases heq
      rcases hd with h | h <;> exact absurd h (by decide)
    · exact h
  · exact Or.inr

theorem not_startCut {c : Char} {text : List Char} (h1 : c ≠ '\'') (h2 : c ≠ '"') (h3 : c ≠ '$') :
    ¬ StartCut flavour (c :: text) := by
  rintro (⟨delim, body, hd, -, heq⟩ | ⟨-, tag, t, ⟨name, -, rfl⟩, heq, -⟩)
  · cases heq
    rcases hd with rfl | rfl
    · exact h1 rfl
    · exact h2 rfl
  · cases heq
    exact h3 rfl

theorem reads_dollarToken {text : List Char} (hs : s.tokenType = none) (h1 : s.consumedChars = 1) :
    Reads (StartCut flavour ('$' :: text)) (Treated ('$' :: text) s)
      (dollarToken flavour ('$' :: text) s) := by
  have hz : 0 < ('$' :: text).length := by simp
  cases flavour with
  | postgresql =>
    refine (reads_dollarQuotedToken hs h1).congr ?_
    rw [startCut_dollar]
    simp
  | sqlite =>
    refine (reads_simpleParamToken (by decide) hz).congr ?_
    rw [startCut_dollar]
    simp
  | standard => exact .ok (by rw [startCut_dollar]; simp) (.none hs h1 hz)
  | mysql => exact .ok (by rw [startCut_dollar]; simp) (.none hs h1 hz)
  | oracle => exact .ok (by rw [startCut_dollar]; simp) (.none hs h1 hz)

/-- The first characters of a token of type `L_SPACE`. -/
def blank (c : Char) : Bool := c ∈ [' ', '\t', '\n', '\x0c', '\r']

theorem reads_switchToken {c : Char} {text : List Char} (hs : s.tokenType = none)
    (h1 : s.consumedChars = 1) (hc : blank c = false) :
    Reads (StartCut flavour (c :: text)) (Treated (c :: text) s)
      (switchToken mode flavour delimiter c (c :: text) s) := by
  have hz : 0 < (c :: text).length := by simp
  by_cases hq : c = '\'' ∨ c = '"'
  · have hquoted : Reads (StartCut flavour (c :: text)) (Treated (c :: text) s)
        (quotedToken c (c :: text) s) := (reads_quotedToken hq).congr (startCut_quote hq).symm
    rcases hq with rfl | rfl
    · exact hquoted
    · exact hquoted
  · obtain ⟨hq1, hq2⟩ := not_or.1 hq
    by_cases hd : c = '$'
    · subst hd
      exact reads_dollarToken hs h1
    · refine Reads.of_within ?_ (not_startCut hq1 hq2 hd)
      unfold switchToken
      split
      · exact absurd hc (by decide)
      · exact absurd hc (by decide)
      · exact absurd hc (by decide)
      · exact absurd hc (by decide)
      · exact absurd hc (by decide)
      · exact reads_minusToken hz
      · exact reads_token (by decide) Nat.one_pos hz
      · exact reads_token (by decide) Nat.one_pos hz
      · exact reads_token (by decide) Nat.one_pos hz
      · exact reads_starToken hz
      · exact reads_token (by decide) Nat.one_pos hz
      · exact reads_slashToken hs h1 hz
      · exact reads_eqToken hz
      · exact reads_ltToken hz
      · exact reads_gtToken hz
      · exact reads_bangToken hs h1 hz
      · exact reads_barToken hz
      · exact reads_token (by decide) Nat.one_pos hz
      · exact reads_token (by decide) Nat.one_pos hz
      · exact reads_tildeToken hz
      · exact absurd rfl hq1
      · exact absurd rfl hq2
      · exact reads_dotToken
      · exact reads_questionToken hs h1 hz
      · exact reads_sharpToken h1 hz
      · exact absurd rfl hd
      · exact reads_colonToken hs h1 hz
      · exact reads_colonToken hs h1 hz
      · exact reads_blobToken hs h1 hz
      · exact reads_blobToken hs h1 hz
      · by_cases hdigit : c.isDigit
        · rw [if_pos hdigit]
          exact reads_numberToken (Or.inl hdigit)
        · rw [if_neg hdigit]
          exact .ok id (.none hs h1 hz)

end Cases

end LibGda
