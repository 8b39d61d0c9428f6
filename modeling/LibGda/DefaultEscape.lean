import LibGda.BinaryText
import LibGda.RepeatedElements
import Mathlib.Algebra.BigOperators.Group.List.Basic

/-! `gda_default_escape_string`, and the loop by which `gda_default_unescape_string` reads
what it has written. -/

namespace LibGda

open RepeatedElements

def quote : UInt8 := byte '\''

def isDoubled (c : UInt8) : Bool := c == quote || c == backslash

def escapedChar (c : UInt8) : Bytes := if isDoubled c then [c, c] else [c]

def escaped (string : Bytes) : Bytes := string.flatMap escapedChar

def defaultEscapeString (string : Bytes) : Except BlockFault Bytes := do
  let size ← checkedGint ((string.map fun c => if isDoubled c then 2 else 1).sum + 1)
  writeBlock size (escaped string)

/-- `memmove`, in a block behind which is the byte `behind`. -/
def memmove (behind : UInt8) (z : Bytes) (dest src n : Nat) : Bytes :=
  z.take dest ++ ((List.range n).map fun k => z.getD (src + k) behind) ++ z.drop (dest + n)

def unescapeQuote (behind : UInt8) (total ptr : Nat) (s : Bytes × Nat) : Option (Bytes × Nat) :=
  if s.1.getD ptr behind = quote then
    if s.1.getD (ptr + 1) behind = quote then
      some (memmove behind s.1 (ptr + 1) (ptr + 2) (total - s.2), s.2 + 2)
    else none
  else some s

def unescapeBackslash (behind : UInt8) (total ptr : Nat) (s : Bytes × Nat) :
    Option (Bytes × Nat) :=
  if s.1.getD ptr behind = backslash then
    if s.1.getD (ptr + 1) behind = backslash then
      some (memmove behind s.1 (ptr + 1) (ptr + 2) (total - s.2), s.2 + 2)
    else if s.1.getD (ptr + 1) behind = quote then
      some (memmove behind (s.1.set ptr quote) (ptr + 1) (ptr + 2) (total - s.2), s.2 + 2)
    else none
  else some (s.1, s.2 + 1)

/-- `while (offset < total)`; each turn adds to `offset`. -/
def unescapeLoop (behind : UInt8) (total : Nat) : Nat → Bytes → Nat → Nat → Option Bytes
  | 0, z, _, _ => some z
  | turns + 1, z, ptr, offset =>
    if offset < total then do
      let s ← unescapeQuote behind total ptr (z, offset)
      let s ← unescapeBackslash behind total ptr s
      unescapeLoop behind total turns s.1 (ptr + 1) s.2
    else some z

def cString (z : Bytes) : CBytes :=
  ⟨z.takeWhile (· != 0), fun h => absurd (List.mem_takeWhile_imp h) (by decide)⟩

/-- `gda_default_unescape_string`, on a copy of the string and its terminator. -/
def defaultUnescapeString (behind : UInt8) (string : Bytes) : Option CBytes :=
  (unescapeLoop behind string.length string.length (string ++ [0]) 0 0).map cString

/-- The doubled characters behind the second quote, when there were `quotes` before. -/
def lateDoubled : Nat → Bytes → Nat
  | _, [] => 0
  | quotes, c :: s =>
    (if isDoubled c = true ∧ 2 ≤ quotes then 1 else 0) +
      lateDoubled (if c = quote then quotes + 1 else quotes) s

section Memmove

variable {behind : UInt8} {done rest tail : Bytes} {c : UInt8} {n : Nat}

theorem memmove_behind (behind : UInt8) (done z : Bytes) (dest src n : Nat) :
    memmove behind (done ++ z) (done.length + dest) (done.length + src) n =
      done ++ memmove behind z dest src n := by
  have hmoved : ((List.range n).map fun k => (done ++ z).getD (done.length + src + k) behind) =
      (List.range n).map fun k => z.getD (src + k) behind := by
    apply List.map_congr_left
    intro k _
    rw [Nat.add_assoc, List.getD_append_right _ _ _ _ (Nat.le_add_right _ _),
      Nat.add_sub_cancel_left]
  rw [memmove, memmove, hmoved, List.take_length_add_append, Nat.add_assoc,
    List.drop_length_add_append, List.append_assoc, List.append_assoc, List.append_assoc]

theorem map_range_getD (z : Bytes) (hn : n ≤ z.length) :
    ((List.range n).map fun k => z.getD k behind) = z.take n := by
  apply List.ext_getElem
  · simp [hn]
  · intro i h h'
    have hi : i < n := by simpa using h
    simp [List.getElem?_eq_getElem (hi.trans_le hn)]

theorem memmove_gap (behind : UInt8) (done gap rest tail : Bytes) (hn : rest.length < n) :
    ∃ junk, memmove behind (done ++ (gap ++ (rest ++ 0 :: tail))) done.length
      (done.length + gap.length) n = done ++ (rest ++ 0 :: junk) := by
  have hmoved : ((List.range n).map fun k =>
      (gap ++ (rest ++ 0 :: tail)).getD (gap.length + k) behind) =
      rest ++ 0 :: (List.range (n - (rest.length + 1))).map
        (fun k => tail.getD k behind) := by
    have hsplit : n = rest.length + 1 + (n - (rest.length + 1)) := by omega
    have hfirst : ((List.range (rest.length + 1)).map
        fun k => (rest ++ 0 :: tail).getD k behind) = rest ++ [0] := by
      rw [map_range_getD _ (by simp), List.take_length_add_append]
      rfl
    have hshift : ∀ k, (gap ++ (rest ++ 0 :: tail)).getD (gap.length + k) behind =
        (rest ++ 0 :: tail).getD k behind := by
      intro k
      rw [List.getD_append_right _ _ _ _ (Nat.le_add_right _ _), Nat.add_sub_cancel_left]
    have hlast : ∀ k, (rest ++ 0 :: tail).getD (rest.length + 1 + k) behind =
      tail.getD k behind := by
      intro k
      rw [List.getD_append_right _ _ _ _ (by omega),
        show rest.length + 1 + k - rest.length = k + 1 by omega, List.getD_cons_succ]
    simp only [hshift]
    rw [hsplit, List.range_add, List.map_append, hfirst, List.map_map, ← hsplit,
      List.append_assoc]
    exact congrArg (rest ++ 0 :: ·) (List.map_congr_left fun k _ => hlast k)
  refine ⟨(List.range (n - (rest.length + 1))).map (fun k => tail.getD k behind) ++
    (gap ++ (rest ++ 0 :: tail)).drop n, ?_⟩
  have hbehind := memmove_behind behind done (gap ++ (rest ++ 0 :: tail)) 0 gap.length n
  rw [Nat.add_zero] at hbehind
  rw [hbehind, memmove, hmoved]
  simp

theorem memmove_all (behind c : UInt8) (tail : Bytes) (hn : rest.length < n) :
    ∃ junk, memmove behind (c :: c :: (rest ++ 0 :: tail)) 1 2 n = c :: (rest ++ 0 :: junk) :=
  memmove_gap behind [c] [c] rest tail hn

theorem memmove_part (hpos : 0 < n) (hn : n ≤ rest.length) :
    memmove behind (c :: c :: (rest ++ 0 :: tail)) 1 2 n =
      c :: (rest.take n ++ rest.drop (n - 1) ++ 0 :: tail) := by
  have hshift : ∀ k, (c :: c :: (rest ++ 0 :: tail)).getD (2 + k) behind =
      (rest ++ 0 :: tail).getD k behind := by
    intro k
    rw [Nat.add_comm, List.getD_cons_succ, List.getD_cons_succ]
  have hlen : n ≤ (rest ++ 0 :: tail).length := by
    rw [List.length_append]
    omega
  obtain ⟨m, rfl⟩ := Nat.exists_eq_add_of_lt hpos
  simp only [memmove, hshift]
  rw [map_range_getD _ hlen, List.take_append_of_le_length hn]
  have hdrop : (c :: c :: (rest ++ 0 :: tail)).drop (1 + (0 + m + 1)) =
      rest.drop m ++ 0 :: tail := by
    rw [show 1 + (0 + m + 1) = m + 2 by omega, List.drop_succ_cons, List.drop_succ_cons,
      List.drop_append_of_le_length (by omega)]
  rw [hdrop, show 0 + m + 1 - 1 = m by omega]
  simp

theorem memmove_doubled (behind c : UInt8) (done rest tail : Bytes) (hpos : 0 < n) : ∃ rest' tail',
    memmove behind (done ++ c :: c :: (rest ++ 0 :: tail)) (done.length + 1) (done.length + 2) n =
      done ++ c :: (rest' ++ 0 :: tail') ∧
    (rest.length < n → rest' = rest) ∧
    (n ≤ rest.length → rest' = rest.take n ++ rest.drop (n - 1)) := by
  rw [memmove_behind]
  by_cases hn : rest.length < n
  · obtain ⟨junk, hall⟩ := memmove_all behind c tail hn
    refine ⟨rest, junk, congrArg (done ++ ·) hall, fun _ => rfl, ?_⟩
    intro hle
    omega
  · have hle := Nat.not_lt.1 hn
    refine ⟨_, tail, congrArg (done ++ ·) (memmove_part hpos hle), fun h => absurd h hn, ?_⟩
    exact fun _ => rfl

end Memmove

section Loop

variable {behind : UInt8} {done rest tail string : Bytes} {c : UInt8}
  {total turns offset quotes more : Nat}

theorem getD_behind (done z : Bytes) (k : Nat) :
    (done ++ z).getD (done.length + k) behind = z.getD k behind := by
  rw [List.getD_append_right _ _ _ _ (Nat.le_add_right _ _), Nat.add_sub_cancel_left]

theorem unescapeLoop_stop (h : total ≤ offset) (z : Bytes) (ptr : Nat) :
    unescapeLoop behind total turns z ptr offset = some z := by
  cases turns with
  | zero => rfl
  | succ turns => rw [unescapeLoop, if_neg (Nat.not_lt.2 h)]

theorem unescapeLoop_plain (h : offset < total) (hc : isDoubled c = false) (z : Bytes) :
    unescapeLoop behind total (turns + 1) (done ++ c :: z) done.length offset =
      unescapeLoop behind total turns (done ++ c :: z) (done.length + 1) (offset + 1) := by
  rw [isDoubled, Bool.or_eq_false_iff, beq_eq_false_iff_ne, beq_eq_false_iff_ne] at hc
  have hread : (done ++ c :: z).getD done.length behind = c := getD_behind done (c :: z) 0
  have hquote : unescapeQuote behind total done.length (done ++ c :: z, offset) =
      some (done ++ c :: z, offset) := by
    rw [unescapeQuote, hread, if_neg hc.1]
  have hback : unescapeBackslash behind total done.length (done ++ c :: z, offset) =
      some (done ++ c :: z, offset + 1) := by
    rw [unescapeBackslash, hread, if_neg hc.2]
  rw [unescapeLoop, if_pos h, hquote]
  show (unescapeBackslash behind total done.length (done ++ c :: z, offset)).bind _ = _
  rw [hback]
  rfl

theorem unescapeLoop_backslash (behind : UInt8) {d e : UInt8} {done text text' : Bytes}
    (turns : Nat) (h : offset < total)
    (hback : unescapeBackslash behind total done.length (done ++ backslash :: d :: text, offset) =
      some (done ++ e :: text', offset + 2)) :
    unescapeLoop behind total (turns + 1) (done ++ backslash :: d :: text) done.length offset =
      unescapeLoop behind total turns (done ++ e :: text') (done.length + 1) (offset + 2) := by
  have hread : (done ++ backslash :: d :: text).getD done.length behind = backslash :=
    getD_behind done _ 0
  have hquote : unescapeQuote behind total done.length (done ++ backslash :: d :: text, offset) =
      some (done ++ backslash :: d :: text, offset) := by
    rw [unescapeQuote, hread, if_neg (by decide)]
  rw [unescapeLoop, if_pos h, hquote]
  show (unescapeBackslash behind total done.length (done ++ backslash :: d :: text, offset)).bind
    _ = _
  rw [hback]
  rfl

theorem unescapeLoop_doubled (behind : UInt8) (done rest tail : Bytes) (turns : Nat)
    (h : offset < total) (hc : isDoubled c = true) : ∃ rest' tail',
    unescapeLoop behind total (turns + 1) (done ++ c :: c :: (rest ++ 0 :: tail)) done.length
      offset =
      unescapeLoop behind total turns (done ++ c :: (rest' ++ 0 :: tail')) (done.length + 1)
        (offset + 2 + if c = quote then 1 else 0) ∧
    (rest.length < total - offset → rest' = rest) ∧
    (total - offset ≤ rest.length →
      rest' = rest.take (total - offset) ++ rest.drop (total - offset - 1)) := by
  obtain ⟨rest', tail', hmove, hall, hpart⟩ := memmove_doubled behind c done rest tail
    (Nat.sub_pos_of_lt h)
  refine ⟨rest', tail', ?_, hall, hpart⟩
  have hread : (done ++ c :: c :: (rest ++ 0 :: tail)).getD done.length behind = c :=
    getD_behind done _ 0
  have hnext : (done ++ c :: c :: (rest ++ 0 :: tail)).getD (done.length + 1) behind = c :=
    getD_behind done _ 1
  rw [isDoubled, Bool.or_eq_true, beq_iff_eq, beq_iff_eq] at hc
  rcases hc with rfl | rfl
  · have hquote : unescapeQuote behind total done.length
        (done ++ quote :: quote :: (rest ++ 0 :: tail), offset) =
        some (done ++ quote :: (rest' ++ 0 :: tail'), offset + 2) := by
      rw [unescapeQuote, hread, if_pos rfl, hnext, if_pos rfl, hmove]
    have hread' : (done ++ quote :: (rest' ++ 0 :: tail')).getD done.length behind = quote :=
      getD_behind done _ 0
    have hback : unescapeBackslash behind total done.length
        (done ++ quote :: (rest' ++ 0 :: tail'), offset + 2) =
        some (done ++ quote :: (rest' ++ 0 :: tail'), offset + 2 + 1) := by
      rw [unescapeBackslash, hread', if_neg (by decide)]
    rw [unescapeLoop, if_pos h, hquote]
    show (unescapeBackslash behind total done.length
      (done ++ quote :: (rest' ++ 0 :: tail'), offset + 2)).bind _ = _
    rw [hback, if_pos rfl]
    rfl
  · rw [if_neg (by decide)]
    apply unescapeLoop_backslash behind turns h
    rw [unescapeBackslash, hread, if_pos rfl, hnext, if_pos rfl, hmove]

/-- What is in the block where `left` should be: behind its first characters some are repeated. -/
structure Unescaping (left rest : Bytes) (quotes more : Nat) : Prop where
  shape : ∃ z, rest = left.take (left.length + 1 - quotes) ++ z ∧
    Repeats (left.drop (left.length + 1 - quotes)) z
  length : rest.length = left.length + more

theorem Unescaping.self (left : Bytes) (quotes : Nat) : Unescaping left left quotes 0 :=
  ⟨⟨_, (List.take_append_drop _ left).symm, .refl _⟩, rfl⟩

theorem Unescaping.repeats {left : Bytes} (h : Unescaping left rest quotes more) :
    Repeats left rest := by
  obtain ⟨z, rfl, hz⟩ := h.shape
  have := hz.append_left (left.take (left.length + 1 - quotes))
  rwa [List.take_append_drop] at this

theorem Unescaping.of_le {left : Bytes} {k k' : Nat} (hk : k' ≤ k) {z : Bytes}
    (hz : Repeats (left.drop k) z) : ∃ z', left.take k ++ z = left.take k' ++ z' ∧
      Repeats (left.drop k') z' := by
  have hmiddle : left.drop k' = (left.take k).drop k' ++ left.drop k := by
    conv => lhs; rw [← List.take_append_drop k left]
    rw [List.drop_append, List.length_take]
    congr 1
    rw [List.drop_drop]
    by_cases hlen : k ≤ left.length
    · rw [min_eq_left hlen]
      congr 1
      omega
    · rw [List.drop_eq_nil_of_le (by omega), List.drop_eq_nil_of_le (by omega)]
  refine ⟨(left.take k).drop k' ++ z, ?_, ?_⟩
  · rw [← List.append_assoc]
    congr 1
    conv => lhs; rw [← List.take_append_drop k' (left.take k)]
    rw [List.take_take, min_eq_left hk]
  · rw [hmiddle]
    exact hz.append_left _

theorem Unescaping.plain {left : Bytes} (h : Unescaping (c :: left) rest quotes more)
    (hlen : quotes ≤ left.length) : ∃ rest', rest = c :: rest' ∧ Unescaping left rest' quotes
      more := by
  obtain ⟨z, hrest, hz⟩ := h.shape
  have hk : (c :: left).length + 1 - quotes = left.length + 1 - quotes + 1 := by
    rw [List.length_cons]
    omega
  rw [hk, List.take_succ_cons] at hrest
  rw [hk, List.drop_succ_cons] at hz
  refine ⟨left.take (left.length + 1 - quotes) ++ z, hrest, ⟨z, rfl, hz⟩, ?_⟩
  have := h.length
  rw [hrest, List.length_cons, List.length_append, List.length_cons] at this
  rw [List.length_append]
  omega

theorem take_succ_append_drop {start z : Bytes} {n : Nat} (hstart : start.length = n) :
    (start ++ c :: z).take (n + 1) ++ (start ++ c :: z).drop n = start ++ c :: c :: z := by
  subst hstart
  rw [List.take_length_add_append, List.drop_left, List.append_assoc]
  rfl

theorem Unescaping.doubled {left : Bytes} (h : Unescaping (c :: c :: left) rest quotes more)
    (hlen : quotes ≤ left.length + 1) : ∃ r, rest = c :: c :: r ∧
      ∀ rest', (r.length < left.length + 2 - quotes → rest' = r) →
        (left.length + 2 - quotes ≤ r.length → rest' =
          r.take (left.length + 2 - quotes) ++ r.drop (left.length + 2 - quotes - 1)) →
        ∀ quotes', quotes ≤ quotes' →
          Unescaping left rest' quotes' (more + if 2 ≤ quotes then 1 else 0) := by
  obtain ⟨z, hrest, hz⟩ := h.shape
  have hk : (c :: c :: left).length + 1 - quotes = left.length + 1 - quotes + 1 + 1 := by
    rw [List.length_cons, List.length_cons]
    omega
  rw [hk, List.take_succ_cons, List.take_succ_cons] at hrest
  rw [hk, List.drop_succ_cons, List.drop_succ_cons] at hz
  refine ⟨left.take (left.length + 1 - quotes) ++ z, hrest, ?_⟩
  intro rest' hall hpart quotes' hquotes
  have hlength : (left.take (left.length + 1 - quotes) ++ z).length = left.length + more := by
    have := h.length
    rw [hrest] at this
    simp only [List.cons_append, List.length_cons] at this
    omega
  by_cases hfew : quotes ≤ 1
  · rw [List.drop_eq_nil_of_le (by omega)] at hz
    obtain rfl : z = [] := by
      cases hz
      rfl
    rw [List.append_nil, List.take_of_length_le (by omega)] at hlength hall
    obtain rfl : more = 0 := by omega
    rw [hall (by omega), if_neg (by omega)]
    exact .self left quotes'
  · have htake : (left.take (left.length + 1 - quotes)).length = left.length + 1 - quotes := by
      rw [List.length_take]
      omega
    match z with
    | [] =>
      have := hz.length_le
      rw [List.length_drop, List.length_nil] at this
      omega
    | e :: z =>
      have hn : left.length + 2 - quotes = left.length + 1 - quotes + 1 := by omega
      have hrest' : rest' = left.take (left.length + 1 - quotes) ++ (e :: e :: z) := by
        rw [hpart (by omega), hn, Nat.add_sub_cancel, take_succ_append_drop htake]
      have hless : left.length + 1 - quotes' ≤ left.length + 1 - quotes := by omega
      obtain ⟨z', hshape, hz'⟩ := Unescaping.of_le hless hz.again_head
      refine ⟨⟨z', hrest'.trans hshape, hz'⟩, ?_⟩
      rw [hrest', if_pos (by omega)]
      rw [List.length_append, List.length_cons] at hlength
      rw [List.length_append, List.length_cons, List.length_cons]
      omega

theorem escaped_cons (c : UInt8) (s : Bytes) : escaped (c :: s) = escapedChar c ++ escaped s :=
  List.flatMap_cons

theorem unescapeLoop_escaped (behind : UInt8) (string done rest tail : Bytes)
    (quotes more offset turns : Nat)
    (h : Unescaping (escaped string) rest quotes more)
    (hoffset : offset + (escaped string).length = total + quotes)
    (hturns : (escaped string).length ≤ turns) :
    ∃ read left rest' tail', string = read ++ left ∧
      unescapeLoop behind total turns (done ++ (rest ++ 0 :: tail)) done.length offset =
        some (done ++ (read ++ (rest' ++ 0 :: tail'))) ∧
      Repeats (escaped left) rest' ∧
      rest'.length = (escaped left).length + more + lateDoubled quotes read ∧
      (escaped left).length ≤ quotes + read.count quote := by
  induction string generalizing done rest tail quotes more offset turns with
  | nil =>
    refine ⟨[], [], rest, tail, rfl, unescapeLoop_stop ?_ _ _, h.repeats, h.length, Nat.zero_le _⟩
    rw [escaped, List.flatMap_nil, List.length_nil] at hoffset
    omega
  | cons c string ih =>
    by_cases hstop : (escaped (c :: string)).length ≤ quotes
    · refine ⟨[], c :: string, rest, tail, rfl, unescapeLoop_stop (by omega) _ _, h.repeats, ?_, ?_⟩
      · rw [h.length]
        rfl
      · exact hstop.trans (Nat.le_add_right _ _)
    · obtain ⟨turns, rfl⟩ : ∃ t, turns = t + 1 := ⟨turns - 1, by omega⟩
      have hlt : offset < total := by omega
      cases hc : isDoubled c with
      | false =>
        have hone : escaped (c :: string) = c :: escaped string := by
          rw [escaped_cons, escapedChar, hc]
          rfl
        rw [hone] at h hoffset hturns hstop
        rw [List.length_cons] at hoffset hturns hstop
        obtain ⟨rest', rfl, hnext⟩ := h.plain (by omega)
        obtain ⟨read, left, rest'', tail', rfl, hloop, hrepeats, hlength, hleft⟩ :=
          ih (done ++ [c]) rest' tail quotes more (offset + 1) turns hnext (by omega) (by omega)
        have hquote : c ≠ quote := by
          rintro rfl
          cases hc
        refine ⟨c :: read, left, rest'', tail', rfl, ?_, hrepeats, ?_, ?_⟩
        · rw [List.cons_append, unescapeLoop_plain hlt hc]
          rw [List.length_append, List.append_assoc, List.append_assoc] at hloop
          exact hloop
        · rw [lateDoubled, hc, if_neg hquote, if_neg (by simp), hlength, Nat.zero_add]
        · rw [List.count_cons_of_ne hquote]
          exact hleft
      | true =>
        have htwo : escaped (c :: string) = c :: c :: escaped string := by
          rw [escaped_cons, escapedChar, hc]
          rfl
        rw [htwo] at h hoffset hturns hstop
        rw [List.length_cons, List.length_cons] at hoffset hturns hstop
        obtain ⟨r, rfl, hnext⟩ := h.doubled (by omega)
        obtain ⟨rest', tail', hturn, hall, hpart⟩ := unescapeLoop_doubled behind done r tail turns
          hlt hc
        have hn : total - offset = (escaped string).length + 2 - quotes := by omega
        rw [hn] at hall hpart
        have hnext' := hnext rest' hall hpart (if c = quote then quotes + 1 else quotes)
          (by split <;> omega)
        obtain ⟨read, left, rest'', tail'', rfl, hloop, hrepeats, hlength, hleft⟩ :=
          ih (done ++ [c]) rest' tail' _ _ (offset + 2 + if c = quote then 1 else 0) turns hnext'
            (by split <;> omega) (by omega)
        refine ⟨c :: read, left, rest'', tail'', rfl, ?_, hrepeats, ?_, ?_⟩
        · show unescapeLoop behind total (turns + 1) (done ++ c :: c :: (r ++ 0 :: tail)) _ _ = _
          rw [hturn]
          rw [List.length_append, List.append_assoc, List.append_assoc] at hloop
          exact hloop
        · rw [lateDoubled, hc, hlength]
          simp only [true_and]
          omega
        · rw [List.count_cons]
          by_cases hquote : c = quote
          · rw [if_pos hquote] at hleft
            rw [if_pos (beq_iff_eq.2 hquote)]
            omega
          · rw [if_neg hquote] at hleft
            rw [if_neg (by rwa [beq_iff_eq])]
            exact hleft

end Loop

section Escaped

variable {behind : UInt8} {string read left : Bytes} {quotes : Nat}

theorem cString_append (s tail : Bytes) (h : 0 ∉ s) : (cString (s ++ 0 :: tail)).1 = s := by
  have hall : ∀ c ∈ s, (c != 0) = true := fun c hc => bne_iff_ne.2 fun hzero => h (hzero ▸ hc)
  show (s ++ 0 :: tail).takeWhile (· != 0) = s
  rw [List.takeWhile_append_of_pos hall, List.takeWhile_cons_of_neg (by decide), List.append_nil]

theorem repeats_escaped (string : Bytes) : Repeats string (escaped string) := by
  induction string with
  | nil => exact .nil
  | cons c string ih =>
    rw [escaped_cons, escapedChar]
    split
    · exact .again (.cons c ih)
    · exact .cons c ih

theorem length_escaped (string : Bytes) :
    (escaped string).length = string.length + string.countP isDoubled := by
  induction string with
  | nil => rfl
  | cons c string ih =>
    rw [escaped_cons, List.length_append, ih, escapedChar, List.countP_cons, List.length_cons]
    split
    · rw [List.length_cons, List.length_singleton]
      omega
    · rw [List.length_singleton]
      omega

theorem sum_escaped (string : Bytes) :
    (string.map fun c => if isDoubled c then 2 else 1).sum = (escaped string).length := by
  induction string with
  | nil => rfl
  | cons c string ih =>
    rw [List.map_cons, List.sum_cons, ih, escaped_cons, List.length_append, escapedChar]
    congr 1
    split <;> rfl

theorem escaped_of_plain (h : ∀ c ∈ string, isDoubled c = false) : escaped string = string := by
  apply (repeats_escaped string).eq_of_length
  rw [length_escaped, List.countP_eq_zero.2 fun c hc => by rw [h c hc]; exact nofun]
  rfl

theorem defaultEscapeString_of_fits (h : (escaped string).length + 1 < 2 ^ 31) :
    defaultEscapeString string = .ok (escaped string) := by
  simp only [defaultEscapeString, sum_escaped, checkedGint, if_pos h, bind, Except.bind, writeBlock,
    if_pos (Nat.lt_succ_self _)]

theorem defaultEscapeString_of_overflows (h : ¬ (escaped string).length + 1 < 2 ^ 31) :
    defaultEscapeString string = .error .intOverflow := by
  simp only [defaultEscapeString, sum_escaped, checkedGint, if_neg h, bind, Except.bind]

theorem lateDoubled_append (quotes : Nat) (s t : Bytes) :
    lateDoubled quotes (s ++ t) = lateDoubled quotes s + lateDoubled (quotes + s.count quote)
      t := by
  induction s generalizing quotes with
  | nil => exact (Nat.zero_add _).symm
  | cons c s ih =>
    have hcount : (if c = quote then quotes + 1 else quotes) + s.count quote =
        quotes + (c :: s).count quote := by
      rw [List.count_cons]
      by_cases hc : c = quote
      · rw [if_pos hc, if_pos (beq_iff_eq.2 hc)]
        omega
      · rw [if_neg hc, if_neg (by rwa [beq_iff_eq])]
        rfl
    rw [List.cons_append, lateDoubled, ih, hcount, lateDoubled, Nat.add_assoc]

theorem lateDoubled_le_countP (quotes : Nat) (s : Bytes) :
    lateDoubled quotes s ≤ s.countP isDoubled := by
  induction s generalizing quotes with
  | nil => exact le_rfl
  | cons c s ih =>
    have := ih (if c = quote then quotes + 1 else quotes)
    rw [lateDoubled, List.countP_cons]
    by_cases hc : isDoubled c = true
    · rw [if_pos hc]
      split <;> omega
    · rw [if_neg fun h => hc h.1, if_neg hc]
      omega

theorem count_quote_le (quotes : Nat) (s : Bytes) :
    quotes + s.count quote ≤ lateDoubled quotes s + max 2 quotes := by
  induction s generalizing quotes with
  | nil =>
    show quotes + 0 ≤ 0 + max 2 quotes
    omega
  | cons c s ih =>
    have := ih (if c = quote then quotes + 1 else quotes)
    rw [lateDoubled, List.count_cons]
    by_cases hc : c = quote
    · subst hc
      rw [if_pos rfl] at this
      have hdoubled : isDoubled quote = true := rfl
      simp only [hdoubled, true_and, beq_self_eq_true, if_true]
      split <;> omega
    · rw [if_neg hc] at this
      rw [if_neg (by rwa [beq_iff_eq]), if_neg hc]
      omega

theorem lateDoubled_eq_zero (hquotes : 2 ≤ quotes) (h : lateDoubled quotes string = 0) :
    ∀ c ∈ string, isDoubled c = false := by
  induction string generalizing quotes with
  | nil => exact nofun
  | cons c string ih =>
    rw [lateDoubled, Nat.add_eq_zero_iff] at h
    have hc : isDoubled c = false := by
      by_contra hc
      rw [if_pos ⟨Bool.of_not_eq_false hc, hquotes⟩] at h
      exact absurd h.1 (by decide)
    intro d hd
    rcases List.mem_cons.1 hd with rfl | hd
    · exact hc
    · exact ih (by split <;> omega) h.2 d hd

theorem defaultUnescapeString_escaped (behind : UInt8) (h : 0 ∉ string) :
    ∃ read left rest str, string = read ++ left ∧
      defaultUnescapeString behind (escaped string) = some str ∧ str.1 = read ++ rest ∧
      Repeats (escaped left) rest ∧
      rest.length = (escaped left).length + lateDoubled 0 read ∧
      (escaped left).length ≤ read.count quote := by
  have hstart : 0 + (escaped string).length = (escaped string).length + 0 := by omega
  obtain ⟨read, left, rest, tail, rfl, hloop, hrepeats, hlength, hleft⟩ :=
    unescapeLoop_escaped behind string [] (escaped string) [] 0 0 0
      (escaped string).length (.self _ 0) hstart le_rfl
  refine ⟨read, left, rest, cString (read ++ (rest ++ 0 :: tail)), rfl, ?_, ?_, hrepeats, hlength,
    by omega⟩
  · exact congrArg (Option.map cString) hloop
  · rw [← List.append_assoc]
    apply cString_append
    intro hzero
    rcases List.mem_append.1 hzero with hmem | hmem
    · exact h (List.mem_append_left _ hmem)
    · rw [hrepeats.mem_iff, (repeats_escaped left).mem_iff] at hmem
      exact h (List.mem_append_right _ hmem)

theorem defaultUnescapeString_of_early (behind : UInt8) (h : 0 ∉ string)
    (hearly : lateDoubled 0 string = 0) :
    defaultUnescapeString behind (escaped string) = some ⟨string, h⟩ := by
  obtain ⟨read, left, rest, str, rfl, heq, hstr, hrepeats, hlength, hleft⟩ :=
    defaultUnescapeString_escaped behind h
  rw [lateDoubled_append, Nat.add_eq_zero_iff, Nat.zero_add] at hearly
  rw [hearly.1] at hlength
  have hplain : ∀ c ∈ left, isDoubled c = false := by
    by_cases hquotes : 2 ≤ read.count quote
    · exact lateDoubled_eq_zero hquotes hearly.2
    · rw [length_escaped] at hleft
      intro c hc
      by_contra hdoubled
      have hpos := List.countP_pos_iff.2 ⟨c, hc, Bool.of_not_eq_false hdoubled⟩
      have := List.length_pos_of_mem hc
      omega
  rw [heq]
  congr 1
  apply Subtype.ext
  rw [hstr, hrepeats.eq_of_length hlength, escaped_of_plain hplain]

end Escaped

end LibGda
