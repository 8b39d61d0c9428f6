import LibGda.DefaultEscape
import LibGda.Gint

/-! The SQL literals of the handler for binary data, and when they are read back. -/

namespace LibGda

open TerminatedBuffer RepeatedElements

inductive BinType where
  | binary | blob
  deriving DecidableEq

/-- A value the handler accepts; the data of a blob is what `gda_blob_op_read_all` leaves in it. -/
structure BinValue where
  type : BinType
  data : Bytes
  deriving DecidableEq

namespace HandlerBin

def getSqlFromValue (value : BinValue) : Except BlockFault Bytes := do
  let str ← binaryToString value.data 0
  let str₂ ← defaultEscapeString str
  pure (quote :: (str₂ ++ [quote]))

def getValueFromStr (str : CBytes) (type : BinType) : Except ScanFault (Option BinValue) :=
  (stringToBinary (some str)).map fun bin => bin.map fun data => ⟨type, data⟩

def getValueFromSql (behind : UInt8) (sql : Bytes) (type : BinType) :
    Except ScanFault (Option BinValue) :=
  if sql = [] then .ok none
  else
    let i := gint sql.length
    if 2 ≤ i ∧ sql.head? = some quote ∧ sql.getD (i.toNat - 1) 0 = quote then
      match defaultUnescapeString behind ((sql.take (i.toNat - 1)).drop 1) with
      | some unstr => getValueFromStr unstr type
      | none => .ok none
    else .ok none

end HandlerBin

def TextReadBack (data : Bytes) : Prop :=
  ∃ str : CBytes, binaryToString data 0 = .ok str.1 ∧ stringToBinary (some str) = .ok (some data)

def LiteralReadBack (behind : UInt8) (value : BinValue) : Prop :=
  ∃ sql, HandlerBin.getSqlFromValue value = .ok sql ∧
    HandlerBin.getValueFromSql behind sql value.type = .ok (some value)

def RefusedForEscape (str : CBytes) : Prop :=
  (∃ bin, stringToBinary (some str) = .ok bin) ∧
    (stringToBinary (some str) = .ok none ↔ HasBadEscape str.1)

def literalLength (data : Bytes) : Nat :=
  (data.map fun b => if b = backslash then 4 else if isRewritten b then 5
    else if b = quote then 2 else 1).sum + 2

def EarlyQuotes (data : Bytes) : Prop :=
  ∀ before b after, data = before ++ b :: after → (b = quote ∨ isRewritten b = true) →
    before.count quote ≤ 1

section Condition

variable {b : UInt8} {data : Bytes} {quotes : Nat}

theorem writtenByte_cases (b : UInt8) :
    (isRewritten b = false ∧ writtenByte b = [b]) ∨
    (b = backslash ∧ writtenByte b = [backslash, backslash]) ∨
    (isRewritten b = true ∧ b ≠ backslash ∧ ∃ d₁ d₂ d₃, writtenByte b = [backslash, d₁, d₂, d₃] ∧
      isOctal d₁ = true ∧ isOctal d₂ = true ∧ isOctal d₃ = true ∧ octalByte d₁ d₂ d₃ = b) := by
  cases hb : isRewritten b with
  | false => exact .inl ⟨rfl, writtenByte_plain hb⟩
  | true =>
    by_cases hback : b = backslash
    · subst hback
      exact .inr (.inl ⟨rfl, rfl⟩)
    · exact .inr (.inr ⟨rfl, hback, writtenByte_octal hb hback⟩)

theorem isOctal_not_doubled {d : UInt8} (h : isOctal d = true) : isDoubled d = false := by
  rw [isDoubled, Bool.or_eq_false_iff, beq_eq_false_iff_ne, beq_eq_false_iff_ne]
  refine ⟨?_, isOctal_ne h⟩
  rintro rfl
  exact absurd h (by decide)

theorem isOctal_ne_quote {d : UInt8} (h : isOctal d = true) : d ≠ quote := by
  rintro rfl
  exact absurd h (by decide)

theorem length_escaped_writtenByte (b : UInt8) : (escaped (writtenByte b)).length =
    if b = backslash then 4 else if isRewritten b then 5 else if b = quote then 2 else 1 := by
  rcases writtenByte_cases b with ⟨hplain, hwritten⟩ | ⟨rfl, hwritten⟩ |
    ⟨hrewritten, hback, d₁, d₂, d₃, hwritten, h₁, h₂, h₃, -⟩
  · have hback : b ≠ backslash := by
      rintro rfl
      exact absurd hplain (by decide)
    rw [hwritten, if_neg hback, hplain, length_escaped, List.countP_singleton, isDoubled,
      beq_eq_false_iff_ne.2 hback, Bool.or_false]
    by_cases hquote : b = quote
    · subst hquote
      rfl
    · rw [beq_eq_false_iff_ne.2 hquote, if_neg hquote]
      rfl
  · rfl
  · rw [hwritten, if_neg hback, if_pos hrewritten, length_escaped]
    simp [List.countP_cons, isOctal_not_doubled h₁, isOctal_not_doubled h₂,
      isOctal_not_doubled h₃]
    rfl

theorem escaped_append (s t : Bytes) : escaped (s ++ t) = escaped s ++ escaped t :=
  List.flatMap_append

theorem length_escaped_written (data : Bytes) :
    (escaped (written data)).length + 2 = literalLength data := by
  rw [literalLength]
  congr 1
  induction data with
  | nil => rfl
  | cons b data ih =>
    rw [written_cons, escaped_append, List.length_append, length_escaped_writtenByte, ih,
      List.map_cons, List.sum_cons]

theorem countP_isRewritten_le (data : Bytes) :
    data.countP isRewritten * 4 + 2 ≤ literalLength data := by
  rw [literalLength]
  apply Nat.add_le_add_right
  induction data with
  | nil => exact le_rfl
  | cons b data ih =>
    rw [List.countP_cons, List.map_cons, List.sum_cons]
    by_cases hb : isRewritten b = true
    · rw [if_pos hb, if_pos hb]
      split <;> omega
    · rw [if_neg hb]
      omega

theorem count_quote_writtenByte (b : UInt8) :
    (writtenByte b).count quote = if b = quote then 1 else 0 := by
  rcases writtenByte_cases b with ⟨-, hwritten⟩ | ⟨rfl, -⟩ |
    ⟨hrewritten, -, d₁, d₂, d₃, hwritten, h₁, h₂, h₃, -⟩
  · rw [hwritten, List.count_singleton]
    by_cases hb : b = quote <;> simp [hb]
  · rfl
  · have hb : b ≠ quote := by
      rintro rfl
      exact absurd hrewritten (by decide)
    rw [hwritten, if_neg hb, List.count_cons_of_ne (by decide),
      List.count_cons_of_ne (isOctal_ne_quote h₁), List.count_cons_of_ne (isOctal_ne_quote h₂),
      List.count_cons_of_ne (isOctal_ne_quote h₃)]
    rfl

theorem lateDoubled_writtenByte (quotes : Nat) (b : UInt8) :
    lateDoubled quotes (writtenByte b) = 0 ↔ (b = quote ∨ isRewritten b = true → quotes ≤ 1) := by
  have hhead : ∀ s : Bytes, (∀ c ∈ s, isDoubled c = false) → ∀ q, lateDoubled q s = 0 := by
    intro s hs q
    have := lateDoubled_le_countP q s
    rw [List.countP_eq_zero.2 fun c hc => by rw [hs c hc]; exact nofun] at this
    omega
  rcases writtenByte_cases b with ⟨hplain, hwritten⟩ | ⟨rfl, -⟩ |
    ⟨hrewritten, -, d₁, d₂, d₃, hwritten, h₁, h₂, h₃, -⟩
  · rw [hwritten]
    by_cases hb : b = quote
    · subst hb
      have hdoubled : isDoubled quote = true := rfl
      simp only [lateDoubled, hdoubled, true_and, true_or, true_implies]
      split <;> omega
    · have hback : b ≠ backslash := by
        rintro rfl
        exact absurd hplain (by decide)
      refine iff_of_true (hhead [b] ?_ quotes) ?_
      · intro c hc
        rw [List.mem_singleton.1 hc, isDoubled, beq_eq_false_iff_ne.2 hb,
          beq_eq_false_iff_ne.2 hback]
        rfl
      · rintro (h | h)
        · exact absurd h hb
        · rw [hplain] at h
          cases h
  · have hdoubled : isDoubled backslash = true := rfl
    have hrewritten : isRewritten backslash = true := rfl
    have hquote : backslash ≠ quote := by decide
    rw [writtenByte_backslash]
    simp only [lateDoubled, hdoubled, true_and, hrewritten, or_true, true_implies, if_neg hquote]
    split <;> omega
  · have hdoubled : isDoubled backslash = true := rfl
    have hquote : backslash ≠ quote := by decide
    have hdigits : lateDoubled quotes [d₁, d₂, d₃] = 0 := by
      apply hhead
      intro c hc
      simp only [List.mem_cons, List.not_mem_nil, or_false] at hc
      rcases hc with rfl | rfl | rfl
      · exact isOctal_not_doubled h₁
      · exact isOctal_not_doubled h₂
      · exact isOctal_not_doubled h₃
    rw [hwritten, lateDoubled, if_neg hquote, hdigits]
    simp only [hdoubled, true_and, hrewritten, or_true, true_implies]
    split <;> omega

theorem lateDoubled_written (quotes : Nat) (data : Bytes) : lateDoubled quotes (written data) = 0 ↔
    ∀ before b after, data = before ++ b :: after → (b = quote ∨ isRewritten b = true) →
      quotes + before.count quote ≤ 1 := by
  induction data generalizing quotes with
  | nil =>
    refine iff_of_true rfl ?_
    intro before b after h
    exact absurd h.symm (by simp)
  | cons c data ih =>
    rw [written_cons, lateDoubled_append, Nat.add_eq_zero_iff, lateDoubled_writtenByte, ih,
      count_quote_writtenByte]
    have hcount : ∀ before : Bytes, (c :: before).count quote =
        before.count quote + if c = quote then 1 else 0 := by
      intro before
      rw [List.count_cons]
      simp only [beq_iff_eq]
    constructor
    · rintro ⟨hhead, htail⟩ before b after heq hb
      match before with
      | [] =>
        obtain ⟨rfl, -⟩ := List.cons.inj heq
        exact hhead hb
      | c' :: before =>
        obtain ⟨rfl, hrest⟩ := List.cons.inj heq
        have := htail before b after hrest hb
        rw [hcount]
        omega
    · intro h
      refine ⟨fun hc => h [] c data rfl hc, ?_⟩
      intro before b after heq hb
      have := h (c :: before) b after (by rw [heq]; rfl) hb
      rw [hcount] at this
      omega

theorem earlyQuotes_iff (data : Bytes) : EarlyQuotes data ↔ lateDoubled 0 (written data) = 0 := by
  rw [lateDoubled_written]
  simp only [Nat.zero_add]
  exact Iff.rfl

end Condition

section Lost

variable {z data data' read left rest : Bytes} {b c : UInt8}

def isOctalWritten (b : UInt8) : Bool := isRewritten b && b != backslash

theorem count_backslash_written (data : Bytes) : (written data).count backslash =
    2 * data.count backslash + data.countP isOctalWritten := by
  induction data with
  | nil => rfl
  | cons b data ih =>
    rw [written_cons, List.count_append, ih, List.count_cons, List.countP_cons, isOctalWritten]
    rcases writtenByte_cases b with ⟨hplain, hwritten⟩ | ⟨rfl, hwritten⟩ |
      ⟨hrewritten, hback, d₁, d₂, d₃, hwritten, h₁, h₂, h₃, -⟩
    · have hback : b ≠ backslash := by
        rintro rfl
        exact absurd hplain (by decide)
      rw [hwritten, List.count_singleton, hplain]
      simp [hback]
    · rw [hwritten]
      have hzero : (isRewritten backslash && backslash != backslash) = false := rfl
      have htwo : [backslash, backslash].count backslash = 2 := rfl
      rw [hzero, htwo, if_pos (beq_self_eq_true _), if_neg nofun]
      omega
    · rw [hwritten, List.count_cons_self, List.count_cons_of_ne (isOctal_ne h₁),
        List.count_cons_of_ne (isOctal_ne h₂), List.count_cons_of_ne (isOctal_ne h₃), hrewritten]
      simp [hback]
      omega

theorem runEnds_written (data : Bytes) : runEnds (· == backslash) (written data) ≤
    data.count backslash + data.countP isOctalWritten := by
  induction data with
  | nil => exact le_rfl
  | cons b data ih =>
    rw [written_cons, List.count_cons, List.countP_cons, isOctalWritten]
    rcases writtenByte_cases b with ⟨hplain, hwritten⟩ | ⟨rfl, hwritten⟩ |
      ⟨hrewritten, hback, d₁, d₂, d₃, hwritten, h₁, h₂, h₃, -⟩
    · have hback : (b == backslash) = false := by
        rw [beq_eq_false_iff_ne]
        rintro rfl
        exact absurd hplain (by decide)
      rw [hwritten, List.singleton_append, runEnds_cons_of_not (p := (· == backslash)) hback]
      omega
    · have hsucc := runEnds_le_succ (· == backslash) backslash (written data)
      rw [hwritten, if_pos (beq_self_eq_true _)]
      show runEnds (· == backslash) (backslash :: backslash :: written data) ≤ _
      rw [runEnds]
      simp only [beq_self_eq_true, Bool.not_true, Bool.and_false, Bool.false_eq_true, if_false]
      omega
    · have hdigits : ∀ d ∈ [d₁, d₂, d₃], (d == backslash) = false := by
        intro d hd
        simp only [List.mem_cons, List.not_mem_nil, or_false] at hd
        rw [beq_eq_false_iff_ne]
        rcases hd with rfl | rfl | rfl
        · exact isOctal_ne h₁
        · exact isOctal_ne h₂
        · exact isOctal_ne h₃
      have hrest : runEnds (· == backslash) ([d₁, d₂, d₃] ++ written data) =
          runEnds (· == backslash) (written data) := runEnds_append_of_not hdigits _
      have hsucc := runEnds_le_succ (· == backslash) backslash ([d₁, d₂, d₃] ++ written data)
      rw [hrest] at hsucc
      rw [hwritten, hrewritten, bne_iff_ne.2 hback]
      show runEnds (· == backslash) (backslash :: ([d₁, d₂, d₃] ++ written data)) ≤ _
      simp only [Bool.and_true, if_true]
      omega

theorem Denotes.extra (h : Denotes z data) (hprinted : ∀ c ∈ z, c = backslash ∨ isRewritten c =
    false) :
    ∃ extra, z.length ≤ (written data).length + 3 * extra ∧
      z.count backslash ≤ (written data).count backslash + extra ∧
      extra + data.countP isOctalWritten ≤ runEnds (· == backslash) z ∧
      (data = [] → extra = 0) := by
  induction h with
  | nil => exact ⟨0, le_rfl, le_rfl, le_rfl, fun _ => rfl⟩
  | @plain c s data hc _ ih =>
    obtain ⟨extra, hlength, hcount, hends, -⟩ := ih fun d hd =>
      hprinted d (List.mem_cons_of_mem c hd)
    have hplain := (hprinted c List.mem_cons_self).resolve_left hc
    have hwritten : written (c :: data) = c :: written data := by
      rw [written_cons, writtenByte_plain hplain]
      rfl
    refine ⟨extra, ?_, ?_, ?_, (fun hno => by cases hno)⟩
    · rw [hwritten, List.length_cons, List.length_cons]
      omega
    · rw [hwritten, List.count_cons_of_ne hc, List.count_cons_of_ne hc]
      exact hcount
    · rw [runEnds_cons_of_not (p := (· == backslash)) (beq_eq_false_iff_ne.2 hc), List.countP_cons,
        isOctalWritten, hplain]
      exact hends
  | @doubled s data _ ih =>
    obtain ⟨extra, hlength, hcount, hends, -⟩ := ih fun d hd =>
      hprinted d (List.mem_cons_of_mem _ (List.mem_cons_of_mem _ hd))
    have hwritten : written (backslash :: data) = backslash :: backslash :: written data := rfl
    refine ⟨extra, ?_, ?_, ?_, (fun hno => by cases hno)⟩
    · rw [hwritten]
      simp only [List.length_cons]
      omega
    · rw [hwritten]
      simp only [List.count_cons_self]
      omega
    · have h₁ := runEnds_le_cons (· == backslash) backslash s
      have h₂ := runEnds_le_cons (· == backslash) backslash (backslash :: s)
      have hzero : isOctalWritten backslash = false := rfl
      rw [List.countP_cons, hzero]
      simp only [Bool.false_eq_true, if_false]
      omega
  | @octal d₁ d₂ d₃ s data h₁ h₂ h₃ _ ih =>
    obtain ⟨extra, hlength, hcount, hends, -⟩ := ih fun d hd =>
      hprinted d (by simp [hd])
    have hdigits : ∀ d ∈ [d₁, d₂, d₃], (d == backslash) = false := by
      intro d hd
      simp only [List.mem_cons, List.not_mem_nil, or_false] at hd
      rw [beq_eq_false_iff_ne]
      rcases hd with rfl | rfl | rfl
      · exact isOctal_ne h₁
      · exact isOctal_ne h₂
      · exact isOctal_ne h₃
    have hruns : runEnds (· == backslash) (backslash :: d₁ :: d₂ :: d₃ :: s) =
        1 + runEnds (· == backslash) s := by
      have hrest : runEnds (· == backslash) ([d₁, d₂, d₃] ++ s) = runEnds (· == backslash) s :=
        runEnds_append_of_not hdigits s
      rw [← hrest, runEnds, beq_eq_false_iff_ne.2 (isOctal_ne h₁)]
      rfl
    have hbacks : (backslash :: d₁ :: d₂ :: d₃ :: s).count backslash = s.count backslash + 1 := by
      rw [List.count_cons_self, List.count_cons_of_ne (isOctal_ne h₁),
        List.count_cons_of_ne (isOctal_ne h₂), List.count_cons_of_ne (isOctal_ne h₃)]
    rw [hruns, hbacks, written_cons, List.length_append, List.count_append, List.countP_cons,
      isOctalWritten]
    simp only [List.length_cons]
    rcases writtenByte_cases (octalByte d₁ d₂ d₃) with ⟨hplain, hwritten⟩ | ⟨hback, hwritten⟩ |
      ⟨hrewritten, hback, e₁, e₂, e₃, hwritten, k₁, k₂, k₃, -⟩
    · refine ⟨extra + 1, ?_, ?_, ?_, (fun hno => by cases hno)⟩
      · rw [hwritten, List.length_singleton]
        omega
      · omega
      · rw [hplain]
        simp only [Bool.false_and, Bool.false_eq_true, if_false]
        omega
    · refine ⟨extra + 1, ?_, ?_, ?_, (fun hno => by cases hno)⟩
      · rw [hwritten, List.length_cons, List.length_singleton]
        omega
      · omega
      · rw [hback]
        simp only [bne_self_eq_false, Bool.and_false, Bool.false_eq_true, if_false]
        omega
    · refine ⟨extra, ?_, ?_, ?_, (fun hno => by cases hno)⟩
      · rw [hwritten]
        simp only [List.length_cons, List.length_nil]
        omega
      · rw [hwritten, List.count_cons_self]
        omega
      · rw [hrewritten, bne_iff_ne.2 hback]
        simp only [Bool.and_self, if_true]
        omega

theorem Denotes.not_longer (h : Denotes z data)
    (hprinted : ∀ c ∈ z, c = backslash ∨ isRewritten c = false)
    (hcount : 2 * (written data).count backslash ≤ z.count backslash)
    (hends : runEnds (· == backslash) z ≤ runEnds (· == backslash) (written data)) :
    z.length ≤ (written data).length := by
  obtain ⟨extra, hlength, hbacks, hruns, -⟩ := h.extra hprinted
  have hwritten := runEnds_written data
  rw [count_backslash_written] at hcount hbacks
  omega

theorem Denotes.of_plain {s : Bytes} (hc : c ≠ backslash) (h : Denotes (c :: s) data) :
    ∃ data', data = c :: data' ∧ Denotes s data' := by
  cases h with
  | plain _ h => exact ⟨_, rfl, h⟩
  | doubled => exact absurd rfl hc
  | octal => exact absurd rfl hc

theorem Denotes.of_doubled {s : Bytes} (h : Denotes (backslash :: backslash :: s) data) :
    ∃ data', data = backslash :: data' ∧ Denotes s data' := by
  cases h with
  | plain hne => exact absurd rfl hne
  | doubled h => exact ⟨_, rfl, h⟩
  | octal h₁ => exact absurd rfl (isOctal_ne h₁)

theorem Denotes.of_octal {d : UInt8} {s : Bytes} (hd : isOctal d = true)
    (h : Denotes (backslash :: d :: s) data) : ∃ d₂ d₃ z data', s = d₂ :: d₃ :: z ∧
      data = octalByte d d₂ d₃ :: data' ∧ isOctal d₂ = true ∧ isOctal d₃ = true ∧
      Denotes z data' := by
  cases h with
  | plain hne => exact absurd rfl hne
  | doubled => exact absurd rfl (isOctal_ne hd)
  | octal _ h₂ h₃ h => exact ⟨_, _, _, _, rfl, rfl, h₂, h₃, h⟩

theorem Denotes.eq_nil (h : Denotes z []) : z = [] := by
  cases h
  rfl

theorem Denotes.eq_singleton {d : UInt8} (h : Denotes [d] data) : data = [d] := by
  cases h with
  | plain _ h =>
    cases h
    rfl

theorem Denotes.eq_octal {d : UInt8} (h : Denotes z [d]) (hlen : z.length = 4) :
    ∃ d₁ d₂ d₃, z = [backslash, d₁, d₂, d₃] ∧ isOctal d₁ = true ∧ isOctal d₂ = true ∧
      isOctal d₃ = true ∧ octalByte d₁ d₂ d₃ = d := by
  cases h with
  | plain _ h =>
    rw [h.eq_nil] at hlen
    cases hlen
  | doubled h =>
    rw [h.eq_nil] at hlen
    cases hlen
  | octal h₁ h₂ h₃ h =>
    rw [h.eq_nil]
    exact ⟨_, _, _, rfl, h₁, h₂, h₃, rfl⟩

theorem Denotes.behind_written (h : Denotes (written data ++ z) (data ++ data')) :
    Denotes z data' := by
  induction data with
  | nil => exact h
  | cons b data ih =>
    apply ih
    rw [written_cons, List.append_assoc] at h
    rcases writtenByte_cases b with ⟨hplain, hwritten⟩ | ⟨rfl, hwritten⟩ |
      ⟨-, -, d₁, d₂, d₃, hwritten, h₁, h₂, h₃, -⟩
    · rw [hwritten] at h
      have hback : b ≠ backslash := by
        rintro rfl
        exact absurd hplain (by decide)
      obtain ⟨more, hmore, hrest⟩ := h.of_plain hback
      have hdata : data ++ data' = more := (List.cons.inj hmore).2
      rw [hdata]
      exact hrest
    · obtain ⟨more, hmore, hrest⟩ := h.of_doubled
      have hdata : data ++ data' = more := (List.cons.inj hmore).2
      rw [hdata]
      exact hrest
    · rw [hwritten] at h
      obtain ⟨e₂, e₃, rest, more, hrest, hmore, -, -, hdenotes⟩ := h.of_octal h₁
      have hdata : data ++ data' = more := (List.cons.inj hmore).2
      have htail : written data ++ z = rest := (List.cons.inj (List.cons.inj hrest).2).2
      rw [hdata, htail]
      exact hdenotes

theorem written_split (h : written data = read ++ left) :
    (∃ b₁ b₂, data = b₁ ++ b₂ ∧ read = written b₁ ∧ left = written b₂) ∨
    (∃ b₁ b₂, data = b₁ ++ backslash :: b₂ ∧ read = written b₁ ++ [backslash] ∧
      left = backslash :: written b₂) ∨
    (∃ b₁ b b₂ digits digits', data = b₁ ++ b :: b₂ ∧ read = written b₁ ++ backslash :: digits ∧
      left = digits' ++ written b₂ ∧ digits' ≠ [] ∧ (digits ++ digits').length = 3 ∧
      ∀ d ∈ digits ++ digits', isOctal d = true) := by
  induction data generalizing read with
  | nil =>
    obtain ⟨rfl, rfl⟩ := List.append_eq_nil_iff.1 h.symm
    exact .inl ⟨[], [], rfl, rfl, rfl⟩
  | cons b data ih =>
    cases read with
    | nil => exact .inl ⟨[], b :: data, rfl, rfl, h.symm⟩
    | cons c read =>
      rw [written_cons] at h
      -- the byte is before the cut
      have hbehind : ∀ read', c :: read = writtenByte b ++ read' → written data = read' ++ left →
          (∃ b₁ b₂, b :: data = b₁ ++ b₂ ∧ c :: read = written b₁ ∧ left = written b₂) ∨
          (∃ b₁ b₂, b :: data = b₁ ++ backslash :: b₂ ∧ c :: read = written b₁ ++ [backslash] ∧
            left = backslash :: written b₂) ∨
          (∃ b₁ b' b₂ digits digits', b :: data = b₁ ++ b' :: b₂ ∧
            c :: read = written b₁ ++ backslash :: digits ∧ left = digits' ++ written b₂ ∧
            digits' ≠ [] ∧ (digits ++ digits').length = 3 ∧
            ∀ d ∈ digits ++ digits', isOctal d = true) := by
        intro read' hread hrest
        rw [hread]
        rcases ih hrest with ⟨b₁, b₂, rfl, rfl, hleft⟩ | ⟨b₁, b₂, rfl, rfl, hleft⟩ |
          ⟨b₁, b', b₂, digits, digits', rfl, rfl, hleft⟩
        · exact .inl ⟨b :: b₁, b₂, rfl, rfl, hleft⟩
        · refine .inr (.inl ⟨b :: b₁, b₂, rfl, ?_, hleft⟩)
          rw [written_cons, List.append_assoc]
        · refine .inr (.inr ⟨b :: b₁, b', b₂, digits, digits', rfl, ?_, hleft⟩)
          rw [written_cons, List.append_assoc]
      rcases writtenByte_cases b with ⟨-, hwritten⟩ | ⟨rfl, hwritten⟩ |
        ⟨-, -, d₁, d₂, d₃, hwritten, h₁, h₂, h₃, -⟩
      · rw [hwritten] at h
        obtain ⟨rfl, hrest⟩ := List.cons.inj h
        exact hbehind read (by rw [hwritten]; rfl) hrest
      · rw [hwritten] at h
        obtain ⟨rfl, hrest⟩ := List.cons.inj h
        cases read with
        | nil => exact .inr (.inl ⟨[], data, rfl, rfl, hrest.symm⟩)
        | cons c read =>
          obtain ⟨rfl, hrest₂⟩ := List.cons.inj hrest
          exact hbehind read rfl hrest₂
      · rw [hwritten] at h
        obtain ⟨rfl, hrest⟩ := List.cons.inj h
        have hdigits : ∀ d ∈ [d₁, d₂, d₃], isOctal d = true := by
          intro d hd
          simp only [List.mem_cons, List.not_mem_nil, or_false] at hd
          rcases hd with rfl | rfl | rfl
          · exact h₁
          · exact h₂
          · exact h₃
        cases read with
        | nil =>
          exact .inr (.inr ⟨[], b, data, [], [d₁, d₂, d₃], rfl, rfl, hrest.symm, (fun hno => by cases hno), rfl,
            hdigits⟩)
        | cons c read =>
          obtain ⟨rfl, hrest₂⟩ := List.cons.inj hrest
          cases read with
          | nil =>
            exact .inr (.inr ⟨[], b, data, [d₁], [d₂, d₃], rfl, rfl, hrest₂.symm, (fun hno => by cases hno), rfl,
              hdigits⟩)
          | cons c read =>
            obtain ⟨rfl, hrest₃⟩ := List.cons.inj hrest₂
            cases read with
            | nil =>
              exact .inr (.inr ⟨[], b, data, [d₁, d₂], [d₃], rfl, rfl, hrest₃.symm, (fun hno => by cases hno), rfl,
                hdigits⟩)
            | cons c read =>
              obtain ⟨rfl, hrest₄⟩ := List.cons.inj hrest₃
              exact hbehind read (by rw [hwritten]; rfl) hrest₄

theorem count_backslash_escaped (s : Bytes) :
    (escaped s).count backslash = 2 * s.count backslash := by
  induction s with
  | nil => rfl
  | cons c s ih =>
    rw [escaped_cons, List.count_append, ih, List.count_cons, escapedChar]
    by_cases hc : c = backslash
    · subst hc
      have htwo : [backslash, backslash].count backslash = 2 := rfl
      have hdoubled : isDoubled backslash = true := rfl
      rw [if_pos hdoubled, htwo, if_pos (beq_self_eq_true _)]
      omega
    · have hzero : (if isDoubled c = true then [c, c] else [c]).count backslash = 0 := by
        rw [List.count_eq_zero]
        split <;> simp [Ne.symm hc]
      rw [hzero, if_neg (by rwa [beq_iff_eq])]
      omega

theorem digits_no_backslash {digits : Bytes} (h : ∀ d ∈ digits, isOctal d = true) (z : Bytes) :
    (digits ++ z).count backslash = z.count backslash ∧
      runEnds (· == backslash) (digits ++ z) = runEnds (· == backslash) z := by
  have hne : ∀ d ∈ digits, (d == backslash) = false := fun d hd =>
    beq_eq_false_iff_ne.2 (isOctal_ne (h d hd))
  refine ⟨?_, runEnds_append_of_not hne z⟩
  rw [List.count_append, List.count_eq_zero.2, Nat.zero_add]
  intro hmem
  exact isOctal_ne (h backslash hmem) rfl

theorem octalByte_self (d : UInt8) (hd : isOctal d = true) : octalByte d d d ≠ d := by
  have hall : ∀ n < 8, octalByte (UInt8.ofNat (n + 48)) (UInt8.ofNat (n + 48))
      (UInt8.ofNat (n + 48)) ≠ UInt8.ofNat (n + 48) := by decide
  rw [isOctal, Bool.and_eq_true, decide_eq_true_iff, decide_eq_true_iff, UInt8.le_iff_toNat_le,
    UInt8.le_iff_toNat_le] at hd
  have hlow : 48 ≤ d.toNat := hd.1
  have hhigh : d.toNat ≤ 55 := hd.2
  have := hall (d.toNat - 48) (by omega)
  rwa [Nat.sub_add_cancel hlow, UInt8.ofNat_toNat] at this

theorem printed_of_repeats (hrepeats : Repeats (escaped left) rest)
    (hsplit : written data = read ++ left) {c : UInt8} (hc : c ∈ rest) :
    c = backslash ∨ isRewritten c = false := by
  rw [hrepeats.mem_iff, (repeats_escaped left).mem_iff] at hc
  exact printed_of_mem_written (hsplit ▸ List.mem_append_right read hc)

theorem Denotes.cut_length (digits digits' : Bytes) (hrepeats : Repeats (escaped left) rest)
    (hdigits : ∀ d ∈ digits, isOctal d = true) (hdigits' : ∀ d ∈ digits', isOctal d = true)
    (hprinted : ∀ c ∈ z, c = backslash ∨ isRewritten c = false)
    (hleft : left = digits ++ written data) (hrest : rest = digits' ++ z)
    (hlen : digits'.length = digits.length) (h : Denotes z data) : rest.length ≤ left.length := by
  have hcount := hrepeats.countP_le (· == backslash)
  have hends := (hrepeats.runEnds_eq (· == backslash)).trans
    ((repeats_escaped left).runEnds_eq (· == backslash))
  have hback : (escaped left).count backslash ≤ rest.count backslash := hcount
  rw [count_backslash_escaped] at hback
  obtain ⟨hleftCount, hleftEnds⟩ := digits_no_backslash hdigits (written data)
  obtain ⟨hrestCount, hrestEnds⟩ := digits_no_backslash hdigits' z
  rw [← hleft] at hleftCount hleftEnds
  rw [← hrest] at hrestCount hrestEnds
  have := h.not_longer hprinted (by omega) (by omega)
  rw [hleft, hrest, List.length_append, List.length_append]
  omega

theorem Denotes.not_cut_backslash (hrepeats : Repeats (escaped (backslash :: written data)) rest)
    (hlength : rest.length =
      (escaped (backslash :: written data)).length + lateDoubled 0 (read ++ [backslash]))
    (hquotes : (escaped (backslash :: written data)).length ≤ (read ++ [backslash]).count quote)
    (hprinted : ∀ c ∈ z, c = backslash ∨ isRewritten c = false) (hrest : rest = backslash :: z) :
    ¬ Denotes z data := by
  intro h
  obtain ⟨extra, hlong, hbacks, hruns, hnil⟩ := h.extra hprinted
  have hcount : (escaped (backslash :: written data)).count backslash ≤ rest.count backslash :=
    hrepeats.countP_le (· == backslash)
  have hends := (hrepeats.runEnds_eq (· == backslash)).trans
    ((repeats_escaped _).runEnds_eq (· == backslash))
  have hends₁ := runEnds_le_cons (· == backslash) backslash z
  have hends₂ := runEnds_le_succ (· == backslash) backslash (written data)
  have hends₃ := runEnds_written data
  rw [count_backslash_escaped, hrest, List.count_cons_self, List.count_cons_self,
    count_backslash_written] at hcount
  rw [count_backslash_written] at hbacks
  rw [hrest] at hends
  have hone : extra = 1 := by omega
  -- one byte is left, and three characters of it are repeated
  have hdoubled : isDoubled backslash = true := rfl
  rw [length_escaped, List.countP_cons_of_pos hdoubled, List.length_cons] at hlength hquotes
  have hlate : lateDoubled 0 (read ++ [backslash]) = lateDoubled 0 read + 1 := by
    have hcountRead : (read ++ [backslash]).count quote = read.count quote := by
      rw [List.count_append]
      rfl
    rw [hcountRead] at hquotes
    rw [lateDoubled_append, Nat.zero_add, lateDoubled, hdoubled, if_pos ⟨rfl, by omega⟩]
    rfl
  have hmany := count_quote_le 0 read
  have hcountRead : (read ++ [backslash]).count quote = read.count quote := by
    rw [List.count_append]
    rfl
  rw [hcountRead] at hquotes
  rw [hlate, hrest, List.length_cons] at hlength
  have hpos : 0 < (written data).length := by
    cases data with
    | nil => exact absurd (hnil rfl) (by omega)
    | cons b data =>
      rw [written_cons, List.length_append]
      have : (writtenByte b).length ≠ 0 := by
        rcases writtenByte_cases b with ⟨-, hwritten⟩ | ⟨-, hwritten⟩ |
          ⟨-, -, _, _, _, hwritten, -⟩ <;> rw [hwritten] <;> simp
      omega
  have hlen : (written data).length = 1 := by omega
  have hz : z.length = 4 := by omega
  obtain ⟨d, hd⟩ := List.length_eq_one_iff.1 hlen
  have hdenotes := denotes_written data
  rw [hd] at hdenotes hrepeats
  have hdigit : ∀ c ∈ z, c ≠ backslash → c = d := by
    intro c hc hne
    have hmem : c ∈ rest := hrest ▸ List.mem_cons_of_mem _ hc
    rw [hrepeats.mem_iff, (repeats_escaped _).mem_iff] at hmem
    rcases List.mem_cons.1 hmem with rfl | hmem
    · exact absurd rfl hne
    · exact List.mem_singleton.1 hmem
  obtain rfl := hdenotes.eq_singleton
  obtain ⟨d₁, d₂, d₃, rfl, h₁, h₂, h₃, hbyte⟩ := h.eq_octal hz
  rw [hdigit d₁ (by simp) (isOctal_ne h₁), hdigit d₂ (by simp) (isOctal_ne h₂),
    hdigit d₃ (by simp) (isOctal_ne h₃)] at hbyte
  rw [hdigit d₁ (by simp) (isOctal_ne h₁)] at h₁
  exact octalByte_self d h₁ hbyte

theorem not_denotes_of_repeats (hsplit : written data = read ++ left)
    (hrepeats : Repeats (escaped left) rest)
    (hlength : rest.length = (escaped left).length + lateDoubled 0 read)
    (hquotes : (escaped left).length ≤ read.count quote) (hlong : left.length < rest.length) :
    ¬ Denotes (read ++ rest) data := by
  intro h
  have hprinted : ∀ c ∈ rest, c = backslash ∨ isRewritten c = false :=
    fun c hc => printed_of_repeats hrepeats hsplit hc
  have hhead : rest.head? = left.head? := hrepeats.head_eq.trans (repeats_escaped left).head_eq
  rcases written_split hsplit with ⟨b₁, b₂, rfl, rfl, rfl⟩ | ⟨b₁, b₂, rfl, rfl, rfl⟩ |
    ⟨b₁, b, b₂, digits, digits', rfl, rfl, rfl, hne, hlen, hdigits⟩
  · have hshort := Denotes.cut_length [] [] hrepeats nofun nofun hprinted
      rfl rfl rfl h.behind_written
    omega
  · match rest with
    | [] => cases hhead
    | c :: z =>
      obtain rfl : c = backslash := Option.some.inj hhead
      rw [List.append_assoc] at h
      obtain ⟨more, hmore, hz⟩ := h.behind_written.of_doubled
      rw [← (List.cons.inj hmore).2] at hz
      exact Denotes.not_cut_backslash hrepeats hlength hquotes
        (fun d hd => hprinted d (List.mem_cons_of_mem _ hd)) rfl hz
  · rw [List.append_assoc] at h
    rw [List.length_append] at hlen
    have hpos := List.length_pos_iff.2 hne
    have hfirst : ∃ e w, digits ++ rest = e :: w ∧ isOctal e = true := by
      match digits, digits', rest with
      | d :: digits, _, rest => exact ⟨d, digits ++ rest, rfl, hdigits d List.mem_cons_self⟩
      | [], d :: _, e :: w =>
        obtain rfl : e = d := Option.some.inj hhead
        exact ⟨e, w, rfl, hdigits e List.mem_cons_self⟩
      | [], _ :: _, [] => cases hhead
    obtain ⟨e, w, hw, he⟩ := hfirst
    have hrest : Denotes (backslash :: (digits ++ rest)) (b :: b₂) := h.behind_written
    rw [hw] at hrest
    obtain ⟨d₂, d₃, z, more, rfl, hmore, h₂, h₃, hz⟩ := hrest.of_octal he
    rw [← (List.cons.inj hmore).2] at hz
    have hcut : rest = [e, d₂, d₃].drop digits.length ++ z := by
      have hle : digits.length ≤ [e, d₂, d₃].length := by
        show _ ≤ 3
        omega
      have hdrop : rest = (digits ++ rest).drop digits.length := List.drop_left.symm
      rw [hdrop, hw]
      exact List.drop_append_of_le_length hle
    have hoctal : ∀ d ∈ [e, d₂, d₃].drop digits.length, isOctal d = true := by
      intro d hd
      have hmem := List.mem_of_mem_drop hd
      simp only [List.mem_cons, List.not_mem_nil, or_false] at hmem
      rcases hmem with rfl | rfl | rfl
      · exact he
      · exact h₂
      · exact h₃
    have hshort := Denotes.cut_length digits' ([e, d₂, d₃].drop digits.length) hrepeats
      (fun d hd => hdigits d (List.mem_append_right digits hd)) hoctal
      (fun c hc => hprinted c (hcut ▸ List.mem_append_right _ hc)) rfl hcut
      (by rw [List.length_drop]; show 3 - digits.length = _; omega) hz
    omega

theorem not_denotes_of_late (behind : UInt8) (hlate : lateDoubled 0 (written data) ≠ 0) :
    ∃ str, defaultUnescapeString behind (escaped (written data)) = some str ∧
      ¬ Denotes str.1 data := by
  obtain ⟨read, left, rest, str, hsplit, heq, hstr, hrepeats, hlength, hquotes⟩ :=
    defaultUnescapeString_escaped behind (zero_notMem_written data)
  refine ⟨str, heq, ?_⟩
  have hmany := lateDoubled_le_countP (0 + read.count quote) left
  rw [hsplit, lateDoubled_append] at hlate
  have hlong : left.length < rest.length := by
    rw [hlength, length_escaped]
    omega
  rw [hstr]
  exact not_denotes_of_repeats hsplit hrepeats hlength hquotes hlong

end Lost

namespace HandlerBin

variable {type : BinType} {data : Bytes}

theorem getSqlFromValue_of_fits (h : literalLength data < 2 ^ 31) (type : BinType) :
    getSqlFromValue ⟨type, data⟩ = .ok (quote :: (escaped (written data) ++ [quote])) := by
  have hrewritten := countP_isRewritten_le data
  have hlength := length_escaped_written data
  have hfits : data.countP isRewritten * 4 < 2 ^ 31 := by omega
  rw [getSqlFromValue, binaryToString_zero_of_fits hfits]
  show (defaultEscapeString (written data)).bind _ = _
  rw [defaultEscapeString_of_fits (by omega)]
  rfl

theorem getSqlFromValue_length {sql : Bytes} (h : getSqlFromValue ⟨type, data⟩ = .ok sql) :
    sql.length = literalLength data ∧ literalLength data ≤ 2 ^ 31 := by
  have hlength := length_escaped_written data
  by_cases hrewritten : data.countP isRewritten * 4 < 2 ^ 31
  · rw [getSqlFromValue, binaryToString_zero_of_fits hrewritten] at h
    change (defaultEscapeString (written data)).bind _ = _ at h
    by_cases hescaped : (escaped (written data)).length + 1 < 2 ^ 31
    · rw [defaultEscapeString_of_fits hescaped] at h
      obtain rfl := Except.ok.inj h
      refine ⟨?_, by omega⟩
      rw [← hlength, List.length_cons, List.length_append, List.length_singleton]
    · rw [defaultEscapeString_of_overflows hescaped] at h
      cases h
  · rw [getSqlFromValue, binaryToString_zero_of_overflows hrewritten] at h
    cases h

theorem getValueFromSql_literal (behind : UInt8) (type : BinType) {s : Bytes}
    (h : s.length + 2 < 2 ^ 31) : getValueFromSql behind (quote :: (s ++ [quote])) type =
      match defaultUnescapeString behind s with
      | some unstr => getValueFromStr unstr type
      | none => .ok none := by
  have hlen : (quote :: (s ++ [quote])).length = s.length + 2 := by
    rw [List.length_cons, List.length_append, List.length_singleton]
  have hi : gint (quote :: (s ++ [quote])).length = s.length + 2 := by
    rw [hlen]
    exact gint_of_bounds (by omega) (by omega)
  have hindex : ((s.length : Int) + 2).toNat - 1 = s.length + 1 := by omega
  have hlast : (quote :: (s ++ [quote])).getD (s.length + 1) 0 = quote := by
    rw [List.getD_cons_succ, List.getD_append_right _ _ _ _ le_rfl, Nat.sub_self]
    rfl
  have hinner : ((quote :: (s ++ [quote])).take (s.length + 1)).drop 1 = s := by
    rw [List.take_succ_cons, List.drop_succ_cons, List.drop_zero, List.take_left]
  rw [getValueFromSql, if_neg (List.cons_ne_nil _ _)]
  simp only [hi, hindex, hlast, hinner]
  rw [if_pos ⟨by omega, rfl, trivial⟩]

theorem literalReadBack_iff (behind : UInt8) (type : BinType) (data : Bytes) :
    LiteralReadBack behind ⟨type, data⟩ ↔ literalLength data < 2 ^ 31 ∧ EarlyQuotes data := by
  have hlength := length_escaped_written data
  rw [earlyQuotes_iff]
  constructor
  · rintro ⟨sql, hsql, hvalue⟩
    obtain ⟨hlen, hle⟩ := getSqlFromValue_length hsql
    have hlt : literalLength data < 2 ^ 31 := by
      by_contra hge
      have hi : gint sql.length = -2 ^ 31 := by
        rw [hlen, show literalLength data = 2 ^ 31 by omega]
        decide
      have hne : sql ≠ [] := by
        rintro rfl
        rw [List.length_nil] at hlen
        omega
      rw [getValueFromSql, if_neg hne] at hvalue
      simp only [hi] at hvalue
      rw [if_neg fun h => absurd h.1 (by decide)] at hvalue
      cases hvalue
    refine ⟨hlt, ?_⟩
    by_contra hlate
    obtain ⟨str, hstr, hnot⟩ := not_denotes_of_late behind hlate
    rw [getSqlFromValue_of_fits hlt] at hsql
    obtain rfl := Except.ok.inj hsql
    rw [getValueFromSql_literal behind type (by omega), hstr] at hvalue
    apply hnot
    rw [← stringToBinary_eq_some]
    change (stringToBinary (some str)).map _ = _ at hvalue
    cases hbin : stringToBinary (some str) with
    | error =>
      rw [hbin] at hvalue
      cases hvalue
    | ok bin =>
      rw [hbin] at hvalue
      cases bin with
      | none => cases hvalue
      | some bin =>
        injection hvalue with hvalue
        injection hvalue with hvalue
        injection hvalue with _ hdata
        rw [hdata]
  · rintro ⟨hlt, hearly⟩
    refine ⟨_, getSqlFromValue_of_fits hlt type, ?_⟩
    rw [getValueFromSql_literal behind type (by omega),
      defaultUnescapeString_of_early behind (zero_notMem_written data) hearly]
    show (stringToBinary (some ⟨written data, _⟩)).map _ = _
    rw [(stringToBinary_eq_some ⟨written data, zero_notMem_written data⟩).2 (denotes_written data)]
    rfl

end HandlerBin

theorem textReadBack_of_fits {data : Bytes} (h : literalLength data < 2 ^ 31) :
    TextReadBack data := by
  have hrewritten := countP_isRewritten_le data
  refine ⟨⟨written data, zero_notMem_written data⟩, binaryToString_zero_of_fits (by omega), ?_⟩
  exact (stringToBinary_eq_some _).2 (denotes_written data)

theorem refusedForEscape (str : CBytes) : RefusedForEscape str := by
  refine ⟨?_, stringToBinary_eq_none str⟩
  rcases stringToBinary_cases str with ⟨data, -, heq⟩ | ⟨-, heq⟩
  · exact ⟨some data, heq⟩
  · exact ⟨none, heq⟩

/-- The round trips of binary data hold exactly when the literal's length is an `int` and at most
one quote is before each byte which it escapes. -/
theorem binaryRoundTrips_iff (behind : UInt8) (value : BinValue) (n : Nat) (str : CBytes) :
    (TextReadBack value.data ∧ LiteralReadBack behind value ∧
      (0 < n → binaryToString value.data n =
        binaryToString (value.data.take (min n value.data.length)) 0) ∧ RefusedForEscape str) ↔
    literalLength value.data < 2 ^ 31 ∧ EarlyQuotes value.data := by
  constructor
  · rintro ⟨-, hliteral, -, -⟩
    exact (HandlerBin.literalReadBack_iff behind value.type value.data).1 hliteral
  · intro h
    refine ⟨textReadBack_of_fits h.1, ?_, fun hn => binaryToString_limited hn _,
      refusedForEscape str⟩
    exact (HandlerBin.literalReadBack_iff behind value.type value.data).2 h

theorem threeQuotes_readBack : ¬ ∀ (behind : UInt8) (value : BinValue), LiteralReadBack behind
    value := by
  intro h
  obtain ⟨sql, hsql, hvalue⟩ := h 0 ⟨.binary, [quote, quote, quote]⟩
  have hwritten : HandlerBin.getSqlFromValue ⟨.binary, [quote, quote, quote]⟩ =
      .ok [quote, quote, quote, quote, quote, quote, quote, quote] := by decide
  have hread : HandlerBin.getValueFromSql 0
      [quote, quote, quote, quote, quote, quote, quote, quote] .binary =
      .ok (some ⟨.binary, [quote, quote, quote, quote]⟩) := by decide
  rw [hwritten] at hsql
  obtain rfl := Except.ok.inj hsql
  rw [hread] at hvalue
  exact absurd hvalue (by decide)

end LibGda
