import LibGda.AlphanumText
import LibGda.NumeralReading
import LibGda.XaTransaction

/-! `gda_xa_transaction_id_to_string` and `gda_xa_transaction_string_to_id`. -/

namespace LibGda

open RunInvariant DecimalText

/-- A write outside the text or the `data` of an id. -/
inductive XidFault where
  | outside
  deriving DecidableEq

def xidSize : Nat := 128 * 3 + 15

section Writing

def putText (text piece : Bytes) (terminator : Nat) : Except XidFault Bytes :=
  if text.length + piece.length + terminator ≤ xidSize then .ok (text ++ piece) else .error .outside

/-- `%%%02x`; the character is promoted as a signed one. -/
def percentText (b : UInt8) : Bytes :=
  let hex := hexText (printedChar b)
  byte '%' :: (if hex.length < 2 then byte '0' :: hex else hex)

def putXidChar (text : Bytes) (b : UInt8) : Except XidFault Bytes :=
  if isAlphanum b then putText text [b] 0 else putText text (percentText b) 1

/-- `gda_xa_transaction_id_to_string`: the format is written at the beginning of the text. -/
def xaTransactionIdToString (xid : GdaXaTransactionId) : Except XidFault CBytes := do
  let text ← (xid.data.take xid.gtridLength).foldlM putXidChar []
  let text ← putText text [byte ','] 0
  let text ← ((xid.data.drop xid.gtridLength).take xid.bqualLength).foldlM putXidChar text
  let text ← putText text [byte ','] 0
  let format := decimalInt ((xid.format : Int).bmod (2 ^ 32))
  .ok (cString (format ++ 0 :: text.drop (format.length + 1)))

end Writing

section Reading

/-- `xid->data [index]` gets a value. -/
def storeChar (data : Bytes) (b : UInt8) : Except XidFault Bytes :=
  if data.length < 128 then .ok (data ++ [b]) else .error .outside

/-- The two loops, with what `data` has so far; nothing when they give an error. -/
def readXidChars (limit : Nat) : Bytes → Bytes → Except XidFault (Option (Bytes × Bytes))
  | data, [] => .ok (some (data, []))
  | data, c :: s =>
    if c = byte ',' then .ok (some (data, c :: s))
    else if limit ≤ data.length then .ok none
    else if c = byte '%' then
      match s with
      | high :: low :: s =>
        match hexNibble high, hexNibble low with
        | some _, some x => do
          -- the second digit is stored over sixteen times the first one
          let data ← storeChar data x
          readXidChars limit data s
        | _, _ => .ok none
      | _ => .ok none
    else if isAlphanum c then do
      let data ← storeChar data c
      readXidChars limit data s
    else .ok none

/-- `g_ascii_strtoll` and the checks of the format. -/
def readXidFormat (s : Bytes) : Option Nat :=
  let (tmp, endptr) := strtol s
  if endptr ≠ [] ∨ tmp < 0 ∨ 2 ^ 32 - 1 ≤ tmp then none else some tmp.toNat

def xaTransactionStringToId (str : Bytes) : Except XidFault (Option GdaXaTransactionId) := do
  match ← readXidChars 64 [] str with
  | some (gtrid, _ :: s) =>
    match ← readXidChars 128 gtrid s with
    | some (data, _ :: s) =>
      .ok ((readXidFormat s).map fun format =>
        ⟨format, gtrid.length, data.length - gtrid.length,
          data ++ List.replicate (128 - data.length) 0⟩)
    | _ => .ok none
  | _ => .ok none

end Reading

section Contract

structure XidInRange where
  xid : GdaXaTransactionId
  format_lt : xid.format < 2 ^ 32
  gtrid_le : xid.gtridLength ≤ 64
  bqual_le : xid.bqualLength ≤ 64
  length_data : xid.data.length = 128

def GdaXaTransactionId.used (xid : GdaXaTransactionId) : Bytes :=
  xid.data.take (xid.gtridLength + xid.bqualLength)

def XidRoundTrips (xid : GdaXaTransactionId) : Prop :=
  ∃ text back, xaTransactionIdToString xid = .ok text ∧
    xaTransactionStringToId text.1 = .ok (some back) ∧ back.format = xid.format ∧
    back.gtridLength = xid.gtridLength ∧ back.bqualLength = xid.bqualLength ∧ back.used = xid.used

def XidTextFits (xid : GdaXaTransactionId) : Prop :=
  ∃ text, xaTransactionIdToString xid = .ok text

/-- The characters of a `gtrid` or a `bqual`, and how many bytes they stand for. -/
inductive XidChars : Bytes → Nat → Prop where
  | nil : XidChars [] 0
  | plain {c : UInt8} {s : Bytes} {n : Nat} (hc : isAlphanum c = true) (hs : XidChars s n) :
      XidChars (c :: s) (n + 1)
  | escaped {high low : UInt8} {s : Bytes} {n : Nat} (hhigh : (hexNibble high).isSome = true)
      (hlow : (hexNibble low).isSome = true) (hs : XidChars s n) :
      XidChars (byte '%' :: high :: low :: s) (n + 1)

/-- The parts of `gtrid,bqual,formatID`, and the bytes of the first two. -/
structure XidParts (str gtrid bqual format : Bytes) (n m : Nat) : Prop where
  text : str = gtrid ++ byte ',' :: (bqual ++ byte ',' :: format)
  gtrid_chars : XidChars gtrid n
  bqual_chars : XidChars bqual m

def IsFormatText (s : Bytes) : Prop :=
  s ≠ [] ∧ (∀ d ∈ s, IsDigit d) ∧ number 0 s < 2 ^ 32

def IsXidText (str : Bytes) : Prop :=
  ∃ gtrid bqual format n m, XidParts str gtrid bqual format n m ∧ n ≤ 64 ∧ m ≤ 64 ∧
    IsFormatText format

def RefusesOthers (str : Bytes) : Prop :=
  ∃ xid, xaTransactionStringToId str = .ok xid ∧ (xid ≠ none → IsXidText str)

/-- A text with too long a `bqual`, though not with too many bytes in all, or with a number which
only `g_ascii_strtoll` takes for one. -/
def IsLooseXidText (str : Bytes) : Prop :=
  ∃ gtrid bqual format n m, XidParts str gtrid bqual format n m ∧ n ≤ 64 ∧ n + m ≤ 128 ∧
    readXidFormat format ≠ none ∧ (64 < m ∨ ¬ IsFormatText format)

def xidWidth (b : UInt8) : Nat := if isAlphanum b then 1 else if b < 128 then 3 else 9

end Contract

section Texts

variable {text t : Bytes} {limit : Nat} {data s : Bytes}

theorem length_percentText (b : UInt8) : (percentText b).length = if b < 128 then 3 else 9 := by
  have hcheck : ∀ n < 256, (percentText (UInt8.ofNat n)).length =
      if UInt8.ofNat n < 128 then 3 else 9 := by decide +kernel
  have hb := hcheck b.toNat b.toNat_lt
  rwa [UInt8.ofNat_toNat] at hb

theorem putText_ok {piece : Bytes} {terminator : Nat} (h : putText text piece terminator = .ok t) :
    text.length + piece.length + terminator ≤ xidSize ∧ t = text ++ piece := by
  rw [putText] at h
  split at h
  · next hle => exact ⟨hle, (Except.ok.inj h).symm⟩
  · cases h

theorem putXidChar_ok {b : UInt8} (h : putXidChar text b = .ok t) :
    t.length = text.length + xidWidth b := by
  rw [putXidChar] at h
  by_cases hb : isAlphanum b = true
  · rw [if_pos hb] at h
    obtain ⟨-, rfl⟩ := putText_ok h
    simp [xidWidth, hb]
  · rw [if_neg hb] at h
    obtain ⟨-, rfl⟩ := putText_ok h
    simp [xidWidth, hb, length_percentText]

theorem putXidChar_fits (text : Bytes) (b : UInt8) (h : text.length + xidWidth b + 1 ≤ xidSize) :
    ∃ t, putXidChar text b = .ok t := by
  rw [putXidChar]
  by_cases hb : isAlphanum b = true
  · have hle : text.length + [b].length + 0 ≤ xidSize := by
      simp [xidWidth, hb] at h
      simp only [List.length_singleton]
      omega
    exact ⟨_, (if_pos hb).trans (if_pos hle)⟩
  · have hle : text.length + (percentText b).length + 1 ≤ xidSize := by
      simpa [xidWidth, hb, length_percentText] using h
    exact ⟨_, (if_neg hb).trans (if_pos hle)⟩

theorem putXidChars_ok {bs : Bytes} (h : bs.foldlM putXidChar text = .ok t) :
    t.length = text.length + (bs.map xidWidth).sum := by
  induction bs generalizing text with
  | nil =>
    obtain rfl := Except.ok.inj h
    simp
  | cons b bs ih =>
    rw [List.foldlM_cons] at h
    obtain ⟨u, hu, hrest⟩ := bind_ok h
    have hlen := ih hrest
    rw [putXidChar_ok hu] at hlen
    simp only [List.map_cons, List.sum_cons]
    omega

theorem putXidChars_fits (bs text : Bytes) (h : text.length + (bs.map xidWidth).sum + 1 ≤ xidSize) :
    ∃ t, bs.foldlM putXidChar text = .ok t := by
  induction bs generalizing text with
  | nil => exact ⟨text, rfl⟩
  | cons b bs ih =>
    simp only [List.map_cons, List.sum_cons] at h
    obtain ⟨u, hu⟩ := putXidChar_fits text b (by omega)
    have hlen := putXidChar_ok hu
    obtain ⟨t, ht⟩ := ih u (by omega)
    exact ⟨t, by rw [List.foldlM_cons]; exact bind_of_ok hu ht⟩

theorem sum_used (xid : GdaXaTransactionId) : (xid.used.map xidWidth).sum =
    ((xid.data.take xid.gtridLength).map xidWidth).sum +
      (((xid.data.drop xid.gtridLength).take xid.bqualLength).map xidWidth).sum := by
  rw [GdaXaTransactionId.used, List.take_add, List.map_append, List.sum_append]

theorem xidTextFits_iff (xid : GdaXaTransactionId) :
    XidTextFits xid ↔ (xid.used.map xidWidth).sum + 2 ≤ xidSize := by
  rw [sum_used]
  constructor
  · intro ⟨text, h⟩
    obtain ⟨t₁, h₁, h⟩ := bind_ok h
    obtain ⟨t₂, h₂, h⟩ := bind_ok h
    obtain ⟨t₃, h₃, h⟩ := bind_ok h
    obtain ⟨t₄, h₄, -⟩ := bind_ok h
    have hlen₁ := putXidChars_ok h₁
    obtain ⟨-, rfl⟩ := putText_ok h₂
    have hlen₃ := putXidChars_ok h₃
    obtain ⟨hle, -⟩ := putText_ok h₄
    simp only [List.length_nil, List.length_append, List.length_singleton] at hlen₁ hlen₃ hle
    omega
  · intro hle
    obtain ⟨t₁, h₁⟩ := putXidChars_fits (xid.data.take xid.gtridLength) []
      (by simp only [List.length_nil]; omega)
    have hlen₁ := putXidChars_ok h₁
    simp only [List.length_nil] at hlen₁
    have h₂ : putText t₁ [byte ','] 0 = .ok (t₁ ++ [byte ',']) :=
      if_pos (by simp only [List.length_singleton]; omega)
    obtain ⟨t₃, h₃⟩ := putXidChars_fits
      ((xid.data.drop xid.gtridLength).take xid.bqualLength) (t₁ ++ [byte ','])
      (by simp only [List.length_append, List.length_singleton]; omega)
    have hlen₃ := putXidChars_ok h₃
    simp only [List.length_append, List.length_singleton] at hlen₃
    have h₄ : putText t₃ [byte ','] 0 = .ok (t₃ ++ [byte ',']) :=
      if_pos (by simp only [List.length_singleton]; omega)
    exact ⟨_, bind_of_ok h₁ (bind_of_ok h₂ (bind_of_ok h₃ (bind_of_ok h₄ rfl)))⟩

end Texts

section Ids

variable {str gtrid bqual format gtrid' bqual' format' : Bytes} {n m n' m' : Nat}
variable {limit : Nat} {data data' s rest : Bytes}

theorem storeChar_ok {b : UInt8} (h : storeChar data b = .ok data') :
    data'.length = data.length + 1 := by
  rw [storeChar] at h
  split at h
  · obtain rfl := Except.ok.inj h
    exact List.length_append
  · cases h

theorem readXidChars_sound (h : readXidChars limit data s = .ok (some (data', rest))) :
    ∃ g n, s = g ++ rest ∧ XidChars g n ∧ (rest = [] ∨ ∃ r, rest = byte ',' :: r) ∧
      data'.length = data.length + n ∧ (n = 0 ∨ data.length + n ≤ limit) := by
  induction hs : s.length using Nat.strong_induction_on generalizing data s with
  | _ k ih =>
  subst hs
  cases s with
  | nil =>
    simp only [readXidChars, Except.ok.injEq, Option.some.injEq, Prod.mk.injEq] at h
    obtain ⟨rfl, rfl⟩ := h
    exact ⟨[], 0, rfl, .nil, .inl rfl, rfl, .inl rfl⟩
  | cons c s =>
    rw [readXidChars.eq_def] at h
    simp only at h
    by_cases hcomma : c = byte ','
    · rw [if_pos hcomma] at h
      simp only [Except.ok.injEq, Option.some.injEq, Prod.mk.injEq] at h
      obtain ⟨rfl, rfl⟩ := h
      exact ⟨[], 0, rfl, .nil, .inr ⟨s, by rw [hcomma]⟩, rfl, .inl rfl⟩
    rw [if_neg hcomma] at h
    by_cases hlimit : limit ≤ data.length
    · rw [if_pos hlimit] at h
      cases h
    rw [if_neg hlimit] at h
    by_cases hpercent : c = byte '%'
    · rw [if_pos hpercent] at h
      cases s with
      | nil => cases h
      | cons high s =>
        cases s with
        | nil => cases h
        | cons low s =>
          cases hhigh : hexNibble high with
          | none => simp [hhigh] at h
          | some x =>
            cases hlow : hexNibble low with
            | none => simp [hhigh, hlow] at h
            | some y =>
              simp only [hhigh, hlow] at h
              obtain ⟨data₁, hstore, hread⟩ := bind_ok h
              obtain ⟨g, n, rfl, hg, hrest, hlen, hbound⟩ :=
                ih _ (by simp only [List.length_cons]; omega) hread rfl
              have hone := storeChar_ok hstore
              refine ⟨c :: high :: low :: g, n + 1, rfl, ?_, hrest, by omega, by omega⟩
              rw [hpercent]
              exact .escaped (by simp [hhigh]) (by simp [hlow]) hg
    rw [if_neg hpercent] at h
    by_cases hc : isAlphanum c = true
    · rw [if_pos hc] at h
      obtain ⟨data₁, hstore, hread⟩ := bind_ok h
      obtain ⟨g, n, rfl, hg, hrest, hlen, hbound⟩ :=
        ih _ (by simp only [List.length_cons]; omega) hread rfl
      have hone := storeChar_ok hstore
      exact ⟨c :: g, n + 1, rfl, .plain hc hg, hrest, by omega, by omega⟩
    · rw [if_neg hc] at h
      cases h

theorem not_delimiter {c : UInt8} (hc : isAlphanum c = true) : c ≠ byte ',' ∧ c ≠ byte '%' := by
  constructor
  · intro he
    rw [he] at hc
    exact absurd hc (by decide)
  · intro he
    rw [he] at hc
    exact absurd hc (by decide)

theorem XidChars.read_in {g : Bytes} (limit : Nat) (data : Bytes) (h : XidChars g n)
    (hrest : rest = [] ∨ ∃ r, rest = byte ',' :: r) (hlen : data.length + n ≤ limit)
    (hlimit : limit ≤ 128) :
    ∃ data', readXidChars limit data (g ++ rest) = .ok (some (data', rest)) ∧
      data'.length = data.length + n := by
  induction h generalizing data with
  | nil =>
    refine ⟨data, ?_, rfl⟩
    obtain rfl | ⟨r, rfl⟩ := hrest
    · rfl
    · rw [List.nil_append, readXidChars.eq_def]
      exact if_pos rfl
  | @plain c s n hc hs ih =>
    obtain ⟨hcomma, hpercent⟩ := not_delimiter hc
    have hstore : storeChar data c = .ok (data ++ [c]) := if_pos (by omega)
    obtain ⟨data', hread, hlen'⟩ := @ih (data ++ [c]) (by simp; omega)
    refine ⟨data', ?_, by simp at hlen'; omega⟩
    rw [List.cons_append, readXidChars.eq_def]
    simp only [if_neg hcomma, if_neg hpercent, if_pos hc]
    exact (if_neg (by omega)).trans (bind_of_ok hstore hread)
  | @escaped high low s n hhigh hlow hs ih =>
    obtain ⟨x, hx⟩ := Option.isSome_iff_exists.mp hhigh
    obtain ⟨y, hy⟩ := Option.isSome_iff_exists.mp hlow
    have hstore : storeChar data y = .ok (data ++ [y]) := if_pos (by omega)
    obtain ⟨data', hread, hlen'⟩ := @ih (data ++ [y]) (by simp; omega)
    refine ⟨data', ?_, by simp at hlen'; omega⟩
    have hcomma : byte '%' ≠ byte ',' := by decide
    rw [List.cons_append, List.cons_append, List.cons_append, readXidChars, if_neg hcomma,
      if_neg (by omega), if_pos rfl]
    simp only [hx, hy]
    exact bind_of_ok hstore hread

theorem readXidChars_total (limit : Nat) (hlimit : limit ≤ 128) (data s : Bytes) :
    ∃ r, readXidChars limit data s = .ok r := by
  induction hs : s.length using Nat.strong_induction_on generalizing data s with
  | _ k ih =>
  subst hs
  cases s with
  | nil => exact ⟨_, rfl⟩
  | cons c s =>
    rw [readXidChars.eq_def]
    simp only
    by_cases hcomma : c = byte ','
    · exact ⟨_, if_pos hcomma⟩
    rw [if_neg hcomma]
    by_cases hle : limit ≤ data.length
    · exact ⟨_, if_pos hle⟩
    rw [if_neg hle]
    have hstore (b : UInt8) : storeChar data b = .ok (data ++ [b]) := if_pos (by omega)
    by_cases hpercent : c = byte '%'
    · rw [if_pos hpercent]
      cases s with
      | nil => exact ⟨_, rfl⟩
      | cons high s =>
        cases s with
        | nil => exact ⟨_, rfl⟩
        | cons low s =>
          cases hhigh : hexNibble high with
          | none => exact ⟨none, by simp [hhigh]⟩
          | some x =>
            cases hlow : hexNibble low with
            | none => exact ⟨none, by simp [hhigh, hlow]⟩
            | some y =>
              obtain ⟨r, hr⟩ := ih _ (by simp only [List.length_cons]; omega) (data ++ [y]) s rfl
              simp only [hhigh, hlow]
              exact ⟨r, bind_of_ok (hstore y) hr⟩
    rw [if_neg hpercent]
    by_cases hc : isAlphanum c = true
    · rw [if_pos hc]
      obtain ⟨r, hr⟩ := ih _ (by simp only [List.length_cons]; omega) (data ++ [c]) s rfl
      exact ⟨r, bind_of_ok (hstore c) hr⟩
    · exact ⟨_, if_neg hc⟩

theorem XidParts.reads (h : XidParts str gtrid bqual format n m) (hn : n ≤ 64)
    (hnm : n + m ≤ 128) :
    ∃ data data', readXidChars 64 [] str =
      .ok (some (data, byte ',' :: (bqual ++ byte ',' :: format))) ∧
      readXidChars 128 data (bqual ++ byte ',' :: format) = .ok (some (data', byte ',' :: format)) ∧
      data.length = n ∧ data'.length = n + m := by
  obtain ⟨data, hread, hlen⟩ := XidChars.read_in 64 [] h.gtrid_chars
    (.inr ⟨bqual ++ byte ',' :: format, rfl⟩) (by simpa using hn) (by decide)
  have hdata : data.length = n := by simpa using hlen
  obtain ⟨data', hread', hlen'⟩ := XidChars.read_in 128 data h.bqual_chars
    (.inr ⟨format, rfl⟩) (by omega) le_rfl
  refine ⟨data, data', ?_, hread', hdata, by omega⟩
  rw [h.text]
  exact hread

theorem XidParts.unique (h : XidParts str gtrid bqual format n m)
    (h' : XidParts str gtrid' bqual' format' n' m') (hn : n ≤ 64) (hnm : n + m ≤ 128)
    (hn' : n' ≤ 64) (hnm' : n' + m' ≤ 128) : m = m' ∧ format = format' := by
  obtain ⟨data, data₂, hread, hread₂, hlen, hlen₂⟩ := h.reads hn hnm
  obtain ⟨data', data₂', hread', hread₂', hlen', hlen₂'⟩ := h'.reads hn' hnm'
  rw [hread] at hread'
  simp only [Except.ok.injEq, Option.some.injEq, Prod.mk.injEq, List.cons.injEq, true_and]
    at hread'
  obtain ⟨rfl, hbehind⟩ := hread'
  rw [hbehind, hread₂'] at hread₂
  simp only [Except.ok.injEq, Option.some.injEq, Prod.mk.injEq, List.cons.injEq, true_and]
    at hread₂
  obtain ⟨rfl, rfl⟩ := hread₂
  exact ⟨by omega, rfl⟩

theorem XidParts.stringToId (h : XidParts str gtrid bqual format n m) (hn : n ≤ 64)
    (hnm : n + m ≤ 128) (hformat : readXidFormat format ≠ none) :
    ∃ xid, xaTransactionStringToId str = .ok (some xid) := by
  obtain ⟨data, data', hread, hread', -, -⟩ := h.reads hn hnm
  obtain ⟨v, hv⟩ := Option.ne_none_iff_exists'.mp hformat
  have hall : xaTransactionStringToId str = .ok ((readXidFormat format).map fun format =>
      ⟨format, data.length, data'.length - data.length,
        data' ++ List.replicate (128 - data'.length) 0⟩) :=
    bind_of_ok hread (bind_of_ok hread' rfl)
  rw [hv] at hall
  exact ⟨_, hall⟩

theorem parts_of_stringToId {xid : GdaXaTransactionId}
    (h : xaTransactionStringToId str = .ok (some xid)) :
    ∃ gtrid bqual format n m, XidParts str gtrid bqual format n m ∧ n ≤ 64 ∧ n + m ≤ 128 ∧
      readXidFormat format ≠ none := by
  obtain ⟨r, hread, h⟩ := bind_ok h
  split at h
  · next data c s =>
    obtain ⟨r', hread', h⟩ := bind_ok h
    split at h
    · next data' c' s' =>
      obtain ⟨g, n, hstr, hg, hg', hlen, hbound⟩ := readXidChars_sound hread
      obtain ⟨b, m, hs, hb, hb', hlen', hbound'⟩ := readXidChars_sound hread'
      obtain ⟨r₁, hr₁⟩ : ∃ r, c :: s = byte ',' :: r := by simpa using hg'
      obtain ⟨r₂, hr₂⟩ : ∃ r, c' :: s' = byte ',' :: r := by simpa using hb'
      obtain ⟨rfl, rfl⟩ := List.cons.inj hr₁
      obtain ⟨rfl, rfl⟩ := List.cons.inj hr₂
      simp only [List.length_nil, Nat.zero_add] at hlen hbound
      refine ⟨g, b, s', n, m, ⟨?_, hg, hb⟩, by omega, by omega, ?_⟩
      · rw [hstr, hs]
      · intro hnone
        rw [hnone] at h
        cases h
    · cases h
  · cases h

theorem stringToId_total (str : Bytes) : ∃ xid, xaTransactionStringToId str = .ok xid := by
  obtain ⟨r, hr⟩ := readXidChars_total 64 (by decide) [] str
  match r, hr with
  | some (data, _ :: s), hr =>
    obtain ⟨r', hr'⟩ := readXidChars_total 128 le_rfl data s
    match r', hr' with
    | some (data', _ :: s'), hr' => exact ⟨_, bind_of_ok hr (bind_of_ok hr' rfl)⟩
    | some (data', []), hr' => exact ⟨_, bind_of_ok hr (bind_of_ok hr' rfl)⟩
    | none, hr' => exact ⟨_, bind_of_ok hr (bind_of_ok hr' rfl)⟩
  | some (data, []), hr => exact ⟨_, bind_of_ok hr rfl⟩
  | none, hr => exact ⟨_, bind_of_ok hr rfl⟩

theorem refusesOthers_iff (str : Bytes) : RefusesOthers str ↔ ¬ IsLooseXidText str := by
  constructor
  · intro ⟨xid, hxid, himp⟩ ⟨gtrid, bqual, format, n, m, hparts, hn, hnm, hformat, hloose⟩
    obtain ⟨xid', hxid'⟩ := hparts.stringToId hn hnm hformat
    have hsome : xid ≠ none := by
      rw [hxid'] at hxid
      rw [← Except.ok.inj hxid]
      exact Option.some_ne_none xid'
    obtain ⟨gtrid', bqual', format', n', m', hparts', hn', hm', htext⟩ := himp hsome
    obtain ⟨rfl, rfl⟩ := hparts.unique hparts' hn hnm hn' (by omega)
    rcases hloose with hlong | hno
    · omega
    · exact hno htext
  · intro hnot
    obtain ⟨xid, hxid⟩ := stringToId_total str
    refine ⟨xid, hxid, fun hsome => ?_⟩
    obtain ⟨x, rfl⟩ := Option.ne_none_iff_exists'.mp hsome
    obtain ⟨gtrid, bqual, format, n, m, hparts, hn, hnm, hformat⟩ := parts_of_stringToId hxid
    have hstrict : m ≤ 64 ∧ IsFormatText format := by
      by_contra hno
      exact hnot ⟨gtrid, bqual, format, n, m, hparts, hn, hnm, hformat,
        (not_and_or.mp hno).imp Nat.lt_of_not_le id⟩
    exact ⟨gtrid, bqual, format, n, m, hparts, hn, hstrict.1, hstrict.2⟩

theorem comma_notMem_decimalInt (i : Int) : byte ',' ∉ decimalInt i := by
  have hdigit : ∀ k : Nat, byte ',' ∉ decimal k := fun k hmem =>
    absurd (isDigit_of_mem_decimal k _ hmem) (by decide)
  rw [decimalInt]
  split
  · intro hmem
    rcases List.mem_cons.mp hmem with he | hmem
    · exact absurd he (by decide)
    · exact hdigit _ hmem
  · exact hdigit _

theorem idToString_format {xid : GdaXaTransactionId} {text : CBytes}
    (h : xaTransactionIdToString xid = .ok text) :
    text.1 = decimalInt ((xid.format : Int).bmod (2 ^ 32)) := by
  obtain ⟨t₁, -, h⟩ := bind_ok h
  obtain ⟨t₂, -, h⟩ := bind_ok h
  obtain ⟨t₃, -, h⟩ := bind_ok h
  obtain ⟨t₄, -, h⟩ := bind_ok h
  rw [← Except.ok.inj h]
  exact cString_append _ _ (zero_notMem_decimalInt _)

theorem not_xidRoundTrips (xid : GdaXaTransactionId) : ¬ XidRoundTrips xid := by
  intro ⟨text, back, htext, hback, _⟩
  obtain ⟨gtrid, bqual, format, n, m, hparts, _⟩ := parts_of_stringToId hback
  have hcomma : byte ',' ∈ text.1 := by
    rw [hparts.text]
    exact List.mem_append_right _ List.mem_cons_self
  rw [idToString_format htext] at hcomma
  exact comma_notMem_decimalInt _ hcomma

/-- No id comes back from its text; the text of an id is inside its buffer when it is short enough;
other texts are refused but for those of a loose form. -/
theorem xidText_contract (id : XidInRange) (str : CBytes) :
    ¬ XidRoundTrips id.xid ∧
      (XidTextFits id.xid ↔ (id.xid.used.map xidWidth).sum + 2 ≤ xidSize) ∧
      (RefusesOthers str.1 ↔ ¬ IsLooseXidText str.1) :=
  ⟨not_xidRoundTrips id.xid, xidTextFits_iff id.xid, refusesOthers_iff str.1⟩

/-- The text of the id of one byte `a` and format 5 is `5`, which is no text of an id. -/
theorem oneByte_lost : ¬ XidRoundTrips ⟨5, 1, 0, byte 'a' :: List.replicate 127 0⟩ := by
  intro ⟨text, back, htext, hback, _⟩
  have hfive : text.1 = bytes "5" := by
    rw [← Except.ok.inj htext]
    rfl
  rw [hfive] at hback
  exact absurd (Except.ok.inj hback) (by simp)

end Ids

end LibGda
