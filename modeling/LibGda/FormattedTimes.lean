import LibGda.FormattedDates
import Mathlib.Data.Nat.ModEq

/-! What `gda_parse_formatted_time` makes of a text, and of what is written loosely in it. -/

namespace LibGda

open DecimalText

section Texts

/-- `GMT`, `UTC`, `UT` or `Z`, in any case. -/
def isUtcName : Bytes → Bool
  | [b₁, b₂, b₃] =>
    (eitherCase 'G' 'g' b₁ && eitherCase 'M' 'm' b₂ && eitherCase 'T' 't' b₃) ||
      (eitherCase 'U' 'u' b₁ && eitherCase 'T' 't' b₂ && eitherCase 'C' 'c' b₃)
  | [b₁, b₂] => eitherCase 'U' 'u' b₁ && eitherCase 'T' 't' b₂
  | [b] => eitherCase 'Z' 'z' b
  | _ => false

/-- The time zones which the system has: it may know the names of UTC, and rejects the others. -/
structure UtcZones where
  offset : Bytes → Option Int64
  utc_offset {name : Bytes} {o : Int64} (h : offset name = some o) : isUtcName name = true ∧ o = 0

inductive ZoneText where
  | absent
  | offset (sign : UInt8) (digits : Bytes)
  | named (blanks name : Bytes)

structure TimeParts where
  hour : Bytes
  minute : Bytes
  second : Bytes
  fraction : Option Bytes
  zone : ZoneText

def ZoneText.text : ZoneText → Bytes
  | absent => []
  | offset sign digits => sign :: digits
  | named blanks name => blanks ++ name

def ZoneText.value : ZoneText → Int
  | absent => timezoneInvalid.toInt
  | offset sign digits => (if sign = byte '-' then -1 else 1) * (number 0 digits * 3600 : Nat)
  | named _ _ => 0

def ZoneText.WellFormed : ZoneText → Prop
  | absent => True
  | offset sign digits =>
    (sign = byte '+' ∨ sign = byte '-') ∧ digits ≠ [] ∧ (∀ b ∈ digits, IsDigit b) ∧
      number 0 digits < 24
  | named blanks name => blanks = [] ∧ isUtcName name = true

def joint (sep : UInt8) (s : Bytes) : Bytes := if sep = 0 then s else sep :: s

def TimeParts.behind (p : TimeParts) : Bytes :=
  p.fraction.elim [] (fun f => byte '.' :: f) ++ p.zone.text

def TimeParts.fromSecond (sep : UInt8) (p : TimeParts) : Bytes := joint sep (p.second ++ p.behind)

def TimeParts.fromMinute (sep : UInt8) (p : TimeParts) : Bytes :=
  joint sep (p.minute ++ p.fromSecond sep)

structure IsField (max : Nat) (digits rest : Bytes) : Prop where
  isDigit : ∀ b ∈ digits, IsDigit b
  ends : EndsDigits 2 digits rest
  le_max : number 0 digits ≤ max

structure IsWritten (sep : UInt8) (value : Bytes) (p : TimeParts) : Prop where
  text : value = p.hour ++ p.fromMinute sep
  hour : IsField 23 p.hour (p.fromMinute sep)
  minute : IsField 59 p.minute (p.fromSecond sep)
  second : IsField 59 p.second p.behind
  hour_ne : p.hour ≠ []
  isDigit : ∀ f ∈ p.fraction, ∀ b ∈ f, IsDigit b

/-- No part is missing or of another form, and the fraction fits an `unsigned long`. -/
structure TimeParts.Strict (p : TimeParts) : Prop where
  minute : p.minute ≠ []
  second : p.second ≠ []
  fraction : ∀ f ∈ p.fraction, f ≠ [] ∧ number 0 f < 2 ^ 64
  zone : p.zone.WellFormed

structure TimeParts.Exact (p : TimeParts) (t : GdaTime) : Prop where
  hour : t.hour.toNat = number 0 p.hour
  minute : t.minute.toNat = number 0 p.minute
  second : t.second.toNat = number 0 p.second
  fraction : t.fraction.toNat = number 0 (p.fraction.getD [])
  timezone : t.timezone.toInt = p.zone.value

def ReadsTimeText (zones : UtcZones) (sep : UInt8) (value : Bytes) : Prop :=
  ∀ t, parseFormattedTime zones.offset value sep = some t →
    ∃ p, IsWritten sep value p ∧ p.minute ≠ [] ∧ p.second ≠ [] ∧ (∀ f ∈ p.fraction, f ≠ []) ∧
      p.zone.WellFormed ∧ p.Exact t

end Texts

section Scanning

def leading (limit : Nat) (s : Bytes) : Bytes × Bytes :=
  let digits := (s.take limit).takeWhile fun b => IsDigit b
  (digits, s.drop digits.length)

def scanField (max : Nat) (s : Bytes) : Option (Bytes × Bytes) :=
  if number 0 (leading 2 s).1 ≤ max then some (leading 2 s) else none

def scanFraction (s : Bytes) : Option (Option Bytes × Bytes) :=
  match s with
  | b :: t =>
    if b = byte '.' then
      if t = [] then none
      else
        (DecimalText.folded fractionDigit 0 (leading t.length t).1).map fun _ =>
          (some (leading t.length t).1, (leading t.length t).2)
    else some (none, s)
  | [] => some (none, s)

def isComparedName : Bytes → Bool
  | [b₁, b₂] => eitherCase 'T' 'u' b₁ && eitherCase 'U' 'u' b₂
  | name => isUtcName name

def scanZone (s : Bytes) : Option (ZoneText × Bytes) :=
  match s with
  | [] => some (.absent, [])
  | b :: t =>
    if b = byte '+' ∨ b = byte '-' then
      if number 0 (leading t.length t).1 < 24 then
        some (.offset b (leading t.length t).1, (leading t.length t).2)
      else none
    else if isComparedName (s.dropWhile asciiIsSpace) = true then
      some (.named (s.takeWhile asciiIsSpace) (s.dropWhile asciiIsSpace), [])
    else none

/-- The parts of a text which `_parse_iso8601_time` accepts. -/
def scanParts (sep : UInt8) (value : Bytes) : Option (TimeParts × Bytes) := do
  if ¬ ∃ b ∈ value.head?, IsDigit b then none
  else
    let (hour, s) ← scanField 23 value
    let s ← skipSeparator sep s
    let (minute, s) ← scanField 59 s
    let s ← skipSeparator sep s
    let (second, s) ← scanField 59 s
    if continuesTime s = false then some (⟨hour, minute, second, none, .absent⟩, s)
    else
      let (fraction, s) ← scanFraction s
      let (zone, s) ← scanZone s
      some (⟨hour, minute, second, fraction, zone⟩, s)

def scanTime (sep : UInt8) (value : Bytes) : Option TimeParts :=
  match scanParts sep value with
  | some (p, []) => some p
  | _ => none

def TimeParts.stored (p : TimeParts) : GdaTime :=
  ⟨UInt16.ofNat (number 0 p.hour), UInt16.ofNat (number 0 p.minute),
    UInt16.ofNat (number 0 p.second), UInt64.ofNat (number 0 (p.fraction.getD [])),
    Int64.ofInt p.zone.value⟩

/-- What `_parse_iso8601_time` takes for a time zone. -/
def ZoneText.Loose : ZoneText → Prop
  | absent => True
  | offset sign digits =>
    (sign = byte '+' ∨ sign = byte '-') ∧ (∀ b ∈ digits, IsDigit b) ∧ number 0 digits < 24
  | named blanks name => (∀ b ∈ blanks, asciiIsSpace b = true) ∧ isComparedName name = true

structure IsLooseText (sep : UInt8) (value : Bytes) (p : TimeParts) : Prop
    extends IsWritten sep value p where
  goesOn : p.fromMinute sep ≠ [] ∧ p.fromSecond sep ≠ []
  fraction : ∀ f ∈ p.fraction,
    f ++ p.zone.text ≠ [] ∧ (DecimalText.folded fractionDigit 0 f).isSome = true
  zone : p.zone.Loose
  named : ∀ blanks name, p.zone = .named blanks name → p.fraction ≠ none

def TimeParts.SameFraction (p q : TimeParts) : Prop :=
  number 0 (p.fraction.getD []) * 10 ^ (q.fraction.getD []).length =
    number 0 (q.fraction.getD []) * 10 ^ (p.fraction.getD []).length

def TellsFractions (zones : UtcZones) (sep : UInt8) (value value' : Bytes) : Prop :=
  ∀ t, parseFormattedTime zones.offset value sep = some t →
    parseFormattedTime zones.offset value' sep = some t →
    ∀ p q, IsLooseText sep value p → IsLooseText sep value' q → p.SameFraction q

def TimeParts.SameClock (p q : TimeParts) : Prop :=
  number 0 p.hour = number 0 q.hour ∧ number 0 p.minute = number 0 q.minute ∧
    number 0 p.second = number 0 q.second ∧ p.zone.value = q.zone.value

end Scanning

section Reading

variable {s digits rest : Bytes} {limit max : Nat} {zones : UtcZones} {sep : UInt8}

theorem leading_cons (limit : Nat) (b : UInt8) (s : Bytes) : leading (limit + 1) (b :: s) =
    if IsDigit b then (b :: (leading limit s).1, (leading limit s).2) else ([], b :: s) := by
  by_cases hb : IsDigit b <;> simp [leading, hb]

theorem leading_spec (limit : Nat) (s : Bytes) :
    s = (leading limit s).1 ++ (leading limit s).2 ∧ (∀ b ∈ (leading limit s).1, IsDigit b) ∧
      EndsDigits limit (leading limit s).1 (leading limit s).2 := by
  induction limit generalizing s with
  | zero => simp [leading, EndsDigits]
  | succ limit ih =>
    cases s with
    | nil => simp [leading, EndsDigits]
    | cons b s =>
      obtain ⟨htext, hdigits, hends⟩ := ih s
      rw [leading_cons]
      by_cases hb : IsDigit b
      · rw [if_pos hb]
        refine ⟨congrArg (b :: ·) htext, List.forall_mem_cons.mpr ⟨hb, hdigits⟩, ?_⟩
        simpa [EndsDigits] using hends
      · rw [if_neg hb]
        exact ⟨rfl, by simp, .inr ⟨Nat.succ_pos limit, fun c hc => Option.some.inj hc ▸ hb⟩⟩

theorem leading_append (hdigits : ∀ b ∈ digits, IsDigit b) (hends : EndsDigits limit digits rest) :
    leading limit (digits ++ rest) = (digits, rest) := by
  induction digits generalizing limit with
  | nil =>
    cases limit with
    | zero => simp [leading]
    | succ limit =>
      cases rest with
      | nil => simp [leading]
      | cons b rest =>
        have hb : ¬ IsDigit b := by simpa [EndsDigits] using hends
        rw [List.nil_append, leading_cons, if_neg hb]
  | cons b digits ih =>
    cases limit with
    | zero => simp [EndsDigits] at hends
    | succ limit =>
      have hrest := ih (fun c hc => hdigits c (List.mem_cons_of_mem b hc))
        (by simpa [EndsDigits] using hends)
      rw [List.cons_append, leading_cons, if_pos (hdigits b List.mem_cons_self), hrest]

theorem readDigits_leading (next : Nat → Nat → Option Nat) (limit n : Nat) (s : Bytes) :
    readDigits next limit n s =
      (DecimalText.folded next n (leading limit s).1).map fun n' => (n', (leading limit s).2) := by
  obtain ⟨htext, hdigits, hends⟩ := leading_spec limit s
  have hread := @readDigits_append next _ _ _ n hdigits hends
  rwa [← htext] at hread

theorem folded_atMost (max : Nat) (digits : Bytes) {n : Nat} (hn : n ≤ max) :
    DecimalText.folded (atMost max) n digits =
      if number n digits ≤ max then some (number n digits) else none := by
  induction digits generalizing n with
  | nil => exact (if_pos hn).symm
  | cons b digits ih =>
    have hle := le_number (n * 10 + digitValue b) digits
    have hnumber : number n (b :: digits) = number (n * 10 + digitValue b) digits := rfl
    rw [DecimalText.folded, atMost, hnumber]
    by_cases hmax : max < n * 10 + digitValue b
    · rw [if_pos hmax, if_neg (by omega)]
    · rw [if_neg hmax]
      exact ih (by omega)

theorem zoneDigit_eq : zoneDigit = atMost 23 := rfl

theorem number_mod (a : Nat) (digits : Bytes) :
    number (a % 2 ^ 64) digits % 2 ^ 64 = number a digits % 2 ^ 64 := by
  induction digits generalizing a with
  | nil => exact Nat.mod_mod _ _
  | cons b digits ih =>
    have hmod : (a % 2 ^ 64 * 10 + digitValue b) % 2 ^ 64 = (a * 10 + digitValue b) % 2 ^ 64 := by
      omega
    have hcons : ∀ k, number k (b :: digits) = number (k * 10 + digitValue b) digits := fun _ => rfl
    rw [hcons, hcons, ← ih, hmod, ih]

theorem folded_fractionDigit {n r : Nat} (hn : n < 2 ^ 64)
    (h : DecimalText.folded fractionDigit n digits = some r) : r = number n digits % 2 ^ 64 := by
  induction digits generalizing n with
  | nil =>
    obtain rfl := Option.some.inj h
    exact (Nat.mod_eq_of_lt hn).symm
  | cons b digits ih =>
    rw [DecimalText.folded, fractionDigit] at h
    split at h
    · next n' hstep =>
      split at hstep
      · cases hstep
      · obtain rfl := Option.some.inj hstep
        rw [ih (Nat.mod_lt _ (by decide)) h, number_mod]
        rfl
    · cases h

theorem readTimePart_eq (hmax : 0 ≤ max) (s : Bytes) :
    readTimePart max s = (scanField max s).map fun r => (number 0 r.1, r.2) := by
  rw [readTimePart, readDigits_leading, folded_atMost max _ hmax, scanField]
  split <;> rfl

theorem readFraction_eq (s : Bytes) : (readFraction s).map (fun r => (UInt64.ofNat r.1, r.2)) =
    (scanFraction s).map fun r => (UInt64.ofNat (number 0 (r.1.getD [])), r.2) := by
  cases s with
  | nil => rfl
  | cons b t =>
    rw [readFraction, scanFraction]
    by_cases hdot : b = byte '.'
    · rw [if_pos hdot, if_pos hdot]
      by_cases ht : t = []
      · rw [if_pos ht, if_pos ht]
        rfl
      · rw [if_neg ht, if_neg ht, readDigits_leading]
        cases hfolded : DecimalText.folded fractionDigit 0 (leading t.length t).1 with
        | none => rfl
        | some n =>
          have hn := folded_fractionDigit (by decide) hfolded
          have hstored : UInt64.ofNat n = UInt64.ofNat (number 0 (leading t.length t).1) := by
            apply UInt64.toNat_inj.mp
            simp [hn]
          simp [hstored]
    · rw [if_neg hdot, if_neg hdot]
      rfl

theorem readZoneName_eq (name : Bytes) :
    readZoneName zones.offset name = if isComparedName name = true then some 0 else none := by
  have hsystem : readZoneName.systemZone zones.offset name = none := by
    rw [readZoneName.systemZone]
    split
    · next o ho => rw [if_pos (zones.utc_offset ho).2]
    · rfl
  rw [readZoneName.eq_def]
  split
  · rw [hsystem, isComparedName, isUtcName]
    simp
  · rw [hsystem, isComparedName]
  · rw [hsystem, isComparedName, isUtcName]
    simp
  · next h₃ h₂ h₁ =>
    have hno : isComparedName name = false := by
      rcases name with - | ⟨b, - | ⟨c, - | ⟨d, - | ⟨e, rest⟩⟩⟩⟩
      · rfl
      · exact absurd rfl (h₁ b)
      · exact absurd rfl (h₂ b c)
      · exact absurd rfl (h₃ b c d)
      · rfl
    rw [hsystem, hno]
    rfl

theorem readZone_eq (s : Bytes) : readZone zones.offset timezoneInvalid s =
    (scanZone s).map fun r => (Int64.ofInt r.1.value, r.2) := by
  cases s with
  | nil => rfl
  | cons b t =>
    rw [readZone, scanZone]
    split
    · rw [readDigits_leading, zoneDigit_eq, folded_atMost 23 _ (Nat.zero_le 23)]
      by_cases hlt : number 0 (leading t.length t).1 < 24
      · rw [if_pos hlt, if_pos (Nat.le_of_lt_succ hlt)]
        rfl
      · rw [if_neg hlt, if_neg fun hle => hlt (Nat.lt_succ_of_le hle)]
        rfl
    · rw [readZoneName_eq]
      split <;> rfl

theorem parseTime_eq (value : Bytes) : parseTime zones.offset value sep timezoneInvalid =
    (scanParts sep value).map fun r => (r.1.stored, r.2) := by
  rw [parseTime, scanParts]
  split
  · rfl
  simp only [readTimePart_eq (Nat.zero_le _), Option.bind_eq_bind]
  cases scanField 23 value with
  | none => rfl
  | some hour =>
    simp only [Option.map_some, Option.bind_some]
    cases skipSeparator sep hour.2 with
    | none => rfl
    | some s =>
      simp only [Option.bind_some]
      cases scanField 59 s with
      | none => rfl
      | some minute =>
        simp only [Option.map_some, Option.bind_some]
        cases skipSeparator sep minute.2 with
        | none => rfl
        | some s =>
          simp only [Option.bind_some]
          cases scanField 59 s with
          | none => rfl
          | some second =>
            simp only [Option.map_some, Option.bind_some]
            split
            · rfl
            have hfraction := readFraction_eq second.2
            cases hscan : scanFraction second.2 with
            | none =>
              rw [hscan, Option.map_none, Option.map_eq_none_iff] at hfraction
              rw [hfraction]
              rfl
            | some r =>
              rw [hscan, Option.map_some, Option.map_eq_some_iff] at hfraction
              obtain ⟨q, hq, he⟩ := hfraction
              obtain ⟨hvalue, hrest⟩ := Prod.mk.inj he
              simp only [hq, Option.bind_some, hvalue, hrest, readZone_eq]
              cases scanZone r.2 <;> rfl

theorem parseFormattedTime_eq (value : Bytes) :
    parseFormattedTime zones.offset value sep = (scanTime sep value).map TimeParts.stored := by
  rw [parseFormattedTime, parseTime_eq, scanTime]
  cases scanParts sep value with
  | none => rfl
  | some r =>
    obtain ⟨p, rest⟩ := r
    cases rest <;> rfl

end Reading

section Splitting

variable {s t digits digits' rest rest' name : Bytes} {max : Nat} {sep : UInt8} {value : Bytes}
  {p q : TimeParts} {zone zone' : ZoneText}

theorem field_unique (h : IsField max digits rest) (h' : IsField max digits' rest')
    (heq : digits ++ rest = digits' ++ rest') : digits = digits' ∧ rest = rest' := by
  have hleading := leading_append h.isDigit h.ends
  rw [heq, leading_append h'.isDigit h'.ends] at hleading
  exact ⟨(Prod.mk.inj hleading).1.symm, (Prod.mk.inj hleading).2.symm⟩

theorem joint_inj (h : joint sep s = joint sep t) : s = t := by
  rw [joint, joint] at h
  split at h
  · exact h
  · exact (List.cons.inj h).2

def ZoneText.Starts (zone : ZoneText) : Prop :=
  ∀ b ∈ zone.text.head?, ¬ IsDigit b ∧ b ≠ byte '.'

def ZoneText.Determined (zone : ZoneText) : Prop :=
  match zone with
  | absent => True
  | offset sign _ => sign = byte '+' ∨ sign = byte '-'
  | named blanks name => (∀ b ∈ blanks, asciiIsSpace b = true) ∧
    ∃ b ∈ name.head?, asciiIsSpace b = false ∧ b ≠ byte '+' ∧ b ≠ byte '-' ∧ ¬ IsDigit b ∧
      b ≠ byte '.'

theorem isSpace_other {b : UInt8} (h : asciiIsSpace b = true) :
    ¬ IsDigit b ∧ b ≠ byte '.' ∧ b ≠ byte '+' ∧ b ≠ byte '-' := by
  simp only [asciiIsSpace, Bool.or_eq_true, beq_iff_eq] at h
  rcases h with (((rfl | rfl) | rfl) | rfl) | rfl <;> decide

theorem ZoneText.Determined.starts (h : zone.Determined) : zone.Starts := by
  intro b hb
  cases zone with
  | absent => cases hb
  | offset sign digits =>
    obtain rfl := Option.some.inj hb
    rcases h with rfl | rfl <;> decide
  | named blanks name =>
    obtain ⟨hblanks, c, hc, -, -, -, hdigit, hdot⟩ := h
    cases blanks with
    | nil =>
      obtain rfl := Option.some.inj (hc.symm.trans hb)
      exact ⟨hdigit, hdot⟩
    | cons d blanks =>
      obtain rfl := Option.some.inj hb
      have hspace := isSpace_other (hblanks d List.mem_cons_self)
      exact ⟨hspace.1, hspace.2.1⟩

theorem blanks_unique {blanks blanks' name' : Bytes}
    (h : (ZoneText.named blanks name).Determined) (h' : (ZoneText.named blanks' name').Determined)
    (heq : blanks ++ name = blanks' ++ name') : blanks = blanks' ∧ name = name' := by
  have htake : ∀ {blanks name : Bytes}, (ZoneText.named blanks name).Determined →
      (blanks ++ name).takeWhile asciiIsSpace = blanks := by
    intro blanks name hname
    obtain ⟨hblanks, c, hc, hspace, -⟩ := hname
    rw [List.takeWhile_append_of_pos hblanks]
    cases name with
    | nil => cases hc
    | cons d name =>
      obtain rfl := Option.some.inj hc
      simp [hspace]
  have hblanks : blanks = blanks' := by rw [← htake h, heq, htake h']
  rw [hblanks] at heq
  exact ⟨hblanks, List.append_cancel_left heq⟩

theorem zone_unique (h : zone.Determined) (h' : zone'.Determined) (heq : zone.text = zone'.text) :
    zone = zone' := by
  have hmixed : ∀ {sign : UInt8} {digits blanks name : Bytes},
      (ZoneText.offset sign digits).Determined → (ZoneText.named blanks name).Determined →
      sign :: digits ≠ blanks ++ name := by
    intro sign digits blanks name hoffset hname heq
    obtain ⟨hblanks, c, hc, -, hplus, hminus, -⟩ := hname
    cases blanks with
    | nil =>
      rw [List.nil_append] at heq
      rw [← heq] at hc
      obtain rfl := Option.some.inj hc
      exact hoffset.elim hplus hminus
    | cons d blanks =>
      obtain rfl := (List.cons.inj heq).1
      have hspace := isSpace_other (hblanks sign List.mem_cons_self)
      exact hoffset.elim hspace.2.2.1 hspace.2.2.2
  have hname : ∀ {blanks name : Bytes}, (ZoneText.named blanks name).Determined →
      blanks ++ name ≠ [] := by
    intro blanks name hname heq
    obtain ⟨-, c, hc, -⟩ := hname
    rw [(List.append_eq_nil_iff.1 heq).2] at hc
    cases hc
  cases zone with
  | absent =>
    cases zone' with
    | absent => rfl
    | offset sign digits => cases heq
    | named blanks name => exact absurd heq.symm (hname h')
  | offset sign digits =>
    cases zone' with
    | absent => cases heq
    | offset sign' digits' =>
      obtain ⟨rfl, rfl⟩ := List.cons.inj heq
      rfl
    | named blanks name => exact absurd heq (hmixed h h')
  | named blanks name =>
    cases zone' with
    | absent => exact absurd heq (hname h)
    | offset sign digits => exact absurd heq.symm (hmixed h' h)
    | named blanks' name' =>
      obtain ⟨rfl, rfl⟩ := blanks_unique h h' heq
      rfl

theorem fraction_unique {fraction fraction' : Option Bytes}
    (h : ∀ f ∈ fraction, ∀ b ∈ f, IsDigit b) (h' : ∀ f ∈ fraction', ∀ b ∈ f, IsDigit b)
    (hzone : zone.Starts) (hzone' : zone'.Starts)
    (heq : fraction.elim [] (fun f => byte '.' :: f) ++ zone.text =
      fraction'.elim [] (fun f => byte '.' :: f) ++ zone'.text) :
    fraction = fraction' ∧ zone.text = zone'.text := by
  have hdot : ∀ {zone : ZoneText} {s : Bytes}, zone.Starts → zone.text ≠ byte '.' :: s := by
    intro zone s hstarts heq
    exact (hstarts (byte '.') (by rw [heq]; rfl)).2 rfl
  cases fraction with
  | none =>
    cases fraction' with
    | none => exact ⟨rfl, heq⟩
    | some f' => exact absurd heq (hdot hzone)
  | some f =>
    cases fraction' with
    | none => exact absurd heq.symm (hdot hzone')
    | some f' =>
      obtain ⟨hf, hrest⟩ := digits_unique (h f rfl) (fun b hb => (hzone b hb).1) (h' f' rfl)
        (fun b hb => (hzone' b hb).1) (List.cons.inj heq).2
      rw [hf]
      exact ⟨rfl, hrest⟩

theorem IsWritten.unique (h : IsWritten sep value p) (h' : IsWritten sep value q)
    (hzone : p.zone.Determined) (hzone' : q.zone.Determined) : p = q := by
  obtain ⟨hhour, hminutes⟩ := field_unique h.hour h'.hour (h.text.symm.trans h'.text)
  obtain ⟨hminute, hseconds⟩ := field_unique h.minute h'.minute (joint_inj hminutes)
  obtain ⟨hsecond, hbehind⟩ := field_unique h.second h'.second (joint_inj hseconds)
  obtain ⟨hfraction, hzones⟩ := fraction_unique h.isDigit h'.isDigit hzone.starts hzone'.starts
    hbehind
  have hsame := zone_unique hzone hzone' hzones
  obtain ⟨hour, minute, second, fraction, zone⟩ := p
  obtain ⟨hour', minute', second', fraction', zone'⟩ := q
  simp only at hhour hminute hsecond hfraction hsame
  rw [hhour, hminute, hsecond, hfraction, hsame]

end Splitting

section Accepted

variable {s digits rest name : Bytes} {max : Nat} {sep : UInt8} {value : Bytes} {p : TimeParts}
  {zone : ZoneText} {fraction : Option Bytes}

theorem comparedName_head (h : isComparedName name = true ∨ isUtcName name = true) :
    ∃ b ∈ name.head?, asciiIsSpace b = false ∧ b ≠ byte '+' ∧ b ≠ byte '-' ∧ ¬ IsDigit b ∧
      b ≠ byte '.' := by
  have hletter : ∃ b ∈ name.head?, b ∈ bytes "GgUuZzT" := by
    have hg : byte 'G' ∈ bytes "GgUuZzT" ∧ byte 'g' ∈ bytes "GgUuZzT" := by decide
    have hu : byte 'U' ∈ bytes "GgUuZzT" ∧ byte 'u' ∈ bytes "GgUuZzT" := by decide
    have hz : byte 'Z' ∈ bytes "GgUuZzT" ∧ byte 'z' ∈ bytes "GgUuZzT" := by decide
    have ht : byte 'T' ∈ bytes "GgUuZzT" := by decide
    have hutc : isUtcName name = true → ∃ b ∈ name.head?, b ∈ bytes "GgUuZzT" := by
      intro h
      rw [isUtcName.eq_def] at h
      split at h
      · simp only [eitherCase, Bool.or_eq_true, Bool.and_eq_true, beq_iff_eq] at h
        rcases h with ⟨⟨rfl | rfl, -⟩, -⟩ | ⟨⟨rfl | rfl, -⟩, -⟩
        · exact ⟨_, rfl, hg.1⟩
        · exact ⟨_, rfl, hg.2⟩
        · exact ⟨_, rfl, hu.1⟩
        · exact ⟨_, rfl, hu.2⟩
      · simp only [eitherCase, Bool.or_eq_true, Bool.and_eq_true, beq_iff_eq] at h
        rcases h with ⟨rfl | rfl, -⟩
        · exact ⟨_, rfl, hu.1⟩
        · exact ⟨_, rfl, hu.2⟩
      · simp only [eitherCase, Bool.or_eq_true, beq_iff_eq] at h
        rcases h with rfl | rfl
        · exact ⟨_, rfl, hz.1⟩
        · exact ⟨_, rfl, hz.2⟩
      · cases h
    rcases h with h | h
    · rw [isComparedName.eq_def] at h
      split at h
      · simp only [eitherCase, Bool.or_eq_true, Bool.and_eq_true, beq_iff_eq] at h
        rcases h with ⟨rfl | rfl, -⟩
        · exact ⟨_, rfl, ht⟩
        · exact ⟨_, rfl, hu.2⟩
      · exact hutc h
    · exact hutc h
  obtain ⟨b, hb, hmem⟩ := hletter
  refine ⟨b, hb, ?_⟩
  have hall : ((bytes "GgUuZzT").all fun b => decide (asciiIsSpace b = false ∧ b ≠ byte '+' ∧
      b ≠ byte '-' ∧ ¬ IsDigit b ∧ b ≠ byte '.')) = true := by decide
  exact of_decide_eq_true (List.all_eq_true.1 hall b hmem)

theorem ZoneText.Loose.determined (h : zone.Loose) : zone.Determined := by
  cases zone with
  | absent => trivial
  | offset sign digits => exact h.1
  | named blanks name => exact ⟨h.1, comparedName_head (.inl h.2)⟩

theorem ZoneText.WellFormed.determined (h : zone.WellFormed) : zone.Determined := by
  cases zone with
  | absent => trivial
  | offset sign digits => exact h.1
  | named blanks name =>
    obtain ⟨rfl, hname⟩ := h
    exact ⟨by simp, comparedName_head (.inr hname)⟩

theorem scanField_eq_some : scanField max s = some (digits, rest) ↔
    s = digits ++ rest ∧ IsField max digits rest := by
  constructor
  · intro h
    rw [scanField] at h
    split at h
    · next hle =>
      obtain ⟨htext, hdigits, hends⟩ := leading_spec 2 s
      rw [Option.some.inj h] at htext hdigits hends hle
      exact ⟨htext, hdigits, hends, hle⟩
    · cases h
  · intro ⟨htext, hfield⟩
    rw [scanField, htext, leading_append hfield.isDigit hfield.ends, if_pos hfield.le_max]

theorem skipSeparator_eq_some {t : Bytes} : skipSeparator sep s = some t ↔
    s = joint sep t ∧ joint sep t ≠ [] := by
  rw [skipSeparator, joint]
  by_cases hsep : sep = 0
  · rw [if_pos hsep, if_pos hsep]
    by_cases hs : s = []
    · rw [if_pos hs]
      constructor
      · intro h
        cases h
      · rintro ⟨heq, hne⟩
        exact absurd (heq.symm.trans hs) hne
    · rw [if_neg hs, Option.some.injEq]
      constructor
      · intro h
        exact ⟨h, h ▸ hs⟩
      · intro h
        exact h.1
  · rw [if_neg hsep, if_neg hsep]
    cases s with
    | nil => simp
    | cons b s =>
      rw [if_neg (List.cons_ne_nil b s), skipByte, List.cons.injEq]
      by_cases hb : b = sep
      · simp [hb]
      · simp [hb]

theorem leading_end (hdigits : ∀ b ∈ digits, IsDigit b) (hrest : ∀ b ∈ rest.head?, ¬ IsDigit b) :
    leading (digits ++ rest).length (digits ++ rest) = (digits, rest) := by
  apply leading_append hdigits
  rw [EndsDigits, List.length_append]
  rcases Nat.eq_zero_or_pos rest.length with hzero | hpos
  · exact .inl (by omega)
  · exact .inr ⟨by omega, hrest⟩

theorem scanFraction_eq_some {rest : Bytes} (h : scanFraction s = some (fraction, rest)) :
    s = fraction.elim [] (fun f => byte '.' :: f) ++ rest ∧
      (∀ f ∈ fraction, (∀ b ∈ f, IsDigit b) ∧ f ++ rest ≠ [] ∧
        (DecimalText.folded fractionDigit 0 f).isSome = true) := by
  cases s with
  | nil =>
    obtain ⟨rfl, rfl⟩ := Prod.mk.inj (Option.some.inj h)
    exact ⟨rfl, by simp⟩
  | cons b t =>
    rw [scanFraction] at h
    by_cases hdot : b = byte '.'
    · rw [if_pos hdot] at h
      by_cases ht : t = []
      · rw [if_pos ht] at h
        cases h
      · rw [if_neg ht] at h
        obtain ⟨n, hn, heq⟩ := Option.map_eq_some_iff.1 h
        obtain ⟨rfl, rfl⟩ := Prod.mk.inj heq
        obtain ⟨htext, hdigits, -⟩ := leading_spec t.length t
        refine ⟨?_, ?_⟩
        · rw [hdot]
          exact congrArg (byte '.' :: ·) htext
        · intro f hf
          obtain rfl := Option.some.inj hf
          refine ⟨hdigits, ?_, ?_⟩
          · rw [← htext]
            exact ht
          · rw [hn]
            rfl
    · rw [if_neg hdot] at h
      obtain ⟨rfl, rfl⟩ := Prod.mk.inj (Option.some.inj h)
      exact ⟨rfl, by simp⟩

theorem scanZone_eq_some (h : scanZone s = some (zone, [])) : s = zone.text ∧ zone.Loose := by
  cases s with
  | nil =>
    obtain ⟨rfl, -⟩ := Prod.mk.inj (Option.some.inj h)
    exact ⟨rfl, trivial⟩
  | cons b t =>
    rw [scanZone] at h
    split at h
    · next hsign =>
      split at h
      · next hlt =>
        obtain ⟨rfl, hrest⟩ := Prod.mk.inj (Option.some.inj h)
        obtain ⟨htext, hdigits, -⟩ := leading_spec t.length t
        rw [hrest, List.append_nil] at htext
        exact ⟨congrArg (b :: ·) htext, hsign, hdigits, hlt⟩
      · cases h
    · split at h
      · next hname =>
        obtain ⟨rfl, -⟩ := Prod.mk.inj (Option.some.inj h)
        refine ⟨List.takeWhile_append_dropWhile.symm, ?_, hname⟩
        intro c hc
        exact List.mem_takeWhile_imp hc
      · cases h

theorem scanZone_text (h : zone.Loose) : scanZone zone.text = some (zone, []) := by
  cases zone with
  | absent => rfl
  | offset sign digits =>
    obtain ⟨hsign, hdigits, hlt⟩ := h
    have hleading := @leading_end digits [] hdigits (by simp)
    rw [List.append_nil] at hleading
    rw [ZoneText.text, scanZone, if_pos hsign, hleading, if_pos hlt]
  | named blanks name =>
    have hdetermined : (ZoneText.named blanks name).Determined := ZoneText.Loose.determined h
    obtain ⟨hblanks, c, hc, hspace, hplus, hminus, -⟩ := hdetermined
    have htake : (blanks ++ name).takeWhile asciiIsSpace = blanks := by
      rw [List.takeWhile_append_of_pos hblanks]
      cases name with
      | nil => cases hc
      | cons d name =>
        obtain rfl := Option.some.inj hc
        simp [hspace]
    have hdrop : (blanks ++ name).dropWhile asciiIsSpace = name := by
      have hsplit := @List.takeWhile_append_dropWhile _ asciiIsSpace (blanks ++ name)
      rw [htake] at hsplit
      exact List.append_cancel_left hsplit
    rw [ZoneText.text]
    generalize htext : blanks ++ name = text at htake hdrop
    cases text with
    | nil =>
      rw [(List.append_eq_nil_iff.1 htext).2] at hc
      cases hc
    | cons b t =>
      have hsign : ¬ (b = byte '+' ∨ b = byte '-') := by
        cases blanks with
        | nil =>
          rw [List.nil_append] at htext
          rw [htext] at hc
          obtain rfl := Option.some.inj hc
          exact not_or.2 ⟨hplus, hminus⟩
        | cons d blanks =>
          obtain rfl := (List.cons.inj htext).1
          exact not_or.2 (isSpace_other (hblanks d List.mem_cons_self)).2.2
      rw [scanZone, if_neg hsign, hdrop, if_pos h.2, htake]

theorem scanFraction_text (hzone : zone.Starts)
    (h : ∀ f ∈ fraction, (∀ b ∈ f, IsDigit b) ∧ f ++ zone.text ≠ [] ∧
      (DecimalText.folded fractionDigit 0 f).isSome = true) :
    scanFraction (fraction.elim [] (fun f => byte '.' :: f) ++ zone.text) =
      some (fraction, zone.text) := by
  cases fraction with
  | none =>
    cases htext : zone.text with
    | nil => rfl
    | cons b t =>
      have hdot := (hzone b (by rw [htext]; rfl)).2
      exact if_neg hdot
  | some f =>
    obtain ⟨hdigits, hne, hfolded⟩ := h f rfl
    have hleading := leading_end hdigits fun b hb => (hzone b hb).1
    obtain ⟨n, hn⟩ := Option.isSome_iff_exists.1 hfolded
    rw [Option.elim_some, List.cons_append, scanFraction, if_pos rfl, if_neg hne, hleading, hn]
    rfl

theorem continuesTime_behind (h : p.zone.Loose)
    (hnamed : ∀ blanks name, p.zone = .named blanks name → p.fraction ≠ none) :
    continuesTime p.behind = true := by
  rw [TimeParts.behind]
  cases hfraction : p.fraction with
  | some f => rfl
  | none =>
    cases hzone : p.zone with
    | absent => rfl
    | offset sign digits =>
      rw [hzone] at h
      rcases h.1 with rfl | rfl <;> rfl
    | named blanks name => exact absurd hfraction (hnamed blanks name hzone)

theorem not_named_of_continues (hcontinues : continuesTime p.behind = true) (h : p.zone.Loose) :
    ∀ blanks name, p.zone = .named blanks name → p.fraction ≠ none := by
  intro blanks name hzone hfraction
  rw [TimeParts.behind, hfraction, hzone] at hcontinues
  rw [hzone] at h
  have hdetermined := ZoneText.Loose.determined h
  have hstarts := hdetermined.starts
  obtain ⟨hblanks, c, hc, -, hplus, hminus, -, hdot⟩ := hdetermined
  cases blanks with
  | nil =>
    cases name with
    | nil => cases hc
    | cons d name =>
      obtain rfl := Option.some.inj hc
      simp [ZoneText.text, continuesTime, hdot, hplus, hminus] at hcontinues
  | cons d blanks =>
    have hspace := isSpace_other (hblanks d List.mem_cons_self)
    simp [ZoneText.text, continuesTime, hspace.2.1, hspace.2.2.1, hspace.2.2.2] at hcontinues

theorem scanTime_eq_some : scanTime sep value = some p ↔ IsLooseText sep value p := by
  constructor
  · intro h
    have hparts : scanParts sep value = some (p, []) := by
      rw [scanTime] at h
      split at h
      · next q hq =>
        rw [hq, Option.some.inj h]
      · cases h
    rw [scanParts] at hparts
    split at hparts
    · cases hparts
    · next hhead =>
      simp only [Option.bind_eq_bind, Option.bind_eq_some_iff] at hparts
      obtain ⟨⟨hour, s₁⟩, hhour, s₂, hskip₁, ⟨minute, s₃⟩, hminute, s₄, hskip₂, ⟨second, s₅⟩,
        hsecond, hparts⟩ := hparts
      split at hparts
      · next hends =>
        rw [(Prod.mk.inj (Option.some.inj hparts)).2] at hends
        cases hends
      · next hcontinues =>
        simp only [Option.bind_eq_some_iff] at hparts
        obtain ⟨⟨fraction, s₆⟩, hfraction, ⟨zone, s₇⟩, hzone, hparts⟩ := hparts
        obtain ⟨rfl, rfl⟩ := Prod.mk.inj (Option.some.inj hparts)
        obtain ⟨htext, hfirst⟩ := scanField_eq_some.1 hhour
        obtain ⟨rfl, hgoes⟩ := skipSeparator_eq_some.1 hskip₁
        obtain ⟨rfl, hfield⟩ := scanField_eq_some.1 hminute
        obtain ⟨rfl, hgoes'⟩ := skipSeparator_eq_some.1 hskip₂
        obtain ⟨rfl, hlast⟩ := scanField_eq_some.1 hsecond
        obtain ⟨rfl, hdigits⟩ := scanFraction_eq_some hfraction
        obtain ⟨rfl, hloose⟩ := scanZone_eq_some hzone
        have hne : hour ≠ [] := by
          rintro rfl
          obtain ⟨b, hb, hdigit⟩ := not_not.1 hhead
          rw [htext] at hb
          rcases hfirst.ends with hlength | ⟨-, hrest⟩
          · cases hlength
          · exact hrest b hb hdigit
        exact {
          text := htext, hour := hfirst, minute := hfield, second := hlast, hour_ne := hne
          isDigit := fun f hf => (hdigits f hf).1
          goesOn := ⟨hgoes, hgoes'⟩
          fraction := fun f hf => (hdigits f hf).2
          zone := hloose
          named := not_named_of_continues (p := ⟨hour, minute, second, fraction, zone⟩)
            (eq_true_of_ne_false hcontinues) hloose }
  · intro h
    have hhead : ¬ ¬ ∃ b ∈ value.head?, IsDigit b := by
      rw [not_not, h.text]
      cases hhour : p.hour with
      | nil => exact absurd hhour h.hour_ne
      | cons b hour => exact ⟨b, rfl, h.hour.isDigit b (hhour ▸ List.mem_cons_self)⟩
    have hfraction := scanFraction_text h.zone.determined.starts
      fun f hf => ⟨h.isDigit f hf, h.fraction f hf⟩
    have hskip₁ : skipSeparator sep (p.fromMinute sep) = some (p.minute ++ p.fromSecond sep) :=
      skipSeparator_eq_some.2 ⟨rfl, h.goesOn.1⟩
    have hskip₂ : skipSeparator sep (p.fromSecond sep) = some (p.second ++ p.behind) :=
      skipSeparator_eq_some.2 ⟨rfl, h.goesOn.2⟩
    have hscan : scanParts sep value = some (p, []) := by
      rw [scanParts, if_neg hhead, scanField_eq_some.2 ⟨h.text, h.hour⟩]
      simp only [Option.bind_eq_bind, Option.bind_some, hskip₁, hskip₂,
        scanField_eq_some.2 ⟨rfl, h.minute⟩, scanField_eq_some.2 ⟨rfl, h.second⟩]
      rw [continuesTime_behind h.zone h.named, if_neg (by decide), TimeParts.behind, hfraction]
      simp only [Option.bind_some, scanZone_text h.zone]
    rw [scanTime, hscan]

end Accepted

section Contract

variable {zones : UtcZones} {sep : UInt8} {value value' : Bytes} {p q : TimeParts}

theorem parse_of_loose (h : IsLooseText sep value p) :
    parseFormattedTime zones.offset value sep = some p.stored := by
  rw [parseFormattedTime_eq, scanTime_eq_some.2 h]
  rfl

theorem ZoneText.Loose.value_bounds {zone : ZoneText} (h : zone.Loose) :
    -86400 ≤ zone.value ∧ zone.value ≤ 86400 := by
  cases zone with
  | absent => decide
  | offset sign digits =>
    have hlt : number 0 digits < 24 := h.2.2
    rw [ZoneText.value]
    split <;> omega
  | named blanks name =>
    rw [ZoneText.value]
    omega

theorem toInt_stored {z : Int} (h : -86400 ≤ z ∧ z ≤ 86400) : (Int64.ofInt z).toInt = z :=
  Int64.toInt_ofInt_of_le (by omega) (by omega)

theorem toNat_field {max n : Nat} (hmax : max < 2 ^ 16) (h : n ≤ max) :
    (UInt16.ofNat n).toNat = n := by
  rw [UInt16.toNat_ofNat']
  exact Nat.mod_eq_of_lt (by omega)

theorem IsLooseText.exact (h : IsLooseText sep value p) (hs : p.Strict) : p.Exact p.stored where
  hour := toNat_field (by decide) h.hour.le_max
  minute := toNat_field (by decide) h.minute.le_max
  second := toNat_field (by decide) h.second.le_max
  fraction := by
    have hlt : number 0 (p.fraction.getD []) < 2 ^ 64 := by
      cases hfraction : p.fraction with
      | none => decide
      | some f => exact (hs.fraction f hfraction).2
    rw [TimeParts.stored, UInt64.toNat_ofNat']
    exact Nat.mod_eq_of_lt hlt
  timezone := toInt_stored h.zone.value_bounds

theorem stored_eq_iff (h : IsLooseText sep value p) (h' : IsLooseText sep value' q) :
    p.stored = q.stored ↔ p.SameClock q ∧
      number 0 (p.fraction.getD []) ≡ number 0 (q.fraction.getD []) [MOD 2 ^ 64] := by
  have hfield : ∀ {max m n : Nat}, max < 2 ^ 16 → m ≤ max → n ≤ max →
      (UInt16.ofNat m = UInt16.ofNat n ↔ m = n) := by
    intro max m n hmax hm hn
    rw [← UInt16.toNat_inj, toNat_field hmax hm, toNat_field hmax hn]
  have hzone : Int64.ofInt p.zone.value = Int64.ofInt q.zone.value ↔
      p.zone.value = q.zone.value := by
    rw [← Int64.toInt_inj, toInt_stored h.zone.value_bounds, toInt_stored h'.zone.value_bounds]
  rw [TimeParts.stored, TimeParts.stored, GdaTime.mk.injEq,
    hfield (by decide) h.hour.le_max h'.hour.le_max,
    hfield (by decide) h.minute.le_max h'.minute.le_max,
    hfield (by decide) h.second.le_max h'.second.le_max, hzone, ← UInt64.toNat_inj,
    UInt64.toNat_ofNat', UInt64.toNat_ofNat', TimeParts.SameClock, Nat.ModEq]
  tauto

theorem readsTimeText_iff :
    ReadsTimeText zones sep value ↔ ∀ p, IsLooseText sep value p → p.Strict := by
  constructor
  · intro h p hp
    obtain ⟨q, hq, hminute, hsecond, hfraction, hzone, hexact⟩ := h _ (parse_of_loose hp)
    obtain rfl := hp.toIsWritten.unique hq hp.zone.determined hzone.determined
    refine ⟨hminute, hsecond, ?_, hzone⟩
    intro f hf
    refine ⟨hfraction f hf, ?_⟩
    have hnumber := hexact.fraction
    rw [Option.mem_def.1 hf, Option.getD_some] at hnumber
    rw [← hnumber]
    exact UInt64.toNat_lt _
  · intro h t ht
    rw [parseFormattedTime_eq] at ht
    obtain ⟨p, hscan, rfl⟩ := Option.map_eq_some_iff.1 ht
    have hp := scanTime_eq_some.1 hscan
    have hstrict := h p hp
    exact ⟨p, hp.toIsWritten, hstrict.minute, hstrict.second,
      fun f hf => (hstrict.fraction f hf).1, hstrict.zone, hp.exact hstrict⟩

/-- No two numbers of digits after the dot which an `unsigned long` does not tell apart. -/
def FractionsDiffer (sep : UInt8) (value value' : Bytes) : Prop :=
  ∀ p q, IsLooseText sep value p → IsLooseText sep value' q → p.SameClock q →
    number 0 (p.fraction.getD []) ≡ number 0 (q.fraction.getD []) [MOD 2 ^ 64] → p.SameFraction q

theorem tellsFractions_iff :
    TellsFractions zones sep value value' ↔ FractionsDiffer sep value value' := by
  constructor
  · intro h p q hp hq hclock hmod
    have hstored := (stored_eq_iff hp hq).2 ⟨hclock, hmod⟩
    exact h p.stored (parse_of_loose hp) (hstored ▸ parse_of_loose hq) p q hp hq
  · intro h t ht ht' p q hp hq
    rw [parse_of_loose hp] at ht
    rw [parse_of_loose hq] at ht'
    obtain ⟨hclock, hmod⟩ := (stored_eq_iff hp hq).1 (Option.some.inj (ht.trans ht'.symm))
    exact h p q hp hq hclock hmod

theorem timeTexts_iff (zones : UtcZones) (sep : UInt8) (value value' : Bytes) :
    (ReadsTimeText zones sep value ↔ ∀ p, IsLooseText sep value p → p.Strict) ∧
      (TellsFractions zones sep value value' ↔ FractionsDiffer sep value value') :=
  ⟨readsTimeText_iff, tellsFractions_iff⟩

def utcNames : UtcZones where
  offset name := if isUtcName name then some 0 else none
  utc_offset := by
    intro name o h
    split at h
    · next hname => exact ⟨hname, (Option.some.inj h).symm⟩
    · cases h

/-- `.05` and `.5` are taken for the same fraction of a second. -/
theorem leadingZero_forgotten :
    ¬ TellsFractions utcNames (byte ':') (bytes "12:00:00.05") (bytes "12:00:00.5") := by
  rw [tellsFractions_iff]
  intro h
  have hp : IsLooseText (byte ':') (bytes "12:00:00.05")
      ⟨bytes "12", bytes "00", bytes "00", some (bytes "05"), .absent⟩ := scanTime_eq_some.1 rfl
  have hq : IsLooseText (byte ':') (bytes "12:00:00.5")
      ⟨bytes "12", bytes "00", bytes "00", some (bytes "5"), .absent⟩ := scanTime_eq_some.1 rfl
  have hsame := h _ _ hp hq ⟨rfl, rfl, rfl, rfl⟩ rfl
  rw [TimeParts.SameFraction] at hsame
  exact absurd hsame (by decide)

end Contract

end LibGda
