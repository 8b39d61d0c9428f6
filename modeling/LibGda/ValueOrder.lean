import LibGda.DecimalText
import LibGda.ValueCompare
import Mathlib.Order.WithBot

/-! The order which `gda_value_compare` tells, and when it is one. -/

namespace LibGda

open Comparators DecimalText

inductive Together : GdaValue → GdaValue → Prop
  | nulls : Together .null .null
  | left {x : GdaValue} : x ≠ .null → Together .null x
  | right {x : GdaValue} : x ≠ .null → Together x .null
  | integer (type : IntegerType) (i₁ i₂ : type.Carrier) :
    Together (.integer type i₁) (.integer type i₂)
  | binary (p₁ p₂ : ValuePointer) : Together (.binary p₁) (.binary p₂)
  | boolean (b₁ b₂ : Bool) : Together (.boolean b₁) (.boolean b₂)
  | blob (p₁ p₂ : ValuePointer) : Together (.blob p₁) (.blob p₂)
  | date (p₁ p₂ : ValuePointer) : Together (.date p₁) (.date p₂)
  | double (d₁ d₂ : BitVec 64) : Together (.double d₁) (.double d₂)
  | geometricPoint (p₁ p₂ : ValuePointer) : Together (.geometricPoint p₁) (.geometricPoint p₂)
  | object (cls : String) (p₁ p₂ : ValuePointer) : Together (.object cls p₁) (.object cls p₂)
  | int (i₁ i₂ : Int32) : Together (.int i₁) (.int i₂)
  | numeric (p₁ p₂ : ValuePointer) : Together (.numeric p₁) (.numeric p₂)
  | float (f₁ f₂ : BitVec 32) : Together (.float f₁) (.float f₂)
  | string (p₁ p₂ : ValuePointer) : Together (.string p₁) (.string p₂)
  | time (p₁ p₂ : ValuePointer) : Together (.time p₁) (.time p₂)
  | timestamp (p₁ p₂ : ValuePointer) : Together (.timestamp p₁) (.timestamp p₂)

theorem together_of_type {x y : GdaValue} (h : x.type = y.type) : Together x y := by
  cases x with
  | null => cases y with | null => exact .nulls | _ => cases h
  | integer t i => cases y with | integer t' j => cases h; exact .integer t i j | _ => cases h
  | binary p => cases y with | binary q => exact .binary p q | _ => cases h
  | boolean b => cases y with | boolean c => exact .boolean b c | _ => cases h
  | blob p => cases y with | blob q => exact .blob p q | _ => cases h
  | date p => cases y with | date q => exact .date p q | _ => cases h
  | double d => cases y with | double e => exact .double d e | _ => cases h
  | geometricPoint p => cases y with | geometricPoint q => exact .geometricPoint p q | _ => cases h
  | object c p => cases y with | object c' q => cases h; exact .object c p q | _ => cases h
  | int i => cases y with | int j => exact .int i j | _ => cases h
  | numeric p => cases y with | numeric q => exact .numeric p q | _ => cases h
  | float f => cases y with | float g => exact .float f g | _ => cases h
  | string p => cases y with | string q => exact .string p q | _ => cases h
  | time p => cases y with | time q => exact .time p q | _ => cases h
  | timestamp p => cases y with | timestamp q => exact .timestamp p q | _ => cases h

theorem together_of_types {T : GdaType} {x y : GdaValue} (hx : x.type = T ∨ x = .null)
    (hy : y.type = T ∨ y = .null) : Together x y := by
  rcases hx with hx | rfl
  · rcases hy with hy | rfl
    · exact together_of_type (hx.trans hy.symm)
    · by_cases hnull : x = .null
      · rw [hnull]
        exact .nulls
      · exact .right hnull
  · by_cases hnull : y = .null
    · rw [hnull]
      exact .nulls
    · exact .left hnull

section Conditions

variable {ν : Type} [LinearOrder ν] (number : CBytes → ν)

def TextsOrdered (t₁ t₂ : CBytes) : Prop :=
  (codes t₁ < codes t₂ ↔ number t₁ < number t₂) ∧ (t₁ = t₂ ↔ number t₁ = number t₂)

def FlagsAgree (p₁ p₂ : ValuePointer) : Prop :=
  p₁.target = none → p₂.target = none → p₁.flags = p₂.flags

def FloatsOrdered (format : FloatFormat) (bits₁ bits₂ : Nat) : Prop :=
  format.isNaN bits₁ = false ∧ format.isNaN bits₂ = false ∧
    (format.rank bits₁ = format.rank bits₂ → bits₁ = bits₂)

namespace ValueMemory

variable (m : ValueMemory)

def ByValue (r : Int) : GdaValue → GdaValue → Prop
  | .null, .null => r = 0
  | .null, _ => r < 0
  | _, .null => 0 < r
  | .integer _ i₁, .integer _ i₂ => Tells r (i₁ : Int) (i₂ : Int)
  | .int i₁, .int i₂ => Tells r i₁.toInt i₂.toInt
  | .binary p₁, .binary p₂ => ∀ b₁ ∈ p₁.target, ∀ b₂ ∈ p₂.target,
      Tells r (codes (m.binary b₁)) (codes (m.binary b₂))
  | .numeric p₁, .numeric p₂ => ∀ n₁ ∈ p₁.target, ∀ n₂ ∈ p₂.target,
      Tells r (number (m.number n₁)) (number (m.number n₂))
  | .string p₁, .string p₂ => ∀ s₁ ∈ p₁.target, ∀ s₂ ∈ p₂.target,
      Tells r (codes (m.string s₁)) (codes (m.string s₂))
  | .time p₁, .time p₂ => ∀ t₁ ∈ p₁.target, ∀ t₂ ∈ p₂.target,
      Tells r ((m.time t₁).fields.map Field.value) ((m.time t₂).fields.map Field.value)
  | .timestamp p₁, .timestamp p₂ => ∀ t₁ ∈ p₁.target, ∀ t₂ ∈ p₂.target,
      Tells r ((m.timestamp t₁).fields.map Field.value) ((m.timestamp t₂).fields.map Field.value)
  | _, _ => True

/-- `gda_value_compare` is a total order of some values, with `gda_value_differ` as its equality. -/
structure TotalOrder (S : Set Nat) : Prop where
  opposite : ∀ a ∈ S, ∀ b ∈ S, (m.valueCompare a b).sign = -(m.valueCompare b a).sign
  trans : ∀ a ∈ S, ∀ b ∈ S, ∀ c ∈ S, m.valueCompare a b ≤ 0 → m.valueCompare b c ≤ 0 →
    m.valueCompare a c ≤ 0
  byValue : ∀ a ∈ S, ∀ b ∈ S, m.ByValue number (m.valueCompare a b) (m.value a) (m.value b)
  equal : ∀ a ∈ S, ∀ b ∈ S, m.valueCompare a b = 0 ↔ m.valueDiffer a b = 0

def Comparable : GdaValue → GdaValue → Prop
  | .binary p₁, .binary p₂ => ∃ b₁ ∈ p₁.target, ∃ b₂ ∈ p₂.target,
      (m.binary b₁).length = (m.binary b₂).length
  | .blob p₁, .blob p₂ => ∃ b₁ ∈ p₁.target, ∃ b₂ ∈ p₂.target,
      (m.blob b₁).data.length = (m.blob b₂).data.length ∧ (m.blob b₁).op = (m.blob b₂).op
  | .date p₁, .date p₂ => FlagsAgree p₁ p₂
  | .double d₁, .double d₂ => FloatsOrdered .double d₁.toNat d₂.toNat
  | .geometricPoint p₁, .geometricPoint p₂ => FlagsAgree p₁ p₂
  | .object _ p₁, .object _ p₂ => p₁.target = p₂.target
  | .int i₁, .int i₂ => -2 ^ 31 ≤ i₁.toInt - i₂.toInt ∧ i₁.toInt - i₂.toInt < 2 ^ 31
  | .numeric p₁, .numeric p₂ => (p₁.target ≠ none ∨ p₂.target ≠ none) ∧
      ∀ n₁ ∈ p₁.target, ∀ n₂ ∈ p₂.target, TextsOrdered number (m.number n₁) (m.number n₂)
  | .float f₁, .float f₂ => FloatsOrdered .float f₁.toNat f₂.toNat
  | .string p₁, .string p₂ => FlagsAgree p₁ p₂
  | .time p₁, .time p₂ => FlagsAgree p₁ p₂ ∧ ∀ t₁ ∈ p₁.target, ∀ t₂ ∈ p₂.target,
      Field.FirstOrdered (m.time t₁).fields (m.time t₂).fields
  | .timestamp p₁, .timestamp p₂ => FlagsAgree p₁ p₂ ∧ ∀ t₁ ∈ p₁.target, ∀ t₂ ∈ p₂.target,
      Field.FirstOrdered (m.timestamp t₁).fields (m.timestamp t₂).fields
  | _, _ => True

def dateOf : GdaValue → Option GDate
  | .date p => p.target.map m.date
  | _ => none

def DatesOrdered (S : Set Nat) : Prop :=
  ∀ a ∈ S, ∀ b ∈ S, ∀ c ∈ S, m.dateOf (m.value a) = some none →
    ∀ d e, m.dateOf (m.value b) = some (some d) → m.dateOf (m.value c) = some (some e) → d = e

end ValueMemory

end Conditions

abbrev ValueKey := WithBot (WithBot (List Int))

namespace ValueKey

def nullPointer : ValueKey := ((⊥ : WithBot (List Int)) : ValueKey)

def contents (c : List Int) : ValueKey := ((c : WithBot (List Int)) : ValueKey)

def pointer (p : ValuePointer) (key : Nat → List Int) : ValueKey :=
  match p.target with
  | some t => contents (key t)
  | none => nullPointer

theorem bot_lt_contents (c : List Int) : ⊥ < contents c := WithBot.bot_lt_coe _

theorem nullPointer_lt_contents (c : List Int) : nullPointer < contents c :=
  WithBot.coe_lt_coe.2 (WithBot.bot_lt_coe c)

theorem bot_lt_pointer (p : ValuePointer) (key : Nat → List Int) : ⊥ < pointer p key := by
  rw [pointer]
  cases p.target with
  | none => exact WithBot.bot_lt_coe _
  | some t => exact bot_lt_contents _

theorem tells_contents {r : Int} {c d : List Int} (h : Tells r c d) :
    Tells r (contents c) (contents d) := by
  have hcoe : ∀ a b : List Int, contents a < contents b ↔ a < b := fun a b =>
    WithBot.coe_lt_coe.trans WithBot.coe_lt_coe
  exact h.map hcoe

theorem tells_list {r : Int} {i j : Int} (h : Tells r i j) : Tells r [i] [j] := by
  have hsingle : ∀ a b : Int, [a] < [b] ↔ a < b := by
    intro a b
    simp [List.cons_lt_cons_iff]
  exact h.map hsingle

theorem comparePointers_tells {p₁ p₂ : ValuePointer} {f : Nat → Nat → Int} {key : Nat → List Int}
    (h : ∀ t₁ ∈ p₁.target, ∀ t₂ ∈ p₂.target, Tells (f t₁ t₂) (key t₁) (key t₂)) :
    Tells (comparePointers p₁ p₂ f) (pointer p₁ key) (pointer p₂ key) := by
  rw [comparePointers, pointer, pointer]
  cases h₁ : p₁.target with
  | none =>
    cases h₂ : p₂.target with
    | none => exact tells_self nullPointer
    | some t₂ => exact tells_of_lt (by decide : (-1 : Int) < 0) (nullPointer_lt_contents _)
  | some t₁ =>
    cases h₂ : p₂.target with
    | none => exact tells_of_gt Int.one_pos (nullPointer_lt_contents _)
    | some t₂ => exact tells_contents (h t₁ h₁ t₂ h₂)

end ValueKey

theorem floats_tells {format : FloatFormat} {bits₁ bits₂ : Nat}
    (h : FloatsOrdered format bits₁ bits₂) :
    Tells (if format.same bits₁ bits₂ then 0 else if format.greater bits₁ bits₂ then 1 else -1)
      (format.rank bits₁) (format.rank bits₂) := by
  have hsame : format.same bits₁ bits₂ = (format.rank bits₁ == format.rank bits₂) := by
    rw [FloatFormat.same, h.1, h.2.1]
    rfl
  have hgreater : format.greater bits₁ bits₂ =
      decide (format.rank bits₂ < format.rank bits₁) := by
    rw [FloatFormat.greater, h.1, h.2.1]
    rfl
  rw [hsame, hgreater]
  by_cases heq : format.rank bits₁ = format.rank bits₂
  · rw [heq, if_pos (beq_self_eq_true _)]
    exact tells_self _
  · rw [if_neg (by simpa using heq)]
    rcases lt_or_gt_of_ne heq with hlt | hgt
    · rw [if_neg (by simpa using le_of_lt hlt)]
      exact tells_of_lt (by decide : (-1 : Int) < 0) hlt
    · rw [if_pos (by simpa using hgt)]
      exact tells_of_gt Int.one_pos hgt

theorem float_questions (format : FloatFormat) (bits₁ bits₂ : Nat) :
    (if format.greater bits₁ bits₂ then (1 : Int) else if format.same bits₁ bits₂ then 0 else -1) =
      if format.same bits₁ bits₂ then 0 else if format.greater bits₁ bits₂ then 1 else -1 := by
  cases hsame : format.same bits₁ bits₂ with
  | false => simp
  | true =>
    have hgreater : format.greater bits₁ bits₂ = false := by
      rw [FloatFormat.same, Bool.and_eq_true, beq_iff_eq] at hsame
      rw [FloatFormat.greater, hsame.2]
      simp
    rw [hgreater]
    rfl

namespace ValueMemory

variable (m : ValueMemory) (day : GDate → Int)

def key : GdaValue → ValueKey
  | .null => ⊥
  | .integer _ i => .contents [i.1]
  | .binary p => .pointer p fun b => codes (m.binary b)
  | .boolean b => .contents [b.toInt]
  | .blob p => .pointer p fun b => codes (m.blob b).data
  | .date p => .pointer p fun d => [day (m.date d)]
  | .double bits => .contents [FloatFormat.double.rank bits.toNat]
  | .geometricPoint p => .pointer p fun t => codes (pointBytes (m.geometricPoint t))
  | .object _ _ => .contents []
  | .int i => .contents [i.toInt]
  | .numeric p => .pointer p fun n => codes (m.number n)
  | .float bits => .contents [FloatFormat.float.rank bits.toNat]
  | .string p => .pointer p fun s => codes (m.string s)
  | .time p => .pointer p fun t => codes (Field.memory (m.time t).fields)
  | .timestamp p => .pointer p fun t => codes (Field.memory (m.timestamp t).fields)

end ValueMemory

section Compare

open ValueKey

variable {ν : Type} [LinearOrder ν] {number : CBytes → ν} {m : ValueMemory} {day : GDate → Int}

theorem nullLeft {x : GdaValue} (h : x ≠ .null) : m.compareContents .null x = -1 := by
  cases x with
  | null => exact absurd rfl h
  | _ => rfl

theorem nullRight {x : GdaValue} (h : x ≠ .null) : m.compareContents x .null = 1 := by
  cases x with
  | null => exact absurd rfl h
  | _ => rfl

theorem key_pos {x : GdaValue} (h : x ≠ .null) : ⊥ < m.key day x := by
  cases x with
  | null => exact absurd rfl h
  | integer | boolean | double | object | int | float => exact bot_lt_contents _
  | _ => exact bot_lt_pointer _ _

theorem compareContents_tells {x y : GdaValue} (hxy : Together x y) (h : m.Comparable number x y)
    (hday : ∀ d e, m.dateOf x = some d → m.dateOf y = some e → Tells (dateCompare d e) (day d)
      (day e)) :
    Tells (m.compareContents x y) (m.key day x) (m.key day y) := by
  cases hxy with
  | nulls => exact tells_self _
  | left hx =>
    rw [nullLeft hx]
    exact tells_of_lt (by decide) (key_pos hx)
  | right hx =>
    rw [nullRight hx]
    exact tells_of_gt (by decide) (key_pos hx)
  | integer type i j =>
    show Tells (if type = type then threeWay i j else -1) _ _
    rw [if_pos rfl]
    exact tells_contents (tells_list (threeWay_tells i j))
  | binary p q =>
    obtain ⟨b, hb, c, hc, hlength⟩ := h
    rw [ValueMemory.key, ValueMemory.key, pointer, pointer, ValueMemory.compareContents, hb, hc]
    simp only [ValueMemory.compareBinaries, if_pos hlength]
    exact tells_contents (memcmp_tells hlength)
  | boolean b c => exact tells_contents (tells_list (tells_sub b.toInt c.toInt))
  | blob p q =>
    obtain ⟨b, hb, c, hc, hlength, hop⟩ := h
    rw [ValueMemory.key, ValueMemory.key, pointer, pointer, ValueMemory.compareContents, hb, hc]
    simp only [ValueMemory.compareBlobs, if_pos hlength, if_pos hop]
    exact tells_contents (memcmp_tells hlength)
  | date p q =>
    refine comparePointers_tells ?_
    intro t ht t' ht'
    have htells := hday (m.date t) (m.date t') (by rw [ValueMemory.dateOf, ht]; rfl)
      (by rw [ValueMemory.dateOf, ht']; rfl)
    exact tells_list htells
  | double d e => exact tells_contents (tells_list (floats_tells h))
  | geometricPoint p q =>
    refine comparePointers_tells ?_
    intro t ht t' ht'
    refine memcmp_tells ?_
    simp only [pointBytes, List.length_append, length_littleEndian]
  | object cls p q =>
    have hsame : p.target = q.target := h
    show Tells (if cls = cls then (if p.target = q.target then 0 else -1) else -1) _ _
    rw [if_pos rfl, if_pos hsame]
    exact tells_self _
  | int i j =>
    show Tells (gint (i.toInt - j.toInt)) _ _
    rw [gint_of_bounds h.1 h.2]
    exact tells_contents (tells_list (tells_sub i.toInt j.toInt))
  | numeric p q =>
    rw [ValueMemory.key, ValueMemory.key, pointer, pointer, ValueMemory.compareContents]
    cases hp : p.target with
    | none =>
      cases hq : q.target with
      | none => exact absurd h.1 (by rw [hp, hq]; simp)
      | some n => exact tells_of_lt (by decide : (-1 : Int) < 0) (nullPointer_lt_contents _)
    | some n =>
      cases hq : q.target with
      | none => exact tells_of_gt Int.one_pos (nullPointer_lt_contents _)
      | some n' => exact tells_contents (strcmp_tells (m.number n).2 (m.number n').2)
  | float f g =>
    refine tells_contents (tells_list ?_)
    have htells := floats_tells h
    rw [← float_questions] at htells
    exact htells
  | string p q =>
    refine comparePointers_tells ?_
    intro t ht t' ht'
    exact strcmp_tells (m.string t).2 (m.string t').2
  | time p q =>
    refine comparePointers_tells ?_
    intro t ht t' ht'
    exact memcmp_tells (Field.memory_alike (GdaTime.fields_alike _ _)).1
  | timestamp p q =>
    refine comparePointers_tells ?_
    intro t ht t' ht'
    exact memcmp_tells (Field.memory_alike (GdaTimestamp.fields_alike _ _)).1

theorem comparePointers_eq_zero_iff {p q : ValuePointer} {f : Nat → Nat → Int}
    (hself : ∀ t, f t t = 0) (hflags : FlagsAgree p q) :
    comparePointers p q f = 0 ↔ p = q ∨ differPointers p q f = 0 := by
  obtain ⟨target, flags⟩ := p
  obtain ⟨target', flags'⟩ := q
  rw [comparePointers, differPointers]
  cases target with
  | none =>
    cases target' with
    | none =>
      have hsame : flags = flags' := hflags rfl rfl
      exact iff_of_true rfl (.inl (by rw [hsame]))
    | some t => exact iff_of_false (by decide : ¬ (-1 : Int) = 0) (by simp)
  | some t =>
    cases target' with
    | none => exact iff_of_false (by decide : ¬ (1 : Int) = 0) (by simp)
    | some t' =>
      refine ⟨.inr, ?_⟩
      rintro (hsame | hzero)
      · obtain rfl : t = t' := Option.some.inj (congrArg ValuePointer.target hsame)
        exact hself t
      · exact hzero

theorem memcmp_self (bytes : List UInt8) : memcmp bytes bytes = 0 := (memcmp_tells rfl).2.2 rfl

theorem strcmp_self (text : CBytes) : strcmp text text = 0 := (strcmp_tells text.2 text.2).2.2 rfl

theorem dateCompare_self (d : GDate) : dateCompare d d = 0 := by
  cases d with
  | none => rfl
  | some d => exact (threeWay_tells d d).2.2 rfl

theorem compareContents_eq_zero_iff {x y : GdaValue} (hxy : Together x y)
    (h : m.Comparable number x y) :
    m.compareContents x y = 0 ↔ x = y ∨ m.differContents x y = 0 := by
  cases hxy with
  | nulls => exact iff_of_true rfl (.inl rfl)
  | left hx =>
    rw [nullLeft hx]
    refine iff_of_false (by decide) ?_
    rintro (rfl | hzero)
    · exact hx rfl
    · cases y <;> first | exact hx rfl | cases hzero
  | right hx =>
    rw [nullRight hx]
    refine iff_of_false (by decide) ?_
    rintro (rfl | hzero)
    · exact hx rfl
    · cases x <;> first | exact hx rfl | cases hzero
  | integer type i j =>
    show (if type = type then threeWay i j else -1) = 0 ↔ _ ∨ (1 : Int) = 0
    rw [if_pos rfl, (threeWay_tells i j).2, or_iff_left (by decide)]
    simp [Subtype.ext_iff]
  | binary p q =>
    obtain ⟨b, hb, c, hc, hlength⟩ := h
    have hcompare : m.compareContents (.binary p) (.binary q) = memcmp (m.binary b)
      (m.binary c) := by
      rw [ValueMemory.compareContents, hb, hc]
      exact if_pos hlength
    have hdiffer : m.differContents (.binary p) (.binary q) = memcmp (m.binary b) (m.binary c) := by
      rw [ValueMemory.differContents, differPointers, hb, hc]
      exact if_pos hlength
    rw [hcompare, hdiffer]
    refine ⟨.inr, ?_⟩
    rintro (hsame | hzero)
    · cases hsame
      obtain rfl : b = c := Option.some.inj (hb.symm.trans hc)
      exact memcmp_self _
    · exact hzero
  | boolean b c =>
    show b.toInt - c.toInt = 0 ↔ _ ∨ (1 : Int) = 0
    cases b <;> cases c <;> simp
  | blob p q =>
    obtain ⟨b, hb, c, hc, hlength, hop⟩ := h
    have hcompare : m.compareContents (.blob p) (.blob q) = memcmp (m.blob b).data
      (m.blob c).data := by
      rw [ValueMemory.compareContents, hb, hc]
      exact (if_pos hlength).trans (if_pos hop)
    have hdiffer : m.differContents (.blob p) (.blob q) = memcmp (m.blob b).data
      (m.blob c).data := by
      rw [ValueMemory.differContents, differPointers, hb, hc]
      exact (if_pos hlength).trans (if_pos hop)
    rw [hcompare, hdiffer]
    refine ⟨.inr, ?_⟩
    rintro (hsame | hzero)
    · cases hsame
      obtain rfl : b = c := Option.some.inj (hb.symm.trans hc)
      exact memcmp_self _
    · exact hzero
  | date p q =>
    rw [GdaValue.date.injEq]
    exact comparePointers_eq_zero_iff (fun t => dateCompare_self _) h
  | double d e =>
    show _ ↔ _ ∨ (1 : Int) = 0
    rw [or_iff_left (by decide : ¬ (1 : Int) = 0), GdaValue.double.injEq]
    refine (floats_tells h).2.trans ⟨fun hrank => BitVec.eq_of_toNat_eq (h.2.2 hrank), ?_⟩
    rintro rfl
    rfl
  | geometricPoint p q =>
    rw [GdaValue.geometricPoint.injEq]
    exact comparePointers_eq_zero_iff (fun t => memcmp_self _) h
  | object cls p q =>
    have hsame : p.target = q.target := h
    refine iff_of_true ?_ (.inr ?_)
    · show (if cls = cls then (if p.target = q.target then 0 else -1) else -1) = (0 : Int)
      rw [if_pos rfl, if_pos hsame]
    · show (if cls = cls then (if p.target = q.target then 0 else -1) else 1) = (0 : Int)
      rw [if_pos rfl, if_pos hsame]
  | int i j =>
    show gint (i.toInt - j.toInt) = 0 ↔ _ ∨ (1 : Int) = 0
    rw [gint_of_bounds h.1 h.2, or_iff_left (by decide : ¬ (1 : Int) = 0), GdaValue.int.injEq,
      ← Int32.toInt_inj]
    exact Int.sub_eq_zero
  | numeric p q =>
    have hnot := h.1
    obtain ⟨target, flags⟩ := p
    obtain ⟨target', flags'⟩ := q
    cases target with
    | none =>
      cases target' with
      | none => exact absurd hnot (by simp)
      | some n =>
        exact iff_of_false (by decide : ¬ (-1 : Int) = 0)
          (by simp [ValueMemory.differContents, differPointers])
    | some n =>
      cases target' with
      | none =>
        exact iff_of_false (by decide : ¬ (1 : Int) = 0)
          (by simp [ValueMemory.differContents, differPointers])
      | some n' =>
        refine ⟨.inr, ?_⟩
        rintro (hsame | hzero)
        · cases hsame
          exact strcmp_self _
        · exact hzero
  | float f g =>
    have htells := floats_tells h
    rw [← float_questions] at htells
    show _ ↔ _ ∨ (1 : Int) = 0
    rw [or_iff_left (by decide : ¬ (1 : Int) = 0), GdaValue.float.injEq]
    refine htells.2.trans ⟨fun hrank => BitVec.eq_of_toNat_eq (h.2.2 hrank), ?_⟩
    rintro rfl
    rfl
  | string p q =>
    rw [GdaValue.string.injEq]
    exact comparePointers_eq_zero_iff (fun t => strcmp_self _) h
  | time p q =>
    rw [GdaValue.time.injEq]
    exact comparePointers_eq_zero_iff (fun t => memcmp_self _) h.1
  | timestamp p q =>
    rw [GdaValue.timestamp.injEq]
    exact comparePointers_eq_zero_iff (fun t => memcmp_self _) h.1

theorem textsOrdered_iff {t₁ t₂ : CBytes} :
    TextsOrdered number t₁ t₂ ↔ Tells (strcmp t₁ t₂) (number t₁) (number t₂) := by
  have htells := strcmp_tells t₁.2 t₂.2
  have hcodes : codes t₁ = codes t₂ ↔ t₁ = t₂ :=
    ⟨fun h => Subtype.ext (codes_injective h), fun h => by rw [h]⟩
  rw [TextsOrdered, Tells, htells.1, htells.2, hcodes]

theorem byValue_of_comparable {x y : GdaValue} (hxy : Together x y) (h : m.Comparable number x y) :
    m.ByValue number (m.compareContents x y) x y := by
  cases hxy with
  | nulls => rfl
  | left hx =>
    rw [nullLeft hx]
    cases y with
    | null => exact absurd rfl hx
    | _ => exact (by decide : (-1 : Int) < 0)
  | right hx =>
    rw [nullRight hx]
    cases x with
    | null => exact absurd rfl hx
    | _ => exact Int.one_pos
  | integer type i j =>
    show Tells (if type = type then threeWay i j else -1) _ _
    rw [if_pos rfl]
    exact threeWay_tells i j
  | binary p q =>
    obtain ⟨b, hb, c, hc, hlength⟩ := h
    intro b' hb' c' hc'
    obtain rfl : b = b' := Option.some.inj (hb.symm.trans hb')
    obtain rfl : c = c' := Option.some.inj (hc.symm.trans hc')
    rw [ValueMemory.compareContents, hb, hc]
    simp only [ValueMemory.compareBinaries, if_pos hlength]
    exact memcmp_tells hlength
  | int i j =>
    show Tells (gint (i.toInt - j.toInt)) _ _
    rw [gint_of_bounds h.1 h.2]
    exact tells_sub i.toInt j.toInt
  | numeric p q =>
    intro n hn n' hn'
    rw [ValueMemory.compareContents, hn, hn']
    exact textsOrdered_iff.1 (h.2 n hn n' hn')
  | string p q =>
    intro t ht t' ht'
    rw [ValueMemory.compareContents, comparePointers, ht, ht']
    exact strcmp_tells (m.string t).2 (m.string t').2
  | time p q =>
    intro t ht t' ht'
    rw [ValueMemory.compareContents, comparePointers, ht, ht']
    exact (Field.memcmp_memory_tells_iff (GdaTime.fields_alike _ _)).2 (h.2 t ht t' ht')
  | timestamp p q =>
    intro t ht t' ht'
    rw [ValueMemory.compareContents, comparePointers, ht, ht']
    exact (Field.memcmp_memory_tells_iff (GdaTimestamp.fields_alike _ _)).2 (h.2 t ht t' ht')
  | boolean | blob | date | double | geometricPoint | object | float => trivial

theorem floats_unordered {format : FloatFormat} {bits₁ bits₂ : Nat}
    (h : format.isNaN bits₁ = true ∨ format.isNaN bits₂ = true) :
    (if format.same bits₁ bits₂ then (0 : Int) else if format.greater bits₁ bits₂ then 1 else -1) =
      -1 := by
  have hsame : format.same bits₁ bits₂ = false := by
    rw [FloatFormat.same]
    rcases h with h | h <;> simp [h]
  have hgreater : format.greater bits₁ bits₂ = false := by
    rw [FloatFormat.greater]
    rcases h with h | h <;> simp [h]
  rw [hsame, hgreater]
  rfl

theorem floatsOrdered_of_equal {format : FloatFormat} {bits₁ bits₂ : Nat} {r r' : Int}
    (hr : r = if format.same bits₁ bits₂ then 0 else if format.greater bits₁ bits₂ then 1 else -1)
    (hr' : r' = if format.same bits₂ bits₁ then 0 else if format.greater bits₂ bits₁ then 1 else -1)
    (hopposite : r.sign = -r'.sign) (hequal : r = 0 → bits₁ = bits₂) :
    FloatsOrdered format bits₁ bits₂ := by
  have hnumbers : ¬ (format.isNaN bits₁ = true ∨ format.isNaN bits₂ = true) := by
    intro h
    rw [floats_unordered h] at hr
    rw [floats_unordered h.symm] at hr'
    rw [hr, hr'] at hopposite
    exact absurd hopposite (by decide)
  rw [not_or, Bool.not_eq_true, Bool.not_eq_true] at hnumbers
  refine ⟨hnumbers.1, hnumbers.2, ?_⟩
  intro hrank
  apply hequal
  have hsame : format.same bits₁ bits₂ = true := by
    rw [FloatFormat.same, hnumbers.1, hnumbers.2, hrank]
    simp
  rw [hr, hsame]
  rfl

theorem flagsAgree_of_equal {p q : ValuePointer} {f : Nat → Nat → Int}
    (hequal : comparePointers p q f = 0 → p = q ∨ differPointers p q f = 0) : FlagsAgree p q := by
  intro hp hq
  have hzero : comparePointers p q f = 0 := by
    rw [comparePointers, hp, hq]
  rcases hequal hzero with hsame | hdiffer
  · rw [hsame]
  · rw [differPointers, hp] at hdiffer
    cases hdiffer

theorem not_both_less {a b : Int} (h : a.sign = -b.sign) : a ≠ -1 ∨ b ≠ -1 := by
  rw [← not_and_or]
  rintro ⟨rfl, rfl⟩
  exact absurd h (by decide)

theorem comparable_of_ordered {x y : GdaValue} (hxy : Together x y)
    (hopposite : (m.compareContents x y).sign = -(m.compareContents y x).sign)
    (hvalue : m.ByValue number (m.compareContents x y) x y)
    (hequal : m.compareContents x y = 0 → x = y ∨ m.differContents x y = 0) :
    m.Comparable number x y := by
  cases hxy with
  | nulls | integer | boolean => trivial
  | left => cases y <;> trivial
  | right => cases x <;> trivial
  | binary p q =>
    have hnot := not_both_less hopposite
    cases hp : p.target with
    | none => exact absurd hnot (by simp [ValueMemory.compareContents, hp])
    | some b =>
      cases hq : q.target with
      | none => exact absurd hnot (by simp [ValueMemory.compareContents, hq])
      | some c =>
        refine ⟨b, hp, c, hq, ?_⟩
        by_contra hlength
        refine absurd hnot ?_
        simp [ValueMemory.compareContents, hp, hq, ValueMemory.compareBinaries, hlength,
          Ne.symm hlength]
  | blob p q =>
    have hnot := not_both_less hopposite
    cases hp : p.target with
    | none => exact absurd hnot (by simp [ValueMemory.compareContents, hp])
    | some b =>
      cases hq : q.target with
      | none => exact absurd hnot (by simp [ValueMemory.compareContents, hq])
      | some c =>
        refine ⟨b, hp, c, hq, ?_⟩
        by_cases hlength : (m.blob b).data.length = (m.blob c).data.length
        · refine ⟨hlength, ?_⟩
          by_contra hop
          refine absurd hnot ?_
          simp [ValueMemory.compareContents, hp, hq, ValueMemory.compareBlobs, hlength, hop,
            Ne.symm hop]
        · refine absurd hnot ?_
          simp [ValueMemory.compareContents, hp, hq, ValueMemory.compareBlobs, hlength,
            Ne.symm hlength]
  | date p q =>
    rw [GdaValue.date.injEq] at hequal
    exact flagsAgree_of_equal hequal
  | double d e =>
    refine floatsOrdered_of_equal rfl rfl hopposite ?_
    intro hzero
    rcases hequal hzero with hsame | hdiffer
    · rw [GdaValue.double.inj hsame]
    · cases hdiffer
  | geometricPoint p q =>
    rw [GdaValue.geometricPoint.injEq] at hequal
    exact flagsAgree_of_equal hequal
  | object cls p q =>
    by_contra hne
    have hne' : p.target ≠ q.target := hne
    have h : m.compareContents (.object cls p) (.object cls q) = -1 := by
      show (if cls = cls then (if p.target = q.target then 0 else -1) else -1) = (-1 : Int)
      rw [if_pos rfl, if_neg hne']
    have h' : m.compareContents (.object cls q) (.object cls p) = -1 := by
      show (if cls = cls then (if q.target = p.target then 0 else -1) else -1) = (-1 : Int)
      rw [if_pos rfl, if_neg hne'.symm]
    rw [h, h'] at hopposite
    exact absurd hopposite (by decide)
  | int i j =>
    have htells : Tells (gint (i.toInt - j.toInt)) i.toInt j.toInt := hvalue
    have hi := i.toInt_lt
    have hi' := i.le_toInt
    have hj := j.toInt_lt
    have hj' := j.le_toInt
    have hpos := htells.pos
    have hneg := htells.1
    rw [gint, Int.bmod_def] at hpos hneg
    show -2 ^ 31 ≤ i.toInt - j.toInt ∧ i.toInt - j.toInt < 2 ^ 31
    omega
  | numeric p q =>
    refine ⟨?_, ?_⟩
    · rw [← not_and_or]
      rintro ⟨hp, hq⟩
      have h : m.compareContents (.numeric p) (.numeric q) = -1 := by
        rw [ValueMemory.compareContents, hp]
      have h' : m.compareContents (.numeric q) (.numeric p) = -1 := by
        rw [ValueMemory.compareContents, hq]
      rw [h, h'] at hopposite
      exact absurd hopposite (by decide)
    · intro n hn n' hn'
      have htells := hvalue n hn n' hn'
      rw [ValueMemory.compareContents, hn, hn'] at htells
      exact textsOrdered_iff.2 htells
  | float f g =>
    refine floatsOrdered_of_equal (float_questions _ _ _) (float_questions _ _ _) hopposite ?_
    intro hzero
    rcases hequal hzero with hsame | hdiffer
    · rw [GdaValue.float.inj hsame]
    · cases hdiffer
  | string p q =>
    rw [GdaValue.string.injEq] at hequal
    exact flagsAgree_of_equal hequal
  | time p q =>
    rw [GdaValue.time.injEq] at hequal
    refine ⟨flagsAgree_of_equal hequal, ?_⟩
    intro t ht t' ht'
    have htells := hvalue t ht t' ht'
    rw [ValueMemory.compareContents, comparePointers, ht, ht'] at htells
    exact (Field.memcmp_memory_tells_iff (GdaTime.fields_alike _ _)).1 htells
  | timestamp p q =>
    rw [GdaValue.timestamp.injEq] at hequal
    refine ⟨flagsAgree_of_equal hequal, ?_⟩
    intro t ht t' ht'
    have htells := hvalue t ht t' ht'
    rw [ValueMemory.compareContents, comparePointers, ht, ht'] at htells
    exact (Field.memcmp_memory_tells_iff (GdaTimestamp.fields_alike _ _)).1 htells

theorem byValue_self (x : GdaValue) : m.ByValue number 0 x x := by
  cases x with
  | null => rfl
  | integer type i => exact tells_self _
  | int i => exact tells_self _
  | boolean | blob | date | double | geometricPoint | object | float => trivial
  | _ =>
    intro t ht t' ht'
    obtain rfl := Option.some.inj (ht.symm.trans ht')
    exact tells_self _

end Compare

def digitsNumber (text : CBytes) : Nat := number 0 text.1

theorem number_lt_iff {xs ys : Bytes} (hlength : xs.length = ys.length)
    (hxs : ∀ b ∈ xs, IsDigit b) (hys : ∀ b ∈ ys, IsDigit b) (n k : Nat) :
    number n xs < number k ys ↔ n < k ∨ n = k ∧ codes xs < codes ys := by
  induction xs generalizing ys n k with
  | nil =>
    rw [List.length_nil, eq_comm, List.length_eq_zero_iff] at hlength
    rw [hlength]
    exact (or_iff_left fun h => lt_irrefl _ h.2).symm
  | cons x xs ih =>
    cases ys with
    | nil => cases hlength
    | cons y ys =>
      obtain ⟨hx, hxs⟩ := List.forall_mem_cons.1 hxs
      obtain ⟨hy, hys⟩ := List.forall_mem_cons.1 hys
      obtain ⟨hx₁, hx₂⟩ := hx
      obtain ⟨hy₁, hy₂⟩ := hy
      rw [number, number, List.foldl_cons, List.foldl_cons]
      refine (ih (Nat.succ.inj hlength) hxs hys _ _).trans ?_
      have hcodes : codes (x :: xs) < codes (y :: ys) ↔
          x.toNat < y.toNat ∨ x.toNat = y.toNat ∧ codes xs < codes ys := by
        rw [codes, codes, List.map_cons, List.map_cons, List.cons_lt_cons_iff, Int.ofNat_lt,
          Int.ofNat_inj]
        rfl
      rw [hcodes, digitValue, digitValue]
      constructor
      · rintro (hlt | ⟨heq, hrest⟩)
        · rcases Nat.lt_or_ge n k with hnk | hnk
          · exact .inl hnk
          · exact .inr ⟨by omega, .inl (by omega)⟩
        · rcases Nat.lt_or_ge n k with hnk | hnk
          · exact .inl hnk
          · exact .inr ⟨by omega, .inr ⟨by omega, hrest⟩⟩
      · rintro (hlt | ⟨rfl, hlt | ⟨heq, hrest⟩⟩)
        · by_cases heq : n * 10 + (x.toNat - 48) < k * 10 + (y.toNat - 48)
          · exact .inl heq
          · omega
        · exact .inl (by omega)
        · exact .inr ⟨by omega, hrest⟩

theorem digits_textsOrdered {t₁ t₂ : CBytes} (hlength : t₁.1.length = t₂.1.length)
    (h₁ : ∀ b ∈ t₁.1, IsDigit b) (h₂ : ∀ b ∈ t₂.1, IsDigit b) :
    TextsOrdered digitsNumber t₁ t₂ := by
  have hlt := number_lt_iff hlength h₁ h₂ 0 0
  have hgt := number_lt_iff hlength.symm h₂ h₁ 0 0
  have hless : codes t₁.1 < codes t₂.1 ↔ digitsNumber t₁ < digitsNumber t₂ := by
    rw [digitsNumber, digitsNumber, hlt]
    simp
  have hmore : codes t₂.1 < codes t₁.1 ↔ digitsNumber t₂ < digitsNumber t₁ := by
    rw [digitsNumber, digitsNumber, hgt]
    simp
  refine ⟨hless, ?_⟩
  constructor
  · exact congrArg digitsNumber
  · intro heq
    have hcodes : codes t₁.1 = codes t₂.1 := by
      refine le_antisymm (not_lt.1 fun h => ?_) (not_lt.1 fun h => ?_)
      · exact absurd (hmore.1 h) (by omega)
      · exact absurd (hless.1 h) (by omega)
    exact Subtype.ext (codes_injective hcodes)

namespace ValueMemory

variable {ν : Type} [LinearOrder ν] {number : CBytes → ν} {m : ValueMemory} {S : Set Nat}

theorem valueCompare_self (a : Nat) : m.valueCompare a a = 0 := if_pos rfl

theorem valueCompare_other {a b : Nat} (h : a ≠ b) :
    m.valueCompare a b = m.compareContents (m.value a) (m.value b) := if_neg h

theorem valueDiffer_eq_zero_iff (a b : Nat) :
    m.valueDiffer a b = 0 ↔
      m.value a = m.value b ∨ m.differContents (m.value a) (m.value b) = 0 := by
  rw [valueDiffer]
  by_cases heq : m.value a = m.value b
  · rw [if_pos heq]
    exact iff_of_true rfl (.inl heq)
  · rw [if_neg heq]
    exact (or_iff_right heq).symm

theorem DatesOrdered.exists_day (h : m.DatesOrdered S) :
    ∃ day : GDate → Int, ∀ a ∈ S, ∀ b ∈ S, ∀ d e, m.dateOf (m.value a) = some d →
      m.dateOf (m.value b) = some e → Tells (dateCompare d e) (day d) (day e) := by
  by_cases hinvalid : ∃ a ∈ S, m.dateOf (m.value a) = some none
  · obtain ⟨a, ha, hdate⟩ := hinvalid
    refine ⟨fun _ => 0, ?_⟩
    intro b hb c hc d e hd he
    have hzero : dateCompare d e = 0 := by
      cases d with
      | none => rfl
      | some d =>
        cases e with
        | none => rfl
        | some e =>
          have hsame := h a ha b hb c hc hdate d e hd he
          rw [hsame]
          exact dateCompare_self _
    rw [hzero]
    exact tells_self _
  · refine ⟨fun d => d.elim 0 Int.ofNat, ?_⟩
    intro b hb c hc d e hd he
    cases d with
    | none => exact absurd ⟨b, hb, hd⟩ hinvalid
    | some d =>
      cases e with
      | none => exact absurd ⟨c, hc, he⟩ hinvalid
      | some e => exact threeWay_tells d e

theorem dateOf_eq {x : GdaValue} {d : GDate} (h : m.dateOf x = some d) :
    ∃ p t, x = .date p ∧ p.target = some t ∧ m.date t = d := by
  cases x with
  | date p =>
    obtain ⟨t, ht, hd⟩ := Option.map_eq_some_iff.1 h
    exact ⟨p, t, rfl, ht, hd⟩
  | _ => cases h

theorem compare_dates {a b : Nat} {d e : GDate} (hne : a ≠ b) (hd : m.dateOf (m.value a) = some d)
    (he : m.dateOf (m.value b) = some e) : m.valueCompare a b = dateCompare d e := by
  obtain ⟨p, t, hp, ht, rfl⟩ := dateOf_eq hd
  obtain ⟨q, t', hq, ht', rfl⟩ := dateOf_eq he
  rw [valueCompare_other hne, hp, hq, compareContents, comparePointers, ht, ht']

theorem TotalOrder.datesOrdered (h : m.TotalOrder number S) : m.DatesOrdered S := by
  intro a ha b hb c hc hinvalid d e hd he
  -- an invalid date is compared as the same one as any other date
  have hab : a ≠ b := by
    rintro rfl
    cases hinvalid.symm.trans hd
  have hac : a ≠ c := by
    rintro rfl
    cases hinvalid.symm.trans he
  have hba : m.valueCompare b a ≤ 0 := le_of_eq (compare_dates hab.symm hd hinvalid)
  have hca : m.valueCompare c a ≤ 0 := le_of_eq (compare_dates hac.symm he hinvalid)
  have hab' : m.valueCompare a b ≤ 0 := le_of_eq (compare_dates hab hinvalid hd)
  have hac' : m.valueCompare a c ≤ 0 := le_of_eq (compare_dates hac hinvalid he)
  by_cases hbc : b = c
  · rw [hbc] at hd
    exact Option.some.inj (Option.some.inj (hd.symm.trans he))
  · have hle := h.trans b hb a ha c hc hba hac'
    have hge := h.trans c hc a ha b hb hca hab'
    rw [compare_dates hbc hd he] at hle
    rw [compare_dates (Ne.symm hbc) he hd] at hge
    have hle' : (d : Int) ≤ e := (threeWay_tells d e).nonpos.1 hle
    have hge' : (e : Int) ≤ d := (threeWay_tells e d).nonpos.1 hge
    omega

/-- The order is total exactly if any two values, and the dates, meet what they are to. -/
theorem valueCompare_totalOrder_iff (number : CBytes → ν) (m : ValueMemory) (T : GdaType)
    (S : Set Nat) (hS : ∀ v ∈ S, (m.value v).type = T ∨ m.value v = .null) :
    m.TotalOrder number S ↔
      (∀ a ∈ S, ∀ b ∈ S, a ≠ b → m.Comparable number (m.value a) (m.value b)) ∧
        m.DatesOrdered S := by
  have htogether : ∀ a ∈ S, ∀ b ∈ S, Together (m.value a) (m.value b) :=
    fun a ha b hb => together_of_types (hS a ha) (hS b hb)
  constructor
  · intro h
    refine ⟨?_, h.datesOrdered⟩
    intro a ha b hb hne
    have hopposite := h.opposite a ha b hb
    have hvalue := h.byValue a ha b hb
    have hequal := h.equal a ha b hb
    rw [valueCompare_other hne, valueCompare_other hne.symm] at hopposite
    rw [valueCompare_other hne] at hvalue
    rw [valueCompare_other hne, valueDiffer_eq_zero_iff] at hequal
    exact comparable_of_ordered (htogether a ha b hb) hopposite hvalue hequal.1
  · rintro ⟨hcomparable, hdates⟩
    obtain ⟨day, hday⟩ := hdates.exists_day
    have htells : ∀ a ∈ S, ∀ b ∈ S,
        Tells (m.valueCompare a b) (m.key day (m.value a)) (m.key day (m.value b)) := by
      intro a ha b hb
      by_cases heq : a = b
      · rw [heq, valueCompare_self]
        exact tells_self _
      · rw [valueCompare_other heq]
        exact compareContents_tells (htogether a ha b hb) (hcomparable a ha b hb heq)
          (hday a ha b hb)
    refine ⟨?_, ?_, ?_, ?_⟩
    · intro a ha b hb
      exact (htells a ha b hb).opposite (htells b hb a ha)
    · intro a ha b hb c hc hab hbc
      rw [(htells a ha b hb).nonpos] at hab
      rw [(htells b hb c hc).nonpos] at hbc
      rw [(htells a ha c hc).nonpos]
      exact le_trans hab hbc
    · intro a ha b hb
      by_cases heq : a = b
      · rw [heq, valueCompare_self]
        exact byValue_self _
      · rw [valueCompare_other heq]
        exact byValue_of_comparable (htogether a ha b hb) (hcomparable a ha b hb heq)
    · intro a ha b hb
      rw [valueDiffer_eq_zero_iff]
      by_cases heq : a = b
      · rw [heq, valueCompare_self]
        exact iff_of_true rfl (.inl rfl)
      · rw [valueCompare_other heq]
        exact compareContents_eq_zero_iff (htogether a ha b hb) (hcomparable a ha b hb heq)

def exampleValues : ValueMemory where
  value := fun v => if v < 2 then .numeric { target := some v } else .null
  number := fun n => if n = 0 then ⟨[49, 48], by decide⟩ else ⟨[50, 53], by decide⟩

theorem exampleValues_cases (v : Nat) :
    exampleValues.value v = .numeric { target := some v } ∨ exampleValues.value v = .null := by
  by_cases hv : v < 2
  · exact .inl (if_pos hv)
  · exact .inr (if_neg hv)

theorem exampleValues_totalOrder : exampleValues.TotalOrder digitsNumber { v | v < 3 } := by
  have htypes : ∀ v ∈ { v | v < 3 }, (exampleValues.value v).type = .numeric ∨
      exampleValues.value v = .null := by
    intro v _
    exact (exampleValues_cases v).imp_left fun h => by rw [h]; rfl
  have hdigits : ∀ n, (exampleValues.number n).1.length = 2 ∧
      ∀ b ∈ (exampleValues.number n).1, IsDigit b := by
    intro n
    by_cases hn : n = 0
    · simp [exampleValues, hn, IsDigit]
    · simp [exampleValues, hn, IsDigit]
  refine (valueCompare_totalOrder_iff digitsNumber exampleValues .numeric _ htypes).2 ⟨?_, ?_⟩
  · intro a _ b _ _
    rcases exampleValues_cases a with ha | ha
    · rcases exampleValues_cases b with hb | hb
      · rw [ha, hb]
        refine ⟨.inl (fun hno => by cases hno), fun n _ n' _ => ?_⟩
        exact digits_textsOrdered ((hdigits n).1.trans (hdigits n').1.symm) (hdigits n).2
          (hdigits n').2
      · rw [ha, hb]
        trivial
    · rw [ha]
      cases exampleValues.value b <;> trivial
  · intro a _ _ _ _ _ hdate
    rcases exampleValues_cases a with ha | ha
    · rw [ha] at hdate
      cases hdate
    · rw [ha] at hdate
      cases hdate

def otherLengths : ValueMemory where
  value := fun v => .binary { target := some v }
  binary := fun b => if b = 0 then [] else [7]

theorem otherLengths_notOrdered : ¬ otherLengths.TotalOrder digitsNumber { v | v < 2 } := by
  intro h
  have hopposite := h.opposite 0 Nat.two_pos 1 Nat.one_lt_two
  exact absurd hopposite (by decide)

end ValueMemory

end LibGda
