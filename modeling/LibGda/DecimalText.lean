import Mathlib.Data.List.Basic
import Mathlib.Data.Nat.Basic
import Mathlib.Tactic.Cases

/-! Decimal numbers as bytes, and loops which read their digits. -/

namespace DecimalText

def IsDigit (b : UInt8) : Prop := 48 ≤ b.toNat ∧ b.toNat ≤ 57

instance (b : UInt8) : Decidable (IsDigit b) := inferInstanceAs (Decidable (_ ∧ _))

def digitValue (b : UInt8) : Nat := b.toNat - 48

def decimal (n : Nat) : List UInt8 := (Nat.toDigits 10 n).map fun c => UInt8.ofNat c.toNat

def padded (width n : Nat) : List UInt8 :=
  List.replicate (width - (decimal n).length) 48 ++ decimal n

def signed (n : Int) : List UInt8 := (if n < 0 then 45 else 43) :: decimal n.natAbs

def decimalInt (n : Int) : List UInt8 := if n < 0 then 45 :: decimal n.natAbs else decimal n.natAbs

def number (before : Nat) (digits : List UInt8) : Nat :=
  digits.foldl (fun n b => n * 10 + digitValue b) before

/-- A loop which reads digits, at most as many as `limit`. -/
def readDigits (next : Nat → Nat → Option Nat) : Nat → Nat → List UInt8 → Option (Nat × List UInt8)
  | 0, n, s => some (n, s)
  | _ + 1, n, [] => some (n, [])
  | limit + 1, n, b :: s =>
    if IsDigit b then
      match next n (digitValue b) with
      | some n' => readDigits next limit n' s
      | none => none
    else some (n, b :: s)

section Decimal

theorem decimal_eq (n : Nat) :
    decimal n = if n < 10 then [UInt8.ofNat (48 + n)]
      else decimal (n / 10) ++ [UInt8.ofNat (48 + n % 10)] := by
  rw [decimal, Nat.toDigits_eq_if (by decide)]
  by_cases hn : n < 10
  · rw [if_pos hn, if_pos hn, List.map_singleton, Nat.toNat_digitChar_of_lt_ten hn]
  · rw [if_neg hn, if_neg hn, List.map_append, List.map_singleton,
      Nat.toNat_digitChar_of_lt_ten (Nat.mod_lt n (by decide))]
    rfl

theorem digit_toNat {d : Nat} (h : d < 10) : (UInt8.ofNat (48 + d)).toNat = 48 + d := by
  rw [UInt8.toNat_ofNat']
  omega

theorem isDigit_digit {d : Nat} (h : d < 10) : IsDigit (UInt8.ofNat (48 + d)) := by
  rw [IsDigit, digit_toNat h]
  omega

theorem digitValue_digit {d : Nat} (h : d < 10) : digitValue (UInt8.ofNat (48 + d)) = d := by
  rw [digitValue, digit_toNat h]
  omega

theorem isDigit_of_mem_decimal (n : Nat) : ∀ b ∈ decimal n, IsDigit b := by
  induction n using Nat.strongRecOn with
  | ind n ih =>
    intro b hb
    rw [decimal_eq] at hb
    by_cases hn : n < 10
    · rw [if_pos hn, List.mem_singleton] at hb
      rw [hb]
      exact isDigit_digit hn
    · rw [if_neg hn, List.mem_append, List.mem_singleton] at hb
      rcases hb with hb | hb
      · exact ih (n / 10) (by omega) b hb
      · rw [hb]
        exact isDigit_digit (Nat.mod_lt n (by decide))

theorem number_append (before : Nat) (xs ys : List UInt8) :
    number before (xs ++ ys) = number (number before xs) ys := List.foldl_append

theorem number_decimal (n : Nat) : number 0 (decimal n) = n := by
  induction n using Nat.strongRecOn with
  | ind n ih =>
    rw [decimal_eq]
    by_cases hn : n < 10
    · rw [if_pos hn, number, List.foldl_cons, List.foldl_nil, digitValue_digit hn]
      omega
    · rw [if_neg hn, number_append, ih (n / 10) (by omega), number, List.foldl_cons, List.foldl_nil,
        digitValue_digit (Nat.mod_lt n (by decide))]
      omega

theorem decimal_ne_nil (n : Nat) : decimal n ≠ [] := by
  rw [decimal_eq]
  by_cases hn : n < 10
  · rw [if_pos hn]
    exact List.cons_ne_nil _ _
  · rw [if_neg hn]
    simp

theorem isDigit_of_mem_padded (width n : Nat) : ∀ b ∈ padded width n, IsDigit b := by
  intro b hb
  rcases List.mem_append.1 hb with hb | hb
  · rw [(List.mem_replicate.1 hb).2]
    decide
  · exact isDigit_of_mem_decimal n b hb

theorem number_zeros (k : Nat) : number 0 (List.replicate k 48) = 0 := by
  induction k with
  | zero => rfl
  | succ k ih =>
    rw [List.replicate_succ, number, List.foldl_cons]
    exact ih

theorem number_padded (width n : Nat) : number 0 (padded width n) = n := by
  rw [padded, number_append, number_zeros, number_decimal]

theorem padded_ne_nil (width n : Nat) : padded width n ≠ [] := by
  rw [padded]
  simp [decimal_ne_nil]

theorem length_decimal_le {n : Nat} (h : n < 100) : (decimal n).length ≤ 2 := by
  rw [decimal_eq]
  by_cases hn : n < 10
  · rw [if_pos hn]
    exact Nat.le_succ 1
  · rw [if_neg hn, decimal_eq, if_pos (by omega)]
    exact Nat.le_refl 2

theorem length_padded {n : Nat} (h : n < 100) : (padded 2 n).length = 2 := by
  have hle := length_decimal_le h
  rw [padded, List.length_append, List.length_replicate]
  omega

end Decimal

section Read

variable {next : Nat → Nat → Option Nat}

def folded (next : Nat → Nat → Option Nat) (n : Nat) : List UInt8 → Option Nat
  | [] => some n
  | b :: digits =>
    match next n (digitValue b) with
    | some n' => folded next n' digits
    | none => none

def EndsDigits (limit : Nat) (digits rest : List UInt8) : Prop :=
  digits.length = limit ∨ digits.length < limit ∧ ∀ b ∈ rest.head?, ¬ IsDigit b

theorem readDigits_append {digits rest : List UInt8} {limit : Nat} (n : Nat)
    (hdigits : ∀ b ∈ digits, IsDigit b) (hends : EndsDigits limit digits rest) :
    readDigits next limit n (digits ++ rest) = (folded next n digits).map fun n' => (n', rest) := by
  induction digits generalizing limit n with
  | nil =>
    rw [List.nil_append, folded, Option.map_some]
    rcases hends with hlimit | ⟨hlimit, hrest⟩
    · rw [← hlimit]
      rfl
    · obtain ⟨limit, rfl⟩ := Nat.exists_eq_succ_of_ne_zero (Nat.ne_of_gt hlimit)
      cases rest with
      | nil => rfl
      | cons b rest => rw [readDigits, if_neg (hrest b rfl)]
  | cons b digits ih =>
    obtain ⟨hb, hdigits⟩ := List.forall_mem_cons.1 hdigits
    have hpos : limit ≠ 0 := by
      rintro rfl
      rcases hends with hlimit | ⟨hlimit, -⟩
      · cases hlimit
      · cases hlimit
    obtain ⟨limit, rfl⟩ := Nat.exists_eq_succ_of_ne_zero hpos
    have hends' : EndsDigits limit digits rest := by
      rcases hends with hlimit | ⟨hlimit, hrest⟩
      · exact .inl (Nat.succ.inj hlimit)
      · exact .inr ⟨Nat.lt_of_succ_lt_succ hlimit, hrest⟩
    rw [List.cons_append, readDigits, if_pos hb, folded]
    cases next n (digitValue b) with
    | none => rfl
    | some n' => exact ih n' hdigits hends'

theorem le_number (n : Nat) (digits : List UInt8) : n ≤ number n digits := by
  induction digits generalizing n with
  | nil => exact Nat.le_refl n
  | cons b digits ih =>
    have hrest := ih (n * 10 + digitValue b)
    rw [number, List.foldl_cons]
    exact Nat.le_trans (by omega) hrest

theorem folded_of_le {bound : Nat} {digits : List UInt8} {n : Nat}
    (hnext : ∀ k d, k * 10 + d ≤ bound → next k d = some (k * 10 + d))
    (h : number n digits ≤ bound) : folded next n digits = some (number n digits) := by
  induction digits generalizing n with
  | nil => rfl
  | cons b digits ih =>
    have hle := Nat.le_trans (le_number (n * 10 + digitValue b) digits) h
    rw [folded, hnext n (digitValue b) hle]
    exact ih h

end Read

end DecimalText
