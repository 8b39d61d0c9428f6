import Mathlib.Data.List.Basic
import Mathlib.Data.List.TakeWhile

/-! The encoding of RFC 1738, on the bytes of a string. -/

namespace LibGda

abbrev Bytes := List UInt8

abbrev CBytes := { bytes : Bytes // 0 ∉ bytes }

def byte (c : Char) : UInt8 := UInt8.ofNat c.toNat

def bytes (s : String) : Bytes := s.toList.map byte

def rfc1738ReservedChars : Bytes := bytes ";/?:@=&"

def rfc1738UnsafeChars : Bytes := bytes "<>\"#%\x7b\x7d|\\^~[]`' "

def rfc1738Encodes (b : UInt8) : Bool :=
  b ∈ rfc1738ReservedChars || b ∈ rfc1738UnsafeChars || b ≤ 0x1f || b == 0x7f || 0x80 ≤ b ||
    b == byte '='

def hexDigit (n : UInt8) : UInt8 := if n < 10 then byte '0' + n else byte 'a' + (n - 10)

def encodeByte (b : UInt8) : Bytes :=
  if rfc1738Encodes b then [byte '%', hexDigit (b / 16), hexDigit (b % 16)] else [b]

def rfc1738Encode (string : Bytes) : Bytes := string.flatMap encodeByte

def hexValue (b : UInt8) : Option UInt8 :=
  if byte 'A' ≤ b ∧ b ≤ byte 'F' then some (b - byte 'A' + 10)
  else if byte 'a' ≤ b ∧ b ≤ byte 'f' then some (b - byte 'a' + 10)
  else if byte '0' ≤ b ∧ b ≤ byte '9' then some (b - byte '0')
  else none

/-- What `gda_rfc1738_decode` writes over the string. -/
def decodeBytes : Bytes → Bytes
  | [] => []
  | [b] => [b]
  | [b, h] => [b, h]
  | b :: h :: l :: rest =>
    if b = byte '%' then
      match hexValue h, hexValue l with
      | some high, some low => (high * 16 + low) :: decodeBytes rest
      -- an error: the `%` stays
      | _, _ => b :: decodeBytes (h :: l :: rest)
    else b :: decodeBytes (h :: l :: rest)

/-- `gda_rfc1738_decode`: the string ends at the first NUL which was written. -/
def rfc1738Decode (string : Bytes) : Bytes := (decodeBytes string).takeWhile (· != 0)

section RoundTrip

variable {b : UInt8} {s rest : Bytes}

theorem decodeBytes_plain (hb : b ≠ byte '%') : decodeBytes (b :: rest) = b :: decodeBytes rest := by
  match rest with
  | [] => rfl
  | [_] => rfl
  | _ :: _ :: _ => rw [decodeBytes, if_neg hb]

theorem hexValue_hexDigit : ∀ n < 16, hexValue (hexDigit (UInt8.ofNat n)) = some (UInt8.ofNat n) := by
  decide

theorem decodeBytes_encodeByte (b : UInt8) (rest : Bytes) :
    decodeBytes (encodeByte b ++ rest) = b :: decodeBytes rest := by
  by_cases hb : rfc1738Encodes b = true
  · have hlt := b.toNat_lt
    have hhigh := hexValue_hexDigit (b.toNat / 16) (by omega)
    have hlow := hexValue_hexDigit (b.toNat % 16) (by omega)
    have hdiv : UInt8.ofNat (b.toNat / 16) = b / 16 := by
      apply UInt8.toNat_inj.1
      simp
      omega
    have hmod : UInt8.ofNat (b.toNat % 16) = b % 16 := by
      apply UInt8.toNat_inj.1
      simp
      omega
    have hsum : b / 16 * 16 + b % 16 = b := by
      apply UInt8.toNat_inj.1
      simp
      omega
    rw [hdiv] at hhigh
    rw [hmod] at hlow
    rw [encodeByte, if_pos hb]
    show decodeBytes (byte '%' :: hexDigit (b / 16) :: hexDigit (b % 16) :: rest) = _
    rw [decodeBytes, if_pos rfl, hhigh, hlow]
    show (b / 16 * 16 + b % 16) :: decodeBytes rest = _
    rw [hsum]
  · have hne : b ≠ byte '%' := by
      rintro rfl
      exact hb (by decide)
    rw [encodeByte, if_neg hb]
    exact decodeBytes_plain hne

theorem decodeBytes_encode (s : Bytes) : decodeBytes (rfc1738Encode s) = s := by
  induction s with
  | nil => rfl
  | cons b s ih =>
    rw [rfc1738Encode, List.flatMap_cons, decodeBytes_encodeByte]
    exact congrArg (b :: ·) ih

theorem rfc1738Decode_encode (s : CBytes) : rfc1738Decode (rfc1738Encode s.1) = s.1 := by
  rw [rfc1738Decode, decodeBytes_encode]
  apply List.takeWhile_eq_self_iff.2
  intro b hb
  have hne : b ≠ 0 := fun h => s.2 (h ▸ hb)
  simpa using hne

theorem hexDigit_plain : ∀ n < 16, hexDigit (UInt8.ofNat n) ∉ rfc1738ReservedChars := by decide

theorem not_mem_encode {c : UInt8} (hc : c ∈ rfc1738ReservedChars) (s : Bytes) :
    c ∉ rfc1738Encode s := by
  intro h
  obtain ⟨b, -, hb⟩ := List.mem_flatMap.1 h
  rw [encodeByte] at hb
  split at hb
  · have hdigit : ∀ n : UInt8, n < 16 → c ≠ hexDigit n := by
      rintro n hn rfl
      have hlt : n.toNat < 16 := hn
      have hplain := hexDigit_plain n.toNat hlt
      rw [UInt8.ofNat_toNat] at hplain
      exact hplain hc
    simp only [List.mem_cons, List.not_mem_nil, or_false] at hb
    rcases hb with rfl | hb | hb
    · exact absurd hc (by decide)
    · refine hdigit (b / 16) ?_ hb
      have := b.toNat_lt
      show (b / 16).toNat < 16
      simp
      omega
    · refine hdigit (b % 16) ?_ hb
      show (b % 16).toNat < 16
      simp
      omega
  · rename_i hplain
    obtain rfl := List.mem_singleton.1 hb
    apply hplain
    rw [rfc1738Encodes, decide_eq_true hc]
    rfl

theorem encode_injective {s t : Bytes} (h : rfc1738Encode s = rfc1738Encode t) : s = t := by
  rw [← decodeBytes_encode s, h, decodeBytes_encode]

theorem encode_eq_nil {s : Bytes} : rfc1738Encode s = [] ↔ s = [] :=
  ⟨fun h => encode_injective (h.trans rfl), fun h => by rw [h]; rfl⟩

end RoundTrip

end LibGda
