import LibGda.BinaryText
import LibGda.TimeText

/-! `gda_value_stringify`, `gda_value_set_from_string`, and values in XML. -/

namespace LibGda

open DecimalText TerminatedBuffer

inductive NumberType where
  | int
  | uint
  | int64
  | uint64
  | short
  | ushort
  | long
  | ulong
  | char
  | uchar
  deriving DecidableEq

namespace NumberType

def bits : NumberType → Nat
  | int | uint => 32
  | int64 | uint64 | long | ulong => 64
  | short | ushort => 16
  | char | uchar => 8

def isSigned : NumberType → Bool
  | int | int64 | short | long | char => true
  | uint | uint64 | ushort | ulong | uchar => false

def lowest (type : NumberType) : Int := if type.isSigned then -2 ^ (type.bits - 1) else 0

abbrev Carrier (type : NumberType) : Type :=
  { i : Int // type.lowest ≤ i ∧ i < type.lowest + 2 ^ type.bits }

def cast (type : NumberType) (n : Int) : type.Carrier :=
  ⟨type.lowest + (n - type.lowest) % 2 ^ type.bits, by
    have hpos : (0 : Int) < 2 ^ type.bits := Int.pow_pos (by decide)
    have hlow := Int.emod_nonneg (n - type.lowest) (Int.ne_of_gt hpos)
    have hhigh := Int.emod_lt_of_pos (n - type.lowest) hpos
    omega⟩

end NumberType

inductive SerialType where
  | number (type : NumberType)
  | boolean
  | date
  | time
  | timestamp
  | binary
  | string
  deriving DecidableEq

inductive SerialValue where
  | number (type : NumberType) (i : type.Carrier)
  | boolean (b : Bool)
  | date (d : Option DmyDate)
  | time (t : Option GdaTime)
  | timestamp (ts : Option GdaTimestamp)
  | binary (data : Option Bytes)
  | string (s : Option CBytes)
  deriving DecidableEq

def SerialValue.type : SerialValue → SerialType
  | number type _ => .number type
  | boolean _ => .boolean
  | date _ => .date
  | time _ => .time
  | timestamp _ => .timestamp
  | binary _ => .binary
  | string _ => .string

inductive TextFault where
  | block (fault : BlockFault)
  /-- `gda_binary_to_string` of no binary -/
  | noBinary
  deriving DecidableEq

section Stringify

def nullText : Bytes := bytes "NULL"

/-- The transformation of a number; `short_to_string` has no text for an unsigned one. -/
def numberText (type : NumberType) (i : Int) : Bytes :=
  if type = .ushort then nullText
  else if type.isSigned then decimalInt i else decimal i.toNat

def dateText (d : DmyDate) : Bytes :=
  padded 4 d.year.toNat ++ byte '-' :: (padded 2 d.month ++ byte '-' :: padded 2 d.day)

def timeText (t : GdaTime) : Bytes :=
  clockText t.hour.toNat t.minute.toNat t.second.toNat ++
    (fractionText t.fraction ++ zoneText t.timezone)

/-- A `gshort` which is printed as an `unsigned int`. -/
def printedYear (year : Int16) : Nat := (year.toInt % 2 ^ 32).toNat

def timestampText (ts : GdaTimestamp) : Bytes :=
  padded 4 (printedYear ts.year) ++ byte '-' :: (padded 2 ts.month.toNat ++ byte '-' ::
    (padded 2 ts.day.toNat ++ byte ' ' ::
      (clockText ts.hour.toNat ts.minute.toNat ts.second.toNat ++
        (fractionText ts.fraction ++ zoneText ts.timezone))))

def stringify : SerialValue → Except TextFault (Option Bytes)
  | .number type i => .ok (some (numberText type i))
  | .boolean b => .ok (some (if b then bytes "TRUE" else bytes "FALSE"))
  | .date d => .ok (some (d.elim nullText dateText))
  | .time t => .ok (some (t.elim nullText timeText))
  | .timestamp ts => .ok (some (ts.elim nullText timestampText))
  | .binary none => .error .noBinary
  | .binary (some data) =>
    match binaryToString data 0 with
    | .ok text => .ok (some text)
    | .error fault => .error (.block fault)
  | .string s => .ok (s.map Subtype.val)

end Stringify

section Reading

def cIsSpace (b : UInt8) : Bool := b == 32 || (9 ≤ b && b ≤ 13)

/-- The sign, the digits and the rest of what `strtol` and its siblings read. -/
def strtolParts (s : Bytes) : Bool × Bytes × Bytes :=
  let t := s.dropWhile cIsSpace
  let (negative, u) := match t with
    | b :: u => if b = byte '-' then (true, u) else if b = byte '+' then (false, u) else (false, t)
    | [] => (false, t)
  (negative, u.takeWhile fun b => IsDigit b, u.dropWhile fun b => IsDigit b)

/-- The number, within its bounds, and `endptr`. -/
def strtol (s : Bytes) : Int × Bytes :=
  let (negative, digits, rest) := strtolParts s
  if digits = [] then (0, s)
  else
    let n : Int := number 0 digits
    (max (-2 ^ 63) (min (2 ^ 63 - 1) (if negative then -n else n)), rest)

def strtoul (s : Bytes) : Int × Bytes :=
  let (negative, digits, rest) := strtolParts s
  if digits = [] then (0, s)
  else
    let n : Int := number 0 digits
    (if 2 ^ 64 ≤ n then 2 ^ 64 - 1 else if negative then -n % 2 ^ 64 else n, rest)

def numberFromString (type : NumberType) (s : Bytes) : Option type.Carrier :=
  let (n, endptr) := if type.isSigned then strtol s else strtoul s
  if s ≠ [] ∧ endptr = [] then some (type.cast n) else none

def booleanFromString (s : Bytes) : Bool :=
  match s.head? with
  | some b =>
    if b = byte 't' ∨ b = byte 'T' then true
    else if b = byte 'f' ∨ b = byte 'F' then false
    else (NumberType.cast .int (strtol s).1).1 ≠ 0
  | none => false

/-- `gda_parse_formatted_timestamp`, of the ISO 8601 format. -/
def parseIso8601Timestamp (zoneOffset : Bytes → Option Int64) (value : Bytes) : Option
    GdaTimestamp :=
  match parseFormattedDate .year .month .day (byte '-') value with
  | none => none
  | some (d, s) =>
    let timestamp (t : GdaTime) : GdaTimestamp :=
      ⟨d.year.toInt16, UInt16.ofNat d.month, UInt16.ofNat d.day, t.hour, t.minute, t.second,
        t.fraction, t.timezone⟩
    match s with
    | [] => some (timestamp ⟨0, 0, 0, 0, timezoneInvalid⟩)
    | b :: rest =>
      if b ≠ byte ' ' then none
      else if rest = [] then some (timestamp ⟨0, 0, 0, 0, timezoneInvalid⟩)
      else (parseFormattedTime zoneOffset rest (byte ':')).map timestamp

def setFromString (zoneOffset : Bytes → Option Int64) (type : SerialType) (s : CBytes) :
    Except ScanFault (Option SerialValue) :=
  match type with
  | .number type => .ok ((numberFromString type s).map (.number type))
  | .boolean => .ok (some (.boolean (booleanFromString s)))
  | .date => .ok ((parseIso8601Date s).map fun d => .date (some d))
  | .time => .ok ((parseIso8601Time zoneOffset s).map fun t => .time (some t))
  | .timestamp => .ok ((parseIso8601Timestamp zoneOffset s).map fun ts => .timestamp (some ts))
  | .binary => (stringToBinary (some s)).map fun data => data.map fun data => .binary (some data)
  | .string => .ok (some (.string (some s)))

end Reading

section Xml

structure XmlNode where
  name : String
  props : List (String × String)
  content : CBytes

def SerialType.typeName : SerialType → String
  | number .int => "gint"
  | number .uint => "guint"
  | number .int64 => "gint64"
  | number .uint64 => "guint64"
  | number .short => "GdaShort"
  | number .ushort => "GdaUShort"
  | number .long => "glong"
  | number .ulong => "gulong"
  | number .char => "gchar"
  | number .uchar => "guchar"
  | boolean => "gboolean"
  | date => "GDate"
  | time => "GdaTime"
  | timestamp => "GdaTimestamp"
  | binary => "GdaBinary"
  | string => "gchararray"

def serialize : SerialValue → Except TextFault (Option Bytes)
  | .boolean b => .ok (some (if b then bytes "true" else bytes "false"))
  | v => stringify v

/-- `gda_value_to_xml`; `setContent` is what the XML library makes of a content. -/
def valueToXml (setContent : Option Bytes → CBytes) (v : SerialValue) : Except TextFault
    XmlNode := do
  let valstr ← serialize v
  pure { name := "value", props := [("type", v.type.typeName)], content := setContent valstr }

/-- `gda_value_new_from_xml`, whose value may be one of no type. -/
def valueNewFromXml (zoneOffset : Bytes → Option Int64) (typeFromString : String →
    Option SerialType)
    (node : XmlNode) : Except ScanFault (Option (Option SerialValue)) :=
  if node.name ≠ "value" then .ok none
  else
    match node.props.lookup "gdatype" with
    | none => .ok (some none)
    | some prop =>
      match typeFromString prop with
      | none => .ok none
      | some type => (setFromString zoneOffset type node.content).map fun v => v.map some

end Xml

end LibGda
