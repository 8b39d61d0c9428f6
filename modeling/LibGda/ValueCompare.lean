import LibGda.Comparators
import LibGda.Gint
import LibGda.Rfc1738

/-! `gda_value_compare` and `gda_value_differ`. -/

namespace LibGda

open Comparators

inductive IntegerType where
  | int64
  | uint64
  | short
  | ulong
  | long
  | ushort
  | char
  | uchar
  | uint
  | gtype
  deriving DecidableEq

def IntegerType.lowest : IntegerType → Int
  | int64 | long => -2 ^ 63
  | short => -2 ^ 15
  | char => -2 ^ 7
  | uint64 | ulong | ushort | uchar | uint | gtype => 0

def IntegerType.highest : IntegerType → Int
  | int64 | long => 2 ^ 63 - 1
  | uint64 | ulong | gtype => 2 ^ 64 - 1
  | short => 2 ^ 15 - 1
  | ushort => 2 ^ 16 - 1
  | char => 2 ^ 7 - 1
  | uchar => 2 ^ 8 - 1
  | uint => 2 ^ 32 - 1

abbrev IntegerType.Carrier (type : IntegerType) : Type :=
  { i : Int // type.lowest ≤ i ∧ i ≤ type.highest }

/-- The data of a `GValue` which is a pointer, and the flags next to it. -/
structure ValuePointer where
  target : Option Nat := none
  flags : Nat := 0
  deriving DecidableEq

inductive GdaType where
  | null
  | integer (type : IntegerType)
  | binary
  | boolean
  | blob
  | date
  | double
  | geometricPoint
  | object (cls : String)
  | int
  | numeric
  | float
  | string
  | time
  | timestamp
  deriving DecidableEq

/-- A `GValue`; a floating point number is its bits. -/
inductive GdaValue where
  | null
  | integer (type : IntegerType) (i : type.Carrier)
  | binary (p : ValuePointer)
  | boolean (b : Bool)
  | blob (p : ValuePointer)
  | date (p : ValuePointer)
  | double (bits : BitVec 64)
  | geometricPoint (p : ValuePointer)
  | object (cls : String) (p : ValuePointer)
  | int (i : Int32)
  | numeric (p : ValuePointer)
  | float (bits : BitVec 32)
  | string (p : ValuePointer)
  | time (p : ValuePointer)
  | timestamp (p : ValuePointer)
  deriving DecidableEq

def GdaValue.type : GdaValue → GdaType
  | null => .null
  | integer type _ => .integer type
  | binary _ => .binary
  | boolean _ => .boolean
  | blob _ => .blob
  | date _ => .date
  | double _ => .double
  | geometricPoint _ => .geometricPoint
  | object cls _ => .object cls
  | int _ => .int
  | numeric _ => .numeric
  | float _ => .float
  | string _ => .string
  | time _ => .time
  | timestamp _ => .timestamp

structure GdaBlob where
  data : Bytes
  op : Option Nat
  deriving DecidableEq

abbrev GDate := Option Nat

structure GdaTime where
  hour : UInt16
  minute : UInt16
  second : UInt16
  fraction : UInt64
  timezone : Int64
  deriving DecidableEq

structure GdaTimestamp where
  year : Int16
  month : UInt16
  day : UInt16
  hour : UInt16
  minute : UInt16
  second : UInt16
  fraction : UInt64
  timezone : Int64
  deriving DecidableEq

def ushortField (n : UInt16) : Field := .unsigned 2 n.toNat

def shortField (n : Int16) : Field := ⟨littleEndian 2 n.toUInt16.toNat, n.toInt⟩

def ulongField (n : UInt64) : Field := .unsigned 8 n.toNat

def longField (n : Int64) : Field := ⟨littleEndian 8 n.toUInt64.toNat, n.toInt⟩

def paddingField (width : Nat) : Field := .unsigned width 0

def GdaTime.fields (t : GdaTime) : List Field :=
  [ushortField t.hour, ushortField t.minute, ushortField t.second, paddingField 2,
    ulongField t.fraction, longField t.timezone]

def GdaTimestamp.fields (ts : GdaTimestamp) : List Field :=
  [shortField ts.year, ushortField ts.month, ushortField ts.day, ushortField ts.hour,
    ushortField ts.minute, ushortField ts.second, paddingField 4, ulongField ts.fraction,
    longField ts.timezone]

section Alike

open Field

theorem ushortField_alike (n m : UInt16) : Alike (ushortField n) (ushortField m) :=
  unsigned_alike n.toNat_lt m.toNat_lt

theorem ulongField_alike (n m : UInt64) : Alike (ulongField n) (ulongField m) :=
  unsigned_alike n.toNat_lt m.toNat_lt

theorem shortField_alike (n m : Int16) : Alike (shortField n) (shortField m) := by
  refine ⟨rfl, ?_⟩
  constructor
  · intro h
    have hn : n.toUInt16.toNat < 256 ^ 2 := n.toUInt16.toNat_lt
    have hm : m.toUInt16.toNat < 256 ^ 2 := m.toUInt16.toNat_lt
    have hnat := UInt16.toNat_inj.1 (littleEndian_injective hn hm h)
    exact congrArg Int16.toInt (Int16.toBitVec.inj (congrArg UInt16.toBitVec hnat))
  · intro h
    have heq : n = m := Int16.toInt_inj.1 h
    rw [heq]

theorem longField_alike (n m : Int64) : Alike (longField n) (longField m) := by
  refine ⟨rfl, ?_⟩
  constructor
  · intro h
    have hn : n.toUInt64.toNat < 256 ^ 8 := n.toUInt64.toNat_lt
    have hm : m.toUInt64.toNat < 256 ^ 8 := m.toUInt64.toNat_lt
    have hnat := UInt64.toNat_inj.1 (littleEndian_injective hn hm h)
    exact congrArg Int64.toInt (Int64.toBitVec.inj (congrArg UInt64.toBitVec hnat))
  · intro h
    have heq : n = m := Int64.toInt_inj.1 h
    rw [heq]

theorem paddingField_alike (width : Nat) : Alike (paddingField width) (paddingField width) :=
  ⟨rfl, iff_of_true rfl rfl⟩

theorem GdaTime.fields_alike (t₁ t₂ : GdaTime) : List.Forall₂ Alike t₁.fields t₂.fields :=
  .cons (ushortField_alike _ _) (.cons (ushortField_alike _ _) (.cons (ushortField_alike _ _)
    (.cons (paddingField_alike 2) (.cons (ulongField_alike _ _)
      (.cons (longField_alike _ _) .nil)))))

theorem GdaTimestamp.fields_alike (t₁ t₂ : GdaTimestamp) :
    List.Forall₂ Alike t₁.fields t₂.fields :=
  .cons (shortField_alike _ _) (.cons (ushortField_alike _ _) (.cons (ushortField_alike _ _)
    (.cons (ushortField_alike _ _) (.cons (ushortField_alike _ _) (.cons (ushortField_alike _ _)
      (.cons (paddingField_alike 4) (.cons (ulongField_alike _ _)
        (.cons (longField_alike _ _) .nil))))))))

end Alike

structure FloatFormat where
  exponent : Nat
  fraction : Nat

namespace FloatFormat

def double : FloatFormat := ⟨11, 52⟩

def float : FloatFormat := ⟨8, 23⟩

variable (format : FloatFormat) (bits : Nat)

def magnitude : Nat := bits % 2 ^ (format.exponent + format.fraction)

def infinity : Nat := (2 ^ format.exponent - 1) * 2 ^ format.fraction

def isNaN : Bool := format.infinity < format.magnitude bits

def rank : Int :=
  if bits < 2 ^ (format.exponent + format.fraction) then format.magnitude bits
  else -format.magnitude bits

def same (bits₁ bits₂ : Nat) : Bool :=
  !format.isNaN bits₁ && !format.isNaN bits₂ && format.rank bits₁ == format.rank bits₂

def greater (bits₁ bits₂ : Nat) : Bool :=
  !format.isNaN bits₁ && !format.isNaN bits₂ && format.rank bits₂ < format.rank bits₁

end FloatFormat

structure ValueMemory where
  value : Nat → GdaValue
  binary : Nat → Bytes := fun _ => []
  blob : Nat → GdaBlob := fun _ => ⟨[], none⟩
  date : Nat → GDate := fun _ => none
  geometricPoint : Nat → BitVec 64 × BitVec 64 := fun _ => (0, 0)
  number : Nat → CBytes := fun _ => ⟨[], List.not_mem_nil⟩
  string : Nat → CBytes := fun _ => ⟨[], List.not_mem_nil⟩
  time : Nat → GdaTime := fun _ => ⟨0, 0, 0, 0, 0⟩
  timestamp : Nat → GdaTimestamp := fun _ => ⟨0, 0, 0, 0, 0, 0, 0, 0⟩

/-- `g_date_compare`, which does not compare a date which is not valid. -/
def dateCompare : GDate → GDate → Int
  | some d₁, some d₂ => threeWay d₁ d₂
  | _, _ => 0

def pointBytes (p : BitVec 64 × BitVec 64) : Bytes :=
  littleEndian 8 p.1.toNat ++ littleEndian 8 p.2.toNat

def comparePointers (p₁ p₂ : ValuePointer) (contents : Nat → Nat → Int) : Int :=
  match p₁.target, p₂.target with
  | some t₁, some t₂ => contents t₁ t₂
  | some _, none => 1
  | none, some _ => -1
  | none, none => 0

def differPointers (p₁ p₂ : ValuePointer) (contents : Nat → Nat → Int) : Int :=
  match p₁.target, p₂.target with
  | some t₁, some t₂ => contents t₁ t₂
  | _, _ => 1

namespace ValueMemory

variable (m : ValueMemory)

def compareBinaries (data₁ data₂ : Bytes) : Int :=
  if data₁.length = data₂.length then memcmp data₁ data₂ else -1

def compareBlobs (b₁ b₂ : GdaBlob) : Int :=
  if b₁.data.length = b₂.data.length then
    if b₁.op = b₂.op then memcmp b₁.data b₂.data else -1
  else -1

def compareContents (x₁ x₂ : GdaValue) : Int :=
  match x₁, x₂ with
  | .null, .null => 0
  | .null, _ => -1
  | _, .null => 1
  | .integer t₁ i₁, .integer t₂ i₂ => if t₁ = t₂ then threeWay i₁ i₂ else -1
  | .binary p₁, .binary p₂ =>
    match p₁.target, p₂.target with
    | some b₁, some b₂ => compareBinaries (m.binary b₁) (m.binary b₂)
    | _, _ => -1
  | .boolean b₁, .boolean b₂ => b₁.toInt - b₂.toInt
  | .blob p₁, .blob p₂ =>
    match p₁.target, p₂.target with
    | some b₁, some b₂ => compareBlobs (m.blob b₁) (m.blob b₂)
    | _, _ => -1
  | .date p₁, .date p₂ => comparePointers p₁ p₂ fun d₁ d₂ => dateCompare (m.date d₁) (m.date d₂)
  | .double v₁, .double v₂ =>
    if FloatFormat.double.same v₁.toNat v₂.toNat then 0
    else if FloatFormat.double.greater v₁.toNat v₂.toNat then 1 else -1
  | .geometricPoint p₁, .geometricPoint p₂ =>
    comparePointers p₁ p₂ fun t₁ t₂ =>
      memcmp (pointBytes (m.geometricPoint t₁)) (pointBytes (m.geometricPoint t₂))
  | .object c₁ p₁, .object c₂ p₂ =>
    if c₁ = c₂ then (if p₁.target = p₂.target then 0 else -1) else -1
  | .int i₁, .int i₂ => gint (i₁.toInt - i₂.toInt)
  | .numeric p₁, .numeric p₂ =>
    match p₁.target, p₂.target with
    | some n₁, some n₂ => strcmp (m.number n₁) (m.number n₂)
    | some _, none => 1
    | none, _ => -1
  | .float f₁, .float f₂ =>
    if FloatFormat.float.greater f₁.toNat f₂.toNat then 1
    else if FloatFormat.float.same f₁.toNat f₂.toNat then 0 else -1
  | .string p₁, .string p₂ =>
    comparePointers p₁ p₂ fun s₁ s₂ => strcmp (m.string s₁) (m.string s₂)
  | .time p₁, .time p₂ =>
    comparePointers p₁ p₂ fun t₁ t₂ =>
      memcmp (Field.memory (m.time t₁).fields) (Field.memory (m.time t₂).fields)
  | .timestamp p₁, .timestamp p₂ =>
    comparePointers p₁ p₂ fun t₁ t₂ =>
      memcmp (Field.memory (m.timestamp t₁).fields) (Field.memory (m.timestamp t₂).fields)
  | _, _ => -1

/-- `gda_value_compare`, of the values at two addresses. -/
def valueCompare (v₁ v₂ : Nat) : Int :=
  if v₁ = v₂ then 0 else m.compareContents (m.value v₁) (m.value v₂)

def differContents (x₁ x₂ : GdaValue) : Int :=
  match x₁, x₂ with
  | .null, .null => 0
  | .null, _ => 1
  | _, .null => 1
  | .binary p₁, .binary p₂ =>
    differPointers p₁ p₂ fun b₁ b₂ =>
      if (m.binary b₁).length = (m.binary b₂).length then memcmp (m.binary b₁) (m.binary b₂) else 1
  | .blob p₁, .blob p₂ =>
    differPointers p₁ p₂ fun b₁ b₂ =>
      if (m.blob b₁).data.length = (m.blob b₂).data.length then
        if (m.blob b₁).op = (m.blob b₂).op then memcmp (m.blob b₁).data (m.blob b₂).data else 1
      else 1
  | .date p₁, .date p₂ => differPointers p₁ p₂ fun d₁ d₂ => dateCompare (m.date d₁) (m.date d₂)
  | .geometricPoint p₁, .geometricPoint p₂ =>
    differPointers p₁ p₂ fun t₁ t₂ =>
      memcmp (pointBytes (m.geometricPoint t₁)) (pointBytes (m.geometricPoint t₂))
  | .object c₁ p₁, .object c₂ p₂ =>
    if c₁ = c₂ then (if p₁.target = p₂.target then 0 else -1) else 1
  | .numeric p₁, .numeric p₂ =>
    differPointers p₁ p₂ fun n₁ n₂ => strcmp (m.number n₁) (m.number n₂)
  | .string p₁, .string p₂ =>
    differPointers p₁ p₂ fun s₁ s₂ => strcmp (m.string s₁) (m.string s₂)
  | .time p₁, .time p₂ =>
    differPointers p₁ p₂ fun t₁ t₂ =>
      memcmp (Field.memory (m.time t₁).fields) (Field.memory (m.time t₂).fields)
  | .timestamp p₁, .timestamp p₂ =>
    differPointers p₁ p₂ fun t₁ t₂ =>
      memcmp (Field.memory (m.timestamp t₁).fields) (Field.memory (m.timestamp t₂).fields)
  -- the values of the other types are in their own bytes
  | _, _ => 1

/-- `gda_value_differ`; values whose bytes are the same ones do not. -/
def valueDiffer (v₁ v₂ : Nat) : Int :=
  if m.value v₁ = m.value v₂ then 0 else m.differContents (m.value v₁) (m.value v₂)

end ValueMemory

end LibGda
