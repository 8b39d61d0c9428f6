import Mathlib.Data.List.Forall2

/-! Copying a data model into an array: gda_data_model_import_from_model, and the methods of
GdaDataModelArray it calls. -/

namespace LibGda.RowImport

inductive Val (T D : Type) where
  | null
  | val (type : T) (data : D)
deriving DecidableEq

def Val.isNull {T D : Type} : Val T D → Bool
  | .null => true
  | .val _ _ => false

/-- The types: the one of columns without a type, and how values of one type become values of
another. -/
structure Types (T D : Type) where
  null : T
  zero : T → D
  transform : T → T → Option (D → D)

structure Column (T : Type) where
  gType : T
  allowNull : Bool

structure ArrayModel (T D : Type) where
  columns : List (Column T)
  rows : List (List (Val T D))
  readOnly : Bool
  width : ∀ row ∈ rows, row.length = columns.length

variable {T D : Type} [DecidableEq T]

def Takes (types : Types T D) (type : T) : Val T D → Prop
  | .null => True
  | .val t _ => type = types.null ∨ type = t

structure Source (types : Types T D) where
  holders : List T
  rows : List (List (Val T D))
  shown : ∀ row ∈ rows, row.length = holders.length ∧
    ∀ (c : Nat) v, row[c]? = some v → ∀ type, holders[c]? = some type → Takes types type v

section Arrays

inductive Removal (T D : Type) where
  | removed (rows : List (List (Val T D)))
  | refused
  | outside

def setValues (readOnly : Bool) (nColumns : Nat) (rows : List (List (Val T D))) (row : Nat)
    (values : List (Val T D)) : Option (List (List (Val T D))) :=
  if values.isEmpty then some rows
  else if readOnly then none
  else if nColumns < values.length then none
  else match rows[row]? with
    | none => none
    | some old => some (rows.set row (values ++ old.drop values.length))

/-- gda_data_model_array_append_values: the number it returns, and the rows. -/
def appendValues (readOnly : Bool) (nColumns : Nat) (rows : List (List (Val T D)))
    (values : List (Val T D)) : Int × List (List (Val T D)) :=
  if readOnly then (0, rows)
  else if nColumns < values.length then (0, rows)
  else
    let rows := rows ++ [values ++ List.replicate (nColumns - values.length) .null]
    (rows.length - 1, rows)

/-- gda_data_model_remove_row, and gda_data_model_array_remove_row, which takes the element of the
array wherever it is. -/
def removeRow (readOnly : Bool) (rows : List (List (Val T D))) (row : Nat) : Removal T D :=
  if readOnly then .refused
  else if row < rows.length then .removed (rows.eraseIdx row)
  else .outside

end Arrays

section Import

structure Slot (T D : Type) where
  param : Option Nat
  append : Option (Val T D)
  type : T

def transformable (types : Types T D) (source dest : T) : Bool :=
  source = dest || (types.transform source dest).isSome

def transformValue (types : Types T D) (type : T) (data : D) (dest : T) : Option D :=
  if type = dest then some data else (types.transform type dest).map fun f => f data

def sourceColumn (colsTrans : Option (Nat → Option Int)) (fromCols i : Nat) : Option Int :=
  match colsTrans with
  | some lookup =>
    let col := (lookup i).getD 0
    if col < 0 ∨ (fromCols : Int) ≤ col then none else some col
  | none => some i

def slotFor (types : Types T D) (holders : List T) (colsTrans : Option (Nat → Option Int)) (i : Nat)
    (column : Column T) : Option (Slot T D) :=
  match sourceColumn colsTrans holders.length i with
  | none => none
  | some col =>
    match holders[col.toNat]? with
    | none => if column.allowNull then some ⟨none, some .null, column.gType⟩ else none
    | some holder =>
      if transformable types holder column.gType then
        if holder ≠ column.gType ∧ column.gType ≠ types.null then
          some ⟨some col.toNat, some (.val column.gType (types.zero column.gType)), column.gType⟩
        else some ⟨some col.toNat, none, column.gType⟩
      else none

def slotsFrom (types : Types T D) (holders : List T) (colsTrans : Option (Nat → Option Int)) :
    Nat → List (Column T) → Option (List (Slot T D))
  | _, [] => some []
  | i, column :: columns =>
    match slotFor types holders colsTrans i column with
    | none => none
    | some slot => (slotsFrom types holders colsTrans (i + 1) columns).map (slot :: ·)

def copyValue (types : Types T D) (row : List (Val T D)) (slot : Slot T D) :
    Option (Val T D × Slot T D) :=
  match slot.param with
  | none => some (slot.append.getD .null, slot)
  | some col =>
    let value := row.getD col .null
    match slot.append with
    | none => some (value, slot)
    | some buffer =>
      let buffer := if buffer.isNull then .val slot.type (types.zero slot.type) else buffer
      match value with
      | .null => some (buffer, { slot with append := some buffer })
      | .val type data =>
        match transformValue types type data slot.type with
        | none => none
        | some data => some (.val slot.type data, { slot with append := some (.val slot.type data) })

def copyRow (types : Types T D) (row : List (Val T D)) :
    List (Slot T D) → Option (List (Val T D) × List (Slot T D))
  | [] => some ([], [])
  | slot :: slots =>
    match copyRow types row slots with
    | none => none
    | some (values, slots) =>
      match copyValue types row slot with
      | none => none
      | some (value, slot) => some (value :: values, slot :: slots)

def copyRows (types : Types T D) (readOnly : Bool) (nColumns toNbRows : Nat) :
    List (List (Val T D)) → List (Slot T D) → List (List (Val T D)) → Option Nat →
      Bool × List (List (Val T D)) × Option Nat
  | [], _, rows, toRow => (true, rows, toRow)
  | row :: source, slots, rows, toRow =>
    match copyRow types row slots with
    | none => (false, rows, toRow)
    | some (values, slots) =>
      match toRow.filter (· < toNbRows) with
      | some r =>
        match setValues readOnly nColumns rows r values with
        | none => (false, rows, some r)
        | some rows => copyRows types readOnly nColumns toNbRows source slots rows (some (r + 1))
      | none =>
        let (number, rows) := appendValues readOnly nColumns rows values
        if number < 0 then (false, rows, none)
        else copyRows types readOnly nColumns toNbRows source slots rows none

inductive Outcome (T D : Type) where
  | returned (result : Bool) (rows : List (List (Val T D)))
  | undefined

def removeRows (readOnly : Bool) : Nat → Nat → List (List (Val T D)) → Outcome T D
  | 0, _, rows => .returned true rows
  | left + 1, toRow, rows =>
    match removeRow readOnly rows toRow with
    | .removed rows => removeRows readOnly left (toRow + 1) rows
    | .refused => .returned false rows
    | .outside => .undefined

def finish (readOnly : Bool) (toNbRows : Nat) :
    Bool × List (List (Val T D)) × Option Nat → Outcome T D
  | (false, rows, _) => .returned false rows
  | (true, rows, none) => .returned true rows
  | (true, rows, some toRow) => removeRows readOnly (toNbRows - toRow) toRow rows

def importFromModel (types : Types T D) (dest : ArrayModel T D) (source : Source (D := D) types)
    (overwrite : Bool) (colsTrans : Option (Nat → Option Int)) : Outcome T D :=
  if dest.columns.isEmpty then .returned true dest.rows
  else if source.holders.isEmpty then .returned true dest.rows
  else
    match slotsFrom types source.holders colsTrans 0 dest.columns with
    | none => .returned false dest.rows
    | some slots =>
      let toNbRows := dest.rows.length
      finish dest.readOnly toNbRows
        (copyRows types dest.readOnly dest.columns.length toNbRows source.rows slots dest.rows
          (if overwrite then some 0 else none))

end Import

section Specification

def Converted (types : Types T D) (type : T) : Val T D → Val T D → Prop
  | .null, cell => cell = .null
  | .val t data, cell =>
    if type = types.null ∨ t = type then cell = .val t data
    else ∃ f, types.transform t type = some f ∧ cell = .val type (f data)

def RightCell (types : Types T D) (nHolders : Nat) (colsTrans : Option (Nat → Option Int))
    (row : List (Val T D)) (i : Nat) (type : T) (cell : Val T D) : Prop :=
  match colsTrans with
  | none => if i < nHolders then Converted types type (row.getD i .null) cell else cell = .null
  | some lookup =>
    match lookup i with
    | none => True
    | some col => if col < 0 then cell = .null
      else Converted types type (row.getD col.toNat .null) cell

def RightRow (types : Types T D) (nHolders : Nat) (columns : List (Column T))
    (colsTrans : Option (Nat → Option Int)) (row cells : List (Val T D)) : Prop :=
  cells.length = columns.length ∧ ∀ i column cell, columns[i]? = some column →
    cells[i]? = some cell → RightCell types nHolders colsTrans row i column.gType cell

def RightRows (types : Types T D) (dest : ArrayModel T D) (source : Source (D := D) types)
    (overwrite : Bool) (colsTrans : Option (Nat → Option Int)) (rows : List (List (Val T D))) :
    Prop :=
  ∃ copied, rows = (if overwrite then [] else dest.rows) ++ copied ∧
    List.Forall₂ (RightRow types source.holders.length dest.columns colsTrans) source.rows copied

def Meets (types : Types T D) (dest : ArrayModel T D) (source : Source (D := D) types)
    (overwrite : Bool) (colsTrans : Option (Nat → Option Int)) : Prop :=
  ∃ result rows, importFromModel types dest source overwrite colsTrans = .returned result rows ∧
    (result = true → RightRows types dest source overwrite colsTrans rows)

end Specification

end LibGda.RowImport

/-! The values which a row of the source gives to a row of the destination. -/

namespace LibGda.RowImport

variable {T D : Type} [DecidableEq T] {types : Types T D}

structure Like (slot slot' : Slot T D) : Prop where
  param : slot'.param = slot.param
  type : slot'.type = slot.type
  append : slot'.append.isSome = slot.append.isSome
  absent : slot.param = none → slot'.append = some .null

def Inconvertible (types : Types T D) (row : List (Val T D)) (slot : Slot T D) : Prop :=
  ∃ col t data, slot.param = some col ∧ slot.append.isSome = true ∧
    row.getD col .null = .val t data ∧ transformValue types t data slot.type = none

section Values

variable {row values : List (Val T D)} {slot slot' : Slot T D} {slots slots' given : List (Slot T D)}
  {value : Val T D}

end Values

section Columns

variable {holders : List T} {colsTrans : Option (Nat → Option Int)} {columns : List (Column T)}
  {slots : List (Slot T D)}

end Columns

section Right

variable {holders : List T} {colsTrans : Option (Nat → Option Int)} {column : Column T} {i col : Nat}
  {row : List (Val T D)} {slot : Slot T D} {value : Val T D} {holder : T}

def Designated (colsTrans : Option (Nat → Option Int)) (i : Nat) : Prop :=
  match colsTrans with
  | none => True
  | some lookup => (lookup i).isSome = true

def NullConverted (row : List (Val T D)) (slot : Slot T D) : Prop :=
  slot.append.isSome = true ∧ ∃ col, slot.param = some col ∧ row.getD col .null = .null

end Right

end LibGda.RowImport
