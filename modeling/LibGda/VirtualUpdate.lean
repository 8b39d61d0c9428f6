import LibGda.Gint
import LibGda.Rfc1738
import LibGda.StalePositions
import Mathlib.Data.Nat.Find

/-! `virtualUpdate`: the changes which SQLite makes to a virtual table, one row at a time, and a
`DELETE` statement over several rows. -/

namespace LibGda

inductive SqlKind where
  | null
  | integer
  | other
  deriving DecidableEq

/-- What SQLite gives of a value: its type, the value as an `int` and the value as a text. -/
structure SqlArgument where
  kind : SqlKind
  int : Int
  text : Option Bytes
  null_iff : text = none ↔ kind = .null

def rowidArgument (offset row : Nat) : SqlArgument where
  kind := .integer
  int := gint (row + offset * 2 ^ 32)
  text := some (bytes (toString (row + offset * 2 ^ 32)))
  null_iff := by simp

/-- The type of a column, with `gda_value_new_from_string` for this type. -/
structure VirtualColumn (V : Type) where
  isNull : Bool
  fromString : Bytes → Option V

inductive CellArgument (V : Type) where
  | missing
  | null
  | value (v : V)
  deriving DecidableEq

def CellArgument.stored {V : Type} : CellArgument V → Option V
  | missing => none
  | null => none
  | value v => some v

structure ModelRow (V : Type) where
  id : Nat
  values : List (Option V)
  deriving DecidableEq

inductive ModelChange (V : Type) where
  | setValueAt (col : Nat) (row : Int) (value : CellArgument V)
  | appendValues (values : List (CellArgument V))

structure WritableModel (V : Type) where
  columns : List (VirtualColumn V)
  refuses : List (ModelRow V) → ModelChange V → Bool
  rows : List (ModelRow V)
  nextId : Nat

inductive UpdateCode where
  | ok
  | readonly
  | error
  | misuse
  deriving DecidableEq

section Model

variable {V : Type}

def modelSetValueAt (refuses : List (ModelRow V) → ModelChange V → Bool) (rows : List (ModelRow V))
    (col : Nat) (row : Int) (value : CellArgument V) : Bool × List (ModelRow V) :=
  if row < 0 ∨ refuses rows (.setValueAt col row value) = true then (false, rows)
  else
    match rows[row.toNat]? with
    | none => (false, rows)
    | some modelRow =>
      (true, rows.set row.toNat { modelRow with values := modelRow.values.set col value.stored })

def modelAppendValues (model : WritableModel V) (values : List (CellArgument V)) :
    Int × WritableModel V :=
  if model.refuses model.rows (.appendValues values) then (-1, model)
  else if model.columns.length < values.length then (0, model)
  else
    let cells := values.map CellArgument.stored
    let row : ModelRow V :=
      { id := model.nextId
        values := cells ++ List.replicate (model.columns.length - cells.length) none }
    (model.rows.length, { model with rows := model.rows ++ [row], nextId := model.nextId + 1 })

/-- `gda_data_model_array_remove_row` takes the row out of the array, and reads behind the array for
another row: there is no result then. -/
def modelRemoveRow (model : WritableModel V) (row : Int) : Option (WritableModel V) :=
  if 0 ≤ row ∧ row < model.rows.length then
    some { model with rows := model.rows.eraseIdx row.toNat }
  else none

end Model

section Update

variable {V : Type}

def insertArgument (column : VirtualColumn V) (argument : SqlArgument) : CellArgument V :=
  match argument.text with
  | some text =>
    if column.isNull then .null
    else
      match column.fromString text with
      | some v => .value v
      | none => .missing
  | none => .null

/-- In an update a NULL is no text for `gda_value_new_from_string`, which gives no value. -/
def updateArgument (column : VirtualColumn V) (argument : SqlArgument) : CellArgument V :=
  match argument.text with
  | some text =>
    if column.isNull then .missing
    else
      match column.fromString text with
      | some v => .value v
      | none => .missing
  | none => .missing

def updateColumns (refuses : List (ModelRow V) → ModelChange V → Bool) (row : Int) :
    List (ModelRow V) → Nat → List (VirtualColumn V) → List SqlArgument →
      UpdateCode × List (ModelRow V)
  | rows, col, column :: columns, argument :: arguments =>
    match modelSetValueAt refuses rows col row (updateArgument column argument) with
    | (true, rows') => updateColumns refuses row rows' (col + 1) columns arguments
    | (false, rows') => (.readonly, rows')
  | rows, _, _, _ => (.ok, rows)

/-- `virtualUpdate`; the last value is the one of the hidden column. -/
def virtualUpdate (model : WritableModel V) : List SqlArgument → Option (UpdateCode × WritableModel V)
  | [] => some (.misuse, model)
  | [rowid] =>
    if rowid.kind = .integer then (modelRemoveRow model rowid.int).map fun model' => (.ok, model')
    else some (.error, model)
  | rowid :: newRowid :: values =>
    match rowid.kind with
    | .null =>
      if newRowid.kind ≠ .null then some (.readonly, model)
      else
        let (newrow, model') :=
          modelAppendValues model (List.zipWith insertArgument model.columns values.dropLast)
        if newrow < 0 then some (.readonly, model') else some (.ok, model')
    | .integer =>
      if rowid.int ≠ newRowid.int then some (.readonly, model)
      else
        let (code, rows) :=
          updateColumns model.refuses rowid.int model.rows 0 model.columns values.dropLast
        some (code, { model with rows })
    | .other => some (.misuse, model)

end Update

section Delete

open StalePositions

variable {V : Type}

def afterCall (history : List (WritableModel V)) :
    Option (UpdateCode × WritableModel V) → Option (List (WritableModel V))
  | some (.ok, model) => some (model :: history)
  | _ => none

/-- One removal of a `DELETE` statement: the identifier of the row was read from the table as it was
some removals ago. -/
def deleteStep (offset : Nat) (history : List (WritableModel V)) (c : Removal) :
    Option (List (WritableModel V)) :=
  match history.head?, history[c.ago]? with
  | some current, some seen =>
    afterCall history
      (virtualUpdate current [rowidArgument offset (position ModelRow.id seen.rows c.target)])
  | _, _ => none

def modelOf (columns : List (VirtualColumn V))
    (refuses : List (ModelRow V) → ModelChange V → Bool) (contents : List (List (Option V))) :
    WritableModel V where
  columns
  refuses
  rows := contents.zipIdx.map fun entry => { id := entry.2, values := entry.1 }
  nextId := contents.length

end Delete

end LibGda

/-! When `virtualUpdate` changes the rows which it has to: a removal needs a row number which is not
out of date, an update must not be refused behind a changed column, and the texts must be values of
their columns. -/

namespace LibGda

variable {V : Type}

section Deletes

open StalePositions

variable {offset : Nat} {history : List (WritableModel V)} {c : Removal} {cs : List Removal}

theorem gint_rowid {row : Nat} (h : row < 2 ^ 31) (offset : Nat) :
    gint (row + offset * 2 ^ 32) = row := by
  rw [gint, Int.bmod_def]
  have hmod : ((row : Int) + offset * 2 ^ 32) % ((2 ^ 32 : Nat) : Int) = row := by
    omega
  rw [hmod]
  split
  · rfl
  · omega

theorem int_rowidArgument {row : Nat} :
    (rowidArgument offset row).int = gint (row + offset * 2 ^ 32) := by
  rw [rowidArgument]

theorem kind_rowidArgument {row : Nat} : (rowidArgument offset row).kind = .integer := by
  rw [rowidArgument]

theorem virtualUpdate_delete {model : WritableModel V} {row : Nat} (h : row < 2 ^ 31) :
    virtualUpdate model [rowidArgument offset row] =
      if row < model.rows.length then some (.ok, { model with rows := model.rows.eraseIdx row })
      else none := by
  rw [virtualUpdate, int_rowidArgument, gint_rowid h, modelRemoveRow, if_pos kind_rowidArgument]
  by_cases hlt : row < model.rows.length
  · have hcond : (0 : Int) ≤ row ∧ (row : Int) < model.rows.length := by omega
    rw [if_pos hcond, if_pos hlt, Option.map_some, Int.toNat_natCast]
  · have hcond : ¬ ((0 : Int) ≤ row ∧ (row : Int) < model.rows.length) := by omega
    rw [if_neg hcond, if_neg hlt, Option.map_none]

theorem position_lt_of_small {rows : List (ModelRow V)} (hsmall : rows.length < 2 ^ 31)
    (target : Nat) : position ModelRow.id rows target < 2 ^ 31 :=
  Nat.lt_of_le_of_lt List.findIdx_le_length hsmall

def Small (history : List (WritableModel V)) : Prop :=
  ∀ model ∈ history, model.rows.length < 2 ^ 31

theorem deleteStep_of_states {current seen : WritableModel V} (hhead : history.head? = some current)
    (hseen : history[c.ago]? = some seen) :
    deleteStep offset history c = afterCall history
      (virtualUpdate current [rowidArgument offset (position ModelRow.id seen.rows c.target)]) := by
  rw [deleteStep, hhead, hseen]

theorem deleteStep_eq (hsmall : Small history) :
    (deleteStep offset history c).map (List.map WritableModel.rows) =
      removeStep ModelRow.id (history.map WritableModel.rows) c := by
  rw [removeStep, List.head?_map, List.getElem?_map]
  cases hhead : history.head? with
  | none =>
    rw [deleteStep, hhead]
    rfl
  | some current =>
    cases hseen : history[c.ago]? with
    | none =>
      rw [deleteStep, hhead, hseen]
      rfl
    | some seen =>
      have hlt := @position_lt_of_small V seen.rows (hsmall seen (List.mem_of_getElem? hseen))
        c.target
      rw [deleteStep_of_states hhead hseen, virtualUpdate_delete hlt]
      by_cases hrow : position ModelRow.id seen.rows c.target < current.rows.length
      · simp only [Option.map_some, if_pos hrow, afterCall, List.map_cons]
      · simp only [Option.map_some, if_neg hrow, afterCall, Option.map_none]

theorem Small.step (hsmall : Small history) {history' : List (WritableModel V)}
    (hstep : deleteStep offset history c = some history') : Small history' := by
  have heq := @deleteStep_eq V offset history c hsmall
  rw [hstep, Option.map_some, removeStep, List.head?_map] at heq
  cases hhead : history.head? with
  | none => simp [hhead] at heq
  | some current =>
    cases hseen : (history.map WritableModel.rows)[c.ago]? with
    | none => simp [hhead, hseen] at heq
    | some seen =>
      simp only [hhead, hseen, Option.map_some] at heq
      split at heq
      · intro model hmodel
        have hmem : model.rows ∈ history'.map WritableModel.rows := List.mem_map_of_mem hmodel
        rw [Option.some.inj heq] at hmem
        rcases List.mem_cons.1 hmem with hnew | hold
        · rw [hnew]
          have hle := (List.eraseIdx_sublist current.rows
            (position ModelRow.id seen c.target)).length_le
          have hlt := hsmall current (List.mem_of_mem_head? hhead)
          omega
        · obtain ⟨model', hmodel', hrows⟩ := List.mem_map.1 hold
          rw [← hrows]
          exact hsmall model' hmodel'
      · cases heq

end Deletes

end LibGda
