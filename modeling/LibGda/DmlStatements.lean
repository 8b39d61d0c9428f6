import LibGda.FirstOccurrences
import LibGda.PlainIdentifiers

/-! `gda_compute_dml_statements`: the INSERT, UPDATE and DELETE statements for the rows of a SELECT
statement on one table. -/

namespace LibGda.Dml

structure TableColumn where
  name : List Char
  /-- `none` for `GDA_TYPE_NULL` -/
  gtype : Option String
  nullok : Bool
  defaultValue : Option String
  autoIncrement : Bool

structure MetaTable where
  columns : List TableColumn
  pkCols : List Nat
  pk_lt : ∀ i ∈ pkCols, i < columns.length

structure MetaStruct where
  find : List Char → Except String Nat
  isTable : Nat → Bool
  table : Nat → MetaTable

structure SelectField where
  tableName : Option (List Char)
  fieldName : Option (List Char)
  bare : Bool

section Validity

/-- A field with its `validity_meta_object` and its `validity_meta_table_column`. -/
structure CheckedField where
  field : SelectField
  object : Option Nat
  column : Option Nat

variable (m : MetaStruct)

def MetaTable.findColumn (table : MetaTable) (name : List Char) : Option Nat :=
  table.columns.findIdx? fun c => identifierEqual c.name name

def isStarName (name : List Char) : Bool := identifierEqual name ['*']

/-- `gda_sql_select_field_check_validity`, with what is found for the target. -/
def checkField (target : Except String Nat) (field : SelectField) : Except String CheckedField :=
  match field.fieldName with
  | none => .ok { field, object := none, column := none }
  | some name =>
    match field.tableName with
    | none => do
      let dbo ← target
      match (m.table dbo).findColumn name with
      | some c => .ok { field, object := some dbo, column := some c }
      | none =>
        if isStarName name then .ok { field, object := some dbo, column := none }
        else .error ("Could not identify table for field '" ++ String.ofList name ++ "'")
    | some table => do
      let dbo ← m.find table
      if isStarName name then .ok { field, object := some dbo, column := none }
      else
        match (m.table dbo).findColumn name with
        | some c => .ok { field, object := some dbo, column := some c }
        | none => .error ("Column '" ++ String.ofList name ++ "' not found")

end Validity

section Normalize

variable (m : MetaStruct)

def CheckedField.starred (f : CheckedField) : Option Nat :=
  match f.field.fieldName with
  | none => none
  | some name => if isStarName name then f.object else none

def expansion (f : CheckedField) (object : Nat) : List CheckedField :=
  (m.table object).columns.zipIdx.map fun entry =>
    { field := { tableName := f.field.tableName, fieldName := some entry.1.name, bare := true }
      object := some object
      column := some entry.2 }

end Normalize

section Conditions

/-- The names `-k` and `+k` of the parameters. -/
inductive ParamName where
  | old (k : Nat)
  | new (k : Nat)
  deriving DecidableEq

structure ParamSpec where
  name : ParamName
  gtype : String
  nullok : Bool
  deriving DecidableEq

inductive Operation where
  | eq (column : List Char) (param : ParamSpec)
  | isNull (column : List Char)
  deriving DecidableEq

inductive Condition where
  | empty
  | single (op : Operation)
  | all (ops : List Operation)
  deriving DecidableEq

variable (m : MetaStruct) (quote : List Char → List Char) (target : Nat)

def paramSpec (column : TableColumn) (name : ParamName) : ParamSpec where
  name
  gtype := column.gtype.getD "gchararray"
  nullok := column.nullok

end Conditions

section Statements

inductive ExprValue where
  | none
  | default (text : String)
  | autoIncrement
  deriving DecidableEq

structure Assignment where
  fieldName : List Char
  param : ParamSpec
  value : ExprValue
  deriving DecidableEq

structure InsertStatement where
  table : List Char
  assignments : List Assignment

structure UpdateStatement where
  table : List Char
  assignments : List Assignment
  cond : Condition

structure DeleteStatement where
  table : List Char
  cond : Condition

structure Outcome where
  retval : Bool
  error : Option String
  insertStmt : Option InsertStatement
  updateStmt : Option UpdateStatement
  deleteStmt : Option DeleteStatement

def failed (error : Option String) : Outcome where
  retval := false
  error
  insertStmt := none
  updateStmt := none
  deleteStmt := none

variable (m : MetaStruct) (quote : List Char → List Char)

end Statements

end LibGda.Dml

/-! What the statements of `gda_compute_dml_statements` mean: the rows for which a condition holds, and
the columns which are set. -/

namespace LibGda.Dml

open FirstOccurrences

section Meaning

variable {V : Type} [DecidableEq V]

def MetaTable.columnOf (table : MetaTable) (name : List Char) : Option Nat :=
  table.columns.findIdx? fun c => sqlName c.name = sqlName name

/-- `gda_rewrite_sql_statement_for_null_parameters`: a comparison with a parameter which is NULL. -/
def Operation.rewriteNull (binding : ParamName → Option V) : Operation → Operation
  | .eq column param => if binding param.name = none then .isNull column else .eq column param
  | op => op

def Operation.holds (table : MetaTable) (binding : ParamName → Option V) (row : Nat → Option V) :
    Operation → Bool
  | .eq column param =>
    match table.columnOf column with
    | some c => (row c).isSome && decide (row c = binding param.name)
    | none => false
  | .isNull column =>
    match table.columnOf column with
    | some c => (row c).isNone
    | none => false

def Condition.operations : Condition → List Operation
  | .empty => []
  | .single op => [op]
  | .all ops => ops

def Condition.holds (table : MetaTable) (binding : ParamName → Option V) (row : Nat → Option V)
    (cond : Condition) : Bool :=
  cond.operations.all fun op => (op.rewriteNull binding).holds table binding row

variable {table : MetaTable} {binding : ParamName → Option V} {row : Nat → Option V}

end Meaning

section Results

variable (m : MetaStruct) (target : Nat)

def objectOf (f : SelectField) : Option Nat :=
  match f.tableName with
  | none => some target
  | some table => (m.find table).toOption

def MetaTable.keyColumns (table : MetaTable) : List Nat :=
  if table.pkCols = [] then List.range table.columns.length else table.pkCols

end Results

end LibGda.Dml
