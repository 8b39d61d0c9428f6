import LibGda.IdentifierSplit

/-! `gda_sql_statement_check_validity` on a SELECT: the objects and columns which are found for its
fields among the targets of its FROM part. -/

namespace LibGda.SelectValidity

abbrev SqlName := List Char

structure SelectTarget where
  as : Option SqlName
  tableName : Option SqlName

/-- The `value` is that of the expression, if it has one; it gives the names. -/
structure SelectField where
  value : Option SqlName
  tableName : Option SqlName
  fieldName : Option SqlName

/-- A statement with its parts, in the order in which `gda_sql_any_part_foreach` goes over them. -/
inductive Part where
  | select (parts : List Part)
  | selectFrom (parts : List Part)
  | selectField (field : SelectField) (parts : List Part)
  | selectTarget (target : SelectTarget) (parts : List Part)
  /-- a column of a USING -/
  | usingField
  /-- an expression, a function, an operation, a join, ... -/
  | other (parts : List Part)

def targetsOf : List Part → List SelectTarget
  | [] => []
  | .selectFrom parts :: _ =>
    parts.filterMap fun p => match p with
      | .selectTarget target _ => some target
      | _ => none
  | _ :: parts => targetsOf parts

/-- A part on which `foreach_check_validity` acts, with the targets of the SELECT it is in; so many
of these were visited before a target. -/
inductive Visit where
  | field (targets : List SelectTarget) (field : SelectField)
  | target (targets : List SelectTarget) (before : Nat) (target : SelectTarget)
  | usingField

def Part.isTarget : Part → Bool
  | .selectTarget _ _ => true
  | _ => false

mutual

/-- The calls of `gda_sql_any_part_foreach`: a part is visited behind its own parts. -/
def Part.visits (targets : List SelectTarget) (before : Nat) : Part → List Visit
  | .select parts => visitsOf (targetsOf parts) 0 parts
  | .selectFrom parts => visitsOf targets 0 parts
  | .selectField field parts => visitsOf targets 0 parts ++ [.field targets field]
  | .selectTarget target parts => visitsOf targets 0 parts ++ [.target targets before target]
  | .usingField => [.usingField]
  | .other parts => visitsOf targets 0 parts

def visitsOf (targets : List SelectTarget) (before : Nat) : List Part → List Visit
  | [] => []
  | part :: parts => part.visits targets before ++
      visitsOf targets (if part.isTarget then before + 1 else before) parts

end

def selectVisits (parts : List Part) : List Visit := (Part.select parts).visits [] 0

structure MetaData where
  /-- `gda_meta_struct_complement`, without a catalog and a schema -/
  complement : SqlName → Except String Nat
  isTableOrView : Nat → Bool
  columns : Nat → List SqlName
  /-- `gda_sql_identifier_quote` for the meta store -/
  identifierQuote : SqlName → SqlName
  /-- `g_ascii_strtod` reads the whole text -/
  isNumber : SqlName → Bool

inductive CheckFailure where
  | message (text : String)
  /-- the call does not return -/
  | endless

/-- A field with its `validity_meta_object` and its `validity_meta_table_column`. -/
structure CheckedField where
  field : SelectField
  object : Option Nat
  column : Option (Nat × Nat)

def emptied (name : SqlName) : Option SqlName :=
  if chomped name = [] then none else some (chomped name)

def SelectTarget.cleaned (t : SelectTarget) : SelectTarget where
  as := t.as.bind emptied
  tableName := t.tableName.bind emptied

def cleanedUpTo (n : Nat) (targets : List SelectTarget) : List SelectTarget :=
  (targets.take n).map SelectTarget.cleaned ++ targets.drop n

section Check

variable (m : MetaData)

/-- The `table_name` and the `field_name` before the field is checked. -/
def fieldNames (f : SelectField) : Option SqlName × Option SqlName :=
  match f.value with
  | none => (f.tableName.bind emptied, f.fieldName.bind emptied)
  | some value =>
    match splitIdentifierString m.isNumber value with
    | none => (none, none)
    | some (remain, last) => (remain.bind emptied, emptied last)

def tableColumn (object : Nat) (name : SqlName) : Option (Nat × Nat) :=
  ((m.columns object).findIdx? fun c => identifierEqual c name).map fun i => (object, i)

def aliasedObject (name : SqlName) : List SelectTarget → Option Nat
  | [] => none
  | t :: ts =>
    if t.as = some name then
      match t.tableName.map m.complement with
      | some (.ok object) => some object
      | _ => aliasedObject name ts
    else aliasedObject name ts

/-- `find_table_or_view`; a quoted name which is not found is tried again in its other form. -/
def findTableOrView (targets : List SelectTarget) : Nat → SqlName → Except CheckFailure Nat
  | 0, _ => .error .endless
  | fuel + 1, name =>
    match m.complement name with
    | .ok object => .ok object
    | .error error =>
      if name.head? = some '"' then findTableOrView targets fuel (m.identifierQuote name)
      else
        match aliasedObject m name targets with
        | some object => .ok object
        | none => .error (.message error)

def tableNotFound (name : SqlName) : CheckFailure :=
  .message ("Table '" ++ String.ofList name ++ "' not found")

def noTableForField (name : SqlName) : CheckFailure :=
  .message ("Could not identify table for field '" ++ String.ofList name ++ "'")

def columnNotFound (name : SqlName) : CheckFailure :=
  .message ("Column '" ++ String.ofList name ++ "' not found")

def findTable (targets : List SelectTarget) (fuel : Nat) (name : SqlName) :
    Except CheckFailure Nat := do
  let object ← findTableOrView m targets fuel name
  if m.isTableOrView object then .ok object else .error (tableNotFound name)

/-- `gda_sql_select_target_check_validity`, which gives the same when it is called again. -/
def checkTarget (targets : List SelectTarget) (fuel : Nat) (t : SelectTarget) :
    Except CheckFailure (Option Nat) :=
  match t.tableName with
  | none => .ok none
  | some name => (findTable m targets fuel name).map some

/-- The loop over the targets, with `dbo` and `tcol`. -/
def searchTargets (targets : List SelectTarget) (fuel : Nat) (name : SqlName) :
    List SelectTarget → Option Nat → Option (Nat × Nat) →
      Except CheckFailure (Option Nat × Option (Nat × Nat))
  | [], dbo, tcol => .ok (dbo, tcol)
  | t :: ts, dbo, _ => do
    let object ← checkTarget m targets fuel t
    match object.bind fun o => tableColumn m o name with
    | none => searchTargets targets fuel name ts dbo none
    | some c =>
      if dbo.isSome then .error (noTableForField name)
      else searchTargets targets fuel name ts object (some c)

def isStar (name : SqlName) : Bool := identifierEqual name ['*']

def checkUnqualified (targets : List SelectTarget) (fuel : Nat) (name : SqlName) :
    Except CheckFailure (Nat × Option (Nat × Nat)) := do
  let (dbo, tcol) ← searchTargets m targets fuel name targets none none
  match dbo with
  | some object => .ok (object, tcol)
  | none =>
    match targets with
    | [t] =>
      if isStar name then
        match ← checkTarget m targets fuel t with
        | some object => .ok (object, tcol)
        | none => .error (noTableForField name)
      else .error (noTableForField name)
    | _ => .error (noTableForField name)

def checkQualified (targets : List SelectTarget) (fuel : Nat) (table name : SqlName) :
    Except CheckFailure (Nat × Option (Nat × Nat)) := do
  let object ← findTable m targets fuel table
  if isStar name then .ok (object, none)
  else
    match tableColumn m object name with
    | some c => .ok (object, some c)
    | none => .error (columnNotFound name)

def checkField (targets : List SelectTarget) (fuel : Nat) (f : SelectField) :
    Except CheckFailure CheckedField :=
  match fieldNames m f with
  | (_, none) => .ok { field := f, object := none, column := none }
  | (none, some name) => do
    let (object, column) ← checkUnqualified m targets fuel name
    .ok { field := f, object := some object, column }
  | (some table, some name) => do
    let (object, column) ← checkQualified m targets fuel table name
    .ok { field := f, object := some object, column }

def checkVisit (fuel : Nat) : Visit → Except CheckFailure (List CheckedField)
  | .field targets f => (checkField m targets fuel f).map fun c => [c]
  | .target targets before t =>
    (checkTarget m (cleanedUpTo (before + 1) targets) fuel t.cleaned).map fun _ => []
  | .usingField =>
    .error (.message "GdaSqlField is not part of an INSERT or UPDATE statement")

def checkVisits (fuel : Nat) : List Visit → Except CheckFailure (List CheckedField)
  | [] => .ok []
  | v :: vs => do
    let fields ← checkVisit m fuel v
    let others ← checkVisits fuel vs
    .ok (fields ++ others)

/-- `gda_sql_statement_check_validity` on a SELECT with these parts, with the fields it leaves. -/
def checkValidity (fuel : Nat) (parts : List Part) : Except CheckFailure (List CheckedField) :=
  checkVisits m fuel (selectVisits parts)

end Check

section Meaning

variable (m : MetaData) (fuel : Nat) (parts : List Part)

def Designates (object : Nat) : Prop :=
  ∃ targets before t, Visit.target targets before t ∈ selectVisits parts ∧
    checkTarget m targets fuel t = .ok (some object)

def columnName (f : SelectField) : Option SqlName :=
  match (fieldNames m f).2 with
  | none => none
  | some name => if isStar name then none else some name

def IsRight (c : CheckedField) : Prop :=
  ∀ name, columnName m c.field = some name →
    ∃ object i, c.object = some object ∧ Designates m fuel parts object ∧
      m.isTableOrView object = true ∧ c.column = some (object, i) ∧
        ∃ column, (m.columns object)[i]? = some column ∧ identifierEqual column name = true

/-- Where there is no table name, the last target has the column; else the name stands for an object
of the statement. -/
def Resolves (targets : List SelectTarget) (f : SelectField) : Prop :=
  ∀ name, columnName m f = some name →
    match (fieldNames m f).1 with
    | none => ∃ t object, targets.getLast? = some t ∧
      checkTarget m targets fuel t = .ok (some object) ∧
        ∃ column ∈ m.columns object, identifierEqual column name = true
    | some table => ∃ object, findTableOrView m targets fuel table = .ok object ∧
      Designates m fuel parts object

end Meaning

end LibGda.SelectValidity
