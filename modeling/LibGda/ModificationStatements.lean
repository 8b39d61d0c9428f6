import LibGda.ProxyState
import Mathlib.Algebra.Order.Ring.Int

/-! The modification statements of a `GdaDataSelect`, the parameters they need and the
statements derived from them for some columns only. -/

namespace LibGda

inductive ModType where
  | insQuery
  | updQuery
  | delQuery
  deriving DecidableEq

structure ParamSpec where
  name : Option String
  gType : GType
  deriving DecidableEq

structure FieldExpr where
  text : String := ""
  paramSpec : Option ParamSpec := none
  /-- the parameters of its parts, where it is none itself -/
  inner : List ParamSpec := []
  deriving DecidableEq

structure RowCondition where
  text : String
  params : List ParamSpec
  /-- its operators are only EQ and AND -/
  onlyEqualities : Bool := true
  deriving DecidableEq

inductive ModStatementType where
  | insert
  | update
  | delete
  | other
  deriving DecidableEq

structure ModStatement where
  stmtType : ModStatementType
  table : String
  fieldsList : List String := []
  /-- of an UPDATE -/
  exprList : List FieldExpr := []
  /-- of an INSERT -/
  valuesList : List (List FieldExpr) := []
  cond : Option RowCondition := none
  deriving DecidableEq

structure ParamHolder where
  id : String
  gType : GType
  deriving DecidableEq

/-- A `GdaSet`; its holders are objects of their own, so two sets do not share one. -/
structure ParamSet where
  generation : Nat
  holders : List ParamHolder
  deriving DecidableEq

abbrev HolderPtr := Nat × String

inductive ModError where
  /-- "Internal error: the \"prepared-stmt\" property has not been set" and the like -/
  | unacceptableSelect
  /-- "No connection to use" -/
  | noConnection
  /-- "INSERT statement must contain values to insert" -/
  | noValuesToInsert
  /-- "INSERT statement must insert only one row" -/
  | severalRowsToInsert
  /-- "DELETE statement must have a WHERE part", "UPDATE statement must have a WHERE part" -/
  | noWherePart (stmtType : ModStatementType)
  /-- "Invalid unique row condition (only equal operators are allowed)" -/
  | invalidRowCondition
  /-- set by `gda_statement_check_structure` -/
  | invalidStructure
  /-- "Could not determine GType for parameter '%s'" -/
  | unknownParamType (name : Option String)
  /-- "Modification statement uses an unknown '%s' parameter" -/
  | unknownParameter (id : String)
  /-- "Column %d out of range (0-%d)" -/
  | columnOutOfRange (col last : Int)
  /-- "Modification statement's  '%s' parameter is a %s when it should be a %s" -/
  | parameterType (id : String) (got expected : GType)
  /-- "Modification statement must be an INSERT, UPDATE or DELETE statement" -/
  | notAModification
  /-- "Some columns can't be modified" -/
  | unmodifiableColumns
  /-- "Column %d can't be modified" -/
  | unmodifiableColumn (col : Int)
  /-- "Modifications are not allowed anymore" -/
  | safetyLocked
  /-- "Data model does only support random access" -/
  | randomAccessOnly
  /-- "No UPDATE statement provided" -/
  | noUpdateStatement
  /-- "No INSERT statement provided" -/
  | noInsertStatement
  /-- "Too many values (%d as maximum)" -/
  | tooManyValues (ncols : Int)
  /-- "Cannot add a row because the number of rows in unknown" -/
  | unknownNbRows
  /-- "Missing values to insert in INSERT statement" -/
  | missingValues
  /-- the row, one of its old values or the execution -/
  | notExecuted
  deriving DecidableEq

inductive ModFault where
  /-- `params->holders` of a statement without parameters -/
  | nullParams
  | nullModifSet
  deriving DecidableEq

structure SelectContext where
  /-- the executed statement is a SELECT which is not compound -/
  acceptable : Bool := true
  connected : Bool := true
  accessRandom : Bool := true
  nColumns : Nat
  /-- copied from the parameters of the SELECT -/
  execSet : Option (List ParamHolder) := none
  /-- `gda_statement_check_structure` -/
  checkStructure : ModStatement → Bool := fun _ => true

/-- The part of `GdaDataSelectInternals` which the statements are kept in. -/
structure ModifInternals where
  safelyLocked : Bool := false
  uniqueRowCondition : Option RowCondition := none
  modifSet : Option ParamSet := none
  /-- the holders point into `modifSet` -/
  modifParams : ModType → List HolderPtr := fun _ => []
  modifStmts : ModType → Option ModStatement := fun _ => none
  updStmts : List Bool → Option ModStatement := fun _ => none
  insStmts : List Bool → Option ModStatement := fun _ => none
  /-- the number of sets made so far -/
  generations : Nat := 0

def paramNumber (pname : String) : Option (Nat × Bool) :=
  match pname.toList with
  | sign :: digits =>
    if (sign = '-' ∨ sign = '+') ∧ digits.all Char.isDigit = true then
      some (digits.foldl (fun sum c => sum * 10 + (c.toNat - '0'.toNat)) 0, sign = '-')
    else none
  | [] => none

/-- A sum which is kept in a `gint`. -/
def gintOf (n : Nat) : Int := Int.bmod n (2 ^ 32)

def paramNameToInt (pname : String) : Option (Int × Bool) :=
  (paramNumber pname).map fun r => (gintOf r.1, r.2)

def FieldExpr.newValueColumn (expr : FieldExpr) : Option Int :=
  match expr.paramSpec with
  | none => none
  | some spec =>
    match spec.name with
    | none => none
    | some name =>
      match paramNameToInt name with
      | some (num, false) => some num
      | _ => none

/-- `(num < bv->size) && bv->data[num]`; in front of the array there is no column. -/
def bvectorHas (bv : List Bool) (num : Int) : Bool :=
  decide (0 ≤ num) && bv[num.toNat]?.getD false

def keepColumns (bv : List Bool) :
    List FieldExpr → List String → List FieldExpr × List String × Bool
  | expr :: elist, field :: flist =>
    let (elist', flist', fieldFound) := keepColumns bv elist flist
    match expr.newValueColumn with
    | none => (expr :: elist', field :: flist', fieldFound)
    | some num =>
      if bvectorHas bv num then (expr :: elist', field :: flist', true)
      else (elist', flist', fieldFound)
  | elist, flist => (elist, flist, false)

def computeSingleUpdateStmt (upd : ModStatement) (bv : List Bool) : Except ModError ModStatement :=
  let (exprList, fieldsList, fieldFound) := keepColumns bv upd.exprList upd.fieldsList
  if fieldFound then .ok { upd with exprList := exprList, fieldsList := fieldsList }
  else .error .unmodifiableColumns

def computeSingleInsertStmt (ins : ModStatement) (bv : List Bool) : Except ModError ModStatement :=
  let (values, fieldsList, fieldFound) := keepColumns bv (ins.valuesList.headD []) ins.fieldsList
  if fieldFound then
    .ok { ins with valuesList := values :: ins.valuesList.tail, fieldsList := fieldsList }
  else .error .unmodifiableColumns

def FieldExpr.paramSpecs (expr : FieldExpr) : List ParamSpec :=
  match expr.paramSpec with
  | some spec => [spec]
  | none => expr.inner

def ModStatement.paramSpecs (stmt : ModStatement) : List ParamSpec :=
  stmt.exprList.flatMap FieldExpr.paramSpecs ++
    stmt.valuesList.flatten.flatMap FieldExpr.paramSpecs ++
    (stmt.cond.map RowCondition.params).getD []

/-- `gda_set_real_add_holder`: a holder of the same id is kept. -/
def addHolder (holders : List ParamHolder) (holder : ParamHolder) : List ParamHolder :=
  if holders.any (·.id == holder.id) then holders else holders ++ [holder]

/-- `gda_statement_get_parameters`; no set for a statement without parameters. -/
def getParameters (stmt : ModStatement) : Except ModError (Option (List ParamHolder)) :=
  match stmt.paramSpecs.find? (·.gType == none) with
  | some spec => .error (.unknownParamType spec.name)
  | none =>
    if stmt.paramSpecs = [] then .ok none
    else
      .ok (some (stmt.paramSpecs.foldl (fun holders spec =>
        match spec.name with
        | some name => addHolder holders { id := name, gType := spec.gType }
        | none => holders) []))

structure Executed where
  stmt : ModStatement
  given : List HolderPtr
  deriving DecidableEq

inductive StatementCall where
  | setModificationStatement (stmt : ModStatement)
  /-- with what `gda_compute_dml_statements` gives -/
  | computeModificationStatements (computed : ModType → Option ModStatement)
  /-- the row is found or not; its old values are read and the statement executed or not -/
  | setValueAt (col : Nat) (rowFound executes : Bool)
  | setValues (values : List Bool) (rowFound executes : Bool)
  | appendValues (values : List Bool) (nRowsKnown executes : Bool)

namespace ModifInternals

def setUniqueRowCondition (s : ModifInternals) (cond : RowCondition) : ModifInternals :=
  { s with uniqueRowCondition := some cond }

def withRowCondition (s : ModifInternals) (stmt : ModStatement) :
    Except ModError (ModStatement × ModifInternals) :=
  match s.uniqueRowCondition with
  | some cond => .ok ({ stmt with cond := some cond }, s)
  | none =>
    match stmt.cond with
    | none => .error (.noWherePart stmt.stmtType)
    | some cond =>
      if cond.onlyEqualities then .ok (stmt, s.setUniqueRowCondition cond)
      else .error .invalidRowCondition

def checkedStatement (s : ModifInternals) (stmt : ModStatement) :
    Except ModError (ModType × ModStatement × ModifInternals) :=
  match stmt.stmtType with
  | .insert =>
    match stmt.valuesList with
    | [] => .error .noValuesToInsert
    | [] :: _ => .error .noValuesToInsert
    | [_ :: _] => .ok (.insQuery, stmt, s)
    | (_ :: _) :: _ :: _ => .error .severalRowsToInsert
  | .delete => (s.withRowCondition stmt).map fun r => (.delQuery, r.1, r.2)
  | .update => (s.withRowCondition stmt).map fun r => (.updQuery, r.1, r.2)
  | .other => .error .notAModification

def newModifSet (ctx : SelectContext) (s : ModifInternals) : ParamSet :=
  { generation := s.generations, holders := ctx.execSet.getD [] }

/-- The parameters of the statement and the holders `modif_set` already has. -/
def checkHolders (ctx : SelectContext) (modifSet : ParamSet) :
    List ParamHolder → Except ModError Unit
  | [] => .ok ()
  | holder :: holders =>
    match modifSet.holders.find? (·.id == holder.id) with
    | none =>
      match paramNameToInt holder.id with
      | none => .error (.unknownParameter holder.id)
      | some (num, _) =>
        if (ctx.nColumns : Int) < num then .error (.columnOutOfRange num (ctx.nColumns - 1))
        else checkHolders ctx modifSet holders
    | some eholder =>
      if holder.gType = eholder.gType then checkHolders ctx modifSet holders
      else .error (.parameterType holder.id holder.gType eholder.gType)

def mergeStatements (modifStmts : ModType → Option ModStatement) :
    List ModType → ParamSet × (ModType → List HolderPtr) →
      Except ModFault (Except ModError (ParamSet × (ModType → List HolderPtr)))
  | [], made => .ok (.ok made)
  | mtype :: mtypes, (modifSet, modifParams) =>
    match modifStmts mtype with
    | none => mergeStatements modifStmts mtypes (modifSet, modifParams)
    | some stmt =>
      match getParameters stmt with
      | .error error => .ok (.error error)
      | .ok none => .error .nullParams
      | .ok (some holders) =>
        mergeStatements modifStmts mtypes
          ({ modifSet with holders := holders.foldl addHolder modifSet.holders },
            fun t => if t = mtype then holders.map fun h => (modifSet.generation, h.id)
              else modifParams t)

def computeModifSet (ctx : SelectContext) (s : ModifInternals) :
    Except ModFault (Except ModError Unit × ModifInternals) :=
  match mergeStatements s.modifStmts [.insQuery, .updQuery, .delQuery]
      (s.newModifSet ctx, fun _ => []) with
  | .error fault => .error fault
  | .ok (.error error) => .ok (.error error, { s with
      modifSet := none, modifParams := fun _ => [], generations := s.generations + 1 })
  | .ok (.ok (modifSet, modifParams)) => .ok (.ok (), { s with
      modifSet := some modifSet, modifParams := modifParams, generations := s.generations + 1 })

def ensureModifSet (ctx : SelectContext) (s : ModifInternals) : ParamSet × ModifInternals :=
  match s.modifSet with
  | some modifSet => (modifSet, s)
  | none => (s.newModifSet ctx,
      { s with modifSet := some (s.newModifSet ctx), generations := s.generations + 1 })

def install (s : ModifInternals) (mtype : ModType) (stmt : ModStatement) : ModifInternals :=
  { s with modifStmts := fun t => if t = mtype then some stmt else s.modifStmts t }

def setModificationStatement (ctx : SelectContext) (s : ModifInternals) (stmt : ModStatement) :
    Except ModFault (Except ModError Unit × ModifInternals) :=
  if ctx.acceptable = false then .ok (.error .unacceptableSelect, s)
  else
    match s.checkedStatement stmt with
    | .error error => .ok (.error error, s)
    | .ok (mtype, stmt, s) =>
      if ctx.checkStructure stmt = false then .ok (.error .invalidStructure, s)
      else
        match getParameters stmt with
        | .error error => .ok (.error error, s)
        | .ok none => .error .nullParams
        | .ok (some params) =>
          let (modifSet, s) := s.ensureModifSet ctx
          match checkHolders ctx modifSet params with
          | .error error => .ok (.error error, s)
          | .ok () =>
            -- `params_to_add` does not outlive `compute_modif_set`
            (s.install mtype stmt).computeModifSet ctx

def unsetStatements (s : ModifInternals) : ModifInternals :=
  { s with modifStmts := fun _ => none }

def setStatements (ctx : SelectContext) :
    List ModStatement → ModifInternals → Except ModFault ModifInternals
  | [], s => .ok s
  | stmt :: stmts, s =>
    match s.setModificationStatement ctx stmt with
    | .error fault => .error fault
    | .ok (_, s) => setStatements ctx stmts s

def computedStatements (computed : ModType → Option ModStatement) : List ModStatement :=
  [ModType.insQuery, .updQuery, .delQuery].filterMap computed

def computeModificationStatements (ctx : SelectContext) (s : ModifInternals)
    (computed : ModType → Option ModStatement) : Except ModFault ModifInternals :=
  if ctx.acceptable = false ∨ ctx.connected = false then .ok s
  else setStatements ctx (computedStatements computed) s.unsetStatements

def holderOf (modifSet : ParamSet) (id : String) : Option HolderPtr :=
  if modifSet.holders.any (·.id == id) then some (modifSet.generation, id) else none

def newValueId (col : Nat) : String := "+" ++ toString col

def oldValueId (col : Nat) : String := "-" ++ toString col

def giveNewValues (s : ModifInternals) (mtype : ModType) (modifSet : ParamSet) (bv : List Bool) :
    List HolderPtr :=
  (List.range bv.length).filterMap fun (i : Nat) =>
    if bvectorHas bv i then
      match holderOf modifSet (newValueId i) with
      | some holder => if holder ∈ s.modifParams mtype then some holder else none
      | none => none
    else none

def giveOldValues (ctx : SelectContext) (modifSet : ParamSet) : List HolderPtr :=
  (List.range ctx.nColumns).filterMap fun i => holderOf modifSet (oldValueId i)

def cached (cache : List Bool → Option ModStatement)
    (compute : List Bool → Except ModError ModStatement) (bv : List Bool) :
    Except ModError (ModStatement × (List Bool → Option ModStatement)) :=
  match cache bv with
  | some stmt => .ok (stmt, cache)
  | none => (compute bv).map fun stmt => (stmt, fun b => if b = bv then some stmt else cache b)

def vectorSetValueAt (ctx : SelectContext) (s : ModifInternals) (upd : ModStatement)
    (modifSet : ParamSet) (given : List HolderPtr) (bv : List Bool) (rowFound executes : Bool) :
    Except ModError (Option Executed) × ModifInternals :=
  if rowFound = false then (.error .notExecuted, s)
  else
    match cached s.updStmts (computeSingleUpdateStmt upd) bv with
    | .error error => (.error error, s)
    | .ok (stmt, updStmts) =>
      let s := { s with updStmts := updStmts }
      if executes = false then (.error .notExecuted, s)
      else (.ok (some { stmt := stmt, given := given ++ giveOldValues ctx modifSet }), s)

def oneColumn (col : Nat) : List Bool :=
  List.replicate col false ++ [true]

def setValueAt (ctx : SelectContext) (s : ModifInternals) (col : Nat) (rowFound executes : Bool) :
    Except ModFault (Except ModError (Option Executed) × ModifInternals) :=
  if s.safelyLocked = true then .ok (.error .safetyLocked, s)
  else if ctx.accessRandom = false then .ok (.error .randomAccessOnly, s)
  else
    match s.modifStmts .updQuery with
    | none => .ok (.error .noUpdateStatement, s)
    | some upd =>
      if ctx.nColumns ≤ col then .ok (.error (.columnOutOfRange col (ctx.nColumns - 1)), s)
      else
        match s.modifSet with
        | none => .error .nullModifSet
        | some modifSet =>
          match holderOf modifSet (newValueId col) with
          | none => .ok (.error (.unmodifiableColumn col), s)
          | some holder =>
            let given := if holder ∈ s.modifParams .updQuery then [holder] else []
            .ok (s.vectorSetValueAt ctx upd modifSet given (oneColumn col) rowFound executes)

def setValues (ctx : SelectContext) (s : ModifInternals) (values : List Bool)
    (rowFound executes : Bool) :
    Except ModFault (Except ModError (Option Executed) × ModifInternals) :=
  if s.safelyLocked = true then .ok (.error .safetyLocked, s)
  else if ctx.accessRandom = false then .ok (.error .randomAccessOnly, s)
  else
    match s.modifStmts .updQuery with
    | none => .ok (.error .noUpdateStatement, s)
    | some upd =>
      if ctx.nColumns < values.length then .ok (.error (.tooManyValues ctx.nColumns), s)
      else if values.any id = false then .ok (.ok none, s)
      else
        match s.modifSet with
        | none => .error .nullModifSet
        | some modifSet =>
          let given := s.giveNewValues .updQuery modifSet values
          .ok (s.vectorSetValueAt ctx upd modifSet given values rowFound executes)

def appendValues (ctx : SelectContext) (s : ModifInternals) (values : List Bool)
    (nRowsKnown executes : Bool) :
    Except ModFault (Except ModError (Option Executed) × ModifInternals) :=
  if s.safelyLocked = true then .ok (.error .safetyLocked, s)
  else if ctx.accessRandom = false then .ok (.error .randomAccessOnly, s)
  else
    match s.modifStmts .insQuery with
    | none => .ok (.error .noInsertStatement, s)
    | some ins =>
      if nRowsKnown = false then .ok (.error .unknownNbRows, s)
      else if values.any id = false then .ok (.error .missingValues, s)
      else
        match cached s.insStmts (computeSingleInsertStmt ins) values with
        | .error error => .ok (.error error, s)
        | .ok (stmt, insStmts) =>
          let s := { s with insStmts := insStmts }
          match s.modifSet with
          | none => .error .nullModifSet
          | some modifSet =>
            if executes = false then .ok (.error .notExecuted, s)
            else .ok (.ok (some
              { stmt := stmt, given := s.giveNewValues .insQuery modifSet values }), s)

def call (ctx : SelectContext) (s : ModifInternals) :
    StatementCall → Except ModFault (Option Executed × ModifInternals)
  | .setModificationStatement stmt => (s.setModificationStatement ctx stmt).map fun r => (none, r.2)
  | .computeModificationStatements computed =>
    (s.computeModificationStatements ctx computed).map fun s => (none, s)
  | .setValueAt col rowFound executes =>
    (s.setValueAt ctx col rowFound executes).map fun r => (r.1.toOption.join, r.2)
  | .setValues values rowFound executes =>
    (s.setValues ctx values rowFound executes).map fun r => (r.1.toOption.join, r.2)
  | .appendValues values nRowsKnown executes =>
    (s.appendValues ctx values nRowsKnown executes).map fun r => (r.1.toOption.join, r.2)

end ModifInternals

end LibGda
