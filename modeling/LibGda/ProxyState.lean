import Mathlib.Data.List.Nodup

/-! The data of a `GdaDataProxy`: values, the proxied data model, the pending
row modifications with their three registries, and the displayed chunk. -/

namespace LibGda

/-- Where the program stops: a failed `g_assert` or a null pointer read. -/
inductive Fault where
  | findOrCreateModelRow
  | commitDeleteModelRow
  | commitUpdateModifyValues
  | commitUpdateOrigValues
  | commitInsertModifyValues
  | removeIndexSet
  | chunkToPending
  | sampleRowBound
  | filteredRowValue
  | modificationsRemain
  | nullChunk
  | nullMapping
  | divisionByZero
  deriving DecidableEq

/-- A `GType`, `none` being `GDA_TYPE_NULL`. -/
abbrev GType := Option Nat

/-- A `GValue` which is null or holds data of a type other than `GDA_TYPE_NULL`. -/
inductive GValue (D : Type) where
  | null
  | data (gType : Nat) (contents : D)
  deriving DecidableEq

def GValue.valueType {D : Type} : GValue D → GType
  | .null => none
  | .data t _ => some t

def gdaValueIsNull {D : Type} (value : GValue D) : Bool :=
  value.valueType == none

/-- The comparisons of two contents of one type other than `GDA_TYPE_NULL`. -/
class ContentsCompare (D : Type) where
  compare : Nat → D → D → Int
  differ : Nat → D → D → Bool

instance : ContentsCompare Int where
  compare _ a b := if b < a then 1 else if a = b then 0 else -1
  differ _ a b := a != b

def gdaValueCompare {D : Type} [ContentsCompare D] : GValue D → GValue D → Int
  | .null, .null => 0
  | .null, .data _ _ => -1
  | .data _ _, .null => 1
  | .data t a, .data u b => if t = u then ContentsCompare.compare t a b else -1

def gdaValueDiffer {D : Type} [ContentsCompare D] : GValue D → GValue D → Bool
  | .null, .null => false
  | .data t a, .data u b => if t = u then ContentsCompare.differ t a b else true
  | _, _ => true

structure GdaValueAttribute where
  isNull : Bool := false
  canBeNull : Bool := false
  isDefault : Bool := false
  canBeDefault : Bool := false
  isUnchanged : Bool := false
  actionsShown : Bool := false
  dataNonValid : Bool := false
  hasValueOrig : Bool := false
  noModif : Bool := false
  deriving DecidableEq

def GdaValueAttribute.union (a b : GdaValueAttribute) : GdaValueAttribute where
  isNull := a.isNull || b.isNull
  canBeNull := a.canBeNull || b.canBeNull
  isDefault := a.isDefault || b.isDefault
  canBeDefault := a.canBeDefault || b.canBeDefault
  isUnchanged := a.isUnchanged || b.isUnchanged
  actionsShown := a.actionsShown || b.actionsShown
  dataNonValid := a.dataNonValid || b.dataNonValid
  hasValueOrig := a.hasValueOrig || b.hasValueOrig
  noModif := a.noModif || b.noModif

structure GdaColumn (D : Type) where
  gType : GType
  defaultValue : Option (GValue D) := none
  allowNull : Bool := true
  autoIncrement : Bool := false
  deriving DecidableEq

namespace GdaColumn

variable {D : Type}

def holderDefault (column : GdaColumn D) : Option (GValue D) :=
  match column.defaultValue with
  | some value => some value
  | none => if column.autoIncrement then some .null else none

def holderValue [ContentsCompare D] (column : GdaColumn D) (value : GValue D) :
    Option (GValue D) :=
  if gdaValueIsNull value then
    if !column.allowNull then none
    else if column.holderDefault.map GValue.valueType = some none ∧ column.gType ≠ none then none
    else some value
  else if value.valueType ≠ column.gType then none
  else match column.holderDefault with
    | some default =>
      if default.valueType = column.gType ∧ gdaValueCompare default value = 0 then some default
      else some value
    | none => some value

end GdaColumn

/-- What the proxy reads of the proxied data model. A cell is `none` where
`gda_data_model_get_value_at` returns a null pointer. -/
structure GdaDataModel (D : Type) where
  columns : List (GdaColumn D)
  rows : List (List (Option (GValue D)))
  nRowsKnown : Bool := true
  attributesAt : Int → Int → GdaValueAttribute := fun _ _ => {}
  accessInsert : Bool := true
  accessDelete : Bool := true

namespace GdaDataModel

variable {D : Type}

def getNColumns (m : GdaDataModel D) : Nat := m.columns.length

def getNRows (m : GdaDataModel D) : Int :=
  if m.nRowsKnown then m.rows.length else -1

def getValueAt (m : GdaDataModel D) (col row : Int) : Option (GValue D) :=
  if 0 ≤ row ∧ 0 ≤ col then
    match m.rows[row.toNat]? with
    | some cells => (cells[col.toNat]?).join
    | none => none
  else none

def describeColumn (m : GdaDataModel D) (col : Nat) : GdaColumn D :=
  m.columns.getD col { gType := none }

/-- `gda_data_model_iter_get_value_at` on an iterator which is at the row. -/
def iterGetValueAt [ContentsCompare D] (m : GdaDataModel D) (col : Nat) (row : Int) :
    Option (GValue D) :=
  (m.getValueAt col row).bind (m.describeColumn col).holderValue

/-- `gda_data_model_iter_move_to_row_default` on an iterator of the model. -/
def iterMoveToRow (m : GdaDataModel D) (row : Int) : Bool :=
  decide (0 ≤ row ∧ row < m.getNRows)

end GdaDataModel

structure RowValue (D : Type) where
  modelColumn : Int
  value : Option (GValue D)
  attributes : GdaValueAttribute
  deriving DecidableEq

structure RowModif (D : Type) where
  /-- row in the proxied model, -1 for a new row -/
  modelRow : Int
  toBeDeleted : Bool := false
  modifyValues : List (RowValue D) := []
  origValues : Option (List (Option (GValue D))) := none
  origValuesSize : Nat := 0
  deriving DecidableEq

abbrev RowModifPtr := Nat

/-- The pending changes: `all_modifs`, `new_rows`, `modify_rows`, those which are
cached, and the memory they all point into. -/
structure RowModifs (D : Type) where
  allModifs : List RowModifPtr := []
  newRows : List RowModifPtr := []
  modifyRows : Int → Option RowModifPtr := fun _ => none
  cachedModifs : List RowModifPtr := []
  cachedInserts : List RowModifPtr := []
  memory : RowModifPtr → RowModif D := fun _ => { modelRow := -1 }
  nextPtr : RowModifPtr := 0

/-- A `DisplayChunk`, whose `mapping` may be null. -/
abbrev DisplayChunk := Option (List Int)

inductive ProxySignal where
  | rowInserted (row absRow : Int)
  | rowUpdated (row absRow : Int)
  | rowRemoved (row : Int)
  | rowDeleteChanged (row : Int) (toBeDeleted : Bool)
  | sampleSizeChanged (size : Int)
  | sampleChanged (first last : Int)
  | rowChangesApplied (row proxiedRow : Int)
  | filterChanged
  | accessChanged
  | reset
  deriving DecidableEq

/-- A `GError` with the arguments of its text; `external` is one that the model
or a signal handler has set. -/
inductive GError where
  /-- "Row %d out of range (0-%d)" -/
  | rowOutOfRange (row last : Int)
  /-- "Row %d not found (empty data model)" -/
  | rowNotFound (row : Int)
  /-- "Column %d out of range (0-%d)" -/
  | columnOutOfRange (col last : Int)
  /-- "The first row is an empty row artificially prepended and cannot be altered" -/
  | readOnlyRow
  /-- "The first row is an empty row artificially prepended and cannot be removed" -/
  | prependedRow
  /-- "Trying to change read-only column: %d" -/
  | readOnlyValue (col : Int)
  /-- "Value type mismatch %s instead of %s" -/
  | valueTypeMismatch (got expected : GType)
  | external
  deriving DecidableEq

structure GdaDataProxy (D : Type) where
  model : GdaDataModel D
  /-- the rows to display when a filter is applied -/
  filteredRows : Option (List Int) := none
  columnsAttrs : List GdaValueAttribute := []
  modelNbCols : Nat := 0
  modelNbRows : Int := 0
  notifyChanges : Bool := true
  modifs : RowModifs D := {}
  deferProxiedModelInsert : Bool := false
  catchedInsertedRow : Int := -1
  addNullEntry : Bool := false
  deferSync : Bool := true
  forceDirectMapping : Bool := false
  sampleFirstRow : Int := 0
  sampleLastRow : Int := 0
  sampleSize : Int := 0
  /-- a call of `chunk_sync_idle` is scheduled in the main loop -/
  chunkSyncIdleId : Bool := false
  /-- the mapping of `chunk`, which is never null when `chunk` is not -/
  chunk : Option (List Int) := none
  chunkTo : Option DisplayChunk := none
  chunkSep : Int := 0
  chunkProxyNbRows : Int := 0
  cacheChanges : Bool := false
  emitted : List ProxySignal := []
  error : Option GError := none

end LibGda
