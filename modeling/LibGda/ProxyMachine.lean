import LibGda.ProxyEdit

/-! The proxy as a state machine: every call of its interface and every signal of
the proxied model is one step. -/

namespace LibGda

variable {D : Type}

namespace RowModifs

def migrate (rs : RowModifs D) : RowModifs D :=
  let isInsert (rm : RowModifPtr) : Bool := (rs.memory rm).modelRow == -1
  { rs with
    cachedInserts := (rs.allModifs.filter isInsert).reverse ++ rs.cachedInserts
    cachedModifs := (rs.allModifs.filter (!isInsert ·)).reverse ++ rs.cachedModifs
    allModifs := []
    newRows := []
    modifyRows := fun _ => none }

def fetchInserts (rs : RowModifs D) (isMatch : RowModif D → Bool) : RowModifs D :=
  let fetched := rs.cachedInserts.filter fun rm => isMatch (rs.memory rm)
  { rs with
    cachedInserts := rs.cachedInserts.filter fun rm => !isMatch (rs.memory rm)
    allModifs := fetched.reverse ++ rs.allModifs
    newRows := rs.newRows ++ fetched }

def fetchModif (rs : RowModifs D) (row : Int) (ptr : RowModifPtr) : RowModifs D :=
  let rs := rs.update ptr fun rm => { rm with modelRow := row }
  { rs with
    cachedModifs := rs.cachedModifs.erase ptr
    allModifs := ptr :: rs.allModifs
    modifyRows := hashInsert rs.modifyRows row ptr }

end RowModifs

namespace GdaDataProxy

def columnType (p : GdaDataProxy D) (col : Nat) : GType :=
  (p.model.describeColumn (col % p.modelNbCols)).gType

def valuesError (p : GdaDataProxy D) (col : Nat) : List (Option (GValue D)) → Option GError
  | [] => none
  | value :: rest =>
    match value with
    | some (.data t _) =>
      if p.columnType col = some t then p.valuesError (col + 1) rest
      else some (.valueTypeMismatch (some t) (p.columnType col))
    | _ => p.valuesError (col + 1) rest

/-- The loop of `gda_data_proxy_set_values`: whether all the values have been
set, and the column where it stops. -/
def setValuesLoop [ContentsCompare D] (p : GdaDataProxy D) (row : Int) (col : Nat) :
    List (Option (GValue D)) → Except Fault (GdaDataProxy D × Bool × Nat)
  | [] => .ok (p, true, col)
  | none :: rest => p.setValuesLoop row (col + 1) rest
  | some value :: rest => do
    let (p, ok) ← p.setValueAt col row (some value)
    if ok then p.setValuesLoop row (col + 1) rest else return (p, false, col)

def setValues [ContentsCompare D] (p : GdaDataProxy D) (row : Int)
    (values : List (Option (GValue D))) : Except Fault (GdaDataProxy D × Bool) :=
  if values.isEmpty then .ok (p, true)
  else if 2 * p.modelNbCols < values.length then .ok (p, false)
  else match p.valuesError 0 values with
    | some e => .ok (p.gSetError e, false)
    | none => do
      let (q, ok, col) ← ({ p with notifyChanges := false }).setValuesLoop row 0 values
      let q := { q with notifyChanges := p.notifyChanges }
      return (if col ≠ 0 then q.rowUpdated row else q, ok)

def removeRow (p : GdaDataProxy D) (row : Int) : GdaDataProxy D × Bool :=
  if p.addNullEntry && row == 0 then (p.gSetError .prependedRow, false)
  else (p.delete row, true)

/-- The row that `append_values` appends, and whether its values have been set. -/
def appendWithValues [ContentsCompare D] (p : GdaDataProxy D)
    (values : List (Option (GValue D))) : Except Fault (GdaDataProxy D × Bool × Int) := do
  let r := ({ p.ensureChunkSync with notifyChanges := false }).append
  let s ← r.1.setValues r.2 values
  return (s.1, s.2, r.2)

def appendValues [ContentsCompare D] (p : GdaDataProxy D) (values : List (Option (GValue D))) :
    Except Fault (GdaDataProxy D × Int) := do
  let (q, ok, newRow) ← p.appendWithValues values
  if ok then
    return (({ q with notifyChanges := p.notifyChanges }).rowInserted newRow, newRow)
  else return ({ (q.removeRow newRow).1 with notifyChanges := p.notifyChanges }, -1)

def setSampleSize (p : GdaDataProxy D) (sampleSize : Int) : Except Fault (GdaDataProxy D) :=
  let p := p.ensureChunkSync
  let newSampleSize := if sampleSize ≤ 0 then 0 else sampleSize
  if p.sampleSize ≠ newSampleSize then do
    let p ← ({ p with sampleSize := newSampleSize }).adjustDisplayedChunk
    return p.emit (.sampleSizeChanged sampleSize)
  else .ok p

def setSampleStart (p : GdaDataProxy D) (sampleStart : Int) : Except Fault (GdaDataProxy D) :=
  if sampleStart < 0 then .ok p
  else
    let p := p.ensureChunkSync
    if p.sampleFirstRow ≠ sampleStart then
      ({ p with sampleFirstRow := sampleStart }).adjustDisplayedChunk
    else .ok p

/-- `apply_filter_statement`. The rows are those the statement selects among the
rows of the proxy, `none` when there is no statement or its execution fails. -/
def applyFilterStatement (p : GdaDataProxy D) (rows : Option (List Int)) :
    Except Fault (GdaDataProxy D) :=
  let p := { p.ensureChunkSync with filteredRows := rows }
  ((p.emit .filterChanged).dataModelReset).adjustDisplayedChunk

def initChunk (p : GdaDataProxy D) : Except Fault (GdaDataProxy D) := do
  let (p, chunk) ← p.computeDisplayChunk
  return { p with chunk := chunk }

def setAddNullEntry (p : GdaDataProxy D) (value : Bool) : GdaDataProxy D :=
  if p.addNullEntry = value then p
  else
    let p := { p with addNullEntry := value }
    if value then p.rowInserted 0 else p.rowRemoved 0

def setDeferSync (p : GdaDataProxy D) (value : Bool) : GdaDataProxy D :=
  let p := { p with deferSync := value }
  if !value && p.chunkSyncIdleId then ({ p with chunkSyncIdleId := false }).chunkSyncIdle.1 else p

def setSampleSizeProperty (p : GdaDataProxy D) (value : Int) : Except Fault (GdaDataProxy D) :=
  ({ p with sampleSize := max 0 value }).initChunk

def cleanCachedChanges (p : GdaDataProxy D) : GdaDataProxy D :=
  { p with modifs := { p.modifs with cachedModifs := [], cachedInserts := [] } }

def setCacheChanges (p : GdaDataProxy D) (value : Bool) : GdaDataProxy D :=
  let p := { p with cacheChanges := value }
  if value then p else p.cleanCachedChanges

/-- The end of `clean_proxy`, and `do_init`. -/
def doInit (p : GdaDataProxy D) : GdaDataProxy D :=
  { p with
    modifs := { p.modifs with modifyRows := fun _ => none }
    filteredRows := none
    forceDirectMapping := false
    chunkSyncIdleId := false
    chunk := none
    chunkTo := none
    notifyChanges := true
    sampleSize := 0
    deferProxiedModelInsert := false
    catchedInsertedRow := -1 }

/-- `clean_proxy` then `do_init`. -/
def cleanProxy (p : GdaDataProxy D) : Except Fault (GdaDataProxy D) :=
  if p.modifs.allModifs.isEmpty then .ok p.doInit
  else do
    let p ← p.cancelAllChanges
    if p.modifs.allModifs.isEmpty then return p.doInit else .error .modificationsRemain

def migrateCurrentChangesToCache (p : GdaDataProxy D) : GdaDataProxy D :=
  { p with modifs := p.modifs.migrate }

def insertMatches (p : GdaDataProxy D) (rm : RowModif D) : Bool :=
  decide (rm.origValuesSize = p.modelNbCols) && (List.range p.modelNbCols).all fun i =>
    match (findRowValue i rm.modifyValues).bind RowValue.value with
    | some (.data t _) => decide ((p.model.describeColumn i).gType = some t)
    | _ => true

def modifMatches [ContentsCompare D] (p : GdaDataProxy D) (row : Nat) (rm : RowModif D) : Bool :=
  decide (rm.origValuesSize = p.modelNbCols) && (List.range p.modelNbCols).all fun i =>
    match p.model.iterGetValueAt i row, rm.origValues.bind fun orig => (orig[i]?).join with
    | some v1, some v2 =>
      decide (v1.valueType = v2.valueType) && !gdaValueDiffer v1 v2
    | none, none => true
    | _, _ => false

def fetchInserts (p : GdaDataProxy D) : GdaDataProxy D :=
  { p with modifs := p.modifs.fetchInserts p.insertMatches }

def fetchModif [ContentsCompare D] (p : GdaDataProxy D) (row : Nat) : GdaDataProxy D :=
  match p.modifs.cachedModifs.find? fun rm => p.modifMatches row (p.modifs.memory rm) with
  | none => p
  | some ptr => { p with modifs := p.modifs.fetchModif row ptr }

def fetchCurrentCachedChanges [ContentsCompare D] (p : GdaDataProxy D) : GdaDataProxy D :=
  (List.range p.model.rows.length).foldl fetchModif p.fetchInserts

def columnAttributes (column : GdaColumn D) : GdaValueAttribute where
  isUnchanged := true
  canBeNull := column.allowNull
  canBeDefault := column.defaultValue.isSome

/-- The proxied model is set to `model`, which allows random access. -/
def installModel [ContentsCompare D] (p : GdaDataProxy D) (model : GdaDataModel D) :
    Except Fault (GdaDataProxy D) := do
  let p ← ({ p with
    model := model
    modelNbCols := model.getNColumns
    modelNbRows := model.getNRows
    columnsAttrs := model.columns.map columnAttributes }).initChunk
  return if p.cacheChanges then p.fetchCurrentCachedChanges else p

def setModel [ContentsCompare D] (p : GdaDataProxy D) (model : GdaDataModel D) :
    Except Fault (GdaDataProxy D) := do
  let p := if p.cacheChanges then p.migrateCurrentChangesToCache else p
  let p ← ({ p with notifyChanges := false }).cleanProxy
  return (← p.installModel model).dataModelReset

def proxiedModelResetCb [ContentsCompare D] (p : GdaDataProxy D) (model : GdaDataModel D) :
    Except Fault (GdaDataProxy D) := do
  let p ← ({ p with model := model }).cleanProxy
  return (← p.installModel model).dataModelReset

/-- `gda_data_proxy_new`: the "model" property is set, then "sample-size". -/
def new [ContentsCompare D] (model : GdaDataModel D) : Except Fault (GdaDataProxy D) := do
  (← ({ model := model } : GdaDataProxy D).installModel model).setSampleSizeProperty 300

end GdaDataProxy

/-- The calls of the interface of a proxy, the call of `chunk_sync_idle` by the
main loop, and the signals of the proxied model, with its contents at that time. -/
inductive Act (D : Type) where
  | setValueAt (col proxyRow : Int) (value : Option (GValue D))
  | setValues (proxyRow : Int) (values : List (Option (GValue D)))
  | appendRow
  | appendValues (values : List (Option (GValue D)))
  | removeRow (proxyRow : Int)
  | delete (proxyRow : Int)
  | undelete (proxyRow : Int)
  | alterValueAttributes (proxyRow col : Int) (alterFlags : GdaValueAttribute)
  | cancelRowChanges (proxyRow col : Int)
  | cancelAllChanges
  | applyRowChanges (proxied : ProxiedModel D) (proxyRow : Int)
  | applyAllChanges (proxied : Nat → ProxiedModel D)
  | setSampleSize (sampleSize : Int)
  | setSampleStart (sampleStart : Int)
  | applyFilterStatement (rows : Option (List Int))
  | setNotify (doNotifyChanges : Bool)
  | setAddNullEntry (value : Bool)
  | setDeferSync (value : Bool)
  | setSampleSizeProperty (value : Int)
  | setCacheChanges (value : Bool)
  | setModel (model : GdaDataModel D)
  | chunkSyncIdle
  | modelSignal (model : GdaDataModel D) (signal : ModelSignal)
  | modelReset (model : GdaDataModel D)

namespace GdaDataProxy

def idle (p : GdaDataProxy D) : GdaDataProxy D :=
  if p.chunkSyncIdleId then p.chunkSyncIdle.1 else p

def step [ContentsCompare D] (p : GdaDataProxy D) : Act D → Except Fault (GdaDataProxy D)
  | .setValueAt col row value => do return (← p.setValueAt col row value).1
  | .setValues row values => do return (← p.setValues row values).1
  | .appendRow => .ok p.append.1
  | .appendValues values => do return (← p.appendValues values).1
  | .removeRow row => .ok (p.removeRow row).1
  | .delete row => .ok (p.delete row)
  | .undelete row => .ok (p.undelete row)
  | .alterValueAttributes row col flags => p.alterValueAttributes row col flags
  | .cancelRowChanges row col => .ok (p.cancelRowChanges row col)
  | .cancelAllChanges => p.cancelAllChanges
  | .applyRowChanges proxied row => do return (← p.applyRowChanges proxied row).1
  | .applyAllChanges proxied => do return (← p.applyAllChanges proxied).1
  | .setSampleSize size => p.setSampleSize size
  | .setSampleStart start => p.setSampleStart start
  | .applyFilterStatement rows => p.applyFilterStatement rows
  | .setNotify value => .ok { p with notifyChanges := value }
  | .setAddNullEntry value => .ok (p.setAddNullEntry value)
  | .setDeferSync value => .ok (p.setDeferSync value)
  | .setSampleSizeProperty value => p.setSampleSizeProperty value
  | .setCacheChanges value => .ok (p.setCacheChanges value)
  | .setModel model => p.setModel model
  | .chunkSyncIdle => .ok p.idle
  | .modelSignal model signal => p.onModelSignal model signal
  | .modelReset model => p.proxiedModelResetCb model

end GdaDataProxy

end LibGda
