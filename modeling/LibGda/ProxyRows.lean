import LibGda.ProxyState

/-! Row conversions between absolute, proxy and model row numbers, and what the
proxy reports of its rows. -/

namespace LibGda

variable {D : Type}

namespace GdaDataProxy

def emit (p : GdaDataProxy D) (signal : ProxySignal) : GdaDataProxy D :=
  { p with emitted := p.emitted ++ [signal] }

def gSetError (p : GdaDataProxy D) (error : GError) : GdaDataProxy D :=
  { p with error := some error }

def modelRowToAbsoluteRow (p : GdaDataProxy D) (modelRow : Int) : Int :=
  if modelRow < 0 then -1
  else if p.modelNbRows ≤ modelRow ∧ 0 ≤ p.modelNbRows then -1
  else modelRow

def rowModifToAbsoluteRow (p : GdaDataProxy D) (rm : RowModifPtr) : Int :=
  if (p.modifs.memory rm).modelRow = -1 then
    if p.modelNbRows = -1 then -1
    else match p.modifs.newRows.idxOf? rm with
      | none => -1
      | some index => p.modelNbRows + index
  else (p.modifs.memory rm).modelRow

/-- The model row, and the `RowModif` that the `rm` argument receives. -/
def absoluteRowToModelRow (p : GdaDataProxy D) (absRow : Int) : Int × Option RowModifPtr :=
  if absRow < 0 then (-1, none)
  else if absRow < p.modelNbRows ∨ p.modelNbRows < 0 then (absRow, p.modifs.modifyRows absRow)
  else (-1, p.modifs.newRows[(absRow - p.modelNbRows).toNat]?)

def proxyRowToAbsoluteRow (p : GdaDataProxy D) (proxyRow : Int) : Int :=
  if proxyRow < 0 then -1
  else if p.forceDirectMapping then proxyRow
  else if p.addNullEntry && proxyRow == 0 then -1
  else
    let proxyRow := if p.addNullEntry then proxyRow - 1 else proxyRow
    match p.chunk with
    | some mapping => mapping.getD proxyRow.toNat (-1)
    | none =>
      match p.chunkTo with
      | some (some mapping) =>
        if proxyRow < p.chunkSep then mapping.getD proxyRow.toNat proxyRow else proxyRow
      | _ => proxyRow

def proxyRowToModelRow (p : GdaDataProxy D) (proxyRow : Int) : Int :=
  (p.absoluteRowToModelRow (p.proxyRowToAbsoluteRow proxyRow)).1

def proxyRowToRowModif (p : GdaDataProxy D) (proxyRow : Int) : Option RowModifPtr :=
  (p.absoluteRowToModelRow (p.proxyRowToAbsoluteRow proxyRow)).2

def getNRows (p : GdaDataProxy D) : Int :=
  let nullRow : Int := if !p.forceDirectMapping && p.addNullEntry then 1 else 0
  match p.chunk, p.forceDirectMapping with
  | some mapping, false => mapping.length + nullRow
  | _, _ =>
    if 0 ≤ p.modelNbRows then
      match p.chunkTo with
      | some (some _) => p.chunkProxyNbRows + nullRow
      | _ => p.modelNbRows + p.modifs.newRows.length + nullRow
    else -1

/-- The search in `chunk_to` bounds its index with the length of `chunk`, read
without checking that there is a chunk. -/
def absoluteRowToProxyRow (p : GdaDataProxy D) (absRow : Int) : Except Fault Int :=
  let nullRow : Int := if p.addNullEntry then 1 else 0
  let direct (row : Int) : Int :=
    if p.getNRows ≤ row ∧ 0 ≤ p.getNRows then -1 else row
  if absRow < 0 then .ok (-1)
  else if p.forceDirectMapping then .ok (direct absRow)
  else
    match p.chunk with
    | some mapping =>
      match mapping.idxOf? absRow with
      | some i => .ok (i + nullRow)
      | none => .ok (-1)
    | none =>
      match p.chunkTo with
      | some (some _) => .error .nullChunk
      | _ => .ok (direct (absRow + nullRow))

def notify (p : GdaDataProxy D) (signal : ProxySignal) : GdaDataProxy D :=
  { p with emitted := if p.notifyChanges then p.emitted ++ [signal] else p.emitted }

/-- `gda_data_model_row_inserted` and its siblings, called on the proxy. -/
def rowInserted (p : GdaDataProxy D) (row : Int) : GdaDataProxy D :=
  p.notify (.rowInserted row (p.proxyRowToAbsoluteRow row))

def rowUpdated (p : GdaDataProxy D) (row : Int) : GdaDataProxy D :=
  p.notify (.rowUpdated row (p.proxyRowToAbsoluteRow row))

def rowRemoved (p : GdaDataProxy D) (row : Int) : GdaDataProxy D :=
  p.notify (.rowRemoved row)

def dataModelReset (p : GdaDataProxy D) : GdaDataProxy D :=
  p.notify .reset

end GdaDataProxy

def findRowValue (column : Int) (values : List (RowValue D)) : Option (RowValue D) :=
  values.find? (fun rv => rv.modelColumn == column)

namespace GdaDataProxy

def getValueAttributes (p : GdaDataProxy D) (proxyRow col : Int) : GdaValueAttribute :=
  if proxyRow < 0 then {} else
  let modelColumn := col.tmod p.modelNbCols
  let modelRow := p.proxyRowToModelRow proxyRow
  let flags := p.model.attributesAt modelColumn modelRow
  let flags := if modelRow < 0 then { flags with isNull := true } else flags
  let rv := (p.proxyRowToRowModif proxyRow).bind
    fun rm => findRowValue modelColumn (p.modifs.memory rm).modifyValues
  let flags := match rv with
    | some rv =>
      let flags := flags.union rv.attributes
      match rv.value with
      | some value => { flags with isNull := gdaValueIsNull value }
      | none => { flags with isNull := true }
    | none => { flags with isUnchanged := true }
  if !flags.canBeNull && flags.isNull && !flags.isDefault then
    { flags with dataNonValid := true }
  else flags

def rowError (p : GdaDataProxy D) (proxyRow : Int) : GError :=
  if 0 < p.getNRows then .rowOutOfRange proxyRow (p.getNRows - 1) else .rowNotFound proxyRow

/-- The current values are in the first `modelNbCols` columns, the values of the
proxied model in the next ones. The error is the one set when there is no value. -/
def getValueAt (p : GdaDataProxy D) (column proxyRow : Int) : Except (Option GError) (GValue D) :=
  if proxyRow < 0 then .error none
  else if proxyRow = 0 ∧ p.addNullEntry then .ok .null
  else
    let modelRow := p.proxyRowToModelRow proxyRow
    let rm := p.proxyRowToRowModif proxyRow
    let fromModel (col : Int) : Except (Option GError) (GValue D) :=
      if 0 ≤ modelRow then
        match p.model.getValueAt col modelRow with
        | some value => .ok value
        | none => .error (some .external)
      else .error (some (p.rowError proxyRow))
    if column < p.modelNbCols then
      match rm.bind fun rm =>
          findRowValue (column.tmod p.modelNbCols) (p.modifs.memory rm).modifyValues with
      | some rv => .ok (rv.value.getD .null)
      | none => fromModel column
    else if column < 2 * p.modelNbCols then
      let modelCol := column.tmod p.modelNbCols
      match rm with
      | some rm =>
        match (p.modifs.memory rm).origValues with
        | some orig =>
          match (orig[modelCol.toNat]?).join with
          | some value => .ok value
          | none => .error none
        | none => .ok .null
      | none => fromModel modelCol
    else .error (some (.columnOutOfRange column (2 * p.modelNbCols - 1)))

end GdaDataProxy

end LibGda

/-! Which rows are displayed: the computation of a display chunk, and its
synchronization in steps from the main loop. -/

namespace LibGda

variable {D : Type}

/-- `g_array_insert_val`. An index past the end expands the array with zeros. -/
def gArrayInsertVal (array : List Int) (index : Nat) (value : Int) : List Int :=
  if index ≤ array.length then array.take index ++ value :: array.drop index
  else array ++ List.replicate (index - array.length) 0 ++ [value]

/-- `g_array_remove_index`, which does nothing past the end. -/
def gArrayRemoveIndex (array : List Int) (index : Nat) : List Int :=
  array.eraseIdx index

/-- A `gint` read as a `guint`. -/
def guint (i : Int) : Nat :=
  if 0 ≤ i then i.toNat else (4294967296 + i).toNat

namespace GdaDataProxy

/-- Adjusts the sample to `nbRows` rows and tells how many rows it has. -/
def clipSample (p : GdaDataProxy D) (nbRows : Int) : GdaDataProxy D × Int :=
  if 0 < p.sampleSize then
    let first :=
      if nbRows ≤ p.sampleFirstRow then p.sampleSize * ((nbRows - 1).tdiv p.sampleSize)
      else p.sampleFirstRow
    let last := first + p.sampleSize - 1
    let last := if nbRows ≤ last then nbRows - 1 else last
    ({ p with sampleFirstRow := first, sampleLastRow := last }, last - first + 1)
  else
    ({ p with sampleFirstRow := 0, sampleLastRow := nbRows - 1 }, nbRows)

/-- The row number listed at `row` by the data model of the filter. -/
def filteredRowAt (rows : List Int) (row : Int) : Except Fault Int :=
  if row < rows.length then
    if 0 ≤ row then
      match rows[row.toNat]? with
      | some value => .ok value
      | none => .error .filteredRowValue
    else .error .filteredRowValue
  else .error .sampleRowBound

/-- The model row displayed at `row`. -/
def sampleRowAt (p : GdaDataProxy D) (row : Int) : Except Fault Int :=
  if row < p.modelNbRows then .ok (p.modelRowToAbsoluteRow row) else .error .sampleRowBound

def computeDisplayChunk (p : GdaDataProxy D) : Except Fault (GdaDataProxy D × DisplayChunk) :=
  match p.filteredRows with
  | some rows => do
    let (q, newNbRows) := p.clipSample rows.length
    let mapping ← (List.range newNbRows.toNat).mapM
      fun i => filteredRowAt rows (i + q.sampleFirstRow)
    return (q, some mapping)
  | none =>
    if 0 ≤ p.modelNbRows then
      if 0 < p.sampleSize then do
        let (q, newNbRows) := p.clipSample p.modelNbRows
        let mapping ← (List.range newNbRows.toNat).mapM
          fun i => q.sampleRowAt (i + q.sampleFirstRow)
        return (q, some (mapping ++ q.modifs.newRows.map q.rowModifToAbsoluteRow))
      else return ((p.clipSample p.modelNbRows).1, none)
    else if 0 < p.sampleSize then
      return ({ p with sampleLastRow := p.sampleFirstRow + p.sampleSize - 1 }, none)
    else
      return ({ p with sampleFirstRow := 0, sampleLastRow := 2147483646 }, none)

/-- The current row at `index`, -1 if there is none. -/
def syncCurRow (p : GdaDataProxy D) (index : Nat) : Int :=
  match p.chunk with
  | some mapping => mapping.getD index (-1)
  | none => if p.chunkProxyNbRows ≤ index then -1 else index

def syncReplRow (p : GdaDataProxy D) (chunkTo : DisplayChunk) (index : Nat) : Int :=
  match chunkTo with
  | some mapping => mapping.getD index (-1)
  | none => if p.model.iterMoveToRow index then index else -1

/-- One turn of the loop of `chunk_sync_idle`: the next state and index, or
`none` when there is nothing left to do. -/
def syncStep (p : GdaDataProxy D) (chunkTo : DisplayChunk) (index : Nat) :
    Option (GdaDataProxy D × Nat) :=
  let offset : Int := if p.addNullEntry then 1 else 0
  let curRow := p.syncCurRow index
  let replRow := p.syncReplRow chunkTo index
  if 0 ≤ curRow ∧ 0 ≤ replRow then
    let q := { p with
      chunk := p.chunk.map fun mapping =>
        gArrayRemoveIndex (gArrayInsertVal mapping index replRow) (index + 1)
      chunkSep := p.chunkSep + 1 }
    some (if curRow ≠ replRow then q.rowUpdated (index + offset) else q, index + 1)
  else if 0 ≤ curRow ∧ replRow < 0 then
    let q := { p with
      chunk := p.chunk.map fun mapping => gArrayRemoveIndex mapping index
      chunkProxyNbRows := p.chunkProxyNbRows - 1 }
    some (q.rowRemoved (index + offset), index)
  else if curRow < 0 ∧ 0 ≤ replRow then
    let q := { p with
      chunk := p.chunk.map fun mapping => gArrayInsertVal mapping index replRow
      chunkSep := p.chunkSep + 1 }
    some (q.rowInserted (index + offset), index + 1)
  else none

/-- At most `steps` turns of the loop, and whether it has finished. -/
def syncLoop (chunkTo : DisplayChunk) : Nat → GdaDataProxy D → Nat → GdaDataProxy D × Bool
  | 0, p, _ => (p, false)
  | steps + 1, p, index =>
    match p.syncStep chunkTo index with
    | none => (p, true)
    | some (q, next) => syncLoop chunkTo steps q next

def syncMaxSteps (p : GdaDataProxy D) (idleStep : Nat) (chunkTo : DisplayChunk) : Nat :=
  let direct := guint (p.chunkProxyNbRows - p.chunkSep + 1)
  let toSteps := match chunkTo with
    | some mapping => guint (mapping.length - p.chunkSep + 1)
    | none => direct
  let curSteps := match p.chunk with
    | some mapping => guint (mapping.length - p.chunkSep + 1)
    | none => direct
  let maxSteps := max (max 0 toSteps) curSteps
  if p.deferSync then min maxSteps idleStep else maxSteps

def countSyncRows (p : GdaDataProxy D) : GdaDataProxy D :=
  { p with
    chunkProxyNbRows :=
      if p.chunkProxyNbRows < 0 then p.modelNbRows + p.modifs.newRows.length
      else p.chunkProxyNbRows }

/-- `chunk_to` replaces `chunk`. -/
def endSync (p : GdaDataProxy D) (chunkTo : DisplayChunk) : GdaDataProxy D :=
  { p with chunkSyncIdleId := false, chunk := chunkTo, chunkTo := none }

/-- `chunk_sync_idle` with `idleStep` for `IDLE_STEP`. The result tells whether
it must be called again. -/
def chunkSyncIdleStep (idleStep : Nat) (p : GdaDataProxy D) : GdaDataProxy D × Bool :=
  let p := { p with chunkSyncIdleId := p.deferSync && p.chunkSyncIdleId }
  match p.chunkTo with
  | none => (p, false)
  | some chunkTo =>
    let q := p.countSyncRows
    let r := syncLoop chunkTo (q.syncMaxSteps idleStep chunkTo) q (guint q.chunkSep)
    if r.2 then (r.1.endSync chunkTo, false) else (r.1, true)

def chunkSyncIdle (p : GdaDataProxy D) : GdaDataProxy D × Bool :=
  p.chunkSyncIdleStep 50

def ensureChunkSync (p : GdaDataProxy D) : GdaDataProxy D :=
  if p.chunkSyncIdleId then
    let q := ({ p with deferSync := false }).chunkSyncIdle.1
    { q with deferSync := p.deferSync }
  else p

def adjustDisplayedChunk (p : GdaDataProxy D) : Except Fault (GdaDataProxy D) := do
  let p := { p with chunkSyncIdleId := false, chunkTo := none }
  let (q, chunkTo) ← p.computeDisplayChunk
  let q := { q with chunkTo := some chunkTo }
  if q.chunk = chunkTo then
    return { q with chunkTo := none }
  else
    let q := q.emit (.sampleChanged q.sampleFirstRow q.sampleLastRow)
    let q := { q with chunkSep := 0, chunkProxyNbRows := -1 }
    if !q.deferSync then return q.chunkSyncIdle.1
    else return { q with chunkSyncIdleId := true }

end GdaDataProxy

end LibGda

/-! The callbacks on the signals of the proxied model, and the operations on the
registries of pending changes they are made of. -/

namespace LibGda

variable {D : Type}

def hashInsert (table : Int → Option RowModifPtr) (key : Int) (rm : RowModifPtr) :
    Int → Option RowModifPtr :=
  fun k => if k = key then some rm else table k

def hashRemove (table : Int → Option RowModifPtr) (key : Int) : Int → Option RowModifPtr :=
  fun k => if k = key then none else table k

namespace RowModifs

def update (rs : RowModifs D) (ptr : RowModifPtr) (f : RowModif D → RowModif D) : RowModifs D :=
  { rs with memory := fun q => if q = ptr then f (rs.memory q) else rs.memory q }

/-- Allocates `rm` and prepends it to `all_modifs`. -/
def prepend (rs : RowModifs D) (rm : RowModif D) : RowModifs D :=
  { rs with
    allModifs := rs.nextPtr :: rs.allModifs
    memory := fun q => if q = rs.nextPtr then rm else rs.memory q
    nextPtr := rs.nextPtr + 1 }

/-- Allocates `rm` for the model row `key`, in `modify_rows` and `all_modifs`. -/
def addModified (rs : RowModifs D) (key : Int) (rm : RowModif D) : RowModifs D :=
  { rs.prepend rm with modifyRows := hashInsert rs.modifyRows key rs.nextPtr }

def addNew (rs : RowModifs D) (rm : RowModif D) : RowModifs D :=
  { rs.prepend rm with newRows := rs.newRows ++ [rs.nextPtr] }

/-- Frees `ptr` after its removal from `modify_rows`, by key, and `all_modifs`. -/
def removeModified (rs : RowModifs D) (key : Int) (ptr : RowModifPtr) : RowModifs D :=
  { rs with
    modifyRows := hashRemove rs.modifyRows key
    allModifs := rs.allModifs.erase ptr }

def removeNew (rs : RowModifs D) (ptr : RowModifPtr) : RowModifs D :=
  { rs with
    allModifs := rs.allModifs.erase ptr
    newRows := rs.newRows.erase ptr }

/-- One turn of the loop which renumbers the rows after `row` by `delta`. -/
def renumberStep (row delta : Int) (rs : RowModifs D) (ptr : RowModifPtr) : RowModifs D :=
  let modelRow := (rs.memory ptr).modelRow
  if row < modelRow then
    let rs := rs.update ptr fun rm => { rm with modelRow := modelRow + delta }
    { rs with
      modifyRows := hashInsert (hashRemove rs.modifyRows modelRow) (modelRow + delta) ptr }
  else rs

def renumber (rs : RowModifs D) (row delta : Int) : RowModifs D :=
  rs.allModifs.foldl (renumberStep row delta) rs

def destroyAt (rs : RowModifs D) (row : Int) : RowModifs D :=
  match rs.modifyRows row with
  | some ptr => rs.removeModified row ptr
  | none => rs

end RowModifs

def mappingRowRemoved (absRow : Int) (mapping : List Int) : Except Fault (List Int) :=
  if 1 < mapping.count absRow then .error .removeIndexSet
  else
    let shifted := mapping.map fun v => if absRow < v then v - 1 else v
    match mapping.idxOf? absRow with
    | some i => .ok (gArrayRemoveIndex shifted i)
    | none => .ok shifted

namespace GdaDataProxy

/-- `chunk_to` when a row is inserted. The callbacks test `chunk->mapping` where
they mean `chunk_to->mapping`. -/
def chunkToRowInserted (p : GdaDataProxy D) (row : Int) : Except Fault (Option DisplayChunk) :=
  match p.chunkTo, p.chunk with
  | none, _ => .ok none
  | some _, none => .error .nullChunk
  | some none, some _ => .error .nullMapping
  | some (some mapping), some _ =>
    .ok (some (some (mapping.map fun v => if row ≤ v then v - 1 else v)))

/-- The row inserted at `row` is signaled when all the rows are displayed. -/
def signalInserted (p : GdaDataProxy D) (row : Int) : GdaDataProxy D :=
  if p.deferProxiedModelInsert then { p with catchedInsertedRow := row }
  else if p.chunk.isNone && p.chunkTo.isNone then
    p.rowInserted (row + if p.addNullEntry then 1 else 0)
  else p

def proxiedModelRowInsertedCb (p : GdaDataProxy D) (row : Int) :
    Except Fault (GdaDataProxy D) := do
  let chunkTo ← p.chunkToRowInserted row
  let q := { p with
    chunk := p.chunk.map (List.map fun v => if row ≤ v then v + 1 else v)
    chunkTo := chunkTo
    modifs := p.modifs.renumber row 1
    modelNbRows := p.modelNbRows + 1 }
  return q.signalInserted row

def proxiedModelRowUpdatedCb (p : GdaDataProxy D) (row : Int) :
    Except Fault (GdaDataProxy D) := do
  let q := { p with modifs := p.modifs.destroyAt row }
  let proxyRow ← q.absoluteRowToProxyRow (q.modelRowToAbsoluteRow row)
  return if 0 ≤ proxyRow then q.rowUpdated proxyRow else q

def chunkRowRemoved (p : GdaDataProxy D) (absRow : Int) : Except Fault (Option (List Int)) :=
  match p.chunk with
  | none => .ok none
  | some mapping => (mappingRowRemoved absRow mapping).map some

def chunkToRowRemoved (p : GdaDataProxy D) (absRow : Int) : Except Fault (Option DisplayChunk) :=
  match p.chunkTo, p.chunk with
  | none, _ => .ok none
  | some _, none => .error .nullChunk
  | some none, some _ => .error .nullMapping
  | some (some mapping), some _ =>
    (mappingRowRemoved absRow mapping).map fun mapping => some (some mapping)

def proxiedModelRowRemovedCb (p : GdaDataProxy D) (row : Int) :
    Except Fault (GdaDataProxy D) := do
  let offset : Int := if p.addNullEntry then 1 else 0
  let absRow := p.modelRowToAbsoluteRow row
  let proxyRow ← p.absoluteRowToProxyRow absRow
  let chunk ← p.chunkRowRemoved absRow
  let chunkTo ← p.chunkToRowRemoved absRow
  let q := { p with
    chunk := chunk
    chunkSep :=
      if p.chunk.isSome ∧ 0 ≤ proxyRow ∧ proxyRow - offset ≤ p.chunkSep then p.chunkSep - 1
      else p.chunkSep
    chunkTo := chunkTo
    chunkProxyNbRows := p.chunkProxyNbRows - 1
    modelNbRows := p.modelNbRows - 1
    modifs := (p.modifs.destroyAt row).renumber row (-1) }
  return if 0 ≤ proxyRow then q.rowRemoved proxyRow else q

end GdaDataProxy

inductive ModelSignal where
  | rowInserted (row : Nat)
  | rowUpdated (row : Nat)
  | rowRemoved (row : Nat)
  deriving DecidableEq

namespace GdaDataProxy

/-- The proxied model, whose contents are now `model`, emits `signal`. -/
def onModelSignal (p : GdaDataProxy D) (model : GdaDataModel D) (signal : ModelSignal) :
    Except Fault (GdaDataProxy D) :=
  let p := { p with model := model }
  match signal with
  | .rowInserted row => p.proxiedModelRowInsertedCb row
  | .rowUpdated row => p.proxiedModelRowUpdatedCb row
  | .rowRemoved row => p.proxiedModelRowRemovedCb row

def onModelSignals (p : GdaDataProxy D) :
    List (GdaDataModel D × ModelSignal) → Except Fault (GdaDataProxy D)
  | [] => .ok p
  | (model, signal) :: rest => do (← p.onModelSignal model signal).onModelSignals rest

end GdaDataProxy

end LibGda
