import LibGda.ProxyRows

/-! The operations which create, alter and destroy pending changes. -/

namespace LibGda

variable {D : Type}

def replaceRowValue (rv : RowValue D) : List (RowValue D) → List (RowValue D)
  | [] => []
  | x :: xs => if x.modelColumn = rv.modelColumn then rv :: xs else x :: replaceRowValue rv xs

def removeRowValue (column : Int) : List (RowValue D) → List (RowValue D)
  | [] => []
  | x :: xs => if x.modelColumn = column then xs else x :: removeRowValue column xs

namespace GdaDataProxy

/-- `g_new0` of no element is a null pointer. -/
def rowModifsNew (p : GdaDataProxy D) (proxyRow : Int) : RowModif D :=
  if 0 ≤ proxyRow then
    let modelRow := p.proxyRowToModelRow proxyRow
    { modelRow := 0
      origValues :=
        if p.modelNbCols = 0 then none
        else some ((List.range p.modelNbCols).map fun (i : Nat) =>
          if 0 ≤ modelRow then p.model.getValueAt i modelRow else none)
      origValuesSize := p.modelNbCols }
  else { modelRow := 0 }

/-- The state with the `RowModif` of the row, and its `RowValue` of the column. -/
def findOrCreateRowModif (p : GdaDataProxy D) (proxyRow col : Int) :
    Except Fault (GdaDataProxy D × RowModifPtr × Option (RowValue D)) :=
  match p.absoluteRowToModelRow (p.proxyRowToAbsoluteRow proxyRow) with
  | (_, some rm) => .ok (p, rm, findRowValue col (p.modifs.memory rm).modifyValues)
  | (modelRow, none) =>
    if modelRow < 0 then .error .findOrCreateModelRow
    else
      let rm := { p.rowModifsNew proxyRow with modelRow := modelRow }
      .ok ({ p with modifs := p.modifs.addModified modelRow rm }, p.modifs.nextPtr, none)

def columnAttrs (p : GdaDataProxy D) (col : Int) : GdaValueAttribute :=
  p.columnsAttrs.getD col.toNat {}

inductive ValueCheck where
  | refused
  | unchanged
  | accepted
  deriving DecidableEq

def checkValue [ContentsCompare D] (p : GdaDataProxy D) (col proxyRow : Int) (value : GValue D) :
    ValueCheck :=
  match p.getValueAt col proxyRow with
  | .error _ =>
    if (p.getValueAttributes proxyRow col).noModif then .refused
    else
      let exptype := (p.model.describeColumn col.toNat).gType
      if value.valueType ≠ none ∧ exptype ≠ none ∧ exptype ≠ value.valueType then .refused
      else .accepted
  | .ok cmpValue =>
    if cmpValue.valueType ≠ none ∧ value.valueType ≠ none ∧
        value.valueType ≠ cmpValue.valueType then .refused
    else if gdaValueCompare value cmpValue = 0 then .unchanged
    else .accepted

def storeValue (col : Int) (value : GValue D) (attributes : GdaValueAttribute) : RowValue D where
  modelColumn := col
  value := if gdaValueIsNull value then none else some value
  attributes :=
    { attributes with isNull := gdaValueIsNull value, isUnchanged := false, isDefault := false }

/-- The new values of a `RowModif` in which `col` is set to `value`. `isOrig`
tells that `value` is the very pointer of `orig_values`. -/
def putValue [ContentsCompare D] (p : GdaDataProxy D) (rm : RowModif D)
    (rv : Option (RowValue D)) (col : Int) (value : GValue D) (isOrig : Bool) :
    List (RowValue D) :=
  match rv with
  | some rv =>
    match (rm.origValues.bind fun orig => (orig[col.toNat]?).join) with
    | some orig =>
      if isOrig || gdaValueCompare value orig == 0 then removeRowValue col rm.modifyValues
      else replaceRowValue (storeValue col value rv.attributes) rm.modifyValues
    | none => replaceRowValue (storeValue col value rv.attributes) rm.modifyValues
  | none =>
    storeValue col value
      { p.columnAttrs col with hasValueOrig := decide (0 ≤ rm.modelRow) } :: rm.modifyValues

/-- The registries when `value` is written to the change `ptr`, which goes away
with its last value. -/
def writeValue [ContentsCompare D] (p : GdaDataProxy D) (ptr : RowModifPtr)
    (rv : Option (RowValue D)) (col : Int) (value : GValue D) (isOrig : Bool) : RowModifs D :=
  let rm := p.modifs.memory ptr
  let values := p.putValue rm rv col value isOrig
  let modifs := p.modifs.update ptr fun rm => { rm with modifyValues := values }
  if !rm.toBeDeleted && values.isEmpty && decide (0 ≤ rm.modelRow) then
    modifs.removeModified rm.modelRow ptr
  else modifs

def readError (p : GdaDataProxy D) (col proxyRow : Int) : Option GError :=
  match p.getValueAt col proxyRow with
  | .error (some e) => some e
  | _ => p.error

/-- `gda_data_proxy_set_value_at`, once its arguments are known not to be null
or negative. -/
def setValue [ContentsCompare D] (p : GdaDataProxy D) (col proxyRow : Int) (value : GValue D)
    (isOrig : Bool) : Except Fault (GdaDataProxy D × Bool) :=
  let p := p.ensureChunkSync
  if proxyRow = 0 ∧ p.addNullEntry then .ok (p.gSetError .readOnlyRow, false)
  else if 0 ≤ col ∧ col < p.modelNbCols then
    let p := { p with error := p.readError col proxyRow }
    match p.checkValue col proxyRow value with
    | .refused => .ok (p, false)
    | .unchanged => .ok (p, true)
    | .accepted => do
      let (p, ptr, rv) ← p.findOrCreateRowModif proxyRow col
      let p := { p with modifs := p.writeValue ptr rv col value isOrig }
      return (p.rowUpdated proxyRow, true)
  else .ok (p.gSetError (.readOnlyValue col), false)

def setValueAt [ContentsCompare D] (p : GdaDataProxy D) (col proxyRow : Int)
    (value : Option (GValue D)) : Except Fault (GdaDataProxy D × Bool) :=
  if proxyRow < 0 then .ok (p, false)
  else match value with
    | none => .ok (p, false)
    | some value => p.setValue col proxyRow value false

/-- The `RowValue` of a column set to its default. -/
def defaultValue (p : GdaDataProxy D) (rm : RowModif D) (rv : Option (RowValue D))
    (col modelCol : Int) : RowValue D :=
  match rv with
  | some rv => { rv with value := none, attributes := { rv.attributes with isDefault := true } }
  | none =>
    { modelColumn := modelCol
      value := none
      attributes := { p.columnAttrs col with
        isUnchanged := false
        hasValueOrig := decide (0 ≤ rm.modelRow)
        isDefault := true } }

/-- The new values of a `RowModif` in which a column is set to its default. -/
def putDefault (p : GdaDataProxy D) (rm : RowModif D) (rv : Option (RowValue D))
    (col modelCol : Int) : List (RowValue D) :=
  match rv with
  | some _ => replaceRowValue (p.defaultValue rm rv col modelCol) rm.modifyValues
  | none => p.defaultValue rm rv col modelCol :: rm.modifyValues

def writeDefault (p : GdaDataProxy D) (ptr : RowModifPtr) (rv : Option (RowValue D))
    (col modelCol proxyRow : Int) : GdaDataProxy D :=
  let values := p.putDefault (p.modifs.memory ptr) rv col modelCol
  ({ p with
    modifs := p.modifs.update ptr fun rm => { rm with modifyValues := values } }).rowUpdated proxyRow

def origValue (p : GdaDataProxy D) (ptr : RowModifPtr) (col : Int) : Option (GValue D) :=
  (p.modifs.memory ptr).origValues.bind fun orig => (orig[col.toNat]?).join

def alterValueAttributes [ContentsCompare D] (p : GdaDataProxy D) (proxyRow col : Int)
    (alterFlags : GdaValueAttribute) : Except Fault (GdaDataProxy D) :=
  if proxyRow < 0 then .ok p
  else if p.modelNbCols = 0 then .error .divisionByZero
  else
    let modelCol := col.tmod p.modelNbCols
    -- the call that sets a null value passes a null pointer, which is refused
    if alterFlags.isNull then do return (← p.setValueAt modelCol proxyRow none).1
    else do
      let (p, ptr, rv) ← p.findOrCreateRowModif proxyRow modelCol
      let p := if alterFlags.isDefault then p.writeDefault ptr rv col modelCol proxyRow else p
      match if alterFlags.isUnchanged then p.origValue ptr modelCol else none with
      | none => return p
      | some value => return (← p.setValue modelCol proxyRow value true).1

/-- The entries after `absRow` of the mapping move up and the one at `index` goes. -/
def forgetNewRow (p : GdaDataProxy D) (absRow : Int) (index : Nat) : Option (List Int) :=
  p.chunk.map fun mapping =>
    gArrayRemoveIndex (mapping.map fun v => if absRow < v then v - 1 else v) index

def rowCmp (p : GdaDataProxy D) (proxyRow : Int) : Nat :=
  (proxyRow - if p.addNullEntry then 1 else 0).toNat

def rowDeleteChanged (p : GdaDataProxy D) (proxyRow : Int) (toBeDeleted : Bool) : GdaDataProxy D :=
  (p.rowUpdated proxyRow).notify (.rowDeleteChanged proxyRow toBeDeleted)

def delete (p : GdaDataProxy D) (proxyRow : Int) : GdaDataProxy D :=
  if proxyRow < 0 then p
  else
    let p := p.ensureChunkSync
    if p.addNullEntry && proxyRow == 0 then p
    else if !p.model.accessDelete then p
    else
      let absRow := p.proxyRowToAbsoluteRow proxyRow
      match p.absoluteRowToModelRow absRow with
      | (_, some rm) =>
        if (p.modifs.memory rm).toBeDeleted then p
        else if (p.modifs.memory rm).modelRow = -1 then
          ({ p with
            chunk := p.forgetNewRow absRow (p.rowCmp proxyRow)
            modifs := p.modifs.removeNew rm }).rowRemoved proxyRow
        else
          ({ p with
            modifs := p.modifs.update rm fun rm =>
              { rm with toBeDeleted := true } }).rowDeleteChanged proxyRow true
      | (modelRow, none) =>
        let rm := { p.rowModifsNew proxyRow with modelRow := modelRow, toBeDeleted := true }
        ({ p with modifs := p.modifs.addModified modelRow rm }).rowDeleteChanged proxyRow true

def undelete (p : GdaDataProxy D) (proxyRow : Int) : GdaDataProxy D :=
  if proxyRow < 0 then p
  else
    let p := p.ensureChunkSync
    match p.absoluteRowToModelRow (p.proxyRowToAbsoluteRow proxyRow) with
    | (_, none) => p
    | (modelRow, some rm) =>
      let modifs := p.modifs.update rm fun rm => { rm with toBeDeleted := false }
      let modifs :=
        if (p.modifs.memory rm).modifyValues.isEmpty then modifs.removeModified modelRow rm
        else modifs
      ({ p with modifs := modifs }).rowDeleteChanged proxyRow false

def newRowValue (p : GdaDataProxy D) (col : Nat) : RowValue D :=
  let column := p.model.describeColumn col
  { modelColumn := col
    value := column.defaultValue.filter fun d => d.valueType == column.gType
    attributes :=
      { isDefault := column.defaultValue.isSome || column.autoIncrement
        canBeDefault := column.defaultValue.isSome || column.autoIncrement
        canBeNull := column.allowNull && (p.model.attributesAt col (-1)).canBeNull } }

/-- `gda_data_proxy_append`: the proxy row of the new row, or -1. -/
def append (p : GdaDataProxy D) : GdaDataProxy D × Int :=
  let p := p.ensureChunkSync
  if !p.model.accessInsert then (p, -1)
  else if p.modelNbRows = -1 then (p, -1)
  else
    let rm : RowModif D :=
      { modelRow := -1
        modifyValues := ((List.range p.modelNbCols).map p.newRowValue).reverse
        origValues := none
        origValuesSize := p.modelNbCols }
    let ptr := p.modifs.nextPtr
    let p := { p with modifs := p.modifs.addNew rm }
    match p.chunk with
    | some mapping =>
      let proxyRow : Int := mapping.length + if p.addNullEntry then 1 else 0
      let p := { p with chunk := some (mapping ++ [p.rowModifToAbsoluteRow ptr]) }
      (p.rowInserted proxyRow, proxyRow)
    | none => (p.rowInserted (p.getNRows - 1), p.getNRows - 1)

/-- The values that `cancel_row_changes` leaves: none of the row, or all but the
first one of the column. -/
def cancelValues (col : Int) (values : List (RowValue D)) : List (RowValue D) :=
  if col < 0 then [] else removeRowValue col values

def cancelRowChanges (p : GdaDataProxy D) (proxyRow col : Int) : GdaDataProxy D :=
  if proxyRow < 0 then p
  else
    let p := p.ensureChunkSync
    if 0 ≤ col ∧ p.modelNbCols ≤ col then p
    else match p.proxyRowToRowModif proxyRow with
      | none => p
      | some ptr =>
        let rm := p.modifs.memory ptr
        let values := cancelValues col rm.modifyValues
        if values.length = rm.modifyValues.length then p
        else if values.isEmpty && !rm.toBeDeleted then
          if rm.modelRow < 0 then
            ({ p with
              chunk := p.forgetNewRow (p.proxyRowToAbsoluteRow proxyRow) (p.rowCmp proxyRow)
              modifs := p.modifs.removeNew ptr }).rowRemoved proxyRow
          else
            let p := { p with modifs := p.modifs.removeModified rm.modelRow ptr }
            if 1 < rm.modifyValues.length then p.rowUpdated proxyRow else p
        else
          ({ p with
            modifs := p.modifs.update ptr fun rm => { rm with modifyValues := values } }).rowUpdated
              proxyRow

end GdaDataProxy

end LibGda

/-! Applying pending changes to the proxied model, and cancelling all of them. -/

namespace LibGda

variable {D : Type}

structure ModelReply (D : Type) (β : Type) where
  result : β
  signals : List (GdaDataModel D × ModelSignal) := []
  model : GdaDataModel D

/-- The proxied model and the handlers of "validate-row-changes". The values are
null pointers where the model has to use the default of the column. -/
structure ProxiedModel (D : Type) where
  validateRowChanges : Int → Int → Bool := fun _ _ => true
  removeRow : GdaDataModel D → Int → ModelReply D Bool
  setValues : GdaDataModel D → Int → List (Option (GValue D)) → ModelReply D Bool
  appendValues : GdaDataModel D → List (Option (GValue D)) → ModelReply D Int

def RowModif.updateValues (rm : RowModif D) : List (Option (GValue D)) :=
  (List.range rm.origValuesSize).map fun (i : Nat) =>
    match findRowValue i rm.modifyValues with
    | some rv => if rv.attributes.isDefault then none else some (rv.value.getD .null)
    | none => rm.origValues.bind fun orig => (orig[i]?).join

def RowModif.insertValues (rm : RowModif D) (nbCols : Nat) : List (Option (GValue D)) :=
  (List.range nbCols).map fun (i : Nat) => rm.modifyValues.findSome? fun rv =>
    if rv.modelColumn = (i : Int) ∧ rv.attributes.isDefault = false then some (rv.value.getD .null)
    else none

def RowModifs.removeCommitted (rs : RowModifs D) (ptr : RowModifPtr) : RowModifs D :=
  { rs with
    newRows := rs.newRows.erase ptr
    allModifs := rs.allModifs.erase ptr
    modifyRows := hashRemove rs.modifyRows (rs.memory ptr).modelRow }

/-- Frees `rm`, the first of `all_modifs`, after its removal from `modify_rows`. -/
def RowModifs.removeFirst (rs : RowModifs D) (rm : RowModifPtr) (rest : List RowModifPtr) :
    RowModifs D :=
  { rs with
    modifyRows :=
      if 0 ≤ (rs.memory rm).modelRow then hashRemove rs.modifyRows (rs.memory rm).modelRow
      else rs.modifyRows
    allModifs := rest }

namespace GdaDataProxy

def rowModifToProxyRow (p : GdaDataProxy D) (rm : RowModifPtr) : Except Fault Int :=
  p.absoluteRowToProxyRow (p.rowModifToAbsoluteRow rm)

def receive {β : Type} (p : GdaDataProxy D) (reply : ModelReply D β) :
    Except Fault (GdaDataProxy D) := do
  return { (← p.onModelSignals reply.signals) with model := reply.model }

/-- The end of `commit_row_modif` for a change of an existing row. -/
def rowCommitted (p : GdaDataProxy D) (ptr : RowModifPtr) (proxyRow modelRow : Int)
    (accepted : Bool) : GdaDataProxy D × Bool :=
  if accepted then
    let q := p.emit (.rowChangesApplied proxyRow modelRow)
    (if ptr ∈ q.modifs.allModifs then { q with modifs := q.modifs.removeCommitted ptr } else q,
      true)
  else (p.gSetError .external, false)

def commitInsert (p : GdaDataProxy D) (proxied : ProxiedModel D) (ptr : RowModifPtr)
    (proxyRow : Int) : Except Fault (GdaDataProxy D × Bool) :=
  let rm := p.modifs.memory ptr
  if rm.modifyValues.isEmpty then .error .commitInsertModifyValues
  else do
    let reply := proxied.appendValues p.model (rm.insertValues p.modelNbCols)
    let p ← ({ p with deferProxiedModelInsert := true, catchedInsertedRow := -1 }).receive reply
    let p :=
      if 0 ≤ reply.result then
        let p := { p with modifs := p.modifs.removeCommitted ptr }
        let p := if 0 ≤ proxyRow then p.rowUpdated proxyRow else p
        p.emit (.rowChangesApplied proxyRow (-1))
      else p.gSetError .external
    return ({ p with catchedInsertedRow := -1, deferProxiedModelInsert := false },
      decide (0 ≤ reply.result))

/-- The branches of `commit_row_modif` which remove and update a row. -/
def commitExisting (p : GdaDataProxy D) (proxied : ProxiedModel D) (ptr : RowModifPtr)
    (proxyRow : Int) : Except Fault (GdaDataProxy D × Bool) :=
  let rm := p.modifs.memory ptr
  if rm.toBeDeleted then
    if rm.modelRow < 0 then .error .commitDeleteModelRow
    else do
      let reply := proxied.removeRow p.model rm.modelRow
      return (← p.receive reply).rowCommitted ptr proxyRow rm.modelRow reply.result
  else if rm.modifyValues.isEmpty then .error .commitUpdateModifyValues
  else if rm.origValues.isNone then .error .commitUpdateOrigValues
  else do
    let reply := proxied.setValues p.model rm.modelRow rm.updateValues
    return (← p.receive reply).rowCommitted ptr proxyRow rm.modelRow reply.result

/-- The change of `ptr` in the proxied model. -/
def commitChange (p : GdaDataProxy D) (proxied : ProxiedModel D) (ptr : RowModifPtr)
    (proxyRow : Int) : Except Fault (GdaDataProxy D × Bool) :=
  let rm := p.modifs.memory ptr
  if rm.toBeDeleted || decide (0 ≤ rm.modelRow) then p.commitExisting proxied ptr proxyRow
  else p.commitInsert proxied ptr proxyRow

def commitRowModif (p : GdaDataProxy D) (proxied : ProxiedModel D) (rm : Option RowModifPtr)
    (adjustDisplay : Bool) : Except Fault (GdaDataProxy D × Bool) :=
  match rm with
  | none => .ok (p, true)
  | some ptr => do
    let p := p.ensureChunkSync
    let proxyRow ← p.rowModifToProxyRow ptr
    if !proxied.validateRowChanges proxyRow (p.modifs.memory ptr).modelRow then
      return (p.gSetError .external, false)
    let (p, ok) ← p.commitChange proxied ptr proxyRow
    if adjustDisplay then return (← p.adjustDisplayedChunk, ok) else return (p, ok)

def applyRowChanges (p : GdaDataProxy D) (proxied : ProxiedModel D) (proxyRow : Int) :
    Except Fault (GdaDataProxy D × Bool) :=
  if proxyRow < 0 then .ok (p, false)
  else p.commitRowModif proxied (p.proxyRowToRowModif proxyRow) true

/-- The loop of `gda_data_proxy_apply_all_changes`, in at most as many turns as
it is given; `proxied` is what the model does at each of them. -/
def applyLoop : Nat → (Nat → ProxiedModel D) → GdaDataProxy D → Except Fault (GdaDataProxy D × Bool)
  | 0, _, p => .ok (p, true)
  | turns + 1, proxied, p =>
    match p.modifs.allModifs with
    | [] => .ok (p, true)
    | ptr :: _ => do
      let (p, allok) ← p.commitRowModif (proxied 0) (some ptr) false
      if allok then applyLoop turns (fun n => proxied (n + 1)) p else return (p, false)

def applyAllChanges (p : GdaDataProxy D) (proxied : Nat → ProxiedModel D) :
    Except Fault (GdaDataProxy D × Bool) := do
  let p := p.ensureChunkSync
  let (p, allok) ← applyLoop p.modifs.allModifs.length proxied p
  return (← p.adjustDisplayedChunk, allok)

def cancelNewRowsLoop (p : GdaDataProxy D) (mapping : List Int) :
    List RowModifPtr → Except Fault (List Int)
  | [] => .ok mapping
  | rm :: rest => do
    let p := { p with
      chunkTo := some (some mapping), modifs := { p.modifs with newRows := rm :: rest } }
    let proxyRow ← p.rowModifToProxyRow rm
    let mapping :=
      if 0 ≤ proxyRow then
        gArrayRemoveIndex mapping (guint (proxyRow - if p.addNullEntry then 1 else 0))
      else mapping
    p.cancelNewRowsLoop mapping rest

/-- Signals the removal of `count` rows, the last one of `nrows` first. -/
def removeLastRows (nrows : Int) : Nat → GdaDataProxy D → GdaDataProxy D
  | 0, p => p
  | count + 1, p => removeLastRows (nrows - 1) count (p.rowRemoved (nrows - 1))

def cancelNewRows (p : GdaDataProxy D) : Except Fault (GdaDataProxy D) :=
  let without (p : GdaDataProxy D) : GdaDataProxy D :=
    { p with modifs := { p.modifs with newRows := [] } }
  match p.modifs.newRows, p.chunk with
  | [], _ => .ok p
  | rms, some mapping => do
    let mapping ← p.cancelNewRowsLoop mapping rms
    let q := { without p with
      chunkTo := some (some mapping), deferSync := false, chunkSep := 0, chunkProxyNbRows := -1 }
    return { q.chunkSyncIdle.1 with deferSync := p.deferSync }
  | rms, none => .ok (removeLastRows p.getNRows rms.length (without p))

def cancelledRow (p : GdaDataProxy D) (rm : RowModifPtr) : Except Fault Int :=
  if p.notifyChanges && decide (0 ≤ (p.modifs.memory rm).modelRow) then p.rowModifToProxyRow rm
  else .ok (-1)

/-- The loop over `all_modifs` of `gda_data_proxy_cancel_all_changes`. -/
def cancelLoop (p : GdaDataProxy D) : List RowModifPtr → Except Fault (GdaDataProxy D)
  | [] => .ok p
  | rm :: rest => do
    let proxyRow ← p.cancelledRow rm
    let p := { p with modifs := p.modifs.removeFirst rm rest }
    (if 0 ≤ proxyRow then p.rowUpdated proxyRow else p).cancelLoop rest

def cancelAllChanges (p : GdaDataProxy D) : Except Fault (GdaDataProxy D) :=
  let p := p.ensureChunkSync
  if p.chunkTo.isSome then .error .chunkToPending
  else do
    let p ← p.cancelNewRows
    p.cancelLoop p.modifs.allModifs

end GdaDataProxy

end LibGda
