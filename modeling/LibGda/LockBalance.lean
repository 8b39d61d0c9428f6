import LibGda.ProxyMachine
import LibGda.RecursiveLock

/-! What functions do to the recursive lock of their object: the number of rows and the properties
of a proxy, the state of a transaction, the signals of a thread wrapper, and the virtual connection
of a pivot. -/

namespace LibGda

namespace LockBalance

open RecursiveLock

variable {D : Type}

/-- What a function on a proxy does: to the lock by itself, or by a call of
`gda_data_proxy_get_n_rows`. -/
inductive Instr (D : Type) where
  | lock
  | unlock
  | getNRows (p : GdaDataProxy D)

def NRowsUnknown (p : GdaDataProxy D) : Prop :=
  (p.chunk.isNone = true ∨ p.forceDirectMapping = true) ∧ p.modelNbRows < 0

instance (p : GdaDataProxy D) : Decidable (NRowsUnknown p) := inferInstanceAs (Decidable (_ ∧ _))

def getNRows (p : GdaDataProxy D) : List Event :=
  .lock :: if p.chunk.isSome && !p.forceDirectMapping then [.unlock]
    else if 0 ≤ p.modelNbRows then [.unlock]
    -- the `return -1`
    else []

def Instr.events : Instr D → List Event
  | lock => [.lock]
  | unlock => [.unlock]
  | getNRows p => LockBalance.getNRows p

/-- `gda_data_model_row_inserted`. Where there is one row, the columns are described and their values
read. -/
def rowInserted (p : GdaDataProxy D) : List (Instr D) :=
  .getNRows p :: if p.getNRows = 1 then
    (List.range (2 * p.modelNbCols)).flatMap fun _ => [.lock, .unlock, .lock, .unlock] else []

/-- The rows which the loop of `chunk_sync_idle` inserts. -/
def insertedRows (chunkTo : DisplayChunk) : Nat → GdaDataProxy D → Nat → List (Instr D)
  | 0, _, _ => []
  | steps + 1, p, index =>
    match p.syncStep chunkTo index with
    | none => []
    | some (q, next) =>
      (if p.syncCurRow index < 0 ∧ 0 ≤ p.syncReplRow chunkTo index then rowInserted q else []) ++
        insertedRows chunkTo steps q next

def chunkSyncIdle (p : GdaDataProxy D) : List (Instr D) :=
  let p := { p with chunkSyncIdleId := p.deferSync && p.chunkSyncIdleId }
  .lock :: (match p.chunkTo with
    | none => []
    | some chunkTo =>
      let q := p.countSyncRows
      insertedRows chunkTo (q.syncMaxSteps 50 chunkTo) q (guint q.chunkSep)) ++ [.unlock]

def ensureChunkSync (p : GdaDataProxy D) : List (Instr D) :=
  .lock :: (if p.chunkSyncIdleId then chunkSyncIdle { p with deferSync := false } else []) ++
    [.unlock]

def rowModifToProxyRow (p : GdaDataProxy D) (rm : RowModifPtr) : List (Instr D) :=
  if 0 ≤ p.rowModifToAbsoluteRow rm ∧ (p.forceDirectMapping = true ∨ p.chunk.isNone = true) then
    [.getNRows p] else []

/-- The loop over `new_rows`, where there is a chunk. -/
def newRowsLoop (p : GdaDataProxy D) : List RowModifPtr → List (Instr D)
  | [] => []
  | rm :: rest =>
    rowModifToProxyRow { p with modifs := { p.modifs with newRows := rm :: rest } } rm ++
      newRowsLoop p rest

def cancelNewRows (p : GdaDataProxy D) : Except Fault (List (Instr D)) :=
  match p.modifs.newRows, p.chunk with
  | [], _ => .ok []
  | rms, some mapping => do
    let left ← p.cancelNewRowsLoop mapping rms
    return newRowsLoop p rms ++ chunkSyncIdle { p with
      modifs := { p.modifs with newRows := [] }
      chunkTo := some (some left), deferSync := false, chunkSep := 0, chunkProxyNbRows := -1 }
  | _, none => .ok [.getNRows p]

/-- The loop over `all_modifs`; the rows are looked for where changes are notified. -/
def cancelLoop (p : GdaDataProxy D) : List (Instr D) :=
  p.modifs.allModifs.flatMap fun rm =>
    if p.notifyChanges && decide (0 ≤ (p.modifs.memory rm).modelRow) then rowModifToProxyRow p rm
    else []

def cancelAllChanges (p : GdaDataProxy D) : Except Fault (List (Instr D)) := do
  let q := p.ensureChunkSync
  let newRows ← cancelNewRows q
  let r ← q.cancelNewRows
  return .lock :: (ensureChunkSync p ++ newRows ++ cancelLoop r) ++ [.unlock]

def cleanProxy (p : GdaDataProxy D) : Except Fault (List (Instr D)) :=
  if p.modifs.allModifs.isEmpty then .ok [] else cancelAllChanges p

inductive Property (D : Type) where
  /-- no data model, or a data model and whether its access is random -/
  | model (value : Option (GdaDataModel D × Bool))
  | addNullEntry (value : Bool)
  | deferSync (value : Bool)
  | sampleSize (value : Int)
  | cacheChanges (value : Bool)
  | other

/-- The proxy whose model is replaced, when `clean_proxy` is called. -/
def withoutModel (p : GdaDataProxy D) : GdaDataProxy D :=
  { (if p.cacheChanges then p.migrateCurrentChangesToCache else p) with notifyChanges := false }

def previousModel (hasModel : Bool) (p : GdaDataProxy D) :
    Except Fault (GdaDataProxy D × List (Instr D)) :=
  if hasModel then do return (← (withoutModel p).cleanProxy, ← cleanProxy (withoutModel p))
  else .ok (p, [])

/-- `gda_data_proxy_set_property`; `compute_display_chunk` takes the lock and leaves it. -/
def setProperty [ContentsCompare D] (hasModel : Bool) (p : GdaDataProxy D) :
    Property D → Except Fault (List (Instr D))
  | .model value => do
    let (q, nested) ← previousModel hasModel p
    match value with
    | none => return .lock :: nested
    | some (model, random) =>
      if random then do
        let _ ← q.installModel model
        return .lock :: nested ++ [.lock, .unlock, .unlock]
      else return .lock :: nested ++ [.unlock]
  | .addNullEntry value =>
    .ok (.lock :: (if p.addNullEntry ≠ value ∧ value = true then
      rowInserted { p with addNullEntry := true } else []) ++ [.unlock])
  | .deferSync value =>
    .ok (.lock :: (if !value && p.chunkSyncIdleId then
      chunkSyncIdle { p with deferSync := value, chunkSyncIdleId := false } else []) ++ [.unlock])
  | .sampleSize value => do
    let _ ← p.setSampleSizeProperty value
    return [.lock, .lock, .unlock, .unlock]
  | .cacheChanges _ => .ok [.lock, .unlock]
  | .other => .ok [.lock, .unlock]

inductive TransactionState where
  | ok
  | failed
  deriving DecidableEq

/-- `gda_connection_internal_change_transaction_state`. `gda_connection_lock` leaves the lock and
takes it again where it has to wait. -/
def changeTransactionState (waits : Bool) (transStatus : Option TransactionState)
    (newstate : TransactionState) : List Event :=
  (if waits then [.lock, .unlock] else []) ++ .lock :: match transStatus with
    | none => []
    | some state => if state = newstate then [] else [.unlock]

/-- `get_thread_data`, with `get_pipe` for a new thread -/
def getThreadData (known : Bool) : List Event :=
  .lock :: (if known then [] else [.lock, .unlock]) ++ [.unlock]

/-- `gda_thread_wrapper_connect_raw`, with what `g_signal_lookup` finds: a signal, and whether its
return type is `G_TYPE_NONE` -/
def connectRaw (known : Bool) (sigid : Option Bool) : List Event :=
  .lock :: getThreadData known ++ match sigid with
    | none => []
    | some returnsNone => if returnsNone then [.unlock] else []

/-- `create_vcnc`. Its first test is never true, and the argument tells whether
`gda_virtual_connection_open` gives a connection. -/
def createVcnc (opened : Bool) : List Event := .lock :: if opened then [.unlock] else []

inductive LockCall (D : Type) where
  | getNRows (p : GdaDataProxy D)
  | setProperty (hasModel : Bool) (p : GdaDataProxy D) (property : Property D)
  | changeTransactionState (waits : Bool) (transStatus : Option TransactionState)
    (newstate : TransactionState)
  | connectRaw (known : Bool) (sigid : Option Bool)
  | createVcnc (opened : Bool)

def LockCall.events [ContentsCompare D] : LockCall D → Except Fault (List Event)
  | getNRows p => .ok (LockBalance.getNRows p)
  | setProperty hasModel p property => do
    let instrs ← LockBalance.setProperty hasModel p property
    return instrs.flatMap Instr.events
  | changeTransactionState waits transStatus newstate =>
    .ok (LockBalance.changeTransactionState waits transStatus newstate)
  | connectRaw known sigid => .ok (LockBalance.connectRaw known sigid)
  | createVcnc opened => .ok (LockBalance.createVcnc opened)

/-- The number of rows is known to each call of `gda_data_proxy_get_n_rows`. -/
def RowsKnown (instrs : List (Instr D)) : Prop := ∀ p, .getNRows p ∈ instrs → ¬ NRowsUnknown p

section Nets

variable {p q : GdaDataProxy D} {instrs instrs' : List (Instr D)}

def ownNet (instrs : List (Instr D)) : Int :=
  (instrs.map fun
    | .lock => 1
    | .unlock => -1
    | .getNRows _ => 0).sum

@[simp] theorem ownNet_nil : ownNet ([] : List (Instr D)) = 0 := rfl

@[simp] theorem rowsKnown_nil : RowsKnown ([] : List (Instr D)) := by simp [RowsKnown]

@[simp] theorem rowsKnown_append :
    RowsKnown (instrs ++ instrs') ↔ RowsKnown instrs ∧ RowsKnown instrs' := by
  simp [RowsKnown, or_imp, forall_and]

end Nets

end LockBalance

end LibGda
