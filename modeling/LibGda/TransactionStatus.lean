import LibGda.RunInvariant
import Mathlib.Data.List.Basic

/-! The transactions of a connection as `GdaTransactionStatus` keeps track of them, and what is
reported by the providers. -/

namespace LibGda

inductive GdaTransactionIsolation where
  | unknown | readCommitted | readUncommitted | repeatableRead | serializable
  deriving DecidableEq

inductive GdaTransactionStatusEvent where
  | savepoint (svpName : String)
  | sql (sql : String)
  | subTransaction (name : Option String) (isolationLevel : GdaTransactionIsolation)
      (events : List GdaTransactionStatusEvent)

structure GdaTransactionStatus where
  name : Option String := none
  isolationLevel : GdaTransactionIsolation := .unknown
  events : List GdaTransactionStatusEvent := []

abbrev TransactionPath := List Nat

abbrev EventPlace := TransactionPath × Nat

mutual

/-- Whether an event is, or has in it, what is called `str`: the place of the event, and the way to
the transaction found. -/
def findEvent (str : String) (i : Nat) : GdaTransactionStatusEvent → Option (Nat × TransactionPath)
  | .savepoint svpName => if svpName = str then some (i, []) else none
  | .sql sql => if sql = str then some (i, []) else none
  | .subTransaction name _ events =>
    if name = some str then some (i, [i])
    else (findEvents str 0 events).map fun (_, path) => (i, i :: path)

/-- The first such event of the ones from the place `i` on. -/
def findEvents (str : String) (i : Nat) :
    List GdaTransactionStatusEvent → Option (Nat × TransactionPath)
  | [] => none
  | event :: rest =>
    match findEvent str i event with
    | some found => some found
    | none => findEvents str (i + 1) rest

end

mutual

def findCurrentEvent (i : Nat) : GdaTransactionStatusEvent → Option (TransactionPath × EventPlace)
  | .savepoint _ => none
  | .sql _ => none
  | .subTransaction _ _ events =>
    match findCurrentEvents 0 events with
    | none => some ([i], ([], i))
    | some (st, path, j) => some (i :: st, (i :: path, j))

def findCurrentEvents (i : Nat) :
    List GdaTransactionStatusEvent → Option (TransactionPath × EventPlace)
  | [] => none
  | event :: rest =>
    match findCurrentEvent i event with
    | some found => some found
    | none => findCurrentEvents (i + 1) rest

end

def updateAt (f : List GdaTransactionStatusEvent → List GdaTransactionStatusEvent) :
    TransactionPath → List GdaTransactionStatusEvent → List GdaTransactionStatusEvent
  | [], events => f events
  | i :: path, events =>
    events.modify i fun
      | .subTransaction name isolationLevel inside =>
        .subTransaction name isolationLevel (updateAt f path inside)
      | event => event

namespace GdaTransactionStatus

variable (tstatus : GdaTransactionStatus)

/-- `gda_transaction_status_find_current`, for a transaction with or without a name. -/
def findCurrent : TransactionPath × Option EventPlace :=
  match findCurrentEvents 0 tstatus.events with
  | none => ([], none)
  | some (st, event) => (st, some event)

/-- `gda_transaction_status_find`: the transaction and the event. The event is always one of
`tstatus` itself, the search inside of it does not tell its own. -/
def find (str : Option String) : Option (TransactionPath × Option EventPlace) :=
  match str with
  | none => some tstatus.findCurrent
  | some str =>
    if tstatus.name = some str then some ([], none)
    else (findEvents str 0 tstatus.events).map fun (i, path) => (path, some ([], i))

def addEvent (st : TransactionPath) (event : GdaTransactionStatusEvent) : GdaTransactionStatus :=
  { tstatus with events := updateAt (· ++ [event]) st tstatus.events }

/-- `gda_transaction_status_free_events`: nothing is done when the event is not one of the
transaction. -/
def freeEvents (st : TransactionPath) (event : Option EventPlace) (freeAfter : Bool) :
    GdaTransactionStatus :=
  match event with
  | none => tstatus
  | some (path, i) =>
    if path = st then
      let free := fun events => if freeAfter then events.take i else events.eraseIdx i
      { tstatus with events := updateAt free st tstatus.events }
    else tstatus

end GdaTransactionStatus

abbrev TransStatus := Option GdaTransactionStatus

namespace TransStatus

def transactionStarted (status : TransStatus) (parentTrans transName : Option String)
    (isolLevel : GdaTransactionIsolation) : TransStatus :=
  match status with
  | none => some { name := transName, isolationLevel := isolLevel }
  | some tstatus =>
    match tstatus.find parentTrans with
    | none => some { name := transName, isolationLevel := isolLevel }
    | some (parent, _) => some (tstatus.addEvent parent (.subTransaction transName isolLevel []))

def transactionEnded (status : TransStatus) (transName : Option String) : TransStatus :=
  match status with
  | none => none
  | some tstatus =>
    match tstatus.find transName with
    | none => some tstatus
    | some (_, none) => none
    | some (_, some (st, i)) => some (tstatus.freeEvents st (some (st, i)) true)

def transactionRolledback (status : TransStatus) (transName : Option String) : TransStatus :=
  status.transactionEnded transName

def transactionCommitted (status : TransStatus) (transName : Option String) : TransStatus :=
  status.transactionEnded transName

def savepointAdded (status : TransStatus) (parentTrans svpName : Option String) : TransStatus :=
  match status with
  | none => none
  | some tstatus =>
    match tstatus.find parentTrans with
    | none => some tstatus
    | some (st, _) =>
      match svpName with
      -- an event of a savepoint without a name is refused
      | none => some tstatus
      | some svpName => some (tstatus.addEvent st (.savepoint svpName))

def savepointEnded (status : TransStatus) (svpName : Option String) (freeAfter : Bool) :
    TransStatus :=
  match status with
  | none => none
  | some tstatus =>
    match tstatus.find svpName with
    | none => some tstatus
    | some (st, event) => some (tstatus.freeEvents st event freeAfter)

def savepointRolledback (status : TransStatus) (svpName : Option String) : TransStatus :=
  status.savepointEnded svpName true

def savepointRemoved (status : TransStatus) (svpName : Option String) : TransStatus :=
  status.savepointEnded svpName false

def sqlExecuted (status : TransStatus) (sql : Option String) : TransStatus :=
  match status, sql with
  | some tstatus, some sql => some (tstatus.addEvent tstatus.findCurrent.1 (.sql sql))
  | _, _ => status

end TransStatus

inductive ExecutedStatement where
  | begin (transName : Option String) (isolationLevel : GdaTransactionIsolation)
  | rollback (transName : Option String)
  | commit (transName : Option String)
  | savepoint (svpName : Option String)
  | rollbackSavepoint (svpName : Option String)
  | deleteSavepoint (svpName : Option String)
  /-- any other statement, with its SQL if it has one -/
  | other (sql : Option String)

inductive TransactionReport where
  | transactionStarted (parentTrans transName : Option String) (isolLevel : GdaTransactionIsolation)
  | transactionRolledback (transName : Option String)
  | transactionCommitted (transName : Option String)
  | savepointAdded (parentTrans svpName : Option String)
  | savepointRolledback (svpName : Option String)
  | savepointRemoved (svpName : Option String)
  | statementExecuted (stmt : ExecutedStatement) (failed : Bool)

def TransStatus.statementExecuted (status : TransStatus) (stmt : ExecutedStatement)
    (failed : Bool) : TransStatus :=
  if failed then status
  else
    match stmt with
    | .begin transName isolationLevel => status.transactionStarted none transName isolationLevel
    | .rollback transName => status.transactionRolledback transName
    | .commit transName => status.transactionCommitted transName
    | .savepoint svpName => status.savepointAdded none svpName
    | .rollbackSavepoint svpName => status.savepointRolledback svpName
    | .deleteSavepoint svpName => status.savepointRemoved svpName
    | .other sql => status.sqlExecuted sql

def TransStatus.step (status : TransStatus) : TransactionReport → TransStatus
  | .transactionStarted parentTrans transName isolLevel =>
    status.transactionStarted parentTrans transName isolLevel
  | .transactionRolledback transName => status.transactionRolledback transName
  | .transactionCommitted transName => status.transactionCommitted transName
  | .savepointAdded parentTrans svpName => status.savepointAdded parentTrans svpName
  | .savepointRolledback svpName => status.savepointRolledback svpName
  | .savepointRemoved svpName => status.savepointRemoved svpName
  | .statementExecuted stmt failed => status.statementExecuted stmt failed

end LibGda

/-! The tree of open transactions, and what is to become of it when a transaction or a savepoint is
reported. -/

namespace LibGda

abbrev TransactionEvents := List GdaTransactionStatusEvent

/-- `R` between the events from some place on, in the transaction itself or in one inside. -/
inductive EventEdits (R : TransactionEvents → TransactionEvents → Prop) :
    TransactionEvents → TransactionEvents → Prop
  | here {events events'} (h : R events events') : EventEdits R events events'
  | later {rest rest'} (event) (h : EventEdits R rest rest') : EventEdits R (event :: rest) (event :: rest')
  | inside {events events'} (name isolationLevel rest) (h : EventEdits R events events') :
      EventEdits R (.subTransaction name isolationLevel events :: rest)
        (.subTransaction name isolationLevel events' :: rest)

def EndsNamed (name : String) : TransactionEvents → TransactionEvents → Prop :=
  EventEdits fun events events' =>
    (∃ isolationLevel inner rest,
      events = .subTransaction (some name) isolationLevel inner :: rest) ∧ events' = []

def RollsBack (svpName : String) : TransactionEvents → TransactionEvents → Prop :=
  EventEdits fun events events' => (∃ rest, events = .savepoint svpName :: rest) ∧ events' = []

def Removes (svpName : String) : TransactionEvents → TransactionEvents → Prop :=
  EventEdits fun events events' => events = .savepoint svpName :: events'

def AppendsTo (name : String) (event : GdaTransactionStatusEvent) :
    TransactionEvents → TransactionEvents → Prop :=
  EventEdits fun events events' => ∃ isolationLevel inner rest,
    events = .subTransaction (some name) isolationLevel inner :: rest ∧
      events' = .subTransaction (some name) isolationLevel (inner ++ [event]) :: rest

def GdaTransactionStatusEvent.isSubTransaction : GdaTransactionStatusEvent → Bool
  | .subTransaction .. => true
  | _ => false

def NoSub (events : TransactionEvents) : Prop := ∀ event ∈ events, event.isSubTransaction = false

inductive AppendsCurrent (event : GdaTransactionStatusEvent) :
    TransactionEvents → TransactionEvents → Prop
  | here {events} (h : NoSub events) : AppendsCurrent event events (events ++ [event])
  | inside {events events' after} (before name isolationLevel) (hafter : NoSub after)
      (h : AppendsCurrent event events events') :
      AppendsCurrent event (before ++ .subTransaction name isolationLevel events :: after)
        (before ++ .subTransaction name isolationLevel events' :: after)

inductive EndsCurrent : TransactionEvents → TransactionEvents → Prop
  | here {events after} (before name isolationLevel) (h : NoSub events) (hafter : NoSub after) :
      EndsCurrent (before ++ .subTransaction name isolationLevel events :: after) before
  | inside {events events' after} (before name isolationLevel) (hafter : NoSub after)
      (h : EndsCurrent events events') :
      EndsCurrent (before ++ .subTransaction name isolationLevel events :: after)
        (before ++ .subTransaction name isolationLevel events' :: after)

namespace GdaTransactionStatus

def Appends (tstatus : GdaTransactionStatus) (parentTrans : Option String)
    (event : GdaTransactionStatusEvent) (tstatus' : GdaTransactionStatus) : Prop :=
  ∃ events', tstatus' = { tstatus with events := events' } ∧
    match parentTrans with
    | none => AppendsCurrent event tstatus.events events'
    | some name =>
      (tstatus.name = some name ∧ events' = tstatus.events ++ [event]) ∨
        AppendsTo name event tstatus.events events'

end GdaTransactionStatus

namespace TransStatus

variable (status : TransStatus)

def Started (parentTrans transName : Option String) (isolLevel : GdaTransactionIsolation)
    (status' : TransStatus) : Prop :=
  match status with
  | none => status' = some { name := transName, isolationLevel := isolLevel }
  | some tstatus => ∃ tstatus', status' = some tstatus' ∧
      tstatus.Appends parentTrans (.subTransaction transName isolLevel []) tstatus'

def Ended (transName : Option String) (status' : TransStatus) : Prop :=
  match status, transName with
  | none, _ => status' = none
  | some tstatus, none =>
    (NoSub tstatus.events ∧ status' = none) ∨
      ∃ events', EndsCurrent tstatus.events events' ∧
        status' = some { tstatus with events := events' }
  | some tstatus, some name =>
    (tstatus.name = some name ∧ status' = none) ∨
      (∃ events', EndsNamed name tstatus.events events' ∧
        status' = some { tstatus with events := events' }) ∨
      (tstatus.name ≠ some name ∧ (∀ events', ¬ EndsNamed name tstatus.events events') ∧
        status' = status)

def Added (parentTrans svpName : Option String) (status' : TransStatus) : Prop :=
  match status, svpName with
  | some tstatus, some svpName =>
    (∃ tstatus', status' = some tstatus' ∧
      tstatus.Appends parentTrans (.savepoint svpName) tstatus') ∨
      ((∀ tstatus', ¬ tstatus.Appends parentTrans (.savepoint svpName) tstatus') ∧
        status' = status)
  | _, _ => status' = status

/-- `R` for a savepoint of that name, if there is one. -/
def SavepointEdited (R : String → TransactionEvents → TransactionEvents → Prop)
    (svpName : Option String) (status' : TransStatus) : Prop :=
  match status, svpName with
  | some tstatus, some svpName =>
    (∃ events', R svpName tstatus.events events' ∧
      status' = some { tstatus with events := events' }) ∨
      ((∀ events', ¬ R svpName tstatus.events events') ∧ status' = status)
  | _, _ => status' = status

def Executed (sql : Option String) (status' : TransStatus) : Prop :=
  match status, sql with
  | some tstatus, some sql => ∃ tstatus', status' = some tstatus' ∧
      tstatus.Appends none (.sql sql) tstatus'
  | _, _ => status' = status

def Reported (status' : TransStatus) : TransactionReport → Prop
  | .transactionStarted parentTrans transName isolLevel =>
    status.Started parentTrans transName isolLevel status'
  | .transactionRolledback transName => status.Ended transName status'
  | .transactionCommitted transName => status.Ended transName status'
  | .savepointAdded parentTrans svpName => status.Added parentTrans svpName status'
  | .savepointRolledback svpName => status.SavepointEdited RollsBack svpName status'
  | .savepointRemoved svpName => status.SavepointEdited Removes svpName status'
  | .statementExecuted stmt failed =>
    if failed then status' = status
    else
      match stmt with
      | .begin transName isolationLevel => status.Started none transName isolationLevel status'
      | .rollback transName => status.Ended transName status'
      | .commit transName => status.Ended transName status'
      | .savepoint svpName => status.Added none svpName status'
      | .rollbackSavepoint svpName => status.SavepointEdited RollsBack svpName status'
      | .deleteSavepoint svpName => status.SavepointEdited Removes svpName status'
      | .other sql => status.Executed sql status'

end TransStatus

inductive Mention where
  | transaction | savepoint | sql
  deriving DecidableEq

mutual

/-- What is called `str` in an event, and whether it is the event itself. -/
def mentionEvent (str : String) : GdaTransactionStatusEvent → Option (Bool × Mention)
  | .savepoint svpName => if svpName = str then some (true, .savepoint) else none
  | .sql sql => if sql = str then some (true, .sql) else none
  | .subTransaction name _ events =>
    if name = some str then some (true, .transaction)
    else (firstMention str events).map fun mention => (false, mention.2)

/-- The first thing which is called `str`: a transaction, a savepoint or the text of a statement. -/
def firstMention (str : String) : TransactionEvents → Option (Bool × Mention)
  | [] => none
  | event :: rest => (mentionEvent str event).or (firstMention str rest)

end

mutual

def hasSavepointEvent (svpName : String) : GdaTransactionStatusEvent → Bool
  | .savepoint name => name = svpName
  | .sql _ => false
  | .subTransaction _ _ events => hasSavepoint svpName events

def hasSavepoint (svpName : String) : TransactionEvents → Bool
  | [] => false
  | event :: rest => hasSavepointEvent svpName event || hasSavepoint svpName rest

end

mutual

def linearEvent : GdaTransactionStatusEvent → Bool
  | .savepoint _ => true
  | .sql _ => true
  | .subTransaction _ _ events => linear events

def linear : TransactionEvents → Bool
  | [] => true
  | event :: rest =>
    linearEvent event && linear rest &&
      (!event.isSubTransaction || rest.all (!·.isSubTransaction))

end

end LibGda
