import LibGda.RunInvariant
import Mathlib.Logic.Function.Basic

/-! The `GdaDataAccessWrapper`, which gives random access to the rows of a data model
which may only have an iterator. -/

namespace LibGda

open RunInvariant

inductive WrappedAccess where
  | random
  | cursorForward
  | cursorBackward
  | cursor
  deriving DecidableEq

namespace WrappedAccess

def forward : WrappedAccess → Bool
  | cursorForward | cursor => true
  | random | cursorBackward => false

def backward : WrappedAccess → Bool
  | cursorBackward | cursor => true
  | random | cursorForward => false

end WrappedAccess

inductive IterPosition where
  | before
  | at (row : Nat)
  | after
  deriving DecidableEq

inductive WrapperError where
  | columnOutOfRange
  | access
  deriving DecidableEq

inductive WrapperAnswer (V : Type) where
  | value (v : V)
  | null (error : Option WrapperError)
  deriving DecidableEq

inductive WrapperFault where
  | cursorBackward
  deriving DecidableEq

def rowsPoolSize : Nat := 50

structure AccessWrapper (V : Type) (k : Nat) where
  access : WrappedAccess
  /-- The iterator can go from the end of the data back to the last row. -/
  prevFromEnd : Bool := true
  /-- The rows of the wrapped data model, which has `k` columns. -/
  content : List (Vector V k)
  iter : IterPosition := .before
  iterRow : Int := -1
  rows : Int → Option (List (Option V)) := fun _ => none
  nbRows : Int := -1
  nbCols : Nat := k
  lastRow : Int := -1
  endOfData : Bool := false
  rowsBufferIndex : Option (List Int) := none
  rowsMapping : Option (List Nat) := none

namespace AccessWrapper

variable {V : Type} {k : Nat} (w : AccessWrapper V k)

def cell (row col : Nat) : Option V :=
  w.content[row]?.bind fun values => values[col]?

def mappedColumn (col : Nat) : Option Nat :=
  match w.rowsMapping with
  | some mapping => mapping[col]?
  | none => some col

def iterValues : List (Option V) :=
  (List.range w.nbCols).map fun i =>
    match w.iter with
    | .at row => (w.mappedColumn i).bind (w.cell row)
    | _ => none

def createNewRow : AccessWrapper V k :=
  { w with rows := Function.update w.rows w.iterRow (some w.iterValues) }

/-- `iter_row_changed_cb`, when the iterator is at a row. -/
def iterRowChanged (row : Nat) : AccessWrapper V k :=
  let w := { w with iterRow := row, lastRow := if w.lastRow < row then row else w.lastRow }
  if (!w.access.backward || !w.access.forward) && (w.rows row).isNone then w.createNewRow else w

/-- `gda_data_model_iter_move_next`, which reports the row it moves to. -/
def moveNext : AccessWrapper V k × Bool :=
  if !w.access.forward then (w, false)
  else
    let target := match w.iter with
      | .before => some 0
      | .at row => some (row + 1)
      | .after => none
    match target with
    | none => (w, false)
    | some row =>
      if row < w.content.length then (iterRowChanged { w with iter := .at row } row, true)
      else ({ w with iter := .after, endOfData := true }, false)

def movePrev : AccessWrapper V k × Bool :=
  if !w.access.backward then (w, false)
  else match w.iter with
    | .before => (w, false)
    | .at 0 => ({ w with iter := .before }, false)
    | .at (row + 1) => (iterRowChanged { w with iter := .at row } row, true)
    | .after =>
      if w.prevFromEnd && w.content.length ≠ 0 then
        let row := w.content.length - 1
        (iterRowChanged { w with iter := .at row } row, true)
      else (w, false)

def moveToRow (row : Nat) : AccessWrapper V k × Bool :=
  if row < w.content.length then
    if w.iter = .at row then (w, true)
    else (iterRowChanged { w with iter := .at row } row, true)
  else ({ w with iter := .before }, false)

def moveWhile (condition : AccessWrapper V k → Bool)
    (move : AccessWrapper V k → AccessWrapper V k × Bool) :
    Nat → AccessWrapper V k → AccessWrapper V k
  | 0, w => w
  | fuel + 1, w =>
    if condition w then
      if (move w).2 then moveWhile condition move fuel (move w).1 else (move w).1
    else w

def loopBound : Nat :=
  w.content.length + 2

def getNRows : AccessWrapper V k × Int :=
  if 0 ≤ w.nbRows then (w, w.nbRows)
  else if w.access = .random then ({ w with nbRows := w.content.length }, w.content.length)
  else
    let w := moveWhile (fun w => !w.endOfData) moveNext w.loopBound w
    let n := if w.endOfData then w.lastRow + 1 else -1
    ({ w with nbRows := n }, n)

def rowAnswer (row : List (Option V)) (col : Nat) : WrapperAnswer V :=
  match row[col]? with
  | some (some v) => .value v
  | _ => .null none

def wrappedAnswer : Option V → WrapperAnswer V
  | some v => .value v
  | none => .null (some .access)

def randomAnswer (col : Nat) (row : Int) : WrapperAnswer V :=
  wrappedAnswer ((w.mappedColumn col).bind (w.cell row.toNat))

def makeRoom : AccessWrapper V k :=
  match w.rowsBufferIndex with
  | none => { w with rowsBufferIndex := some [] }
  | some index =>
    if index.length = rowsPoolSize then
      { w with
        rowsBufferIndex := some index.dropLast
        rows := Function.update w.rows (index.getLastD 0) none }
    else w

def readPooled (col : Nat) (row : Int) : AccessWrapper V k × WrapperAnswer V :=
  match w.rows row with
  | some kept => (w, rowAnswer kept col)
  | none =>
    let moved := w.makeRoom.moveToRow row.toNat
    if moved.2 then
      let w := moved.1
      ({ w.createNewRow with rowsBufferIndex := w.rowsBufferIndex.map (w.iterRow :: ·) },
        rowAnswer w.iterValues col)
    else (moved.1, .null none)

def goTo (row : Int) : Except WrapperFault (AccessWrapper V k) :=
  if row = w.iterRow then .ok w
  else if w.iterRow < row then
    .ok (moveWhile (fun w => w.iterRow < row) moveNext w.loopBound w)
  else if w.access.backward then
    .ok (moveWhile (fun w => row < w.iterRow) movePrev w.loopBound w)
  else .error .cursorBackward

def readRow (col : Nat) (row : Int) : Except WrapperFault (AccessWrapper V k × WrapperAnswer
    V) := do
  let w ← w.goTo row
  if !w.access.backward || !w.access.forward then
    match w.rows row with
    | some kept => .ok (w, rowAnswer kept col)
    | none => .ok (w, .null (some .access))
  else .ok (w.readPooled col row)

def getValueAt (col : Nat) (row : Int) :
    Except WrapperFault (AccessWrapper V k × WrapperAnswer V) :=
  if row < 0 then .ok (w, .null none)
  else if w.nbCols ≤ col then .ok (w, .null (some .columnOutOfRange))
  else if w.access = .random then .ok (w, w.randomAnswer col row)
  else match w.rows row with
    | some kept => .ok (w, rowAnswer kept col)
    | none =>
      if w.iterRow < 0 then
        let first := w.moveNext
        if first.2 then
          let w := first.1
          -- no row is kept yet if the iterator goes both ways
          if row = w.iterRow then .ok (w, rowAnswer ((w.rows row).getD []) col)
          else w.readRow col row
        else .ok (first.1, .null (some .access))
      else w.readRow col row

def existingColumns (k : Nat) (mapping : List Int) : List Nat :=
  mapping.filterMap fun nb => match nb with
    | .ofNat col => if col < k then some col else none
    | .negSucc _ => none

/-- `gda_data_access_wrapper_set_mapping`; an empty mapping is the same as none. -/
def setMapping (mapping : Option (List Int)) : AccessWrapper V k × Bool :=
  if !w.access.backward && 0 ≤ w.iterRow then (w, false)
  else
    let w := { w with rowsBufferIndex := none }
    match mapping with
    | none | some [] => ({ w with rowsMapping := none, nbCols := k }, true)
    | some mapping =>
      let columns := existingColumns k mapping
      ({ w with rowsMapping := some columns, nbCols := columns.length }, true)

def columns : List Nat :=
  match w.rowsMapping with
  | some mapping => mapping
  | none => List.range k

end AccessWrapper

/-- The calls, and the changes of a wrapped data model with random access, which are signalled. -/
inductive WrapperCall (V : Type) (k : Nat) where
  | getNRows
  | getValueAt (col : Nat) (row : Int)
  | setMapping (mapping : Option (List Int))
  | rowInserted (row : Nat) (values : Vector V k)
  | rowRemoved (row : Nat)

inductive WrapperReturn (V : Type) where
  | count (n : Int)
  | answer (a : WrapperAnswer V)
  | accepted (changed : Bool)
  | nothing
  deriving DecidableEq

structure WrapperRun (V : Type) (k : Nat) where
  wrapper : AccessWrapper V k
  mapping : List Nat

namespace WrapperRun

variable {V : Type} {k : Nat}

def new (access : WrappedAccess) (prevFromEnd : Bool) (content : List (Vector V k)) :
    WrapperRun V k where
  wrapper := { access := access, prevFromEnd := prevFromEnd, content := content }
  mapping := List.range k

def askedColumns (k : Nat) : Option (List Int) → List Nat
  | none => List.range k
  | some mapping => AccessWrapper.existingColumns k mapping

def call (s : WrapperRun V k) : WrapperCall V k →
    Except WrapperFault (WrapperRun V k × WrapperReturn V)
  | .getNRows =>
    let r := s.wrapper.getNRows
    .ok ({ s with wrapper := r.1 }, .count r.2)
  | .getValueAt col row => do
    let r ← s.wrapper.getValueAt col row
    .ok ({ s with wrapper := r.1 }, .answer r.2)
  | .setMapping mapping =>
    let r := s.wrapper.setMapping mapping
    .ok ({ wrapper := r.1, mapping := if r.2 then askedColumns k mapping else s.mapping },
      .accepted r.2)
  | .rowInserted row values =>
    if s.wrapper.access = .random then
      .ok ({ s with wrapper :=
        { s.wrapper with content := s.wrapper.content.insertIdx row values } }, .nothing)
    else .ok (s, .nothing)
  | .rowRemoved row =>
    if s.wrapper.access = .random then
      .ok ({ s with wrapper :=
        { s.wrapper with content := s.wrapper.content.eraseIdx row } }, .nothing)
    else .ok (s, .nothing)

def step (s : WrapperRun V k) (c : WrapperCall V k) : Except WrapperFault (WrapperRun V k) :=
  (s.call c).map Prod.fst

end WrapperRun

end LibGda
