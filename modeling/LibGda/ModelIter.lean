import LibGda.HolderSoundness

/-! A `GdaDataModelIter` on a random access data model which has no cursor methods of its own:
a set with one holder for each column, a row number, and the handlers of the signals of the
data model. -/

namespace LibGda

variable {D : Type}

namespace ModelIter

structure Column (D : Type) where
  gType : GType
  allowNull : Bool := true
  id : Option String := none
  description : Option String := none
  name : Option String := none
  defaultValue : Option (GValue D) := none
  autoIncrement : Bool := false

structure Cell (D : Type) where
  value : Option (GValue D)
  attributes : GdaValueAttribute := {}

structure Row (D : Type) where
  key : Nat
  cells : List (Cell D)

/-- `calls` are the calls of `gda_data_model_set_value_at` so far. -/
structure Model (D : Type) where
  isProxy : Bool := false
  columns : List (Column D)
  rows : List (Row D)
  nextKey : Nat
  calls : List (Nat × Nat × GValue D) := []

namespace Model

def cellAt (m : Model D) (col row : Nat) : Option (Cell D) :=
  m.rows[row]? >>= (·.cells[col]?)

def setCell (m : Model D) (col row : Nat) (cell : Cell D) : Model D :=
  { m with rows := m.rows.modify row fun r => { r with cells := r.cells.set col cell } }

/-- `gda_data_model_set_value_at`. The answer of the data model holds the attributes of the cell
once it is set, and is `none` for a refusal. -/
def setValueAt (m : Model D) (col row : Nat) (value : GValue D)
    (answer : Option GdaValueAttribute) : Model D × Bool :=
  let m := { m with calls := m.calls ++ [(col, row, value)] }
  match m.cellAt col row, answer with
  | some _, some attributes => (m.setCell col row { value := some value, attributes }, true)
  | _, _ => (m, false)

/-- What `gda_data_proxy_alter_value_attributes` does for `GDA_VALUE_ATTR_IS_DEFAULT`. -/
def alterDefault (m : Model D) (col row : Nat) : Model D :=
  m.setCell col row
    { value := some .null, attributes := { isDefault := true, canBeDefault := true, isNull := true } }

def shownColumns (m : Model D) : List (Column D) :=
  m.columns.take (if m.isProxy then m.columns.length / 2 else m.columns.length)

/-- The types which `gda_data_model_row_inserted` gives to the columns which have none. -/
def typedColumns : List (Column D) → List (Cell D) → List (Column D)
  | c :: cs, cell :: cells =>
    let c := match cell.value with
      | some v => if c.gType = none then { c with gType := v.valueType } else c
      | none => c
    c :: typedColumns cs cells
  | cs, _ => cs

def rowInserted (m : Model D) (row : Nat) (cells : List (Cell D)) : Model D :=
  let m := { m with
    rows := m.rows.insertIdx row ⟨m.nextKey, cells⟩
    nextKey := m.nextKey + 1 }
  if m.rows.length = 1 then { m with columns := typedColumns m.columns cells } else m

def replaced (m : Model D) (columns : List (Column D)) (rows : List (List (Cell D))) : Model D :=
  { m with
    columns
    rows := rows.mapIdx fun i cells => ⟨m.nextKey + i, cells⟩
    nextKey := m.nextKey + rows.length }

end Model

/-- A holder in the set. `atDefault` is its attribute `GDA_ATTRIBUTE_IS_DEFAULT`. -/
structure IterHolder (D : Type) where
  id : String
  modelCol : Nat
  holder : HolderValue D
  atDefault : Bool := false

structure Iter (D : Type) where
  row : Option Nat := none
  keepParamChanges : Bool := false
  holders : List (IterHolder D) := []

/-- The data model and the iterator. `on` is the key of the row on which the iterator was
last positioned. -/
structure State (D : Type) where
  model : Model D
  iter : Iter D := {}
  on : Option Nat := none

namespace State

section Holders

variable (s : State D)

def keeping (keep : Bool) : State D :=
  { s with iter := { s.iter with keepParamChanges := keep } }

def setHolder (pos : Nat) (h : IterHolder D) : State D :=
  { s with iter := { s.iter with holders := s.iter.holders.set pos h } }

def validateHolderChange (h : IterHolder D) (newValue : Option (GValue D))
    (answer : Option GdaValueAttribute) : State D × Bool :=
  match s.iter.row with
  | some row =>
    if s.iter.keepParamChanges then (s, true)
    else
      let r := s.model.setValueAt h.modelCol row (newValue.getD .null) answer
      ({ s with model := r.1 }, r.2)
  | none => (s, true)

/-- `holder_attr_changed_cb`, for a value given to `GDA_ATTRIBUTE_IS_DEFAULT`. -/
def holderAttrChanged (h : IterHolder D) (toset : Bool) : State D :=
  match s.iter.row with
  | some row =>
    if s.model.isProxy && toset && !h.atDefault && !s.iter.keepParamChanges &&
        h.holder.defaultValue.isSome then
      { s with model := s.model.alterDefault h.modelCol row }
    else s
  | none => s

variable [ContentsCompare D]

def asks (h : HolderValue D) (value : Option (GValue D)) : Bool :=
  !(!h.differs value false && h.accepts value && h.isValid)

def holderSetValue (pos : Nat) (value : Option (GValue D)) (answer : Option GdaValueAttribute) :
    State D × Bool :=
  match s.iter.holders[pos]? with
  | none => (s, false)
  | some h =>
    let asked := asks h.holder value
    let v := if asked then s.validateHolderChange h value answer else (s, true)
    let r := h.holder.realSetValue value false v.2
    if asked && v.2 then
      let toset := h.holder.isDefault value
      ((v.1.holderAttrChanged h toset).setHolder pos { h with holder := r.1, atDefault := toset },
        r.2)
    else (v.1.setHolder pos { h with holder := r.1 }, r.2)

omit [ContentsCompare D] in
def holderSetValueToDefault (pos : Nat) : State D :=
  match s.iter.holders[pos]? with
  | none => s
  | some h =>
    if h.holder.defaultForced || h.holder.defaultValue.isNone then s
    else (s.holderAttrChanged h true).setHolder pos
      { h with holder := h.holder.setValueToDefault.1, atDefault := true }

omit [ContentsCompare D] in
def holderForceInvalid (pos : Nat) : State D :=
  match s.iter.holders[pos]? with
  | none => s
  | some h => s.setHolder pos { h with holder := h.holder.forceInvalid }

def setParamAttributes (pos : Nat) (flags : GdaValueAttribute) : State D :=
  let s := if flags.isDefault then s.holderSetValueToDefault pos else s
  let s := if flags.isNull then (s.holderSetValue pos none none).1 else s
  if flags.dataNonValid then s.holderForceInvalid pos else s

def syncHolder (row col : Nat) : State D :=
  match s.model.cellAt col row with
  | some ⟨some value, flags⟩ =>
    let r := s.holderSetValue col (some value) none
    if r.2 then r.1.setParamAttributes col flags else r.1.holderForceInvalid col
  | _ => s.holderForceInvalid col

def syncHolders (row : Nat) : State D :=
  (List.range s.iter.holders.length).foldl (fun s col => s.syncHolder row col) s

end Holders

section Moves

variable (s : State D)

def notPositioned : State D :=
  { s with iter := { s.iter with row := none } }

def invalidateContents : State D :=
  let holders := s.iter.holders.map fun h => { h with holder := h.holder.forceInvalid }
  ({ s with iter := { s.iter with holders := holders } } : State D).keeping false

variable [ContentsCompare D]

def positionAt (row : Nat) : State D :=
  let keep := s.iter.keepParamChanges
  let s := ((s.keeping true).syncHolders row).keeping keep
  { s with
    iter := { s.iter with row := some row }
    on := s.model.rows[row]?.map Row.key }

def moveToRowDefault (row : Int) : State D × Bool :=
  if row < 0 ∨ row ≥ s.model.rows.length then (s.invalidateContents.notPositioned, false)
  else (s.positionAt row.toNat, true)

def moveToRow (row : Int) : State D × Bool :=
  if s.iter.row.map Int.ofNat = some row then s.moveToRowDefault row
  else if row < 0 then (s.notPositioned, true)
  else s.moveToRowDefault row

def currentRow : Int :=
  s.iter.row.elim (-1) Int.ofNat

def moveNext : State D × Bool :=
  let row := s.currentRow + 1
  if row ≥ s.model.rows.length then (s.invalidateContents.notPositioned, false)
  else (s.positionAt row.toNat, true)

def movePrev : State D × Bool :=
  let row := s.currentRow - 1
  if row < 0 then (s.invalidateContents.notPositioned, false)
  else (s.positionAt row.toNat, true)

def hasHolder (col : Int) : Bool :=
  0 ≤ col && col < s.iter.holders.length

def setValueAt (col : Int) (value : GValue D) (answer : Option GdaValueAttribute) :
    State D × Bool :=
  if s.hasHolder col then s.holderSetValue col.toNat (some value) answer else (s, false)

end Moves

section Definition

def freeId (used : List String) (id : String) : String :=
  ((List.range (used.length + 1)).map fun e => id ++ "_" ++ toString (e + 1)).find? (· ∉ used)
    |>.getD id

def holderId (used : List String) (col : Nat) (c : Column D) : String :=
  match c.id with
  | some id => id
  | none =>
    let id := (c.description.or c.name).getD ("col" ++ toString col)
    if id ∈ used then freeId used id else id

variable [ContentsCompare D]

/-- `define_holder_for_data_model_column`. `gda_set_add_holder` leaves out a holder with an id which
another one has. -/
def defineHolder (holders : List (IterHolder D)) (col : Nat) (c : Column D) :
    List (IterHolder D) :=
  let id := holderId (holders.map IterHolder.id) col c
  let h := ({ gType := c.gType } : HolderValue D).setNotNull (!c.allowNull)
  let default := c.defaultValue.or (if c.autoIncrement then some .null else none)
  let h := if default.isSome then h.setDefaultValue default true else h
  if id ∈ holders.map IterHolder.id then holders
  else holders ++ [{ id, modelCol := col, holder := h, atDefault := h.defaultForced }]

def defineHolders (holders : List (IterHolder D)) (col : Nat) :
    List (Column D) → List (IterHolder D)
  | [] => holders
  | c :: cs => defineHolders (defineHolder holders col c) (col + 1) cs

omit [ContentsCompare D] in
def adjustTypes : List (IterHolder D) → List (Column D) →
    List (IterHolder D) × Bool × List (Column D)
  | h :: hs, c :: cs =>
    if h.holder.gType = none then
      let r := adjustTypes hs cs
      ({ h with holder := { h.holder with gType := c.gType } } :: r.1, r.2)
    else if h.holder.gType ≠ c.gType then ([], true, c :: cs)
    else
      let r := adjustTypes hs cs
      (h :: r.1, r.2)
  | hs, cs => ([], !hs.isEmpty, cs)

variable (s : State D)

def redefined : State D :=
  let a := adjustTypes s.iter.holders s.model.shownColumns
  { s with iter := { s.iter with holders := defineHolders a.1 a.1.length a.2.2 } }

omit [ContentsCompare D] in
def sameHolders : Bool :=
  let a := adjustTypes s.iter.holders s.model.shownColumns
  !a.2.1 && a.2.2.isEmpty

def modelResetCb : State D :=
  let row : Int := if s.sameHolders then s.currentRow else -1
  let s := s.redefined.invalidateContents
  if row ≥ 0 then (s.moveToRow row).1 else (s.moveToRow (-1)).1

end Definition

section Signals

variable [ContentsCompare D] (s : State D)

def modelRowUpdatedCb (row : Nat) : State D :=
  if s.iter.row = some row then ((s.keeping true).moveToRow row).1.keeping false else s

def modelRowRemovedCb (row : Nat) : State D :=
  match s.iter.row with
  | none => s
  | some current =>
    if current = row then (s.invalidateContents.moveToRow (-1)).1
    else if current > row then { s with iter := { s.iter with row := some (current - 1) } }
    else s

end Signals

def create [ContentsCompare D] (model : Model D) : State D :=
  ({ model } : State D).modelResetCb

end State

inductive Event (D : Type) where
  | moveToRow (row : Int)
  | moveNext
  | movePrev
  | setValueAt (col : Int) (value : GValue D) (answer : Option GdaValueAttribute)
  | invalidateContents
  | insertRow (row : Nat) (cells : List (Cell D))
  | removeRow (row : Nat)
  | updateRow (row : Nat) (cells : List (Cell D))
  | reset (columns : List (Column D)) (rows : List (List (Cell D)))

namespace State

variable [ContentsCompare D]

def happen (s : State D) : Event D → State D × Bool
  | .moveToRow row => s.moveToRow row
  | .moveNext => s.moveNext
  | .movePrev => s.movePrev
  | .setValueAt col value answer => s.setValueAt col value answer
  | .invalidateContents => (s.invalidateContents, true)
  | .insertRow row cells =>
    (if row ≤ s.model.rows.length then { s with model := s.model.rowInserted row cells } else s,
      true)
  | .removeRow row =>
    (if row < s.model.rows.length then
      ({ s with model := { s.model with rows := s.model.rows.eraseIdx row } } :
        State D).modelRowRemovedCb row
    else s, true)
  | .updateRow row cells =>
    (if row < s.model.rows.length then
      ({ s with model := { s.model with rows := s.model.rows.modify row ({ · with cells }) } } :
        State D).modelRowUpdatedCb row
    else s, true)
  | .reset columns rows =>
    (({ s with model := s.model.replaced columns rows } : State D).modelResetCb, true)

def step (s : State D) (e : Event D) : State D := (s.happen e).1

end State

end ModelIter

end LibGda
