import LibGda.AnswerMachine
import Mathlib.Algebra.Order.Ring.Int
import Mathlib.Data.List.Basic

/-! The cursors which SQLite opens on a virtual table over data models: `virtualFilter`,
`virtualNext` and what they read. -/

namespace LibGda

/-- A data model which is read forward. Reading the row `exceptionAt`, or the end there, leaves an
exception in it; row numbers are of type `gint`. -/
structure ScannedModel (V : Type) (ncols : Nat) where
  rows : List (List V)
  exceptionAt : Option Nat
  width : ∀ row ∈ rows, row.length = ncols
  small : rows.length < 2 ^ 31

namespace ScannedModel

variable {V : Type} {ncols : Nat}

def raises (model : ScannedModel V ncols) (row : Nat) : Bool :=
  match model.exceptionAt with
  | none => false
  | some first => first ≤ row

end ScannedModel

structure VirtualFilteredData (A V : Type) (ncols : Nat) where
  args : A
  model : ScannedModel V ncols
  /-- The row of the iterator, while there is one. -/
  iter : Option Int
  valuesArray : List V
  nrows : Int
  rowidOffset : Nat
  reuseable : Bool

structure VirtualCursor where
  data : Option Nat
  row : Int

def maxVdataNumber : Nat := 30

structure VirtualTable (A V : Type) (ncols : Nat) where
  rowsOffset : Nat
  filtered : List (VirtualFilteredData A V ncols)
  contextData : List Nat
  cursors : Nat → VirtualCursor

inductive SqliteCode where
  | ok
  | error
  | misuse
  deriving DecidableEq

namespace VirtualTable

variable {A V : Type} {ncols : Nat}

def setCursor (table : VirtualTable A V ncols) (c : Nat) (cursor : VirtualCursor) :
    VirtualTable A V ncols :=
  { table with cursors := fun c' => if c' = c then cursor else table.cursors c' }

def setData (table : VirtualTable A V ncols) (i : Nat) (data : VirtualFilteredData A V ncols) :
    VirtualTable A V ncols :=
  { table with filtered := table.filtered.set i data }

/-- `virtualEof`, of a cursor with data -/
def virtualEof (data : VirtualFilteredData A V ncols) (cursor : VirtualCursor) : Bool :=
  match data.iter with
  | some _ => false
  | none => data.nrows ≤ cursor.row

/-- `virtualNext` on its data: the row of the cursor has been increased already. -/
def moveIter (data : VirtualFilteredData A V ncols) (row : Int) :
    SqliteCode × Int × VirtualFilteredData A V ncols :=
  match data.iter with
  | none => (.ok, row, data)
  | some iterRow =>
    if iterRow < row then
      let target := (iterRow + 1).toNat
      if data.model.raises target then
        (.error, row - 1, { data with iter := none, nrows := row - 1 })
      else
        match data.model.rows[target]? with
        | some values =>
          (.ok, row, { data with
            iter := some (iterRow + 1), valuesArray := data.valuesArray ++ values })
        | none => (.ok, row, { data with iter := none, nrows := row })
    else (.ok, row, data)

def virtualNext (table : VirtualTable A V ncols) (c : Nat) :
    SqliteCode × VirtualTable A V ncols :=
  match (table.cursors c).data.bind fun i => (table.filtered[i]?).map fun data => (i, data) with
  | none => (.misuse, table)
  | some (i, data) =>
    let moved := moveIter data ((table.cursors c).row + 1)
    (moved.1, (table.setData i moved.2.2).setCursor c { data := some i, row := moved.2.1 })

section Filter

variable [DecidableEq A]

def reuse (table : VirtualTable A V ncols) (args : A) : Option Nat :=
  table.contextData.find? fun i =>
    match table.filtered[i]? with
    | some data => data.reuseable && data.args = args
    | none => false

/-- `virtual_filtered_data_new`, and the context which gets the data in front, and loses the last
ones. -/
def addData (table : VirtualTable A V ncols) (args : A) (model : ScannedModel V ncols) :
    VirtualTable A V ncols :=
  let data : VirtualFilteredData A V ncols :=
    { args, model, iter := some (-1), valuesArray := [], nrows := -1,
      rowidOffset := table.rowsOffset, reuseable := true }
  let contextData := table.filtered.length :: table.contextData
  { table with
    rowsOffset := (table.rowsOffset + 1) % 2 ^ 32
    filtered := table.filtered ++ [data]
    contextData := if contextData.length > maxVdataNumber then contextData.dropLast else contextData }

/-- `virtualFilter`; `produce` makes the data model for the arguments. -/
def virtualFilter (produce : A → Option (ScannedModel V ncols)) (table : VirtualTable A V ncols)
    (c : Nat) (args : A) : SqliteCode × VirtualTable A V ncols :=
  match table.reuse args with
  | some i => (table.setCursor c { data := some i, row := -1 }).virtualNext c
  | none =>
    match produce args with
    | none => (.error, table)
    | some model =>
      ((table.addData args model).setCursor c
        { data := some table.filtered.length, row := -1 }).virtualNext c

end Filter

/-- `virtualRowid`, as 64 bits -/
def virtualRowid (data : VirtualFilteredData A V ncols) (cursor : VirtualCursor) : Int :=
  (cursor.row + data.rowidOffset * 2 ^ 32) % 2 ^ 64

/-- `get_data_value` for a cursor: the value in the array of all the rows which have been read. -/
def dataValue (data : VirtualFilteredData A V ncols) (row : Int) (col : Nat) : Option V :=
  data.valuesArray[(row * ncols + col).toNat]?

/-- The low 32 bits as a `gint`. -/
def rowOfRowid (rowid : Int) : Int :=
  let low := rowid % 2 ^ 32
  if low < 2 ^ 31 then low else low - 2 ^ 32

/-- `get_data_value` for a row identifier: in the first data of the context with its offset. -/
def valueOfRowid (table : VirtualTable A V ncols) (rowid : Int) (col : Nat) : Option V :=
  if ncols ≤ col then none
  else
    match (table.contextData.filterMap (table.filtered[·]?)).find? fun data =>
        data.rowidOffset = rowid / 2 ^ 32 % 2 ^ 32 with
    | some data => dataValue data (rowOfRowid rowid) col
    | none => none

end VirtualTable

/-- The calls of SQLite on the cursors; `find` looks up a column for a row identifier which was
given earlier. -/
inductive VirtualCall (A : Type) where
  | filter (c : Nat) (args : A)
  | next (c : Nat)
  | eof (c : Nat)
  | column (c : Nat) (i : Nat)
  | rowid (c : Nat)
  | find (k : Nat) (i : Nat)

inductive VirtualAnswer (V : Type) where
  | code (code : SqliteCode)
  | atEnd (b : Bool)
  | value (value : Option V)
  | rowNumber (row : Int)
  deriving DecidableEq

structure VirtualSession (A V : Type) (ncols : Nat) where
  table : VirtualTable A V ncols
  rowids : List Int

namespace VirtualSession

variable {A V : Type} {ncols : Nat} [DecidableEq A]

def cursorData (table : VirtualTable A V ncols) (c : Nat) :
    Option (VirtualFilteredData A V ncols) :=
  (table.cursors c).data.bind (table.filtered[·]?)

def step (produce : A → Option (ScannedModel V ncols)) (s : VirtualSession A V ncols) :
    VirtualCall A → VirtualAnswer V × VirtualSession A V ncols
  | .filter c args =>
    let result := s.table.virtualFilter produce c args
    (.code result.1, { s with table := result.2 })
  | .next c =>
    let result := s.table.virtualNext c
    (.code result.1, { s with table := result.2 })
  | .eof c =>
    match cursorData s.table c with
    | none => (.code .misuse, s)
    | some data => (.atEnd (VirtualTable.virtualEof data (s.table.cursors c)), s)
  | .column c i =>
    match cursorData s.table c with
    | none => (.code .misuse, s)
    | some data =>
      -- the hidden column behind the others has the row number
      if i = ncols then (.rowNumber (s.table.cursors c).row, s)
      else if ncols ≤ i then (.code .misuse, s)
      else (.value (VirtualTable.dataValue data (s.table.cursors c).row i), s)
  | .rowid c =>
    match cursorData s.table c with
    | none => (.code .misuse, s)
    | some data =>
      (.code .ok,
        { s with rowids := s.rowids ++ [VirtualTable.virtualRowid data (s.table.cursors c)] })
  | .find k i =>
    match s.rowids[k]? with
    | none => (.code .misuse, s)
    | some rowid => (.value (s.table.valueOfRowid rowid i), s)

end VirtualSession

end LibGda

/-! What the cursors on a virtual table are for: each one is at a row of the model for its own
arguments, whatever the others do. -/

namespace LibGda

variable {A V : Type} {ncols : Nat}

structure ScanState (A : Type) where
  cursors : Nat → Option (A × Nat)
  made : List A
  failed : List A
  kept : List (A × Nat)

namespace ScanState

variable [DecidableEq A]

def setCursor (t : ScanState A) (c : Nat) (cursor : Option (A × Nat)) : ScanState A :=
  { t with cursors := fun c' => if c' = c then cursor else t.cursors c' }

def make (t : ScanState A) (args : A) : ScanState A :=
  { t with made := if args ∈ t.made then t.made else t.made ++ [args] }

def fail (t : ScanState A) (args : A) : ScanState A :=
  { t with failed := args :: t.failed }

end ScanState

def modelValue (produce : A → Option (ScannedModel V ncols)) (args : A) (row col : Nat) : Option V :=
  (produce args).bind fun model => (model.rows[row]?).bind (·[col]?)

def modelRows (produce : A → Option (ScannedModel V ncols)) (args : A) : Nat :=
  match produce args with
  | none => 0
  | some model => model.rows.length

section Step

variable [DecidableEq A] (produce : A → Option (ScannedModel V ncols))

def scanStep (t : ScanState A) : VirtualCall A → VirtualAnswer V × ScanState A
  | .filter c args =>
    match produce args with
    | none => (.code .error, t)
    | some model =>
      if model.raises 0 then (.code .error, ((t.make args).fail args).setCursor c none)
      else (.code .ok, (t.make args).setCursor c (some (args, 0)))
  | .next c =>
    match t.cursors c with
    | none => (.code .misuse, t)
    | some (args, row) =>
      match produce args with
      | none => (.code .misuse, t)
      | some model =>
        if model.raises (row + 1) then (.code .error, t.fail args)
        else (.code .ok, t.setCursor c (some (args, row + 1)))
  | .eof c =>
    match t.cursors c with
    | none => (.code .misuse, t)
    | some (args, row) => (.atEnd (modelRows produce args ≤ row), t)
  | .column c i =>
    match t.cursors c with
    | none => (.code .misuse, t)
    | some (args, row) =>
      if i = ncols then (.rowNumber row, t)
      else if ncols ≤ i then (.code .misuse, t)
      else (.value (modelValue produce args row i), t)
  | .rowid c =>
    match t.cursors c with
    | none => (.code .misuse, t)
    | some cursor => (.code .ok, { t with kept := t.kept ++ [cursor] })
  | .find k i =>
    match t.kept[k]? with
    | none => (.code .misuse, t)
    | some (args, row) => (.value (modelValue produce args row i), t)

/-- A cursor is moved and read only after a filter, and not behind the last row; the values looked
up are those of identifiers which were given. -/
def SqliteAllows (t : ScanState A) : VirtualCall A → Prop
  | .filter _ _ => True
  | .next c => ∃ args row, t.cursors c = some (args, row) ∧ row < modelRows produce args
  | .eof c => ∃ args row, t.cursors c = some (args, row)
  | .column c _ => ∃ args row, t.cursors c = some (args, row) ∧ row < modelRows produce args
  | .rowid c => ∃ args row, t.cursors c = some (args, row) ∧ row < modelRows produce args
  | .find k i => k < t.kept.length ∧ i < ncols

/-- Nothing is scanned for arguments whose scan ended in an exception, and the context need not
forget data. -/
def ScanFits (t : ScanState A) : VirtualCall A → Prop
  | .filter _ args => args ∉ t.failed ∧ (args ∈ t.made ∨ t.made.length < maxVdataNumber)
  | .next c => ∀ args row, t.cursors c = some (args, row) → args ∉ t.failed
  | .eof c => ∀ args row, t.cursors c = some (args, row) → args ∉ t.failed
  | _ => True

end Step

section Values

theorem getElem?_flatten {rows : List (List V)} {w p i : Nat} (hwidth : ∀ row ∈ rows, row.length = w)
    (hi : i < w) : rows.flatten[p * w + i]? = (rows[p]?).bind (·[i]?) := by
  induction rows generalizing p with
  | nil => rfl
  | cons row rows ih =>
    rw [List.forall_mem_cons] at hwidth
    rw [List.flatten_cons]
    cases p with
    | zero =>
      have hlt : 0 * w + i < row.length := by
        rw [hwidth.1]
        omega
      rw [List.getElem?_append_left hlt, Nat.zero_mul, Nat.zero_add]
      rfl
    | succ p =>
      have hle : row.length ≤ (p + 1) * w + i := by
        rw [hwidth.1, Nat.succ_mul]
        omega
      have hsub : (p + 1) * w + i - row.length = p * w + i := by
        rw [hwidth.1, Nat.succ_mul]
        omega
      rw [List.getElem?_append_right hle, hsub, ih hwidth.2]
      rfl

theorem dataValue_loaded {data : VirtualFilteredData A V ncols} {m p i : Nat}
    (hvalues : data.valuesArray = (data.model.rows.take m).flatten) (hp : p < m) (hi : i < ncols) :
    VirtualTable.dataValue data p i = (data.model.rows[p]?).bind (·[i]?) := by
  have hindex : ((p : Int) * ncols + i).toNat = p * ncols + i := by
    have hcast : (p : Int) * ncols + i = ((p * ncols + i : Nat) : Int) := by
      push_cast
      rfl
    rw [hcast, Int.toNat_natCast]
  rw [VirtualTable.dataValue, hindex, hvalues, getElem?_flatten _ hi, List.getElem?_take, if_pos hp]
  intro row hrow
  exact data.model.width row (List.mem_of_mem_take hrow)

end Values

section Moves

variable {data : VirtualFilteredData A V ncols} {m p : Nat}

theorem ScannedModel.raises_mono {model : ScannedModel V ncols} {j k : Nat} (hjk : j ≤ k)
    (h : model.raises k = false) : model.raises j = false := by
  rw [raises] at h ⊢
  cases he : model.exceptionAt with
  | none => rfl
  | some first =>
    rw [he] at h
    have hnot : ¬ first ≤ k := of_decide_eq_false h
    apply decide_eq_false
    omega

/-- `m` rows have been read: the iterator is at the last of them, or gone behind the last row of the
model. -/
inductive Reads (data : VirtualFilteredData A V ncols) (m : Nat) : Prop where
  | going (hiter : data.iter = some ((m : Int) - 1))
      (hraises : ∀ k < m, data.model.raises k = false)
  | done (hiter : data.iter = none) (hm : m = data.model.rows.length) (hnrows : data.nrows = m)
      (hraises : data.model.raises m = false)

def Loaded (data : VirtualFilteredData A V ncols) (m : Nat) : Prop :=
  m ≤ data.model.rows.length ∧ data.valuesArray = (data.model.rows.take m).flatten

def Within (data : VirtualFilteredData A V ncols) (m p : Nat) : Prop :=
  p < m ∨ data.iter = none ∧ p = m ∧ m = data.model.rows.length

theorem moveIter_spec (hloaded : Loaded data m) (hreads : Reads data m) (hp : p ≤ m)
    (hend : p ≤ data.model.rows.length) :
    if data.model.raises p then
      ∃ data', VirtualTable.moveIter data p = (.error, (p : Int) - 1, data') ∧
        data' = { data with iter := none, nrows := (p : Int) - 1 }
    else
      ∃ data' m', VirtualTable.moveIter data p = (.ok, (p : Int), data') ∧
        data'.args = data.args ∧ data'.model = data.model ∧
        data'.rowidOffset = data.rowidOffset ∧ data'.reuseable = data.reuseable ∧ m ≤ m' ∧
        Loaded data' m' ∧ Reads data' m' ∧ Within data' m' p ∧
        (data.iter = none → data'.iter = none) := by
  cases hreads with
  | done hiter hm hnrows hraises =>
    have hnot : data.model.raises p = false := ScannedModel.raises_mono hp hraises
    rw [hnot, if_neg Bool.false_ne_true]
    refine ⟨data, m, ?_, rfl, rfl, rfl, rfl, Nat.le_refl _, hloaded, .done hiter hm hnrows hraises, ?_,
      id⟩
    · rw [VirtualTable.moveIter, hiter]
    · rcases Nat.lt_or_ge p m with hlt | hge
      · exact .inl hlt
      · exact .inr ⟨hiter, by omega, hm⟩
  | going hiter hraises =>
    rcases Nat.lt_or_ge p m with hlt | hge
    · have hnot := hraises p hlt
      rw [hnot, if_neg Bool.false_ne_true]
      refine ⟨data, m, ?_, rfl, rfl, rfl, rfl, Nat.le_refl _, hloaded, .going hiter hraises, .inl hlt, id⟩
      have hbehind : ¬ ((m : Int) - 1 < p) := by omega
      rw [VirtualTable.moveIter, hiter]
      simp only [if_neg hbehind]
    · have hpm : p = m := by omega
      subst hpm
      have hbehind : (p : Int) - 1 < p := by omega
      have htarget : ((p : Int) - 1 + 1).toNat = p := by omega
      cases hraise : data.model.raises p with
      | true =>
        rw [if_pos rfl]
        refine ⟨_, ?_, rfl⟩
        rw [VirtualTable.moveIter, hiter]
        simp only [if_pos hbehind, htarget, hraise, if_true]
      | false =>
        rw [if_neg Bool.false_ne_true]
        cases hrow : data.model.rows[p]? with
        | none =>
          have hlen : p = data.model.rows.length := by
            have hle := List.getElem?_eq_none_iff.1 hrow
            omega
          refine ⟨{ data with iter := none, nrows := p }, p, ?_, rfl, rfl, rfl, rfl, Nat.le_refl _,
            hloaded, .done rfl hlen rfl hraise, .inr ⟨rfl, rfl, hlen⟩, fun _ => rfl⟩
          rw [VirtualTable.moveIter, hiter]
          simp only [if_pos hbehind, htarget, hraise, Bool.false_eq_true, if_false, hrow]
        | some values =>
          obtain ⟨hlt, hget⟩ := List.getElem?_eq_some_iff.1 hrow
          refine ⟨{ data with
              iter := some ((p : Int) - 1 + 1), valuesArray := data.valuesArray ++ values },
            p + 1, ?_, rfl, rfl, rfl, rfl, Nat.le_succ p, ⟨hlt, ?_⟩, .going ?_ ?_,
            .inl (Nat.lt_succ_self p), ?_⟩
          · rw [VirtualTable.moveIter, hiter]
            simp only [if_pos hbehind, htarget, hraise, Bool.false_eq_true, if_false, hrow]
          · have htake : data.model.rows.take (p + 1) = data.model.rows.take p ++ [values] := by
              rw [List.take_add_one, hrow]
              rfl
            simp only [hloaded.2, htake, List.flatten_append, List.flatten_singleton]
          · simp only [Option.some.injEq]
            push_cast
            omega
          · intro k hk
            rcases Nat.lt_or_ge k p with hlt' | hge'
            · exact hraises k hlt'
            · have hkp : k = p := by omega
              rw [hkp]
              exact hraise
          · intro hnone
            rw [hiter] at hnone
            cases hnone

end Moves

end LibGda
