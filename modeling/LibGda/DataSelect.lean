import Mathlib.Data.List.GetD
import Mathlib.Data.List.Sort
import Mathlib.Order.Interval.Set.Defs

/-! The positions of a sequence which are left when some are deleted, and how they
are counted without moving the others. -/

namespace SurvivingRows

/-- The positions below `total` which are not deleted, in order. -/
def survivors (deleted : List Nat) (total : Nat) : List Nat :=
  (List.range total).filter (· ∉ deleted)

@[simp] theorem mem_survivors {deleted : List Nat} {total r : Nat} :
    r ∈ survivors deleted total ↔ r < total ∧ r ∉ deleted := by
  simp [survivors]

theorem nodup_survivors (deleted : List Nat) (total : Nat) : (survivors deleted total).Nodup :=
  List.nodup_range.filter _

theorem survivors_pairwise (deleted : List Nat) (total : Nat) :
    (survivors deleted total).Pairwise (· < ·) :=
  List.pairwise_lt_range.filter _

theorem survivors_strictMonoOn (deleted : List Nat) (total : Nat) :
    StrictMonoOn (fun i => (survivors deleted total).getD i 0)
      (Set.Iio (survivors deleted total).length) := by
  intro i hi j hj hij
  simp only [List.getD_eq_getElem _ _ hi, List.getD_eq_getElem _ _ hj]
  exact List.pairwise_iff_getElem.1 (survivors_pairwise deleted total) i j hi hj hij

theorem survivors_bijOn (deleted : List Nat) (total : Nat) :
    Set.BijOn (fun i => (survivors deleted total).getD i 0)
      (Set.Iio (survivors deleted total).length) {r | r < total ∧ r ∉ deleted} := by
  refine ⟨?_, (survivors_strictMonoOn deleted total).injOn, ?_⟩
  · intro i hi
    simp only [List.getD_eq_getElem _ _ hi]
    exact mem_survivors.1 (List.getElem_mem hi)
  · intro r hr
    obtain ⟨i, hi, hget⟩ := List.getElem_of_mem (mem_survivors.2 hr)
    exact ⟨i, hi, by simp only [List.getD_eq_getElem _ _ hi, hget]⟩

theorem survivors_nil (total : Nat) : survivors [] total = List.range total := by
  simp [survivors]

theorem survivors_succ {deleted : List Nat} {total : Nat} (h : total ∉ deleted) :
    survivors deleted (total + 1) = survivors deleted total ++ [total] := by
  simp [survivors, List.range_succ, List.filter_append, h]

theorem length_survivors_add {deleted : List Nat} (hn : deleted.Nodup) (r : Nat) :
    (survivors deleted r).length + (deleted.filter (· < r)).length = r := by
  have hp : ((List.range r).filter (· ∈ deleted)).Perm (deleted.filter (· < r)) := by
    rw [List.perm_ext_iff_of_nodup (List.nodup_range.filter _) (hn.filter _)]
    intro a
    simp [and_comm]
  have hl := (List.range r).length_eq_length_filter_add (· ∈ deleted)
  rw [List.length_range, hp.length_eq] at hl
  have hs : (survivors deleted r).length =
      ((List.range r).filter (fun a => !decide (a ∈ deleted))).length := by
    simp [survivors]
  omega

theorem length_survivors {deleted : List Nat} {total : Nat} (hn : deleted.Nodup)
    (hd : ∀ d ∈ deleted, d < total) : (survivors deleted total).length + deleted.length = total := by
  have hf : deleted.filter (· < total) = deleted := by
    rw [List.filter_eq_self]
    simpa using hd
  have h := length_survivors_add hn total
  rwa [hf] at h

theorem survivors_split {deleted : List Nat} {total r : Nat} (hr : r < total) (hd : r ∉ deleted) :
    ∃ later, survivors deleted total = survivors deleted r ++ r :: later ∧
      ∀ a ∈ later, r < a := by
  obtain ⟨k, rfl⟩ := Nat.exists_eq_add_of_lt hr
  refine ⟨((List.range k).map (r + 1 + ·)).filter (· ∉ deleted), ?_, ?_⟩
  · have hrange : List.range (r + k + 1) = List.range r ++ r :: (List.range k).map (r + 1 + ·) := by
      rw [Nat.add_right_comm, List.range_add, List.range_succ]
      simp
    simp [survivors, hrange, List.filter_append, hd]
  · intro a ha
    simp only [List.mem_filter, List.mem_map] at ha
    obtain ⟨⟨b, -, rfl⟩, -⟩ := ha
    omega

theorem survivors_getElem {deleted : List Nat} {total r : Nat} (hn : deleted.Nodup)
    (hr : r < total) (hd : r ∉ deleted) {i : Nat} (hi : r = i + (deleted.filter (· < r)).length) :
    (survivors deleted total)[i]? = some r := by
  obtain ⟨later, hs, -⟩ := survivors_split hr hd
  have hl : (survivors deleted r).length = i := by
    have h := length_survivors_add hn r
    omega
  rw [hs, ← hl, List.getElem?_append_right (Nat.le_refl _), Nat.sub_self, List.getElem?_cons_zero]

def skip : List Nat → Nat → Nat
  | [], r => r
  | d :: deleted, r => if d ≤ r then skip deleted (r + 1) else r

theorem skip_spec {deleted : List Nat} (hs : deleted.Pairwise (· < ·)) (r : Nat) :
    skip deleted r ∉ deleted ∧
      skip deleted r = r + (deleted.filter (· < skip deleted r)).length := by
  induction deleted generalizing r with
  | nil => simp [skip]
  | cons d deleted ih =>
    obtain ⟨hd, hs⟩ := List.pairwise_cons.1 hs
    by_cases hle : d ≤ r
    · obtain ⟨hmem, heq⟩ := ih hs (r + 1)
      have hlt : d < skip deleted (r + 1) := by omega
      simp only [skip, hle, if_true, List.filter_cons, hlt, decide_true, List.length_cons,
        List.mem_cons, not_or]
      exact ⟨⟨Nat.ne_of_gt hlt, hmem⟩, by omega⟩
    · have hnone : deleted.filter (· < r) = [] := by
        rw [List.filter_eq_nil_iff]
        intro a ha
        have := hd a ha
        simp only [decide_eq_true_eq]
        omega
      have hnot : ¬ d < r := by omega
      simp only [skip, hle, if_false, List.filter_cons, hnot, decide_false, Bool.false_eq_true,
        hnone, List.length_nil, Nat.add_zero, List.mem_cons, not_or, and_true]
      exact ⟨by omega, fun ha => hle (Nat.le_of_lt (hd r ha))⟩

theorem getElem_skip {deleted : List Nat} {total i : Nat} (hs : deleted.Pairwise (· < ·))
    (hlt : skip deleted i < total) : (survivors deleted total)[i]? = some (skip deleted i) :=
  survivors_getElem (hs.imp Nat.ne_of_lt) hlt (skip_spec hs i).1 (skip_spec hs i).2

theorem skip_lt_iff {deleted : List Nat} {total i : Nat} (hs : deleted.Pairwise (· < ·))
    (hd : ∀ d ∈ deleted, d < total) :
    skip deleted i < total ↔ i < (survivors deleted total).length := by
  constructor
  · intro hlt
    exact (List.getElem?_eq_some_iff.1 (getElem_skip hs hlt)).1
  · intro hi
    have hn : deleted.Nodup := hs.imp Nat.ne_of_lt
    have hlen := length_survivors hn hd
    have hcount := List.length_filter_le (· < skip deleted i) deleted
    have hspec := (skip_spec hs i).2
    omega

theorem survivors_insert {deleted deleted' : List Nat} {total r i : Nat}
    (hmem : ∀ a, a ∈ deleted' ↔ a = r ∨ a ∈ deleted)
    (hi : (survivors deleted total)[i]? = some r) :
    survivors deleted' total = (survivors deleted total).eraseIdx i := by
  obtain ⟨hlt, hget⟩ := List.getElem?_eq_some_iff.1 hi
  have hn := nodup_survivors deleted total
  have hf : survivors deleted' total = (survivors deleted total).filter (· != r) := by
    simp only [survivors, List.filter_filter]
    apply List.filter_congr
    intro a _
    by_cases har : a = r
    · simp [hmem, har]
    · simp [hmem, har]
  rw [hf, ← hn.erase_eq_filter, ← hget, hn.erase_getElem]

theorem orderedInsert_pairwise {deleted : List Nat} {r : Nat} (hs : deleted.Pairwise (· < ·))
    (hr : r ∉ deleted) : (deleted.orderedInsert (· ≤ ·) r).Pairwise (· < ·) := by
  induction deleted with
  | nil => simp
  | cons d deleted ih =>
    obtain ⟨hd, hs'⟩ := List.pairwise_cons.1 hs
    obtain ⟨hne, hr'⟩ := List.ne_and_not_mem_of_not_mem_cons hr
    by_cases hle : r ≤ d
    · rw [List.orderedInsert_cons_of_le (· ≤ ·) _ hle]
      refine List.pairwise_cons.2 ⟨?_, hs⟩
      intro a ha
      rcases List.mem_cons.1 ha with rfl | ha
      · omega
      · have := hd a ha
        omega
    · rw [List.orderedInsert_of_not_le (· ≤ ·) _ hle]
      refine List.pairwise_cons.2 ⟨?_, ih hs' hr'⟩
      intro a ha
      rcases (List.mem_orderedInsert (· ≤ ·)).1 ha with rfl | ha
      · omega
      · exact hd a ha

theorem insertIdx_findIdx (deleted : List Nat) (r : Nat) :
    deleted.insertIdx (deleted.findIdx (r ≤ ·)) r = deleted.orderedInsert (· ≤ ·) r := by
  induction deleted with
  | nil => simp
  | cons d deleted ih =>
    by_cases hle : r ≤ d
    · simp [List.findIdx_cons, hle]
    · simp [List.findIdx_cons, hle, ih]

end SurvivingRows

/-! A `GdaDataSelect`: the rows a provider gives, the modifications made to them
through the connection, and the reading of one value. -/

namespace LibGda

def gMaxInt : Int := 2147483647

def gMinInt : Int := -2147483648

/-- A `GError` with the arguments of its text. -/
inductive DataSelectError where
  /-- "Modifications are not allowed anymore" -/
  | safetyLocked
  /-- "Data model does only support random access" -/
  | randomAccessOnly
  /-- "No UPDATE statement provided" -/
  | noUpdateStatement
  /-- "No INSERT statement provided" -/
  | noInsertStatement
  /-- "No DELETE statement provided" -/
  | noDeleteStatement
  /-- "Too many values (%d as maximum)" -/
  | tooManyValues (ncols : Int)
  /-- "Cannot add a row because the number of rows in unknown" -/
  | unknownNbRows
  /-- "Missing values to insert in INSERT statement" -/
  | missingValues
  /-- "Column %d out of range (0-%d)" -/
  | columnOutOfRange (col last : Int)
  /-- "Row %d out of range (0-%d)" -/
  | rowOutOfRange (row last : Int)
  /-- "Row %d not found (empty data model)" -/
  | rowNotFound (row : Int)
  /-- "Unable to retrieve data after modifications" -/
  | notRetrieved
  /-- "Unable to retrieve data after modifications, no further modification will be allowed" -/
  | notRetrievedLocked
  /-- set by the provider, or no error with the null result -/
  | provider
  deriving DecidableEq

inductive Fetch where
  | nbRows
  | random (rownum : Int)
  | next (rownum : Int)
  | prev (rownum : Int)
  | at (rownum : Int)
  deriving DecidableEq

/-- A provider: the rows of its recordset, and what its methods do to the public
data of the model. -/
structure GdaDataSelectClass (V : Type) where
  rows : List (List V)
  /-- `advertized_nrows` after a call, from its value before -/
  advertizes : Fetch → Int → Int
  /-- the rows the call gives to `gda_data_select_take_row` -/
  takes : Fetch → List Int
  hasFetchPrev : Bool := true
  hasFetchAt : Bool := true
  rowsFit : (rows.length : Int) ≤ gMaxInt
  advertizesRows : ∀ fetch old, advertizes fetch old = old ∨ advertizes fetch old = rows.length

def GdaDataSelectClass.fetched {V : Type} (c : GdaDataSelectClass V) (rownum : Int) :
    Option (List V) :=
  if rownum < 0 then none else c.rows[rownum.toNat]?

structure ModifStatements (V : Type) where
  /-- the row an UPDATE leaves in the table, from the row and the new values -/
  update : Option (List V → List (Option V) → List V)
  /-- the row an INSERT adds to the table -/
  insert : Option (List (Option V) → List V)
  hasDelete : Bool
  /-- the columns with a parameter for the old value -/
  updateOldParams : List Nat
  deleteOldParams : List Nat
  /-- there is a condition to build `one_row_select_stmt` from -/
  hasOneRowSelect : Bool
  /-- an INSERT returns the values of the inserted row -/
  hasLastInsert : Bool

structure DelayedSelectStmt (V : Type) where
  hasSelect : Bool
  row : Option (List V) := none
  execError : Option DataSelectError := none

/-- The iterator of a model with a cursor: `row` is its "current-row" property. -/
structure GdaDataModelIter (V : Type) where
  row : Int := -1
  /-- the values of its holders, when they are valid -/
  contents : Option (List V) := none

structure GdaDataSelect (V : Type) where
  accessRandom : Bool
  nColumns : Nat
  advertizedNrows : Int := -1
  safelyLocked : Bool := false
  delRows : List Nat := []
  updRows : Int → Option (DelayedSelectStmt V) := fun _ => none
  /-- `sh->index` and `sh->rows` -/
  storedRow : Int → Option (List V) := fun _ => none
  /-- the rows in the database, under the number of the row which shows them -/
  table : Int → Option (List V)
  iterRow : Int := -1
  currentProw : Option (List V) := none
  currentProwRow : Int := -1
  iter : GdaDataModelIter V := {}

namespace GdaDataSelect

variable {V : Type}

def new (c : GdaDataSelectClass V) (accessRandom : Bool) (nColumns : Nat) : GdaDataSelect V where
  accessRandom := accessRandom
  nColumns := nColumns
  table := c.fetched

def call (c : GdaDataSelectClass V) (fetch : Fetch) (s : GdaDataSelect V) : GdaDataSelect V :=
  { s with
    advertizedNrows := c.advertizes fetch s.advertizedNrows
    storedRow := fun r => if r ∈ c.takes fetch then c.fetched r else s.storedRow r }

def withoutDeleted (s : GdaDataSelect V) (retval : Int) : Int :=
  if 0 < retval then retval - s.delRows.length else retval

def getNRows (c : GdaDataSelectClass V) (s : GdaDataSelect V) : Int × GdaDataSelect V :=
  if s.advertizedNrows < 0 ∧ s.accessRandom = true then
    (s.withoutDeleted c.rows.length, s.call c .nbRows)
  else (s.withoutDeleted s.advertizedNrows, s)

/-- The loop of `external_to_internal_row` over the deleted rows from the one of
index `i`. -/
def skipDeleted : List Nat → (extRow : Int) → (i : Int) → (intRow : Int) → Int
  | [], _, _, intRow => intRow
  | indexed :: delRows, extRow, i, intRow =>
    if (indexed : Int) ≤ extRow + i then skipDeleted delRows extRow (i + 1) (intRow + 1) else intRow

def rowError (row n : Int) : DataSelectError :=
  if 0 < n then .rowOutOfRange row (n - 1) else .rowNotFound row

def externalToInternalRow (c : GdaDataSelectClass V) (s : GdaDataSelect V) (extRow : Int) :
    Except DataSelectError Int × GdaDataSelect V :=
  let intRow := skipDeleted s.delRows extRow 0 extRow
  let (nrows, s) := if s.advertizedNrows < 0 then s.getNRows c else (s.advertizedNrows, s)
  if extRow < 0 ∨ (0 ≤ nrows ∧ nrows ≤ intRow) then
    let (n, s) := s.getNRows c
    (.error (rowError extRow n), s)
  else (.ok intRow, s)

def putUpdRow (s : GdaDataSelect V) (intRow : Int) (dstmt : DelayedSelectStmt V) :
    GdaDataSelect V :=
  { s with updRows := fun r => if r = intRow then some dstmt else s.updRows r }

def putTable (s : GdaDataSelect V) (intRow : Int) (row : Option (List V)) : GdaDataSelect V :=
  { s with table := fun r => if r = intRow then row else s.table r }

def delayedRow (s : GdaDataSelect V) (intRow : Int) (dstmt : DelayedSelectStmt V) :
    Except DataSelectError (List V) × GdaDataSelect V :=
  match dstmt.row with
  | some prow => (.ok prow, s)
  | none =>
    match dstmt.execError with
    | some error => (.error error, s)
    | none =>
      if dstmt.hasSelect = false then
        (.error .notRetrieved,
          s.putUpdRow intRow { dstmt with execError := some .notRetrieved })
      else
        match s.table intRow with
        | some prow => (.ok prow, s.putUpdRow intRow { dstmt with row := some prow })
        | none => (.error .notRetrievedLocked,
            { s.putUpdRow intRow { dstmt with execError := some .notRetrievedLocked } with
              safelyLocked := true })

/-- The row `gda_data_select_get_value_at` takes the value from. -/
def internalRow (c : GdaDataSelectClass V) (s : GdaDataSelect V) (intRow : Int) :
    Except DataSelectError (List V) × GdaDataSelect V :=
  match s.updRows intRow with
  | some dstmt => s.delayedRow intRow dstmt
  | none =>
    match s.storedRow intRow with
    | some prow => (.ok prow, s)
    | none =>
      match c.fetched intRow with
      | some prow => (.ok prow, s.call c (.random intRow))
      | none => (.error .provider, s.call c (.random intRow))

def rowValue (prow : List V) (col : Nat) : Except DataSelectError V :=
  match prow[col]? with
  | some value => .ok value
  | none => .error .provider

def getValueAt (c : GdaDataSelectClass V) (s : GdaDataSelect V) (col row : Int) :
    Except DataSelectError V × GdaDataSelect V :=
  if s.accessRandom = false then (.error .randomAccessOnly, s)
  else if (s.nColumns : Int) ≤ col ∨ col < 0 then
    (.error (.columnOutOfRange col (s.nColumns - 1)), s)
  else
    match s.externalToInternalRow c row with
    | (.error _, s) =>
      let (n, s) := s.getNRows c
      (.error (rowError row n), s)
    | (.ok intRow, s) =>
      match s.internalRow c intRow with
      | (.error error, s) => (.error error, s)
      | (.ok prow, s) => (rowValue prow col.toNat, s)

def readOldValues (c : GdaDataSelectClass V) (row : Int) :
    List Nat → GdaDataSelect V → Except DataSelectError Unit × GdaDataSelect V
  | [], s => (.ok (), s)
  | col :: cols, s =>
    match s.getValueAt c col row with
    | (.error error, s) => (.error error, s)
    | (.ok _, s) => readOldValues c row cols s

def markModified (s : GdaDataSelect V) (hasSelect : Bool) (intRow : Int) : GdaDataSelect V :=
  s.putUpdRow intRow { hasSelect := hasSelect }

def vectorSetValueAt (c : GdaDataSelectClass V) (m : ModifStatements V)
    (update : List V → List (Option V) → List V) (s : GdaDataSelect V) (row : Int)
    (values : List (Option V)) : Except DataSelectError Unit × GdaDataSelect V :=
  match s.externalToInternalRow c row with
  | (.error error, s) => (.error error, s)
  | (.ok intRow, s) =>
    -- the parameters are read before the statement is executed
    match readOldValues c row m.updateOldParams s with
    | (.error error, s) => (.error error, s)
    | (.ok _, s) =>
      let s := s.putTable intRow ((s.table intRow).map (update · values))
      (.ok (), s.markModified m.hasOneRowSelect intRow)

def setValues (c : GdaDataSelectClass V) (m : ModifStatements V) (s : GdaDataSelect V) (row : Int)
    (values : List (Option V)) : Except DataSelectError Unit × GdaDataSelect V :=
  if s.safelyLocked = true then (.error .safetyLocked, s)
  else if s.accessRandom = false then (.error .randomAccessOnly, s)
  else
    match m.update with
    | none => (.error .noUpdateStatement, s)
    | some update =>
      if s.nColumns < values.length then (.error (.tooManyValues s.nColumns), s)
      else if values.any Option.isSome = false then (.ok (), s)
      else s.vectorSetValueAt c m update row values

def appendValues (c : GdaDataSelectClass V) (m : ModifStatements V) (s : GdaDataSelect V)
    (values : List (Option V)) : Except DataSelectError Int × GdaDataSelect V :=
  if s.safelyLocked = true then (.error .safetyLocked, s)
  else if s.accessRandom = false then (.error .randomAccessOnly, s)
  else
    match m.insert with
    | none => (.error .noInsertStatement, s)
    | some insert =>
      let (n, s) := s.getNRows c
      if n < 0 then (.error .unknownNbRows, s)
      else
        -- the added row's number, with one more row in `advertized_nrows`
        let row := s.advertizedNrows - s.delRows.length
        let (found, s) := { s with advertizedNrows := s.advertizedNrows + 1 }.externalToInternalRow
          c row
        let s := { s with advertizedNrows := s.advertizedNrows - 1 }
        let intRow := match found with
          | .ok intRow => intRow
          | .error _ => -1
        if values.any Option.isSome = false then (.error .missingValues, s)
        else
          let s := s.putTable intRow (some (insert values))
          let s := s.markModified (m.hasLastInsert && m.hasOneRowSelect) intRow
          (.ok row, { s with advertizedNrows := s.advertizedNrows + 1 })

def removeRow (c : GdaDataSelectClass V) (m : ModifStatements V) (s : GdaDataSelect V) (row : Int) :
    Except DataSelectError Unit × GdaDataSelect V :=
  if s.safelyLocked = true then (.error .safetyLocked, s)
  else if s.accessRandom = false then (.error .randomAccessOnly, s)
  else if m.hasDelete = false then (.error .noDeleteStatement, s)
  else
    match s.externalToInternalRow c row with
    | (.error error, s) => (.error error, s)
    | (.ok intRow, s) =>
      match readOldValues c row m.deleteOldParams s with
      | (.error error, s) => (.error error, s)
      | (.ok _, s) =>
        let s := s.putTable intRow none
        let index := s.delRows.findIdx (intRow.toNat ≤ ·)
        (.ok (), { s with delRows := s.delRows.insertIdx index intRow.toNat })

end GdaDataSelect

end LibGda

/-! The iterator of a `GdaDataSelect` with cursor based access: the position is in
`iter_row`, in the "current-row" of the iterator and in `current_prow_row`. -/

namespace LibGda

inductive CursorFault where
  /-- `g_assert (imodel->advertized_nrows >= 0)` -/
  | advertizedNrows
  | notTerminated
  deriving DecidableEq

inductive CursorCall where
  | iterNext
  | iterPrev
  | iterAtRow (row : Int)
  deriving DecidableEq

namespace GdaDataSelect

variable {V : Type}

def invalidateContents (s : GdaDataSelect V) : GdaDataSelect V :=
  { s with iter := { s.iter with contents := none } }

def setCurrentRow (s : GdaDataSelect V) (row : Int) : GdaDataSelect V :=
  { s with iter := { s.iter with row := row } }

/-- `update_iter`, with the new `iter_row`. -/
def updateIter (s : GdaDataSelect V) (row : Int) (prow : List V) : GdaDataSelect V :=
  { s with
    iterRow := row
    iter := { row := row, contents := some prow }
    currentProw := some prow
    currentProwRow := row }

def storedOrFetched (c : GdaDataSelectClass V) (fetch : Int → Fetch) (s : GdaDataSelect V)
    (intRow : Int) : Option (List V) × GdaDataSelect V :=
  match s.storedRow intRow with
  | some prow => (some prow, s)
  | none => (c.fetched intRow, s.call c (fetch intRow))

def intRowOf : Except DataSelectError Int → Int
  | .ok intRow => intRow
  | .error _ => -1

def iterNext (c : GdaDataSelectClass V) (s : GdaDataSelect V) : Bool × GdaDataSelect V :=
  if s.iterRow = gMaxInt then (false, s.invalidateContents)
  else
    let target := if s.iterRow = gMinInt then 0 else s.iterRow + 1
    let (found, s) := s.externalToInternalRow c target
    match s.storedOrFetched c .next (intRowOf found) with
    | (some prow, s) => (true, s.updateIter target prow)
    | (none, s) => (false, { s.invalidateContents.setCurrentRow (-1) with iterRow := gMaxInt })

/-- Label `prev_error`. -/
def beforeFirst (s : GdaDataSelect V) : GdaDataSelect V :=
  { (s.setCurrentRow (-1)).invalidateContents with iterRow := gMinInt }

def iterPrev (c : GdaDataSelectClass V) (s : GdaDataSelect V) :
    Except CursorFault (Bool × GdaDataSelect V) :=
  if s.iterRow ≤ 0 then .ok (false, s.beforeFirst)
  else if s.iterRow = gMaxInt ∧ s.advertizedNrows < 0 then .error .advertizedNrows
  else
    let target := if s.iterRow = gMaxInt then s.advertizedNrows - 1 else s.iterRow - 1
    let (found, s) := s.externalToInternalRow c target
    if s.storedRow (intRowOf found) = none ∧ c.hasFetchPrev = false then
      .ok (false, s.invalidateContents)
    else
      match s.storedOrFetched c .prev (intRowOf found) with
      | (some prow, s) => .ok (true, s.updateIter target prow)
      | (none, s) => .ok (false, s.beforeFirst)

/-- `gda_data_model_iter_move_next` and `_prev` first validate the values shown. -/
def validates (s : GdaDataSelect V) : Bool :=
  s.iter.row < 0 || s.iter.contents.isSome

def moveNext (c : GdaDataSelectClass V) (s : GdaDataSelect V) : Bool × GdaDataSelect V :=
  if s.validates then s.iterNext c else (false, s)

def movePrev (c : GdaDataSelectClass V) (s : GdaDataSelect V) :
    Except CursorFault (Bool × GdaDataSelect V) :=
  if s.validates then s.iterPrev c else .ok (false, s)

def seekNext (c : GdaDataSelectClass V) (row : Int) :
    Nat → GdaDataSelect V → Except CursorFault (Bool × GdaDataSelect V)
  | 0, _ => .error .notTerminated
  | fuel + 1, s =>
    if s.iter.row < row then
      match s.moveNext c with
      | (true, s) => seekNext c row fuel s
      | (false, s) => .ok (false, s)
    else .ok (s.iter.row = row, s)

def seekPrev (c : GdaDataSelectClass V) (row : Int) :
    Nat → GdaDataSelect V → Except CursorFault (Bool × GdaDataSelect V)
  | 0, _ => .error .notTerminated
  | fuel + 1, s =>
    if row < s.iter.row then
      match s.movePrev c with
      | .error fault => .error fault
      | .ok (true, s) => seekPrev c row fuel s
      | .ok (false, s) => .ok (false, s)
    else .ok (s.iter.row = row, s)

def iterAtRow (c : GdaDataSelectClass V) (fuel : Nat) (s : GdaDataSelect V) (row : Int) :
    Except CursorFault (Bool × GdaDataSelect V) :=
  let (found, s) := s.externalToInternalRow c row
  let prow := if s.currentProw.isSome = true ∧ s.currentProwRow = row then s.currentProw
    else s.storedRow (intRowOf found)
  match prow with
  | some prow => .ok (true, s.updateIter row prow)
  | none =>
    if c.hasFetchAt = true then
      match c.fetched (intRowOf found) with
      | some prow => .ok (true, (s.call c (.at (intRowOf found))).updateIter row prow)
      | none => .ok (false, (s.call c (.at (intRowOf found))).beforeFirst)
    -- fetch_at () is optional
    else if s.iterRow < row then seekNext c row fuel s
    else if row < s.iterRow then seekPrev c row fuel s
    else .ok (true, s)

/-- A call of a method of the model; `fuel` bounds the loops of `iterAtRow`. -/
def moveCursor (c : GdaDataSelectClass V) (fuel : Nat) (s : GdaDataSelect V) :
    CursorCall → Except CursorFault (Bool × GdaDataSelect V)
  | .iterNext => .ok (s.iterNext c)
  | .iterPrev => s.iterPrev c
  | .iterAtRow row => s.iterAtRow c fuel row

end GdaDataSelect

end LibGda
