import LibGda.EditScript
import LibGda.ProxyState
import LibGda.RunInvariant

/-! The differences which a `GdaDataComparator` computes, and when they turn the old
data model into the new one. -/

namespace LibGda

open RunInvariant EditScript

variable {D : Type}

structure ComparedModel (D : Type) where
  columnTypes : List GType
  rows : List (List (GValue D))
  randomAccess : Bool := true
  /-- `gda_data_model_get_n_rows` knows the number of rows. -/
  counted : Bool := true
  complete : ∀ row ∈ rows, row.length = columnTypes.length

namespace ComparedModel

variable (model : ComparedModel D)

def nColumns : Nat :=
  model.columnTypes.length

def nRows : Nat :=
  model.rows.length

def row (i : Nat) : List (GValue D) :=
  model.rows.getD i []

def getValueAt (col : Int) (row : Nat) : Option (GValue D) :=
  match col with
  | .ofNat c => (model.row row)[c]?
  | .negSucc _ => none

@[simp] theorem getValueAt_natCast (col row : Nat) :
    model.getValueAt col row = (model.row row)[col]? :=
  rfl

def rowValues (row : Nat) : Option (List (GValue D)) :=
  (List.range model.nColumns).mapM fun (col : Nat) => model.getValueAt col row

variable [ContentsCompare D]

def hasValues (row : Nat) : List (GValue D) → List Int → Bool
  | value :: values, col :: cols =>
    match model.getValueAt col row with
    | some v => v.valueType = value.valueType && gdaValueCompare value v = 0 &&
        hasValues row values cols
    | none => false
  | _, _ => true

/-- `gda_data_model_get_row_from_values`, for columns which the data model has. -/
def getRowFromValues (values : List (GValue D)) (cols : List Int) : Option Nat :=
  if values.isEmpty then none
  else (List.range model.nRows).find? fun row => model.hasValues row values cols

end ComparedModel

inductive GdaDiffType where
  | addRow
  | removeRow
  | modifyRow
  deriving DecidableEq

structure GdaDiff (D : Type) where
  type : GdaDiffType
  oldRow : Int
  newRow : Int
  plus : List (GValue D)
  minus : List (GValue D)

inductive ComparatorError where
  | missingDataModel
  | modelAccess
  | columnsNumber
  | columnTypesMismatch (col : Nat)
  | valueAccess
  | userCancelled
  deriving DecidableEq

structure GdaDataComparator (D : Type) where
  oldModel : Option (ComparedModel D)
  newModel : Option (ComparedModel D)
  /-- As set, or none. -/
  keyColumns : Option (List Int)

section Compute

variable [ContentsCompare D] (old new : ComparedModel D) (keyColumns : Option (List Int))

def usedColumns : List Int :=
  keyColumns.getD ((List.range old.nColumns).map Int.ofNat)

omit [ContentsCompare D] in
def keyValues (row : Nat) : Option (List (GValue D)) :=
  (usedColumns old keyColumns).mapM fun col => new.getValueAt col row

def hasChanged (erow row : Nat) : List Nat → Option Bool
  | [] => some false
  | col :: cols => do
    let v1 ← old.getValueAt col erow
    let v2 ← new.getValueAt col row
    if gdaValueCompare v1 v2 ≠ 0 then some true else hasChanged erow row cols

/-- The row to be found, and whether it differs; `none` is an error. -/
def findRowInModel (row : Nat) : Option (Option Nat × Bool) := do
  let values ← keyValues old new keyColumns row
  match old.getRowFromValues values (usedColumns old keyColumns) with
  | none => some (none, false)
  | some erow => do
    let changed ← hasChanged old new erow row (List.range old.nColumns)
    some (some erow, changed)

structure DiffState (D : Type) where
  diffs : List (GdaDiff D) := []
  rowsToDel : List Bool

variable (stop : Nat → Bool)

omit [ContentsCompare D] in
/-- The difference is added and announced; `stop` is the answer of the handlers. -/
def DiffState.emit (s : DiffState D) (diff : GdaDiff D) :
    Except ComparatorError (DiffState D) :=
  if stop s.diffs.length then .error .userCancelled
  else .ok { s with diffs := s.diffs ++ [diff] }

def readValues (values : Option (List (GValue D))) : Except ComparatorError (List (GValue D)) :=
  match values with
  | some values => .ok values
  | none => .error .valueAccess

def scanRow (s : DiffState D) (i : Nat) : Except ComparatorError (DiffState D) :=
  match findRowInModel old new keyColumns i with
  | none => .error .valueAccess
  | some (none, _) => do
    let plus ← readValues (new.rowValues i)
    s.emit stop { type := .addRow, oldRow := -1, newRow := i, plus := plus, minus := [] }
  | some (some erow, true) => do
    let plus ← readValues (new.rowValues i)
    let minus ← readValues (old.rowValues i)
    DiffState.emit stop { s with rowsToDel := s.rowsToDel.set erow false }
      { type := .modifyRow, oldRow := erow, newRow := i, plus := plus, minus := minus }
  | some (some erow, false) => .ok { s with rowsToDel := s.rowsToDel.set erow false }

omit [ContentsCompare D] in
def removeRow (s : DiffState D) (i : Nat) : Except ComparatorError (DiffState D) :=
  if s.rowsToDel.getD i false then do
    let minus ← readValues (old.rowValues i)
    s.emit stop { type := .removeRow, oldRow := i, newRow := -1, plus := [], minus := minus }
  else .ok s

omit [ContentsCompare D] in
def checkModels : Except ComparatorError Unit :=
  if !old.randomAccess || !new.randomAccess then .error .modelAccess
  else if old.nColumns ≠ new.nColumns then .error .columnsNumber
  else match (List.range old.nColumns).find? fun col =>
      old.columnTypes[col]? != new.columnTypes[col]? with
    | some col => .error (.columnTypesMismatch col)
    | none => if !old.counted || !new.counted then .error .modelAccess else .ok ()

def computeModels : Except ComparatorError (List (GdaDiff D)) := do
  checkModels old new
  let start : DiffState D := { rowsToDel := List.replicate old.nRows true }
  let scanned ← (List.range new.nRows).foldlM (scanRow old new keyColumns stop) start
  let removed ← (List.range old.nRows).foldlM (removeRow old stop) scanned
  .ok removed.diffs

end Compute

def GdaDataComparator.computeDiff [ContentsCompare D] (comp : GdaDataComparator D)
    (stop : Nat → Bool) : Except ComparatorError (List (GdaDiff D)) :=
  match comp.oldModel, comp.newModel with
  | some old, some new => computeModels old new comp.keyColumns stop
  | _, _ => .error .missingDataModel

end LibGda

/-! When the differences of two data models turn the old one into the new one. -/

namespace LibGda

open RunInvariant EditScript

variable {D : Type}

namespace ComparedModel

theorem length_row (model : ComparedModel D) {i : Nat} (hi : i < model.nRows) :
    (model.row i).length = model.nColumns := by
  have hrow : model.row i = model.rows.get ⟨i, hi⟩ := by simp [row, nRows] at hi ⊢; simp [hi]
  rw [hrow]
  exact model.complete _ (List.getElem_mem hi)

theorem map_row_range (model : ComparedModel D) :
    (List.range model.nRows).map model.row = model.rows := by
  apply List.ext_getElem (by simp [nRows])
  intro i hi hi'
  simp [row, hi']

theorem mapM_getElem?_eq_some {α : Type} {l : List α} {n : Nat} {r : List α}
    (h : (List.range n).mapM (fun i => l[i]?) = some r) : r = l.take n := by
  induction n generalizing r with
  | zero => simpa using h.symm
  | succ n ih =>
    rw [List.range_succ, List.mapM_append] at h
    obtain ⟨r', hr', h⟩ := Option.bind_eq_some_iff.mp h
    obtain ⟨t, ht, h⟩ := Option.bind_eq_some_iff.mp h
    obtain ⟨a, ha, rfl⟩ : ∃ a, l[n]? = some a ∧ t = [a] := by
      cases hn : l[n]? with
      | none => simp [hn] at ht
      | some a => exact ⟨a, rfl, by simpa [hn] using ht.symm⟩
    obtain rfl : r' ++ [a] = r := Option.some.inj h
    rw [ih hr', List.take_add_one, ha]
    rfl

theorem rowValues_eq_some {model : ComparedModel D} {i : Nat} {values : List (GValue D)}
    (h : model.rowValues i = some values) : values = model.row i := by
  simp only [rowValues, getValueAt_natCast] at h
  have hv := mapM_getElem?_eq_some h
  by_cases hi : i < model.nRows
  · rw [hv, ← model.length_row hi, List.take_length]
  · have hrow : model.row i = [] := by
      simp only [row, nRows] at hi ⊢
      simp [List.getElem?_eq_none (Nat.le_of_not_lt hi)]
    rw [hv, hrow, List.take_nil]

end ComparedModel

section Compute

variable [ContentsCompare D] (old new : ComparedModel D) (keyColumns : Option (List Int))

def firstMatch (i : Nat) : Option Nat :=
  (keyValues old new keyColumns i).bind fun values =>
    old.getRowFromValues values (usedColumns old keyColumns)

def differsFromMatch (i : Nat) : Bool :=
  match firstMatch old new keyColumns i with
  | some e => hasChanged old new e i (List.range old.nColumns) == some true
  | none => false

def addDiff (i : Nat) : GdaDiff D where
  type := .addRow
  oldRow := -1
  newRow := i
  plus := new.row i
  minus := []

def modifyDiff (erow i : Nat) : GdaDiff D where
  type := .modifyRow
  oldRow := erow
  newRow := i
  plus := new.row i
  minus := old.row i

def removeDiff (i : Nat) : GdaDiff D where
  type := .removeRow
  oldRow := i
  newRow := -1
  plus := []
  minus := old.row i

def rowDiff (i : Nat) : Option (GdaDiff D) :=
  match firstMatch old new keyColumns i with
  | none => some (addDiff new i)
  | some e => if differsFromMatch old new keyColumns i then some (modifyDiff old new e i) else none

variable {old new keyColumns}

theorem firstMatch_lt {i e : Nat} (h : firstMatch old new keyColumns i = some e) :
    e < old.nRows := by
  obtain ⟨values, -, h⟩ := Option.bind_eq_some_iff.mp h
  simp only [ComparedModel.getRowFromValues] at h
  split at h
  · cases h
  · exact List.mem_range.mp (List.mem_of_find?_eq_some h)

omit [ContentsCompare D] in
theorem emit_ok {stop : Nat → Bool} {s t : DiffState D} {diff : GdaDiff D}
    (h : s.emit stop diff = .ok t) : t = { s with diffs := s.diffs ++ [diff] } := by
  simp only [DiffState.emit] at h
  split at h
  · cases h
  · exact (Except.ok.inj h).symm

omit [ContentsCompare D] in
theorem readValues_ok {model : ComparedModel D} {i : Nat} {values : List (GValue D)}
    (h : readValues (model.rowValues i) = .ok values) : values = model.row i := by
  cases hv : model.rowValues i with
  | none => simp [readValues, hv] at h
  | some v =>
    rw [hv] at h
    obtain rfl : v = values := Except.ok.inj h
    exact ComparedModel.rowValues_eq_some hv

theorem scanRow_ok {stop : Nat → Bool} {s t : DiffState D} {i : Nat}
    (h : scanRow old new keyColumns stop s i = .ok t) :
    t.diffs = s.diffs ++ (rowDiff old new keyColumns i).toList ∧
    t.rowsToDel = (match firstMatch old new keyColumns i with
      | none => s.rowsToDel
      | some e => s.rowsToDel.set e false) ∧
    ∀ e, firstMatch old new keyColumns i = some e →
      hasChanged old new e i (List.range old.nColumns) =
        some (differsFromMatch old new keyColumns i) := by
  simp only [scanRow, findRowInModel] at h
  cases hkeys : keyValues old new keyColumns i with
  | none => simp [hkeys] at h
  | some values =>
    have hmatch : firstMatch old new keyColumns i =
        old.getRowFromValues values (usedColumns old keyColumns) := by
      rw [firstMatch, hkeys]
      rfl
    cases hrow : old.getRowFromValues values (usedColumns old keyColumns) with
    | none =>
      rw [hrow] at hmatch
      simp only [hkeys, hrow, Option.bind_eq_bind, Option.bind_some] at h
      obtain ⟨plus, hplus, h⟩ := bind_ok h
      rw [emit_ok h, readValues_ok hplus]
      simp [rowDiff, hmatch, addDiff]
    | some e =>
      rw [hrow] at hmatch
      cases hchanged : hasChanged old new e i (List.range old.nColumns) with
      | none => simp [hkeys, hrow, hchanged] at h
      | some b =>
        have hdiffers : differsFromMatch old new keyColumns i = b := by
          simp only [differsFromMatch, hmatch, hchanged]
          cases b <;> rfl
        simp only [hkeys, hrow, hchanged, Option.bind_eq_bind, Option.bind_some] at h
        refine ⟨?_, ?_, ?_⟩
        · cases b with
          | true =>
            obtain ⟨plus, hplus, h⟩ := bind_ok h
            obtain ⟨minus, hminus, h⟩ := bind_ok h
            rw [emit_ok h, readValues_ok hplus, readValues_ok hminus]
            simp [rowDiff, hmatch, hdiffers, modifyDiff]
          | false =>
            rw [← Except.ok.inj h]
            simp [rowDiff, hmatch, hdiffers]
        · rw [hmatch]
          cases b with
          | true =>
            obtain ⟨plus, hplus, h⟩ := bind_ok h
            obtain ⟨minus, hminus, h⟩ := bind_ok h
            rw [emit_ok h]
          | false => rw [← Except.ok.inj h]
        · intro e' he'
          obtain rfl : e = e' := Option.some.inj (hmatch.symm.trans he')
          rw [hchanged, hdiffers]

theorem scanRows_ok {stop : Nat → Bool} {n : Nat} {t : DiffState D}
    (h : (List.range n).foldlM (scanRow old new keyColumns stop)
      { rowsToDel := List.replicate old.nRows true } = .ok t) :
    t.diffs = (List.range n).filterMap (rowDiff old new keyColumns) ∧
    t.rowsToDel = (List.range old.nRows).map (unmatched n (firstMatch old new keyColumns)) ∧
    ∀ i < n, ∀ e, firstMatch old new keyColumns i = some e →
      hasChanged old new e i (List.range old.nColumns) =
        some (differsFromMatch old new keyColumns i) := by
  induction n generalizing t with
  | zero =>
    rw [← Except.ok.inj h]
    have hnone : unmatched 0 (firstMatch old new keyColumns) = fun _ => true := by
      funext p
      simp [unmatched]
    refine ⟨rfl, ?_, by omega⟩
    simp [hnone]
  | succ n ih =>
    rw [List.range_succ, List.foldlM_append] at h
    obtain ⟨s, hs, h⟩ := bind_ok h
    obtain ⟨hdiffs, hdel, hchanged⟩ := ih hs
    have hstep : scanRow old new keyColumns stop s n = .ok t := by
      simpa using h
    obtain ⟨hdiffs', hdel', hchanged'⟩ := scanRow_ok hstep
    refine ⟨?_, ?_, ?_⟩
    · rw [hdiffs', hdiffs, List.range_succ, List.filterMap_append]
      cases hr : rowDiff old new keyColumns n <;> simp [hr]
    · rw [hdel', hdel]
      cases hm : firstMatch old new keyColumns n with
      | none => simp [unmatched, List.range_succ, hm]
      | some e =>
        simp only
        rw [set_map_range]
        apply List.map_congr_left
        intro p _
        by_cases hp : p = e
        · simp [unmatched, List.range_succ, hm, hp]
        · have hp' : e ≠ p := Ne.symm hp
          simp [unmatched, List.range_succ, hm, Function.update_of_ne hp, hp']
    · intro i hi
      by_cases hin : i = n
      · subst hin
        exact hchanged'
      · exact hchanged i (by omega)

omit [ContentsCompare D] in
theorem removeRows_ok {stop : Nat → Bool} {n : Nat} {s t : DiffState D}
    (h : (List.range n).foldlM (removeRow old stop) s = .ok t) :
    t.rowsToDel = s.rowsToDel ∧
    t.diffs = s.diffs ++
      ((List.range n).filter fun i => s.rowsToDel.getD i false).map (removeDiff old) := by
  induction n generalizing t with
  | zero =>
    rw [← Except.ok.inj h]
    simp
  | succ n ih =>
    rw [List.range_succ, List.foldlM_append] at h
    obtain ⟨u, hu, h⟩ := bind_ok h
    obtain ⟨hdel, hdiffs⟩ := ih hu
    have hstep : removeRow old stop u n = .ok t := by simpa using h
    simp only [removeRow, hdel] at hstep
    rw [List.range_succ, List.filter_append]
    split at hstep
    · next hn =>
      obtain ⟨minus, hminus, hstep⟩ := bind_ok hstep
      rw [emit_ok hstep, readValues_ok hminus]
      refine ⟨hdel, ?_⟩
      rw [hdiffs]
      simp only [List.filter_cons, hn, if_true, List.filter_nil, List.map_append,
        List.append_assoc]
      rfl
    · next hn =>
      rw [← Except.ok.inj hstep]
      refine ⟨hdel, ?_⟩
      have hn : s.rowsToDel.getD n false = false := by simpa only [Bool.not_eq_true] using hn
      rw [hdiffs]
      simp only [List.filter_cons, hn, List.filter_nil, List.append_nil, Bool.false_eq_true,
        if_false]

def GdaDiff.toEdit (diff : GdaDiff D) : Edit (List (GValue D)) :=
  match diff.type with
  | .addRow => .add diff.plus
  | .modifyRow => .modify diff.oldRow.toNat diff.plus
  | .removeRow => .remove diff.oldRow.toNat

def RowsAgree (a b : List (GValue D)) : Prop :=
  List.Forall₂ (fun v w => v = w ∨ gdaValueCompare v w = 0) a b

structure DiffsCorrect (old new : ComparedModel D) (diffs : List (GdaDiff D)) : Prop where
  contents : Multiset.Rel RowsAgree
    (result old.rows (diffs.map GdaDiff.toEdit) : Multiset (List (GValue D)))
    (new.rows : Multiset (List (GValue D)))
  oldValues : ∀ diff ∈ diffs, diff.type ≠ .addRow → diff.minus = old.row diff.oldRow.toNat
  once : (diffs.filterMap fun diff => diff.toEdit.position).Nodup

/-- No old row is matched twice, and each new row which differs from the row it matches stands where
the old model has the same values. -/
structure MatchedOnce (old new : ComparedModel D) (keyColumns : Option (List Int)) : Prop where
  unshared : Unshared new.nRows (firstMatch old new keyColumns)
  aligned : ∀ i < new.nRows, ∀ e, firstMatch old new keyColumns i = some e →
    differsFromMatch old new keyColumns i = true → old.row i = old.row e

omit [ContentsCompare D] in
theorem checkModels_ok (h : checkModels old new = .ok ()) : old.nColumns = new.nColumns := by
  simp only [checkModels] at h
  split at h
  · cases h
  · split at h
    · cases h
    · next hn => exact not_not.mp hn

theorem computeModels_ok {stop : Nat → Bool} {diffs : List (GdaDiff D)}
    (h : computeModels old new keyColumns stop = .ok diffs) :
    old.nColumns = new.nColumns ∧
    diffs = (List.range new.nRows).filterMap (rowDiff old new keyColumns) ++
      ((List.range old.nRows).filter
        (unmatched new.nRows (firstMatch old new keyColumns))).map (removeDiff old) ∧
    ∀ i < new.nRows, ∀ e, firstMatch old new keyColumns i = some e →
      hasChanged old new e i (List.range old.nColumns) =
        some (differsFromMatch old new keyColumns i) := by
  obtain ⟨_, hcheck, h⟩ := bind_ok h
  obtain ⟨scanned, hscan, h⟩ := bind_ok h
  obtain ⟨removed, hremove, h⟩ := bind_ok h
  obtain ⟨hdiffs, hdel, hchanged⟩ := scanRows_ok hscan
  obtain ⟨-, hremoved⟩ := removeRows_ok hremove
  refine ⟨checkModels_ok hcheck, ?_, hchanged⟩
  rw [← Except.ok.inj h, hremoved, hdiffs, hdel]
  congr 2
  apply List.filter_congr
  intro i hi
  simp [List.mem_range.mp hi]

theorem hasChanged_false {e i : Nat} {cols : List Nat} (h : hasChanged old new e i cols =
    some false) :
    ∀ col ∈ cols, ∃ v w, old.getValueAt col e = some v ∧ new.getValueAt col i = some w ∧
      gdaValueCompare v w = 0 := by
  induction cols with
  | nil => simp
  | cons c cols ih =>
    simp only [hasChanged] at h
    obtain ⟨v, hv, h⟩ := Option.bind_eq_some_iff.mp h
    obtain ⟨w, hw, h⟩ := Option.bind_eq_some_iff.mp h
    split at h
    · cases h
    · next hc =>
      intro col hcol
      rcases List.mem_cons.mp hcol with rfl | hcol
      · exact ⟨v, w, hv, hw, not_not.mp hc⟩
      · exact ih h col hcol

theorem rowsAgree_of_unchanged {e i : Nat} (hcols : old.nColumns = new.nColumns)
    (he : e < old.nRows) (hi : i < new.nRows)
    (h : hasChanged old new e i (List.range old.nColumns) = some false) :
    RowsAgree (old.row e) (new.row i) := by
  have hlen : (old.row e).length = (new.row i).length := by
    rw [old.length_row he, new.length_row hi, hcols]
  apply List.forall₂_iff_get.mpr
  refine ⟨hlen, ?_⟩
  intro c hc hc'
  have hcol : c ∈ List.range old.nColumns := by
    rw [List.mem_range, ← old.length_row he]
    exact hc
  obtain ⟨v, w, hv, hw, hcompare⟩ := hasChanged_false h c hcol
  rw [ComparedModel.getValueAt_natCast] at hv hw
  obtain ⟨_, hv⟩ := List.getElem?_eq_some_iff.mp hv
  obtain ⟨_, hw⟩ := List.getElem?_eq_some_iff.mp hw
  right
  simpa [hv, hw] using hcompare

theorem rowsAgree_refl (row : List (GValue D)) : RowsAgree row row :=
  List.forall₂_same.mpr fun _ _ => .inl rfl

theorem map_toEdit_computeModels {stop : Nat → Bool} {diffs : List (GdaDiff D)}
    (h : computeModels old new keyColumns stop = .ok diffs) :
    diffs.map GdaDiff.toEdit = script old.nRows new.nRows new.row
      (firstMatch old new keyColumns) (differsFromMatch old new keyColumns) := by
  obtain ⟨-, hdiffs, -⟩ := computeModels_ok h
  have hrow : GdaDiff.toEdit ∘ removeDiff old = Edit.remove := by
    funext i
    simp [GdaDiff.toEdit, removeDiff]
  rw [hdiffs, List.map_append, List.map_map, hrow, script, List.map_filterMap]
  congr 1
  apply List.filterMap_congr
  intro i _
  cases hm : firstMatch old new keyColumns i with
  | none => simp [rowDiff, hm, scanEdit, addDiff, GdaDiff.toEdit]
  | some e =>
    cases hc : differsFromMatch old new keyColumns i with
    | true => simp [rowDiff, hm, hc, scanEdit, modifyDiff, GdaDiff.toEdit]
    | false => simp [rowDiff, hm, hc, scanEdit]

theorem diffsCorrect_iff {comp : GdaDataComparator D} {stop : Nat → Bool}
    {diffs : List (GdaDiff D)} (hold : comp.oldModel = some old) (hnew : comp.newModel = some new)
    (h : comp.computeDiff stop = .ok diffs) :
    DiffsCorrect old new diffs ↔ MatchedOnce old new comp.keyColumns := by
  simp only [GdaDataComparator.computeDiff, hold, hnew] at h
  obtain ⟨hcols, hdiffs, hchanged⟩ := computeModels_ok h
  have hedits := map_toEdit_computeModels h
  have hm : ∀ i < new.nRows, ∀ e, firstMatch old new comp.keyColumns i = some e → e < old.nRows :=
    fun i _ e he => firstMatch_lt he
  have hsame : ∀ i < new.nRows, ∀ e, firstMatch old new comp.keyColumns i = some e →
      differsFromMatch old new comp.keyColumns i = false → RowsAgree (old.row e) (new.row i) := by
    intro i hi e he hc
    have := hchanged i hi e he
    rw [hc] at this
    exact rowsAgree_of_unchanged hcols (firstMatch_lt he) hi this
  have hcontents := rel_result_script_iff new.nRows old.row new.row
    (differsFromMatch old new comp.keyColumns) rowsAgree_refl hm hsame
  rw [← hedits, old.map_row_range, new.map_row_range] at hcontents
  have hmem : ∀ i < new.nRows, ∀ e, firstMatch old new comp.keyColumns i = some e →
      differsFromMatch old new comp.keyColumns i = true → modifyDiff old new e i ∈ diffs := by
    intro i hi e he hc
    rw [hdiffs]
    apply List.mem_append_left
    exact List.mem_filterMap.mpr ⟨i, List.mem_range.mpr hi, by simp [rowDiff, he, hc]⟩
  constructor
  · intro hcorrect
    constructor
    · exact hcontents.mp hcorrect.contents
    · intro i hi e he hc
      have := hcorrect.oldValues _ (hmem i hi e he hc) (by simp [modifyDiff])
      simpa [modifyDiff] using this
  · intro hmatched
    constructor
    · exact hcontents.mpr hmatched.unshared
    · intro diff hdiff htype
      rw [hdiffs] at hdiff
      rcases List.mem_append.mp hdiff with hdiff | hdiff
      · obtain ⟨i, hi, hdiff⟩ := List.mem_filterMap.mp hdiff
        have hi := List.mem_range.mp hi
        cases he : firstMatch old new comp.keyColumns i with
        | none =>
          obtain rfl : addDiff new i = diff := by simpa [rowDiff, he] using hdiff
          exact absurd rfl htype
        | some e =>
          cases hc : differsFromMatch old new comp.keyColumns i with
          | false => simp [rowDiff, he, hc] at hdiff
          | true =>
            obtain rfl : modifyDiff old new e i = diff := by simpa [rowDiff, he, hc] using hdiff
            exact hmatched.aligned i hi e he hc
      · obtain ⟨e, -, rfl⟩ := List.mem_map.mp hdiff
        rfl
    · have hnodup := @nodup_position_script _ old.nRows new.nRows new.row _
        (differsFromMatch old new comp.keyColumns) hmatched.unshared
      rw [← hedits, List.filterMap_map] at hnodup
      exact hnodup

end Compute

def intModel (nColumns : Nat) (rows : List (List Int))
    (h : ∀ row ∈ rows, row.length = nColumns) : ComparedModel Int where
  columnTypes := List.replicate nColumns (some 0)
  rows := rows.map fun row => row.map (.data 0)
  complete := by
    intro row hrow
    obtain ⟨r, hr, rfl⟩ := List.mem_map.mp hrow
    simp [h r hr]

/-- The first row is modified, the second one removed and another one added. -/
theorem diffsCorrect_iff_example :
    let old := intModel 2 [[1, 10], [2, 20]] (by decide)
    let new := intModel 2 [[1, 11], [3, 30]] (by decide)
    let comp : GdaDataComparator Int :=
      { oldModel := some old, newModel := some new, keyColumns := some [0] }
    DiffsCorrect old new [modifyDiff old new 0 0, addDiff new 1, removeDiff old 1] ↔
      MatchedOnce old new comp.keyColumns := by
  intro old new comp
  have hrun : comp.computeDiff (fun _ => false) =
      .ok [modifyDiff old new 0 0, addDiff new 1, removeDiff old 1] := rfl
  exact diffsCorrect_iff rfl rfl hrun

theorem not_diffsCorrect_of_duplicate :
    ¬ ∀ (comp : GdaDataComparator Int) (old new : ComparedModel Int) (stop : Nat → Bool)
        (diffs : List (GdaDiff Int)), comp.oldModel = some old → comp.newModel = some new →
        comp.computeDiff stop = .ok diffs → DiffsCorrect old new diffs := by
  intro h
  let old := intModel 1 [[1]] (by decide)
  let new := intModel 1 [[1], [1]] (by decide)
  let comp : GdaDataComparator Int :=
    { oldModel := some old, newModel := some new, keyColumns := none }
  have hcorrect := h comp old new (fun _ => false) [] rfl rfl rfl
  have hcard := Multiset.card_eq_card_of_rel hcorrect.contents
  revert hcard
  decide

end LibGda
