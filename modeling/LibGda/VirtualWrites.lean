import LibGda.VirtualUpdate

/-! `virtualUpdate` for one row: an update goes over the columns and stops where the data model
refuses a value, an insertion hands all the values over at once. -/

namespace LibGda

variable {V : Type} {column : VirtualColumn V} {argument : SqlArgument}

def givenValue (column : VirtualColumn V) (argument : SqlArgument) : Option (Option V) :=
  match argument.text with
  | none => some none
  | some text => if column.isNull then none else (column.fromString text).map some

def givenValues : List (VirtualColumn V) → List SqlArgument → Option (List (Option V))
  | column :: columns, argument :: arguments =>
    (givenValue column argument).bind fun value =>
      (givenValues columns arguments).map fun values => value :: values
  | _, _ => some []

def storedValues (columns : List (VirtualColumn V)) (arguments : List SqlArgument) :
    List (Option V) :=
  List.zipWith (fun column argument => (updateArgument column argument).stored) columns arguments

section Updates

variable {model : WritableModel V} {arguments : List SqlArgument} {r k m : Nat} {row : ModelRow V}

structure RowWidth (model : WritableModel V) (r : Nat) (row : ModelRow V)
    (arguments : List SqlArgument) : Prop where
  found : model.rows[r]? = some row
  small : r < 2 ^ 31
  row : row.values.length = model.columns.length
  arguments : arguments.length = model.columns.length

theorem RowWidth.stored (h : RowWidth model r row arguments) :
    (storedValues model.columns arguments).length = model.columns.length := by
  rw [storedValues, List.length_zipWith, h.arguments, Nat.min_self]

end Updates

section Inserts

variable {model : WritableModel V} {arguments : List SqlArgument}

end Inserts

end LibGda

/-! The statements on a virtual table. The calls of an `UPDATE` do not move the rows, so that only the
single calls matter; those of a `DELETE` move the rows behind, and a row identifier which was read
before leads to another row. -/

namespace LibGda

variable {V : Type}

section UpdateRuns

/-- One call of an `UPDATE` statement: the row, the values and the one of the hidden column. -/
structure RowUpdate where
  row : Nat
  arguments : List SqlArgument
  hidden : SqlArgument

structure UpdatesRows (model : WritableModel V) (us : List RowUpdate) : Prop where
  rows : ∀ u ∈ us, ∃ row, RowWidth model u.row row u.arguments
  nodup : (us.map RowUpdate.row).Nodup

/-- The rows of the first calls have the given values, the other rows are as they were, and the
statement succeeds if these are all the calls. -/
structure UpdatedRows (model : WritableModel V) (us : List RowUpdate) (n : Nat)
    (code : UpdateCode) (final : WritableModel V) : Prop where
  length : final.rows.length = model.rows.length
  code : code = .ok ↔ us.length ≤ n
  given : ∀ u ∈ us.take n, ∃ row values, model.rows[u.row]? = some row ∧
    givenValues model.columns u.arguments = some values ∧
    final.rows[u.row]? = some { row with values }
  other : ∀ j : Nat, (∀ u ∈ us.take n, u.row ≠ j) → final.rows[j]? = model.rows[j]?

variable {offset : Nat} {model model' final : WritableModel V} {u : RowUpdate}
  {us : List RowUpdate} {code : UpdateCode}

theorem getElem?_set_other {rows : List (ModelRow V)} {r j : Nat} {row : ModelRow V} (h : r ≠ j) :
    (rows.set r row)[j]? = rows[j]? := by
  rw [List.getElem?_set, if_neg h]

theorem UpdatesRows.tail (h : UpdatesRows model (u :: us)) {row : ModelRow V}
    (hcolumns : model'.columns = model.columns) (hrows : model'.rows = model.rows.set u.row row) :
    UpdatesRows model' us := by
  have hnodup := List.nodup_cons.1 h.nodup
  constructor
  · intro u' hu'
    obtain ⟨row', hwidth⟩ := h.rows u' (List.mem_cons_of_mem _ hu')
    have hne : u.row ≠ u'.row := by
      intro heq
      apply hnodup.1
      rw [heq]
      exact List.mem_map_of_mem hu'
    refine ⟨row', ?_, hwidth.small, ?_, ?_⟩
    · rw [hrows, getElem?_set_other hne]
      exact hwidth.found
    · rw [hcolumns]
      exact hwidth.row
    · rw [hcolumns]
      exact hwidth.arguments
  · exact hnodup.2

theorem UpdatedRows.cons (h : UpdatesRows model (u :: us)) {row : ModelRow V} {n : Nat}
    {values : List (Option V)} (hrow : model.rows[u.row]? = some row)
    (hvalues : givenValues model.columns u.arguments = some values)
    (hcolumns : model'.columns = model.columns)
    (hrows : model'.rows = model.rows.set u.row { row with values })
    (hrest : UpdatedRows model' us n code final) :
    UpdatedRows model (u :: us) (n + 1) code final := by
  have hnodup := List.nodup_cons.1 h.nodup
  have hne : ∀ u' ∈ us.take n, u'.row ≠ u.row := by
    intro u' hu' heq
    apply hnodup.1
    rw [← heq]
    exact List.mem_map_of_mem (List.mem_of_mem_take hu')
  have hlt := (List.getElem?_eq_some_iff.1 hrow).1
  constructor
  · rw [hrest.length, hrows, List.length_set]
  · rw [hrest.code, List.length_cons]
    omega
  · intro u' hu'
    rw [List.take_succ_cons] at hu'
    rcases List.mem_cons.1 hu' with rfl | hmem
    · refine ⟨row, values, hrow, hvalues, ?_⟩
      rw [hrest.other _ hne, hrows, List.getElem?_set_self hlt]
    · obtain ⟨row', values', hrow', hvalues', hfinal⟩ := hrest.given u' hmem
      refine ⟨row', values', ?_, ?_, hfinal⟩
      · rw [← hrow', hrows, getElem?_set_other (Ne.symm (hne u' hmem))]
      · rw [← hcolumns, hvalues']
  · intro j hj
    rw [List.take_succ_cons] at hj
    have hhead := hj u List.mem_cons_self
    have htail : ∀ u' ∈ us.take n, u'.row ≠ j := by
      intro u' hu'
      exact hj u' (List.mem_cons_of_mem _ hu')
    rw [hrest.other j htail, hrows, getElem?_set_other hhead]

theorem UpdatedRows.refused (hcode : code ≠ .ok) (hrows : model'.rows = model.rows) :
    UpdatedRows model (u :: us) 0 code model' := by
  constructor
  · rw [hrows]
  · constructor
    · intro hok
      exact absurd hok hcode
    · intro hle
      rw [List.length_cons] at hle
      omega
  · intro u' hu'
    simp at hu'
  · intro j _
    rw [hrows]

end UpdateRuns

section Contract

open StalePositions

variable (columns : List (VirtualColumn V)) (refuses : List (ModelRow V) → ModelChange V → Bool)

def threeRows : WritableModel Unit := modelOf [] (fun _ _ => false) [[], [], []]

end Contract

end LibGda
