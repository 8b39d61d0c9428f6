import LibGda.RowImport
import Mathlib.Data.List.Induction

/-! When the destination of an import holds the rows of the source. -/

namespace LibGda.RowImport

variable {T D : Type} [DecidableEq T] {types : Types T D}

section Rows

variable {slots slots' : List (Slot T D)} {source rows done old : List (List (Val T D))}
  {row values : List (Val T D)} {nColumns toNbRows left toRow : Nat} {readOnly : Bool}

omit [DecidableEq T] in
theorem Like.refl {slot : Slot T D} (habsent : slot.param = none → slot.append = some .null) :
    Like slot slot :=
  ⟨rfl, rfl, rfl, habsent⟩

omit [DecidableEq T] in
theorem Like.trans {a b c : Slot T D} (h : Like a b) (h' : Like b c) : Like a c := by
  refine ⟨h'.param.trans h.param, h'.type.trans h.type, h'.append.trans h.append, ?_⟩
  intro hnone
  apply h'.absent
  rw [h.param, hnone]

end Rows

section Results

variable (types : Types T D) (dest : ArrayModel T D) (source : Source (D := D) types)
  (overwrite : Bool) (colsTrans : Option (Nat → Option Int))

def Fills (i : Nat) (slot : Slot T D) : Prop :=
  ∃ column, dest.columns[i]? = some column ∧
    slotFor types source.holders colsTrans i column = some slot

def Stops : Prop :=
  (∃ i column, dest.columns[i]? = some column ∧
    slotFor types source.holders colsTrans i column = none) ∨
  (∃ row ∈ source.rows, ∃ i slot, Fills types dest source colsTrans i slot ∧
    Inconvertible types row slot) ∨
  (dest.readOnly = true ∧ overwrite = true ∧ dest.rows ≠ [])

def NoNullConverted : Prop :=
  ∀ row ∈ source.rows, ∀ i slot, Fills types dest source colsTrans i slot →
    ¬ (Designated colsTrans i ∧ NullConverted row slot)

def Holds : Prop :=
  if dest.columns.isEmpty ∨ source.holders.isEmpty then
    RightRows types dest source overwrite colsTrans dest.rows
  else Stops types dest source overwrite colsTrans ∨
    if dest.readOnly then source.rows = []
    else (overwrite = true → dest.rows.length ≤ source.rows.length + 1) ∧
      NoNullConverted types dest source colsTrans

variable {types dest source overwrite colsTrans} {slots : List (Slot T D)}

end Results

end LibGda.RowImport
