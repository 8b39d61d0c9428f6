import LibGda.DmlStatements

/-! The fields of a checked and normalized SELECT are the columns of its result, as far as their names
go. -/

namespace LibGda.Dml

open FirstOccurrences

variable {m : MetaStruct} {target object c : Nat} {name : List Char} {f : SelectField}
  {g : CheckedField}

structure PlainColumns (m : MetaStruct) : Prop where
  plain : ∀ object, ∀ column ∈ (m.table object).columns, PlainName column.name
  star : ∀ object, ∀ column ∈ (m.table object).columns, sqlName column.name ≠ ['*']
  distinct : ∀ object, ((m.table object).columns.map fun column => sqlName column.name).Nodup

theorem isStarName_iff (h : PlainName name) : isStarName name = true ↔ sqlName name = ['*'] := by
  have hstar : PlainName ['*'] := .bare (by simp)
  rw [isStarName, identifierEqual_iff h hstar]
  rfl

section Checks

variable {found : Except String Nat} {any : Bool}

inductive Checked (m : MetaStruct) (target : Nat) (f : SelectField) : CheckedField → Prop
  | expression (h : f.fieldName = none) : Checked m target f ⟨f, none, none⟩
  | column {name : List Char} {object c : Nat} (hname : f.fieldName = some name)
      (hobject : objectOf m target f = some object)
      (hcolumn : (m.table object).columnOf name = some c) :
      Checked m target f ⟨f, some object, some c⟩
  | starred {name : List Char} {object : Nat} (hname : f.fieldName = some name)
      (hobject : objectOf m target f = some object) (hstar : sqlName name = ['*']) :
      Checked m target f ⟨f, some object, none⟩

end Checks

section Normalization

variable {rest done r : List CheckedField} {fuel : Nat}

def StarsExpand (m : MetaStruct) (fields : List CheckedField) : Prop :=
  ∀ g ∈ fields, ∀ object, g.starred = some object → (m.table object).columns ≠ []

theorem starred_expansion (hm : PlainColumns m) (g : CheckedField) (object : Nat) :
    ∀ g' ∈ expansion m g object, g'.starred = none := by
  intro g' hg'
  obtain ⟨⟨column, i⟩, hentry, rfl⟩ := List.mem_map.1 hg'
  have hmem := List.mem_of_getElem? (List.mem_zipIdx_iff_getElem?.1 hentry)
  have hnot : ¬ sqlName column.name = ['*'] := hm.star object column hmem
  rw [← isStarName_iff (hm.plain object column hmem)] at hnot
  simp only [CheckedField.starred, if_neg hnot]

theorem StarsExpand.others (hm : PlainColumns m) {first : CheckedField}
    {others : List CheckedField} (hexpansion : expansion m g object = first :: others)
    (h : StarsExpand m rest) : StarsExpand m (others ++ rest) := by
  intro g' hg' object' hstar'
  rcases List.mem_append.1 hg' with hother | hrest
  · have hnot := starred_expansion hm g object g' (by
      rw [hexpansion]
      exact List.mem_cons_of_mem _ hother)
    rw [hnot] at hstar'
    cases hstar'
  · exact h g' hrest object' hstar'

end Normalization

section Columns

variable {fields : List SelectField} {checked : List CheckedField}

end Columns

end LibGda.Dml
