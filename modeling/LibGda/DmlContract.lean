import LibGda.DmlConditions

/-! When the statements of `gda_compute_dml_statements` are the ones for the rows of the SELECT. -/

namespace LibGda.Dml

open FirstOccurrences

variable {m : MetaStruct} {quote : List Char → List Char} {target : Nat} {gs : List CheckedField}
  {named result : List (Option Nat)} {fields : List SelectField} {requirePk : Bool} {p : Places}
  {name : List Char} {cond : Condition} {error : Option String}

section Unique

end Unique

section Building

variable {V : Type} [DecidableEq V] [Inhabited V]

end Building

section Contract

variable (m) (quote) (V : Type) [DecidableEq V] [Inhabited V] (s : Select)

variable {m} {quote} {s}

section Samples

end Samples

end Contract

end LibGda.Dml
