import LibGda.DmlFields

/-! The conditions and the assignments of the statements, in terms of the columns which are named in the
SELECT and of the columns of its result. -/

namespace LibGda.Dml

open FirstOccurrences

variable {m : MetaStruct} {quote : List Char → List Char} {target c k : Nat}
  {gs : List CheckedField} {named result : List (Option Nat)}

section Operations

variable {cs : List Nat} {ops : List Operation}

end Operations

section Lists

variable {fields : List SelectField}

variable {V : Type} [DecidableEq V] [Inhabited V] {ops : List Operation}

end Lists

section Assignments

variable {names : List (List Char)} {cs : List Nat} {name name' : List Char} {c' : Nat}

variable {fields : List SelectField}

end Assignments

end LibGda.Dml
