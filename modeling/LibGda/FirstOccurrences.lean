import Mathlib.Data.List.Basic

/-! The first occurrences of the elements of a list in which some places are empty, each with its
position. -/

namespace FirstOccurrences

variable {α : Type} [DecidableEq α] {seen : List α} {l : List (Option α)} {a : α} {j k : Nat}

end FirstOccurrences
