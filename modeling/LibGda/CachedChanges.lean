import LibGda.GreedyAssignment
import LibGda.RegistryAgreement

/-! The way of the pending changes of a proxy into its cache when its model is
changed, and back for the next model. -/

namespace LibGda

open GreedyAssignment

variable {D : Type}

section Models

variable [ContentsCompare D]

omit [ContentsCompare D] in
def GdaDataModel.takesInsert (m : GdaDataModel D) (rm : RowModif D) : Bool :=
  ({ model := m, modelNbCols := m.getNColumns } : GdaDataProxy D).insertMatches rm

def GdaDataModel.rowFits (m : GdaDataModel D) (row : Nat) (rm : RowModif D) : Bool :=
  ({ model := m, modelNbCols := m.getNColumns } : GdaDataProxy D).modifMatches row rm

namespace RowModifs

omit [ContentsCompare D] in
def takes (rs : RowModifs D) (m : GdaDataModel D) (ptr : RowModifPtr) : Bool :=
  m.takesInsert (rs.memory ptr)

def fits (rs : RowModifs D) (m : GdaDataModel D) (row : Nat) (ptr : RowModifPtr) : Bool :=
  m.rowFits row (rs.memory ptr)

omit [ContentsCompare D] in
def attach (rs : RowModifs D) (given : List (Nat × RowModifPtr)) : RowModifs D :=
  given.foldl (fun rs g => rs.fetchModif g.1 g.2) rs

end RowModifs

def RowModif.contents (rm : RowModif D) : RowModif D := { rm with modelRow := -1 }

def SameContents (rs ss : RowModifs D) : Prop :=
  ∀ ptr, (rs.memory ptr).contents = (ss.memory ptr).contents

namespace SameContents

variable {rs ss ts : RowModifs D}

omit [ContentsCompare D] in
theorem trans (h : SameContents rs ss) (h' : SameContents ss ts) : SameContents rs ts :=
  fun ptr => (h ptr).trans (h' ptr)

omit [ContentsCompare D] in
theorem fetchModif (rs : RowModifs D) (row : Int) (ptr : RowModifPtr) :
    SameContents (rs.fetchModif row ptr) rs := by
  intro other
  by_cases h : other = ptr <;> simp [RowModifs.fetchModif, RowModifs.update, RowModif.contents, h]

end SameContents

namespace RowModifs

variable {rs : RowModifs D} {given : List (Nat × RowModifPtr)}

section Attach

omit [ContentsCompare D]

end Attach

end RowModifs

end Models

namespace GdaDataProxy

variable [ContentsCompare D] {p : GdaDataProxy D}

end GdaDataProxy

end LibGda
