import LibGda.HolderValue
import LibGda.ServerOperationTree

/-! The items of the sequences of an operation, and whether it has the values which are required. -/

namespace LibGda

open RunInvariant

/-- What the parameters and the lists of parameters hold, or what they are bound to holds, and
whether the handlers of "validate-set" agree. -/
structure OperationValues (D : Type) where
  param : OperationNodePtr → HolderValue D
  plist : OperationNodePtr → List (HolderValue D)
  agreed : OperationNodePtr → Bool

def OperationValues.setIsValid {D : Type} (values : OperationValues D) (p : OperationNodePtr) :
    Bool :=
  (values.plist p).all HolderValue.isValid && values.agreed p

namespace ServerOperation

variable {D : Type} (op : ServerOperation) (values : OperationValues D)

/-- `gda_server_operation_get_value_at`, at the path of a node in the list: a node is found there,
this one or another. -/
def valueAtNode (p : OperationNodePtr) : Option (GValue D) :=
  match op.nodeFind (op.completePath p) with
  | none => none
  | some q => if (op.node q).type = .param then (values.param q).getValue else none

/-- `gda_server_operation_is_valid`, without a file -/
def isValid : Bool :=
  op.allnodes.all fun p =>
    if (op.node p).optional then true
    else match (op.node p).type with
      | .param => (op.valueAtNode values p).isSome
      | .paramList => values.setIsValid p
      | _ => true

inductive Present (op : ServerOperation) : OperationNodePtr → Prop where
  | top {p : OperationNodePtr} (h : p ∈ op.topnodes) : Present op p
  | item {p q : OperationNodePtr} (hq : Present op q) (ht : (op.node q).type = .sequence)
    (h : p ∈ (op.node q).seqItems) : Present op p
  | held {p q : OperationNodePtr} (hq : Present op q) (ht : (op.node q).type = .sequenceItem)
    (h : p ∈ (op.node q).seqItemNodes) : Present op p

def itemPath (path : String) (k : Int) : String := path ++ ("/" ++ toString k)

variable {op values} {op' : ServerOperation} {p q : OperationNodePtr} {load : Load}

section Made

end Made

end ServerOperation

end LibGda
