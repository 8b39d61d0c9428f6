import LibGda.RunInvariant
import Mathlib.Algebra.Order.Ring.Int

/-! The nodes of a `GdaServerOperation`, which are made from its specification. Nodes are found by
their path, which is computed from their parents each time. -/

namespace LibGda

open RunInvariant

inductive OperationNodeType where
  | paramList
  | dataModel
  | param
  | sequence
  | sequenceItem
  deriving DecidableEq

/-- The elements of the specification which hold no other node: `parameters`, `gda_array` and
`parameter`. -/
inductive OperationElement where
  | parameters
  | gdaArray
  | parameter
  deriving DecidableEq

def OperationElement.nodeType : OperationElement → OperationNodeType
  | .parameters => .paramList
  | .gdaArray => .dataModel
  | .parameter => .param

/-- An element of the specification which has an `id`, where a sequence is made of elements and of
other sequences. The numbers are what `atoi` makes of the attributes. -/
inductive OperationSpec where
  | leaf (element : OperationElement) (id : String) (optional : Bool)
  | sequence (id : String) (optional : Bool) (minItems maxItems : Option Int)
      (children : List OperationSpec)

namespace OperationSpec

def id : OperationSpec → String
  | .leaf _ id _ => id
  | .sequence id _ _ _ _ => id

def isSequence : OperationSpec → Bool
  | .leaf _ _ _ => false
  | .sequence _ _ _ _ _ => true

end OperationSpec

abbrev OperationNodePtr := Nat

/-- `Node`, without what a parameter or an array holds. -/
structure OperationNode where
  parent : Option OperationNodePtr := none
  type : OperationNodeType := .param
  optional : Bool := false
  pathName : String := ""
  seqTmpl : List OperationNodePtr := []
  minItems : Nat := 0
  maxItems : Nat := 0
  seqItems : List OperationNodePtr := []
  xmlSpec : List OperationSpec := []
  seqItemNodes : List OperationNodePtr := []
  deriving Inhabited

inductive OperationFault where
  | outOfFuel
  | loadFailed
  | assertionFailed
  deriving DecidableEq

structure ServerOperation where
  next : OperationNodePtr := 0
  node : OperationNodePtr → OperationNode := fun _ => {}
  allnodes : List OperationNodePtr := []
  topnodes : List OperationNodePtr := []

namespace ServerOperation

variable (op : ServerOperation)

def setNode (p : OperationNodePtr) (n : OperationNode) : ServerOperation :=
  { op with node := Function.update op.node p n }

def nodeNew (n : OperationNode) : ServerOperation :=
  { op.setNode op.next n with next := op.next + 1 }

def pathPortion (p : OperationNodePtr) : String :=
  match (op.node p).type, (op.node p).parent with
  | .sequenceItem, some seq =>
    match (op.node seq).seqItems.idxOf? p with
    | some i => toString i
    | none => "-1"
  | _, _ => (op.node p).pathName

def completePathFrom : Nat → OperationNodePtr → String
  | 0, _ => ""
  | steps + 1, p =>
    match (op.node p).parent with
    | none => "/" ++ op.pathPortion p
    | some q => completePathFrom steps q ++ ("/" ++ op.pathPortion p)

/-- `node_get_complete_path`; no path is longer than the number of nodes. -/
def completePath (p : OperationNodePtr) : String :=
  op.completePathFrom op.next p

def nodeFind (path : String) : Option OperationNodePtr :=
  if path.toList.head? = some '/' then op.allnodes.find? fun p => op.completePath p = path
  else none

def contents (p : OperationNodePtr) : List OperationNodePtr :=
  match (op.node p).type with
  | .sequence => (op.node p).seqTmpl ++ (op.node p).seqItems
  | .sequenceItem => (op.node p).seqItemNodes
  | _ => []

/-- The nodes which `node_destroy` frees, a node after the ones it holds. -/
def subtree : Nat → OperationNodePtr → List OperationNodePtr
  | 0, _ => []
  | depth + 1, p => (op.contents p).flatMap (subtree depth) ++ [p]

def nodeDestroy (p : OperationNodePtr) : ServerOperation :=
  let freed := op.subtree op.next p
  { op with
    topnodes := freed.foldl List.erase op.topnodes
    allnodes := freed.foldl List.erase op.allnodes }

abbrev Load := ServerOperation → List OperationSpec → Option String →
  Except OperationFault (ServerOperation × List OperationNodePtr)

section Load

variable (load : Load)

def insertItem (p : OperationNodePtr) (nodes : List OperationNodePtr) : ServerOperation :=
  let item := op.next
  let op := op.nodeNew { parent := some p, type := .sequenceItem, optional := (op.node p).optional }
  let op := op.setNode p { op.node p with seqItems := (op.node p).seqItems ++ [item] }
  let op := op.setNode item { op.node item with seqItemNodes := nodes }
  { op with
    allnodes := op.allnodes ++ [item]
    node := fun q => if q ∈ nodes then { op.node q with parent := some item } else op.node q }

def sequenceAddItem (p : OperationNodePtr) : Except OperationFault ServerOperation := do
  let path := op.completePath p ++ ("/" ++ toString (op.node p).seqItems.length)
  let (op, nodes) ← load op (op.node p).xmlSpec (some path)
  if nodes = [] then .error .assertionFailed else .ok (op.insertItem p nodes)

def addItemToSequence (seqPath : String) : Except OperationFault (ServerOperation × Nat) :=
  match op.nodeFind seqPath with
  | none => .ok (op, 0)
  | some p =>
    if (op.node p).type ≠ .sequence then .ok (op, 0)
    else if (op.node p).seqItems.length = (op.node p).maxItems then .ok (op, 0)
    else do
      let op ← op.sequenceAddItem load p
      return (op, (op.node p).seqItems.length)

def addMinItems (seqPath : String) : Nat → ServerOperation →
    Except OperationFault ServerOperation
  | 0, op => .ok op
  | n + 1, op => do
    let (op, _) ← op.addItemToSequence load seqPath
    addMinItems seqPath n op

def destroyOld (retlist : List OperationNodePtr) (path : String) :
    ServerOperation × List OperationNodePtr :=
  match op.nodeFind path with
  | none => (op, retlist)
  | some old => (op.nodeDestroy old, retlist.erase old)

def insertNode (p : OperationNodePtr) : ServerOperation :=
  { op with allnodes := op.allnodes ++ [p] }

def sequenceNode (parent : Option OperationNodePtr) (id : String) (optional : Bool)
    (minItems maxItems : Option Int) (children : List OperationSpec) : OperationNode :=
  let min := (minItems.getD 0).toNat
  { parent := parent
    type := .sequence
    optional := optional
    pathName := id
    minItems := min
    maxItems := match maxItems with
      | none => 2 ^ 32 - 1
      | some n => max (n % 2 ^ 32).toNat min
    xmlSpec := children }

def loadNode (parent : Option OperationNodePtr) (root : Option String)
    (r : ServerOperation × List OperationNodePtr) (spec : OperationSpec) :
    Except OperationFault (ServerOperation × List OperationNodePtr) :=
  let path := root.getD "" ++ ("/" ++ spec.id)
  let r := r.1.destroyOld r.2 path
  let op := r.1
  match spec with
  | .leaf element id optional =>
    let node : OperationNode :=
      { parent := parent, type := element.nodeType, optional := optional, pathName := id }
    .ok ((op.nodeNew node).insertNode op.next, r.2 ++ [op.next])
  | .sequence id optional minItems maxItems children => do
    let opnode := op.next
    let op := op.nodeNew (sequenceNode parent id optional minItems maxItems children)
    let (op, seqTmpl) ← load op children (some path)
    if seqTmpl = [] then .error .loadFailed
    else do
      let op := (op.setNode opnode { op.node opnode with seqTmpl := seqTmpl }).insertNode opnode
      let op ← addMinItems load path (op.node opnode).minItems op
      return (op, r.2 ++ [opnode])

end Load

def loadXmlSpec : Nat → Load
  | 0, _, _, _ => .error .outOfFuel
  | fuel + 1, op, specs, root =>
    specs.foldlM (loadNode (loadXmlSpec fuel) (root.bind op.nodeFind) root) (op, [])

def new (fuel : Nat) (specs : List OperationSpec) : Except OperationFault ServerOperation := do
  let (op, topnodes) ← loadXmlSpec fuel {} specs none
  return { op with topnodes := topnodes }

/-- What `strtol` reads, if it reads all of the text, as a `gint`. -/
def readIndex (ext : String) : Option Int :=
  let text := ext.toList.dropWhile Char.isWhitespace
  let (negative, digits) := match text with
    | '-' :: rest => (true, rest)
    | '+' :: rest => (false, rest)
    | _ => (false, text)
  if ext = "" then some 0
  else if digits = [] ∨ !digits.all Char.isDigit then none
  else
    let n : Int := digits.foldl (fun n c => 10 * n + (c.toNat - '0'.toNat)) 0
    some (BitVec.ofInt 32 (max (-2 ^ 63) (min (2 ^ 63 - 1) (if negative then -n else n)))).toInt

def addItems (load : Load) (p : OperationNodePtr) : Nat → ServerOperation →
    Except OperationFault ServerOperation
  | 0, op => .ok op
  | n + 1, op => do
    let op ← op.sequenceAddItem load p
    addItems load p n op

/-- The path up to the last `/`, and what comes after. -/
def splitPath (path : String) : String × String :=
  let ext := (path.toList.reverse.takeWhile (· ≠ '/')).reverse
  (String.ofList (path.toList.take (path.toList.length - ext.length - 1)), String.ofList ext)

/-- `node_find_or_create`, for a path which is not longer than a number -/
def nodeFindOrCreateFrom (load : Load) : Nat → ServerOperation → String →
    Except OperationFault (ServerOperation × Option OperationNodePtr)
  | 0, op, _ => .ok (op, none)
  | length + 1, op, path =>
    if path.toList.head? ≠ some '/' then .ok (op, none)
    else
      match op.nodeFind path with
      | some p => .ok (op, some p)
      | none => do
        let (root, ext) := splitPath path
        let (op, found) ← nodeFindOrCreateFrom load length op root
        match found with
        | none => return (op, none)
        | some p =>
          match (op.node p).type with
          | .sequence =>
            match readIndex ext with
            | none => return (op, some p)
            | some index =>
              if index < 0 then return (op, some p)
              else do
                let op ← addItems load p (index.toNat + 1 - (op.node p).seqItems.length) op
                match op.nodeFind path with
                | none => .error .assertionFailed
                | some q => return (op, some q)
          | .sequenceItem =>
            match op.nodeFind path with
            | none => .error .assertionFailed
            | some q => return (op, some q)
          | _ => return (op, none)

def nodeFindOrCreate (load : Load) (path : String) :
    Except OperationFault (ServerOperation × Option OperationNodePtr) :=
  nodeFindOrCreateFrom load path.toList.length op path

/-- `gda_server_operation_del_item_from_sequence`, which always gives FALSE -/
def delItemFromSequence (itemPath : String) : ServerOperation × Bool :=
  let seqPath := String.ofList
    (itemPath.toList.reverse.dropWhile fun c => c.isDigit || c = '/').reverse
  match op.nodeFind seqPath with
  | none => (op, false)
  | some p =>
    if (op.node p).type ≠ .sequence ∨ (op.node p).seqItems.length = (op.node p).minItems then
      (op, false)
    else
      match op.nodeFind itemPath with
      | none => (op, false)
      | some item =>
        if (op.node item).type ≠ .sequenceItem then (op, false)
        else
          let op := op.nodeDestroy item
          (op.setNode p { op.node p with seqItems := (op.node p).seqItems.erase item }, false)

def filledSequence : Option OperationNodePtr :=
  op.allnodes.find? fun p => (op.node p).type = .sequence ∧ (op.node p).seqItems ≠ []

def clearSequence (p : OperationNodePtr) : ServerOperation :=
  let op := (op.node p).seqItems.foldl nodeDestroy op
  op.setNode p { op.node p with seqItems := [] }

def removeItems : Nat → ServerOperation → ServerOperation
  | 0, op => op
  | n + 1, op =>
    match op.filledSequence with
    | none => op
    | some p => removeItems n (op.clearSequence p)

/-- `gda_server_operation_load_data_from_xml`, with the paths of the elements -/
def loadDataFromXml (load : Load) (paths : List String) : Except OperationFault ServerOperation :=
  paths.foldlM (fun op path => (op.nodeFindOrCreate load path).map Prod.fst)
    (op.removeItems op.next)

end ServerOperation

inductive OperationCall where
  | addItemToSequence (seqPath : String)
  | delItemFromSequence (itemPath : String)
  | setValueAtPath (path : String)
  | loadDataFromXml (paths : List String)

namespace ServerOperation

def step (fuel : Nat) (op : ServerOperation) : OperationCall → Except OperationFault ServerOperation
  | .addItemToSequence seqPath =>
    (op.addItemToSequence (loadXmlSpec fuel) seqPath).map Prod.fst
  | .delItemFromSequence itemPath => .ok (op.delItemFromSequence itemPath).1
  | .setValueAtPath path => (op.nodeFindOrCreate (loadXmlSpec fuel) path).map Prod.fst
  | .loadDataFromXml paths => op.loadDataFromXml (loadXmlSpec fuel) paths

end ServerOperation

end LibGda
