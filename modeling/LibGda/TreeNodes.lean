import LibGda.DecimalText
import LibGda.PathTree

/-! The nodes of a tree and the children which each manager provides: gda-tree-node.c, and the
paths of gda-tree.c. -/

namespace LibGda.TreeNodes

open DecimalText (decimal number)

structure NodesList (M N : Type) where
  mgr : M
  nodes : List N
  length : Nat
deriving DecidableEq

structure Heap (M N : Type) where
  parent : N → Option N
  children : N → List (NodesList M N)
  refs : N → Int

inductive Signal (N : Type) where
  | nodeChanged (node : N)
  | nodeInserted (node : N)
  | nodeHasChildToggled (node : N)
  | nodeDeleted (relativePath : List UInt8)
deriving DecidableEq

section Reading

variable {M N : Type} [DecidableEq M] [DecidableEq N]

def getChildren (t : Heap M N) (node : N) : List N := (t.children node).flatMap (·.nodes)

/-- gda_tree_node_get_parent: never the private root. -/
def getParent (t : Heap M N) (node : N) : Option N :=
  match t.parent node with
  | none => none
  | some parent => if t.parent parent = none then none else some parent

def childIndexIn : List (NodesList M N) → Nat → Option N
  | [], _ => none
  | tn :: parts, i => if i < tn.length then tn.nodes[i]? else childIndexIn parts (i - tn.length)

def getChildIndex (t : Heap M N) (node : N) (index : Nat) : Option N :=
  childIndexIn (t.children node) index

def getChildrenForManager (t : Heap M N) (node : N) (mgr : M) : List N :=
  match (t.children node).find? (·.mgr = mgr) with
  | none => []
  | some tn => tn.nodes

/-- g_slist_index, which is also the loop of _get_child_pos. -/
def indexOf (list : List N) (child : N) : Option Nat :=
  match list with
  | [] => none
  | c :: rest => if c = child then some 0 else (indexOf rest child).map (· + 1)

/-- build_node_path; the number bounds how many parents are followed. -/
def buildNodePath (t : Heap M N) (root : N) : Nat → N → List (List UInt8) →
    Option (List (List UInt8))
  | 0, _, _ => none
  | depth + 1, node, array =>
    match getParent t node with
    | some parent =>
      match indexOf (getChildren t parent) node with
      | none => none
      | some i => buildNodePath t root depth parent (decimal i :: array)
    | none =>
      match indexOf (getChildren t root) node with
      | none => none
      | some i => some (decimal i :: array)

def joinPath : List (List UInt8) → List UInt8
  | [] => []
  | [segment] => segment
  | segment :: rest => segment ++ 58 :: joinPath rest

def getNodePath (t : Heap M N) (root : N) (depth : Nat) (node : N) : Option (List UInt8) :=
  (buildNodePath t root depth node []).map joinPath

/-- split_indexed_path: the segment read so far, and what is left of the path. -/
def splitIndexedPath : List UInt8 → List UInt8 → Option (List (List UInt8))
  | start, [] => some (if start = [] then [] else [start])
  | start, c :: rest =>
    if c = 58 then
      match splitIndexedPath [] rest with
      | none => none
      | some list => some (if start = [] then list else start :: list)
    else if c < 48 ∨ 57 < c then none
    else splitIndexedPath (start ++ [c]) rest

/-- The loop of real_gda_tree_get_nodes_in_path. -/
def lastNode (t : Heap M N) : N → List (List UInt8) → Option N
  | node, [] => some node
  | parent, segment :: segments =>
    match getChildIndex t parent (number 0 segment) with
    | none => none
    | some node => lastNode t node segments

def getNode (t : Heap M N) (root : N) (path : List UInt8) : Option N :=
  match splitIndexedPath [] path with
  | none => none
  | some [] => none
  | some segments => lastNode t root segments

/-- What the root emits in the end for a signal of a node: m_node_changed, m_node_inserted,
m_node_has_child_toggled and m_node_deleted hand it up. -/
def reported (t : Heap M N) : Nat → N → Signal N → Option (Signal N)
  | 0, _, _ => none
  | depth + 1, reporting, signal =>
    match t.parent reporting with
    | none => some signal
    | some parent =>
      match signal with
      | .nodeDeleted relativePath =>
        match indexOf (getChildren t parent) reporting with
        | none => none
        | some pos => reported t depth parent (.nodeDeleted (decimal pos ++ 58 :: relativePath))
      | signal => reported t depth parent signal

end Reading

section AddChildren

variable {M N : Type} [DecidableEq M] [DecidableEq N]

/-- Where _gda_tree_node_add_children is: the nodes, their number, and the signals emitted by the
node so far, each with the nodes as they were. -/
structure Filling (M N : Type) where
  heap : Heap M N
  nChildren : Nat
  emitted : List (Heap M N × Signal N)

def emit (s : Filling M N) (signal : Signal N) : Filling M N :=
  { s with emitted := s.emitted ++ [(s.heap, signal)] }

def unref (t : Heap M N) (node : N) : Heap M N :=
  { t with refs := fun n => if n = node then t.refs n - 1 else t.refs n }

def modifyList (t : Heap M N) (node : N) (mgr : M) (f : NodesList M N → NodesList M N) :
    Heap M N :=
  { t with children := fun n =>
      if n = node then (t.children n).map fun tn => if tn.mgr = mgr then f tn else tn
      else t.children n }

def findList (mgr : M) : List (NodesList M N) → Bool → Nat → Nat → Bool × Nat × Nat
  | [], found, before, n => (found, before, n)
  | tn :: rest, found, before, n =>
    if tn.mgr = mgr then findList mgr rest true n (n + tn.length)
    else findList mgr rest found before (n + tn.length)

def appendNode (child : N) (etn : NodesList M N) : NodesList M N :=
  { etn with nodes := etn.nodes ++ [child], length := etn.length + 1 }

def deleteLink (link : Nat) (etn : NodesList M N) : NodesList M N :=
  { etn with nodes := etn.nodes.eraseIdx link, length := etn.length - 1 }

def signalChange (child : N) (s : Filling M N) : Filling M N :=
  let s := emit s (.nodeChanged child)
  { s with heap := unref s.heap child }

def signalInsertion (node : N) (mgr : M) (child : N) (s : Filling M N) : Filling M N :=
  let s := { s with
    heap := modifyList s.heap node mgr (appendNode child)
    nChildren := s.nChildren + 1 }
  let s := emit s (.nodeInserted child)
  if s.nChildren = 1 then emit s (.nodeHasChildToggled node) else s

def signalDeletion (node : N) (mgr : M) (rpath : List UInt8) (link : Nat) (child : N)
    (s : Filling M N) : Filling M N :=
  let s := { s with
    heap := modifyList (unref s.heap child) node mgr (deleteLink link)
    nChildren := s.nChildren - 1 }
  let s := emit s (.nodeDeleted rpath)
  if s.nChildren = 0 then emit s (.nodeHasChildToggled node) else s

/-- The loops over `enodes` which delete; the first one stops at the node which comes next. -/
def deleteNodes (node : N) (mgr : M) (rpath : List UInt8) (stop : Option N) (link : Nat) :
    List N → Filling M N → List N × Filling M N
  | [], s => ([], s)
  | e :: enodes, s =>
    if stop = some e then (e :: enodes, s)
    else deleteNodes node mgr rpath stop link enodes (signalDeletion node mgr rpath link e s)

/-- The loop over the new list where the manager has a list already: `enodes` are the links from
the number `link` on. -/
def updateNodes (node : N) (mgr : M) : List N → List N → Nat → Nat → Filling M N →
    List N × Nat × Nat × Filling M N
  | [], enodes, pos, link, s => (enodes, pos, link, s)
  | child :: clist, [], pos, link, s =>
    updateNodes node mgr clist [] (pos + 1) (link + 1) (signalInsertion node mgr child s)
  | child :: clist, e :: enodes, pos, link, s =>
    if child = e then
      updateNodes node mgr clist enodes (pos + 1) (link + 1) (signalChange child s)
    else
      match deleteNodes node mgr (decimal pos) (some child) link (e :: enodes) s with
      | (_ :: enodes, s) =>
        updateNodes node mgr clist enodes (pos + 1) (link + 1) (signalChange child s)
      | ([], s) =>
        updateNodes node mgr clist [] (pos + 1) (link + 1) (signalInsertion node mgr child s)

def setParents (t : Heap M N) (node : N) (children : List N) : Heap M N :=
  { t with parent := fun n => if n ∈ children then some node else t.parent n }

def newList (t : Heap M N) (node : N) (mgr : M) : Heap M N :=
  { t with children := fun n =>
      if n = node then t.children n ++ [⟨mgr, [], 0⟩] else t.children n }

def addChildren (t : Heap M N) (node : N) (mgr : M) (children : List N) : Filling M N :=
  let (found, nbBeforeEtn, nChildren) := findList mgr (t.children node) false 0 0
  let t := setParents t node children
  if found then
    let (enodes, pos, link, s) := updateNodes node mgr children
      (getChildrenForManager t node mgr) nbBeforeEtn 0 ⟨t, nChildren, []⟩
    (deleteNodes node mgr (decimal pos) none link enodes s).2
  else
    children.foldl (fun s child => signalInsertion node mgr child s)
      ⟨newList t node mgr, nChildren, []⟩

end AddChildren

section Mirror

variable {M N : Type} [DecidableEq M] [DecidableEq N]

def indexes (path : List UInt8) : List Nat :=
  match splitIndexedPath [] path with
  | none => []
  | some segments => segments.map (number 0)

def listen (root : N) (depth : Nat) (node : N) (mirror : List Nat → Option N)
    (event : Heap M N × Signal N) : List Nat → Option N :=
  match reported event.1 depth node event.2 with
  | some (.nodeInserted child) =>
    match getNodePath event.1 root depth child with
    | some path =>
      PathTree.insertAt (indexes path) (PathTree.nodeAt (getChildren event.1) child) mirror
    | none => mirror
  | some (.nodeDeleted path) => PathTree.deleteAt (indexes path) mirror
  | _ => mirror

end Mirror

end LibGda.TreeNodes

/-! Paths as texts, and what they name. -/

namespace LibGda.TreeNodes

open DecimalText PathTree

section Texts

def IsSegment (segment : List UInt8) : Prop := segment ≠ [] ∧ ∀ b ∈ segment, IsDigit b

theorem isSegment_decimal (n : Nat) : IsSegment (decimal n) :=
  ⟨decimal_ne_nil n, isDigit_of_mem_decimal n⟩

theorem digit_plain {b : UInt8} (h : IsDigit b) : b ≠ 58 ∧ ¬ (b < 48 ∨ 57 < b) := by
  rw [UInt8.lt_iff_toNat_lt, UInt8.lt_iff_toNat_lt]
  obtain ⟨hlow, hhigh⟩ := h
  constructor
  · intro heq
    subst heq
    exact absurd hhigh (by decide)
  · intro hout
    rcases hout with hout | hout
    · exact absurd hout (Nat.not_lt.2 hlow)
    · exact absurd hout (Nat.not_lt.2 hhigh)

theorem splitIndexedPath_digits {start digits : List UInt8} (rest : List UInt8)
    (h : ∀ b ∈ digits, IsDigit b) :
    splitIndexedPath start (digits ++ rest) = splitIndexedPath (start ++ digits) rest := by
  induction digits generalizing start with
  | nil => simp
  | cons b digits ih =>
    obtain ⟨hb, hdigits⟩ := List.forall_mem_cons.1 h
    obtain ⟨hcolon, hrange⟩ := digit_plain hb
    rw [List.cons_append, splitIndexedPath, if_neg hcolon, if_neg hrange, ih hdigits,
      List.append_assoc, List.singleton_append]

theorem splitIndexedPath_joinPath {segments : List (List UInt8)}
    (h : ∀ segment ∈ segments, IsSegment segment) :
    splitIndexedPath [] (joinPath segments) = some segments := by
  induction segments with
  | nil => rfl
  | cons segment rest ih =>
    obtain ⟨⟨hne, hdigits⟩, hrest⟩ := List.forall_mem_cons.1 h
    cases rest with
    | nil =>
      have hsplit := @splitIndexedPath_digits [] segment [] hdigits
      rw [List.append_nil, List.nil_append] at hsplit
      rw [joinPath, hsplit, splitIndexedPath, if_neg hne]
    | cons next rest =>
      rw [joinPath, splitIndexedPath_digits _ hdigits, List.nil_append, splitIndexedPath, if_pos rfl,
        ih hrest]
      exact congrArg some (if_neg hne)
      simp

theorem splitIndexedPath_numbers (path : List Nat) :
    splitIndexedPath [] (joinPath (path.map decimal)) = some (path.map decimal) := by
  apply splitIndexedPath_joinPath
  intro segment hsegment
  obtain ⟨n, -, rfl⟩ := List.mem_map.1 hsegment
  exact isSegment_decimal n

theorem number_map_decimal (path : List Nat) : (path.map decimal).map (number 0) = path := by
  rw [List.map_map]
  have hid : number 0 ∘ decimal = id := funext number_decimal
  rw [hid, List.map_id]

theorem indexes_joinPath (path : List Nat) : indexes (joinPath (path.map decimal)) = path := by
  rw [indexes, splitIndexedPath_numbers]
  exact number_map_decimal path

theorem joinPath_cons (segment : List UInt8) {rest : List (List UInt8)} (h : rest ≠ []) :
    joinPath (segment :: rest) = segment ++ 58 :: joinPath rest := by
  cases rest with
  | nil => exact absurd rfl h
  | cons next rest => rfl

theorem joinPath_concat (segments : List (List UInt8)) (a b : List UInt8) :
    joinPath (segments ++ [a ++ 58 :: b]) = joinPath (segments ++ [a, b]) := by
  induction segments with
  | nil => rfl
  | cons segment segments ih =>
    rw [List.cons_append, List.cons_append, joinPath_cons segment (by simp),
      joinPath_cons segment (by simp), ih]

end Texts

section Naming

variable {M N : Type} {t : Heap M N} {root node n c : N} {path q : List Nat} {depth i : Nat}

theorem childIndexIn_eq {lists : List (NodesList M N)} (hlength : ∀ tn ∈ lists, tn.length = tn.nodes.length)
    (i : Nat) : childIndexIn lists i = (lists.flatMap (·.nodes))[i]? := by
  induction lists generalizing i with
  | nil => rfl
  | cons tn lists ih =>
    obtain ⟨htn, hrest⟩ := List.forall_mem_cons.1 hlength
    rw [childIndexIn, htn, List.flatMap_cons]
    by_cases hi : i < tn.nodes.length
    · rw [if_pos hi, List.getElem?_append_left hi]
    · rw [if_neg hi, ih hrest, List.getElem?_append_right (Nat.not_lt.1 hi)]

theorem lastNode_eq (hlength : ∀ n, ∀ tn ∈ t.children n, tn.length = tn.nodes.length)
    (path : List Nat) :
    lastNode t n (path.map decimal) = nodeAt (getChildren t) n path := by
  induction path generalizing n with
  | nil => rfl
  | cons i path ih =>
    rw [List.map_cons, lastNode, number_decimal, getChildIndex, childIndexIn_eq (hlength n),
      nodeAt_cons_eq, getChildren]
    cases ((t.children n).flatMap (·.nodes))[i]? with
    | none => rfl
    | some c => exact ih

variable [DecidableEq N]

theorem indexOf_getElem {list : List N} (hnodup : list.Nodup) (hi : list[i]? = some c) :
    indexOf list c = some i := by
  induction list generalizing i with
  | nil => cases hi
  | cons d list ih =>
    rw [indexOf]
    obtain ⟨hd, hrest⟩ := List.nodup_cons.1 hnodup
    cases i with
    | zero =>
      cases hi
      rw [if_pos rfl]
    | succ i =>
      have hmem : c ∈ list := List.mem_of_getElem? hi
      have hne : d ≠ c := fun h => hd (h ▸ hmem)
      rw [if_neg hne, ih hrest hi, Option.map_some]

theorem buildNodePath_eq (h : PathTree.Linked root (getChildren t) t.parent)
    (hpath : nodeAt (getChildren t) root path = some n) (hne : path ≠ [])
    (hdepth : path.length ≤ depth) (array : List (List UInt8)) :
    buildNodePath t root depth n array = some (path.map decimal ++ array) := by
  induction path using List.reverseRecOn generalizing n depth array with
  | nil => exact absurd rfl hne
  | append_singleton q i ih =>
    obtain ⟨d, hparent, hq, hi⟩ := h.parent_nodeAt hpath
    have hindex := indexOf_getElem (h.nodup d) hi
    rw [List.length_append, List.length_singleton] at hdepth
    obtain ⟨depth, rfl⟩ := Nat.exists_eq_succ_of_ne_zero (Nat.ne_of_gt (Nat.lt_of_lt_of_le
      (Nat.succ_pos _) hdepth))
    rw [buildNodePath, getParent, hparent]
    rcases List.eq_nil_or_concat q with hnil | ⟨q', j, hq'⟩
    · subst hnil
      rw [nodeAt_nil] at hq
      cases hq
      simp only [h.root_parent, if_true, hindex]
      rfl
    · rw [List.concat_eq_append] at hq'
      have hqne : q ≠ [] := by
        rw [hq']
        simp
      rw [hq'] at hq
      obtain ⟨e, he, -, -⟩ := h.parent_nodeAt hq
      rw [← hq'] at hq
      have hsome : t.parent d ≠ none := by
        rw [he]
        exact Option.some_ne_none e
      simp only [if_neg hsome, hindex]
      rw [ih hq hqne (Nat.le_of_succ_le_succ hdepth), List.map_append, List.append_assoc]
      rfl

theorem getNodePath_eq (h : PathTree.Linked root (getChildren t) t.parent)
    (hpath : nodeAt (getChildren t) root path = some n) (hne : path ≠ [])
    (hdepth : path.length ≤ depth) :
    getNodePath t root depth n = some (joinPath (path.map decimal)) := by
  rw [getNodePath, buildNodePath_eq h hpath hne hdepth, List.append_nil, Option.map_some]

theorem getNode_getNodePath (h : PathTree.Linked root (getChildren t) t.parent)
    (hlength : ∀ n, ∀ tn ∈ t.children n, tn.length = tn.nodes.length)
    (hpath : nodeAt (getChildren t) root path = some n) (hne : path ≠ [])
    (hdepth : path.length ≤ depth) :
    ∃ text, getNodePath t root depth n = some text ∧ getNode t root text = some n := by
  refine ⟨_, getNodePath_eq h hpath hne hdepth, ?_⟩
  rw [getNode, splitIndexedPath_numbers, ← hpath, ← lastNode_eq hlength path]
  cases path with
  | nil => exact absurd rfl hne
  | cons i path => rfl

theorem reported_deleted (h : PathTree.Linked root (getChildren t) t.parent)
    (hq : nodeAt (getChildren t) root q = some node) (hdepth : q.length < depth)
    (relativePath : List UInt8) :
    reported t depth node (.nodeDeleted relativePath) =
      some (.nodeDeleted (joinPath (q.map decimal ++ [relativePath]))) := by
  induction q using List.reverseRecOn generalizing node depth relativePath with
  | nil =>
    obtain ⟨depth, rfl⟩ := Nat.exists_eq_succ_of_ne_zero (Nat.ne_of_gt hdepth)
    rw [nodeAt_nil] at hq
    cases hq
    rw [reported, h.root_parent]
    rfl
  | append_singleton q i ih =>
    obtain ⟨d, hparent, hdq, hi⟩ := h.parent_nodeAt hq
    rw [List.length_append, List.length_singleton] at hdepth
    obtain ⟨depth, rfl⟩ := Nat.exists_eq_succ_of_ne_zero (Nat.ne_of_gt (Nat.lt_of_le_of_lt
      (Nat.zero_le _) hdepth))
    simp only [reported, hparent, indexOf_getElem (h.nodup d) hi]
    rw [ih hdq (Nat.lt_of_succ_lt_succ hdepth), joinPath_concat, List.map_append, List.append_assoc]
    rfl

theorem reported_other (h : PathTree.Linked root (getChildren t) t.parent)
    (hq : nodeAt (getChildren t) root q = some node) (hdepth : q.length < depth) {signal : Signal N}
    (hsignal : ∀ relativePath, signal ≠ .nodeDeleted relativePath) :
    reported t depth node signal = some signal := by
  induction q using List.reverseRecOn generalizing node depth with
  | nil =>
    obtain ⟨depth, rfl⟩ := Nat.exists_eq_succ_of_ne_zero (Nat.ne_of_gt hdepth)
    rw [nodeAt_nil] at hq
    cases hq
    rw [reported, h.root_parent]
  | append_singleton q i ih =>
    obtain ⟨d, hparent, hdq, hi⟩ := h.parent_nodeAt hq
    rw [List.length_append, List.length_singleton] at hdepth
    obtain ⟨depth, rfl⟩ := Nat.exists_eq_succ_of_ne_zero (Nat.ne_of_gt (Nat.lt_of_le_of_lt
      (Nat.zero_le _) hdepth))
    have hup := ih hdq (Nat.lt_of_succ_lt_succ hdepth)
    cases signal with
    | nodeDeleted relativePath => exact absurd rfl (hsignal relativePath)
    | nodeChanged c => simp only [reported, hparent, hup]
    | nodeInserted c => simp only [reported, hparent, hup]
    | nodeHasChildToggled c => simp only [reported, hparent, hup]

end Naming

end LibGda.TreeNodes
