import LibGda.TreeLoops
import Mathlib.Data.List.Nodup

/-! What _gda_tree_node_add_children makes of the children of a node, signal by signal. -/

namespace LibGda.TreeNodes

open DecimalText PathTree

variable {M N : Type} [DecidableEq M] [DecidableEq N]

structure WellFormed (root : N) (t : Heap M N) : Prop where
  linked : PathTree.Linked root (getChildren t) t.parent
  mgrs : ∀ n, ((t.children n).map (·.mgr)).Nodup
  length : ∀ n, ∀ tn ∈ t.children n, tn.length = tn.nodes.length

/-- A list of children for a manager: no node twice, and the ones which the manager does not have
yet are not in the tree. -/
structure Given (root : N) (t : Heap M N) (node : N) (mgr : M) (children : List N) : Prop where
  nodup : children.Nodup
  fresh : ∀ c ∈ children, c ∉ getChildrenForManager t node mgr →
    c ≠ root ∧ ∀ n, c ∉ getChildren t n

section Lists

variable {lists pre post : List (NodesList M N)} {mgr : M} {etn : NodesList M N}

def nodesOf (lists : List (NodesList M N)) : List N := lists.flatMap (·.nodes)

omit [DecidableEq M] [DecidableEq N] in
theorem nodesOf_split : nodesOf (pre ++ etn :: post) = nodesOf pre ++ etn.nodes ++ nodesOf post := by
  simp [nodesOf]

omit [DecidableEq N] in
theorem findList_absent (h : mgr ∉ lists.map (·.mgr))
    (hlength : ∀ tn ∈ lists, tn.length = tn.nodes.length) (found : Bool) (before n : Nat) :
    findList mgr lists found before n = (found, before, n + (nodesOf lists).length) := by
  induction lists generalizing n with
  | nil => rfl
  | cons tn lists ih =>
    rw [List.map_cons, List.mem_cons, not_or] at h
    obtain ⟨htn, hrest⟩ := List.forall_mem_cons.1 hlength
    have hne : tn.mgr ≠ mgr := fun heq => h.1 heq.symm
    rw [findList, if_neg hne, ih h.2 hrest, htn, nodesOf, nodesOf, List.flatMap_cons,
      List.length_append, Nat.add_assoc]

omit [DecidableEq N] in
theorem findList_present (hpre : mgr ∉ pre.map (·.mgr)) (hpost : mgr ∉ post.map (·.mgr))
    (hmgr : etn.mgr = mgr) (hlength : ∀ tn ∈ pre ++ etn :: post, tn.length = tn.nodes.length)
    (found : Bool) (before n : Nat) :
    findList mgr (pre ++ etn :: post) found before n =
      (true, n + (nodesOf pre).length, n + (nodesOf (pre ++ etn :: post)).length) := by
  induction pre generalizing n with
  | nil =>
    obtain ⟨htn, hrest⟩ := List.forall_mem_cons.1 hlength
    rw [List.nil_append, findList, if_pos hmgr, findList_absent hpost hrest, htn, nodesOf, nodesOf,
      nodesOf, List.flatMap_cons, List.length_append, Nat.add_assoc]
    rfl
  | cons tn pre ih =>
    rw [List.map_cons, List.mem_cons, not_or] at hpre
    obtain ⟨htn, hrest⟩ := List.forall_mem_cons.1 hlength
    have hne : tn.mgr ≠ mgr := fun heq => hpre.1 heq.symm
    rw [List.cons_append, findList, if_neg hne, ih hpre.2 hrest, htn]
    simp only [nodesOf, List.flatMap_cons, List.length_append, Nat.add_assoc]

omit [DecidableEq N] in
theorem map_other (f : NodesList M N → NodesList M N) (h : mgr ∉ lists.map (·.mgr)) :
    (lists.map fun tn => if tn.mgr = mgr then f tn else tn) = lists := by
  induction lists with
  | nil => rfl
  | cons tn lists ih =>
    rw [List.map_cons, List.mem_cons, not_or] at h
    have hne : tn.mgr ≠ mgr := fun heq => h.1 heq.symm
    rw [List.map_cons, if_neg hne, ih h.2]

omit [DecidableEq N] in
theorem map_split (f : NodesList M N → NodesList M N) (hpre : mgr ∉ pre.map (·.mgr))
    (hpost : mgr ∉ post.map (·.mgr)) (hmgr : etn.mgr = mgr) :
    ((pre ++ etn :: post).map fun tn => if tn.mgr = mgr then f tn else tn) =
      pre ++ f etn :: post := by
  rw [List.map_append, List.map_cons, map_other f hpre, map_other f hpost, if_pos hmgr]

omit [DecidableEq N] in
theorem filter_others (h : mgr ∉ lists.map (·.mgr)) :
    lists.filter (fun tn => decide (tn.mgr ≠ mgr)) = lists := by
  apply List.filter_eq_self.2
  intro tn htn
  apply decide_eq_true
  intro heq
  exact h (List.mem_map.2 ⟨tn, htn, heq⟩)

end Lists

structure Place (root : N) (t : Heap M N) (node : N) (mgr : M) (children : List N)
    (pre post : List (NodesList M N)) : Prop where
  wellFormed : WellFormed root t
  given : Given root t node mgr children
  pre_mgr : mgr ∉ pre.map (·.mgr)
  post_mgr : mgr ∉ post.map (·.mgr)
  nodes : nodesOf (t.children node) =
    nodesOf pre ++ getChildrenForManager t node mgr ++ nodesOf post
  others : (t.children node).filter (·.mgr ≠ mgr) = pre ++ post

/-- The nodes while the list of the manager is `nodes`. -/
structure Filled (t : Heap M N) (node : N) (mgr : M) (children : List N)
    (pre post : List (NodesList M N)) (nodes : List N) (s : Filling M N) : Prop where
  children_node : s.heap.children node = pre ++ ⟨mgr, nodes, nodes.length⟩ :: post
  children_off : ∀ n, n ≠ node → s.heap.children n = t.children n
  parent : s.heap.parent = (setParents t node children).parent
  count : s.nChildren = (getChildren s.heap node).length

section Filled

variable {root node x : N} {mgr : M} {t : Heap M N} {children nodes done rest : List N}
  {pre post : List (NodesList M N)} {s : Filling M N}

omit [DecidableEq M] in
theorem Filled.getChildren_node (h : Filled t node mgr children pre post nodes s) :
    getChildren s.heap node = nodesOf pre ++ nodes ++ nodesOf post := by
  rw [getChildren, h.children_node]
  exact nodesOf_split

omit [DecidableEq M] in
theorem Filled.getChildren_off (h : Filled t node mgr children pre post nodes s) {n : N}
    (hn : n ≠ node) : getChildren s.heap n = getChildren t n := by
  rw [getChildren, h.children_off n hn, getChildren]

omit [DecidableEq M] in
theorem Filled.emit (h : Filled t node mgr children pre post nodes s) (signal : Signal N) :
    Filled t node mgr children pre post nodes (emit s signal) :=
  ⟨h.children_node, h.children_off, h.parent, h.count⟩

omit [DecidableEq M] in
theorem Filled.signalChange (h : Filled t node mgr children pre post nodes s) :
    Filled t node mgr children pre post nodes (signalChange x s) :=
  ⟨h.children_node, h.children_off, h.parent, h.count⟩

theorem Filled.modify (hp : Place root t node mgr children pre post)
    (h : Filled t node mgr children pre post nodes s) (heap : Heap M N)
    (hchildren : heap.children = s.heap.children) (hparent : heap.parent = s.heap.parent)
    {nodes' : List N} {n : Nat} {f : NodesList M N → NodesList M N}
    (hf : f ⟨mgr, nodes, nodes.length⟩ = ⟨mgr, nodes', nodes'.length⟩)
    (hn : n + nodes.length = s.nChildren + nodes'.length) (emitted : List (Heap M N × Signal N)) :
    Filled t node mgr children pre post nodes' ⟨modifyList heap node mgr f, n, emitted⟩ := by
  have hlists : (modifyList heap node mgr f).children node =
      pre ++ ⟨mgr, nodes', nodes'.length⟩ :: post := by
    have hmgr : (NodesList.mk mgr nodes nodes.length).mgr = mgr := rfl
    have hsplit := map_split f hp.pre_mgr hp.post_mgr hmgr
    rw [hf, ← h.children_node] at hsplit
    simp only [modifyList, if_true, hchildren]
    exact hsplit
  refine ⟨hlists, ?_, hparent.trans h.parent, ?_⟩
  · intro m hm
    rw [← h.children_off m hm]
    simp only [modifyList, if_neg hm, hchildren]
  · have hcount := h.count
    rw [h.getChildren_node] at hcount
    simp only [getChildren, hlists]
    have hlen := congrArg List.length
      (@nodesOf_split M N pre post ⟨mgr, nodes', nodes'.length⟩)
    rw [nodesOf] at hlen
    rw [hlen]
    simp only [List.length_append] at hcount ⊢
    omega

end Filled

end LibGda.TreeNodes

/-! Who mirrors the tree by the signals of _gda_tree_node_add_children ends with the same tree. -/

namespace LibGda.TreeNodes

open DecimalText PathTree

variable {M N : Type} [DecidableEq M] [DecidableEq N]

def isToggle : Signal N → Bool
  | .nodeHasChildToggled _ => true
  | _ => false

def crossing (node : N) (event : Heap M N × Signal N) : Bool :=
  match event.2 with
  | .nodeInserted _ => (getChildren event.1 node).length = 1
  | .nodeDeleted _ => (getChildren event.1 node).length = 0
  | _ => false

def withToggle (node : N) (event : Heap M N × Signal N) : List (Heap M N × Signal N) :=
  if crossing node event then [event, (event.1, .nodeHasChildToggled node)] else [event]

/-- The reports stand exactly behind the signals with which the number of children changes between
zero and others. -/
def Toggled (node : N) (events : List (Heap M N × Signal N)) : Prop :=
  events = (events.filter fun event => !isToggle event.2).flatMap (withToggle node)

section Toggles

variable {root node : N} {events : List (Heap M N × Signal N)} {event : Heap M N × Signal N}
  {depth : Nat} {q : List Nat}

omit [DecidableEq M] [DecidableEq N] in
theorem filter_withToggle (h : isToggle event.2 = false) :
    ((withToggle node event).filter fun event => !isToggle event.2) = [event] := by
  rw [withToggle]
  have hreport : isToggle (Signal.nodeHasChildToggled node) = true := rfl
  by_cases hc : crossing node event = true
  · rw [if_pos hc]
    simp only [List.filter_cons, List.filter_nil, h, hreport, Bool.not_false, Bool.not_true, if_true,
      Bool.false_eq_true, if_false]
  · rw [if_neg hc]
    simp only [List.filter_cons, List.filter_nil, h, Bool.not_false, if_true]

omit [DecidableEq M] [DecidableEq N] in
theorem Toggled.append (h : Toggled node events) (hevent : isToggle event.2 = false) :
    Toggled node (events ++ withToggle node event) := by
  rw [Toggled, List.filter_append, filter_withToggle hevent, List.flatMap_append, ← h]
  simp

omit [DecidableEq M] in
theorem foldl_withToggle (hlinked : PathTree.Linked root (getChildren event.1) event.1.parent)
    (hq : nodeAt (getChildren event.1) root q = some node) (hdepth : q.length < depth)
    (mirror : List Nat → Option N) :
    (withToggle node event).foldl (listen root depth node) mirror =
      listen root depth node mirror event := by
  rw [withToggle]
  by_cases hc : crossing node event = true
  · rw [if_pos hc, List.foldl_cons, List.foldl_cons, List.foldl_nil, listen]
    rw [reported_other hlinked hq hdepth (by intro path h; cases h)]
  · rw [if_neg hc, List.foldl_cons, List.foldl_nil]

end Toggles

section Stages

variable {root node x e : N} {mgr : M} {t : Heap M N} {children nodes nodes' : List N}
  {pre post : List (NodesList M N)} {s s' : Filling M N} {q : List Nat} {depth : Nat}

structure Admissible (t : Heap M N) (node : N) (mgr : M) (children nodes : List N) : Prop where
  nodup : nodes.Nodup
  known : ∀ c ∈ nodes, c ∈ getChildrenForManager t node mgr ∨ c ∈ children

theorem Place.parent_of_old (hp : Place root t node mgr children pre post) {c n : N}
    (hc : c ∈ getChildren t n) : (setParents t node children).parent c = some n := by
  have hparent := hp.wellFormed.linked.parent_of hc
  simp only [setParents]
  by_cases hmem : c ∈ children
  · rw [if_pos hmem]
    by_cases hold : c ∈ getChildrenForManager t node mgr
    · have hnode : c ∈ getChildren t node := by
        rw [getChildren]
        apply hp.nodes ▸ (List.mem_append_left _ (List.mem_append_right _ hold))
      rw [← hp.wellFormed.linked.parent_of hnode, hparent]
    · exact absurd hc ((hp.given.fresh c hmem hold).2 n)
  · rw [if_neg hmem, hparent]

theorem Place.root_parent (hp : Place root t node mgr children pre post) :
    (setParents t node children).parent root = none := by
  have hroot := hp.wellFormed.linked.root_parent
  simp only [setParents]
  rw [if_neg, hroot]
  intro hmem
  by_cases hold : root ∈ getChildrenForManager t node mgr
  · have hnode : root ∈ getChildren t node := by
      rw [getChildren]
      apply hp.nodes ▸ (List.mem_append_left _ (List.mem_append_right _ hold))
    rw [hp.wellFormed.linked.parent_of hnode] at hroot
    cases hroot
  · exact (hp.given.fresh root hmem hold).1 rfl

theorem Filled.linked (hp : Place root t node mgr children pre post)
    (h : Filled t node mgr children pre post nodes s)
    (ha : Admissible t node mgr children nodes) :
    PathTree.Linked root (getChildren s.heap) s.heap.parent := by
  have hnodes : getChildren t node =
      nodesOf pre ++ getChildrenForManager t node mgr ++ nodesOf post := hp.nodes
  have hnodup := hp.wellFormed.linked.nodup node
  rw [hnodes] at hnodup
  have hside : ∀ c ∈ nodes, c ∉ nodesOf pre ∧ c ∉ nodesOf post := by
    intro c hc
    by_cases hold : c ∈ getChildrenForManager t node mgr
    · rw [List.nodup_append, List.nodup_append] at hnodup
      constructor
      · intro hpre
        exact hnodup.1.2.2 c hpre c hold rfl
      · intro hpost
        exact hnodup.2.2 c (List.mem_append_right _ hold) c hpost rfl
    · have hgiven := (ha.known c hc).resolve_left hold
      have hfresh := (hp.given.fresh c hgiven hold).2 node
      rw [hnodes, List.mem_append, List.mem_append, not_or, not_or] at hfresh
      exact ⟨hfresh.1.1, hfresh.2⟩
  rw [h.parent]
  refine ⟨hp.root_parent, ?_, ?_⟩
  · intro n c hc
    by_cases hn : n = node
    · subst hn
      rw [h.getChildren_node] at hc
      by_cases hold : c ∈ getChildren t n
      · exact hp.parent_of_old hold
      · have hmem : c ∈ children := by
          rw [hnodes] at hold
          simp only [List.mem_append, not_or] at hold hc
          have hcnodes : c ∈ nodes := by tauto
          exact (ha.known c hcnodes).resolve_left hold.1.2
        simp only [setParents, if_pos hmem]
    · rw [h.getChildren_off hn] at hc
      exact hp.parent_of_old hc
  · intro n
    by_cases hn : n = node
    · subst hn
      rw [h.getChildren_node]
      rw [List.nodup_append, List.nodup_append] at hnodup ⊢
      refine ⟨⟨hnodup.1.1, ha.nodup, ?_⟩, hnodup.2.1, ?_⟩
      · intro a ha' b hb hab
        subst hab
        exact (hside a hb).1 ha'
      · intro a ha' b hb hab
        subst hab
        rcases List.mem_append.1 ha' with ha' | ha'
        · exact hnodup.2.2 a (List.mem_append_left _ ha') a hb rfl
        · exact (hside a ha').2 hb
    · rw [h.getChildren_off hn]
      exact hp.wellFormed.linked.nodup n

theorem Filled.stands (hp : Place root t node mgr children pre post)
    (hq : nodeAt (getChildren t) root q = some node)
    (h : Filled t node mgr children pre post nodes s) :
    nodeAt (getChildren s.heap) root q = some node := by
  have hedit : Edited root node q (getChildren t) (getChildren s.heap) := by
    refine ⟨?_, hq, ?_⟩
    · intro n hn
      exact (h.getChildren_off hn).symm
    · intro p hp'
      exact hp.wellFormed.linked.path_unique hq hp'
  exact hedit.stands'

theorem Filled.edited (hp : Place root t node mgr children pre post)
    (hq : nodeAt (getChildren t) root q = some node)
    (h : Filled t node mgr children pre post nodes s)
    (ha : Admissible t node mgr children nodes)
    (h' : Filled t node mgr children pre post nodes' s') :
    Edited root node q (getChildren s.heap) (getChildren s'.heap) := by
  refine ⟨?_, h.stands hp hq, ?_⟩
  · intro n hn
    rw [h.getChildren_off hn, h'.getChildren_off hn]
  · intro p hp'
    exact (h.linked hp ha).path_unique (h.stands hp hq) hp'

/-- Where the call is: `done` are the new children so far, `enodes` the old ones still to come. -/
structure Stage (root : N) (t : Heap M N) (node : N) (mgr : M) (children : List N)
    (pre post : List (NodesList M N)) (depth : Nat) (nodes : List N) (s : Filling M N) : Prop where
  filled : Filled t node mgr children pre post nodes s
  admissible : Admissible t node mgr children nodes
  mirrored : s.emitted.foldl (listen root depth node) (nodeAt (getChildren t) root) =
    nodeAt (getChildren s.heap) root
  toggled : Toggled node s.emitted

theorem Stage.next (hp : Place root t node mgr children pre post)
    (hq : nodeAt (getChildren t) root q = some node) (hdepth : q.length < depth)
    (h : Stage root t node mgr children pre post depth nodes s) {at' : Filling M N}
    (hat : Filled t node mgr children pre post nodes' at')
    (hfilled : Filled t node mgr children pre post nodes' s')
    (ha : Admissible t node mgr children nodes') (signal : Signal N)
    (hemitted : s'.emitted = s.emitted ++ withToggle node (at'.heap, signal))
    (hsignal : isToggle signal = false)
    (hlisten : listen root depth node (nodeAt (getChildren s.heap) root) (at'.heap, signal) =
      nodeAt (getChildren s'.heap) root) :
    Stage root t node mgr children pre post depth nodes' s' := by
  refine ⟨hfilled, ha, ?_, ?_⟩
  · rw [hemitted, List.foldl_append, h.mirrored,
      foldl_withToggle (hat.linked hp ha) (hat.stands hp hq) hdepth]
    exact hlisten
  · rw [hemitted]
    exact h.toggled.append hsignal

theorem Stage.change (hp : Place root t node mgr children pre post)
    (hq : nodeAt (getChildren t) root q = some node) (hdepth : q.length < depth)
    (h : Stage root t node mgr children pre post depth nodes s) :
    Stage root t node mgr children pre post depth nodes (signalChange x s) := by
  apply h.next hp hq hdepth h.filled h.filled.signalChange h.admissible (.nodeChanged x)
  · rfl
  · rfl
  · rw [listen, reported_other (h.filled.linked hp h.admissible) (h.filled.stands hp hq) hdepth
      (by intro path heq; cases heq)]
    rfl

omit [DecidableEq N] in
theorem insertIdx_append (before behind : List N) :
    (before ++ behind).insertIdx before.length x = before ++ x :: behind := by
  induction before with
  | nil => rfl
  | cons c before ih => rw [List.cons_append, List.length_cons, List.insertIdx_succ_cons, ih,
      List.cons_append]

omit [DecidableEq M] [DecidableEq N] in
theorem emit_toggle (signal : Signal N) (n : Nat)
    (hcount : crossing node (s.heap, signal) = decide (s.nChildren = n)) :
    (if (emit s signal).nChildren = n then emit (emit s signal) (.nodeHasChildToggled node)
      else emit s signal).emitted = s.emitted ++ withToggle node (s.heap, signal) := by
  rw [withToggle, hcount]
  by_cases hn : s.nChildren = n
  · have hn' : (emit s signal).nChildren = n := hn
    rw [if_pos hn', if_pos (decide_eq_true hn)]
    simp [emit]
  · have hn' : ¬ (emit s signal).nChildren = n := hn
    rw [if_neg hn', if_neg (by simpa using hn)]
    rfl

theorem Stage.insertion (hp : Place root t node mgr children pre post)
    (hq : nodeAt (getChildren t) root q = some node) (hdepth : q.length < depth)
    (h : Stage root t node mgr children pre post depth nodes s)
    (ha : Admissible t node mgr children (nodes ++ [x])) :
    Stage root t node mgr children pre post depth (nodes ++ [x])
      (signalInsertion node mgr x s) := by
  have hf : appendNode x ⟨mgr, nodes, nodes.length⟩ =
      ⟨mgr, nodes ++ [x], (nodes ++ [x]).length⟩ := by simp [appendNode]
  have hn : s.nChildren + 1 + nodes.length = s.nChildren + (nodes ++ [x]).length := by
    rw [List.length_append, List.length_singleton]
    omega
  have hinserted := h.filled.modify hp s.heap rfl rfl hf hn s.emitted
  have hfilled : Filled t node mgr children pre post (nodes ++ [x]) (signalInsertion node mgr x s) := by
    rw [signalInsertion]
    split
    · exact (hinserted.emit _).emit _
    · exact hinserted.emit _
  have hlinked := hinserted.linked hp ha
  have hstands := hinserted.stands hp hq
  apply h.next hp hq hdepth hinserted hfilled ha (.nodeInserted x)
  · rw [signalInsertion]
    apply emit_toggle
    rw [crossing, ← hinserted.count]
  · rfl
  · have hat : (getChildren (modifyList s.heap node mgr (appendNode x)) node)[
        (nodesOf pre ++ nodes).length]? = some x := by
      rw [hinserted.getChildren_node]
      simp
    have hpath := nodeAt_concat hstands hat
    have hlen : (q ++ [(nodesOf pre ++ nodes).length]).length ≤ depth := by
      rw [List.length_append, List.length_singleton]
      exact hdepth
    have hkids : getChildren (modifyList s.heap node mgr (appendNode x)) node =
        (getChildren s.heap node).insertIdx (nodesOf pre ++ nodes).length x := by
      rw [hinserted.getChildren_node, h.filled.getChildren_node, insertIdx_append]
      simp
    have hmirror := (hinserted.edited hp hq ha h.filled).insertAt hkids (by
      rw [h.filled.getChildren_node]
      exact (List.prefix_append _ _).length_le)
    rw [listen, reported_other hlinked hstands hdepth (by intro path heq; cases heq)]
    dsimp only
    rw [getNodePath_eq hlinked hpath (by simp) hlen, heap_signalInsertion, ← hmirror]
    dsimp only
    rw [indexes_joinPath]

theorem Stage.deletion (hp : Place root t node mgr children pre post)
    (hq : nodeAt (getChildren t) root q = some node) (hdepth : q.length < depth)
    {done rest : List N}
    (h : Stage root t node mgr children pre post depth (done ++ e :: rest) s) :
    Stage root t node mgr children pre post depth (done ++ rest)
      (signalDeletion node mgr (decimal ((nodesOf pre).length + done.length)) done.length e s) := by
  have herase : (done ++ e :: rest).eraseIdx done.length = done ++ rest := by
    rw [List.eraseIdx_append_of_length_le (Nat.le_refl _), Nat.sub_self, List.eraseIdx_cons_zero]
  have hf : deleteLink done.length ⟨mgr, done ++ e :: rest, (done ++ e :: rest).length⟩ =
      ⟨mgr, done ++ rest, (done ++ rest).length⟩ := by
    rw [deleteLink, herase]
    simp
  have hn : s.nChildren - 1 + (done ++ e :: rest).length = s.nChildren + (done ++ rest).length := by
    have hcount := h.filled.count
    rw [h.filled.getChildren_node] at hcount
    simp only [List.length_append, List.length_cons] at hcount ⊢
    omega
  have hdeleted := h.filled.modify hp (unref s.heap e) rfl rfl hf hn s.emitted
  have ha : Admissible t node mgr children (done ++ rest) := by
    have hsub : (done ++ rest).Sublist (done ++ e :: rest) :=
      (List.sublist_cons_self e rest).append_left done
    refine ⟨hsub.nodup h.admissible.nodup, ?_⟩
    intro c hc
    exact h.admissible.known c (hsub.subset hc)
  have hfilled : Filled t node mgr children pre post (done ++ rest)
      (signalDeletion node mgr (decimal ((nodesOf pre).length + done.length)) done.length e s) := by
    rw [signalDeletion]
    split
    · exact (hdeleted.emit _).emit _
    · exact hdeleted.emit _
  have hlinked := hdeleted.linked hp ha
  have hstands := hdeleted.stands hp hq
  apply h.next hp hq hdepth hdeleted hfilled ha
    (.nodeDeleted (decimal ((nodesOf pre).length + done.length)))
  · rw [signalDeletion]
    apply emit_toggle
    rw [crossing, ← hdeleted.count]
  · rfl
  · have hkids : getChildren (modifyList (unref s.heap e) node mgr (deleteLink done.length)) node =
        (getChildren s.heap node).eraseIdx ((nodesOf pre).length + done.length) := by
      have hlt : done.length < (done ++ e :: rest).length := by
        rw [List.length_append, List.length_cons]
        omega
      rw [hdeleted.getChildren_node, h.filled.getChildren_node, List.append_assoc (nodesOf pre),
        List.append_assoc (nodesOf pre), List.eraseIdx_append_of_length_le (Nat.le_add_right _ _),
        Nat.add_sub_cancel_left, List.eraseIdx_append_of_lt_length hlt, herase]
    have hmirror := (h.filled.edited hp hq h.admissible hdeleted).deleteAt hkids
    have hreported := reported_deleted hlinked hstands hdepth
      (decimal ((nodesOf pre).length + done.length))
    have hpath : q.map decimal ++ [decimal ((nodesOf pre).length + done.length)] =
        (q ++ [(nodesOf pre).length + done.length]).map decimal := by
      rw [List.map_append, List.map_singleton]
    rw [hpath] at hreported
    rw [listen, hreported, heap_signalDeletion, ← hmirror]
    dsimp only
    rw [indexes_joinPath]

omit [DecidableEq N] in
theorem Place.admissible (hp : Place root t node mgr children pre post) {done clist : List N}
    (hdone : done ++ x :: clist = children) : Admissible t node mgr children (done ++ [x]) := by
  have hsub : (done ++ [x]).Sublist children := by
    rw [← hdone, List.append_cons done x clist]
    exact List.sublist_append_left _ _
  refine ⟨hsub.nodup hp.given.nodup, ?_⟩
  intro c hc
  exact .inr (hsub.subset hc)

theorem Place.carried (hp : Place root t node mgr children pre post)
    (hq : nodeAt (getChildren t) root q = some node) (hdepth : q.length < depth) :
    Carried node mgr children (nodesOf pre).length fun done enodes s =>
      Stage root t node mgr children pre post depth (done ++ enodes) s := by
  refine ⟨?_, ?_, ?_⟩
  · intro done x enodes s h
    rw [List.append_assoc, List.singleton_append]
    exact h.change hp hq hdepth
  · intro done x clist s hdone h
    rw [List.append_nil] at h ⊢
    exact h.insertion hp hq hdepth (hp.admissible hdone)
  · intro done e enodes s h
    exact h.deletion hp hq hdepth

omit [DecidableEq N] in
theorem getChildrenForManager_split {etn : NodesList M N}
    (hsplit : t.children node = pre ++ etn :: post) (hpre : mgr ∉ pre.map (·.mgr))
    (hmgr : etn.mgr = mgr) : getChildrenForManager t node mgr = etn.nodes := by
  have hnone : pre.find? (fun tn => decide (tn.mgr = mgr)) = none := by
    apply List.find?_eq_none.2
    intro tn htn hdec
    exact hpre (List.mem_map.2 ⟨tn, htn, of_decide_eq_true hdec⟩)
  rw [getChildrenForManager, hsplit, List.find?_append, hnone, Option.none_or,
    List.find?_cons_of_pos (by rw [hmgr, decide_eq_true_iff])]

theorem Stage.start (hp : Place root t node mgr children pre post) (heap : Heap M N)
    (hparent : heap.parent = (setParents t node children).parent)
    (hchildren : heap.children node = pre ++ ⟨mgr, getChildrenForManager t node mgr,
      (getChildrenForManager t node mgr).length⟩ :: post)
    (hoff : ∀ n, n ≠ node → heap.children n = t.children n) :
    Stage root t node mgr children pre post depth (getChildrenForManager t node mgr)
      ⟨heap, (getChildren t node).length, []⟩ := by
  have hnodes : getChildren heap node = getChildren t node := by
    rw [getChildren, hchildren]
    exact nodesOf_split.trans hp.nodes.symm
  refine ⟨⟨hchildren, hoff, hparent, ?_⟩, ⟨?_, ?_⟩, ?_, rfl⟩
  · rw [hnodes]
  · have hnodup := hp.wellFormed.linked.nodup node
    have hall : getChildren t node =
        nodesOf pre ++ getChildrenForManager t node mgr ++ nodesOf post := hp.nodes
    rw [hall, List.nodup_append, List.nodup_append] at hnodup
    exact hnodup.1.2.1
  · intro c hc
    exact .inl hc
  · have hkids : getChildren heap = getChildren t := by
      funext n
      by_cases hn : n = node
      · rw [hn, hnodes]
      · rw [getChildren, hoff n hn, getChildren]
    rw [List.foldl_nil, hkids]

theorem addChildren_stage (hwf : WellFormed root t) (hgiven : Given root t node mgr children)
    (hq : nodeAt (getChildren t) root q = some node) (hdepth : q.length < depth) :
    ∃ pre post, Place root t node mgr children pre post ∧
      Stage root t node mgr children pre post depth children (addChildren t node mgr children) := by
  by_cases hmem : mgr ∈ (t.children node).map (·.mgr)
  · obtain ⟨etn, hetn, hmgr⟩ := List.mem_map.1 hmem
    obtain ⟨pre, post, hsplit⟩ := List.append_of_mem hetn
    have hmgrs := hwf.mgrs node
    have hlength := hwf.length node
    rw [hsplit] at hmgrs hlength
    rw [List.map_append, List.map_cons, hmgr] at hmgrs
    have hpre : mgr ∉ pre.map (·.mgr) := by
      intro hin
      exact (List.nodup_append.1 hmgrs).2.2 mgr hin mgr List.mem_cons_self rfl
    have hpost : mgr ∉ post.map (·.mgr) :=
      (List.nodup_cons.1 (List.nodup_append.1 hmgrs).2.1).1
    have hold := getChildrenForManager_split hsplit hpre hmgr
    have hp : Place root t node mgr children pre post := by
      refine ⟨hwf, hgiven, hpre, hpost, ?_, ?_⟩
      · rw [hsplit, nodesOf_split, hold]
      · rw [hsplit, List.filter_append, filter_others hpre,
          List.filter_cons_of_neg (by simp [hmgr]), filter_others hpost]
    have hetn' : etn = ⟨mgr, getChildrenForManager t node mgr,
        (getChildrenForManager t node mgr).length⟩ := by
      have hl := hlength etn (List.mem_append_right _ List.mem_cons_self)
      rw [hold]
      cases etn with
      | mk m nodes length => simp_all
    have hstart : Stage root t node mgr children pre post depth
        (getChildrenForManager t node mgr)
        ⟨setParents t node children, (getChildren t node).length, []⟩ := by
      apply Stage.start hp _ rfl
      · rw [← hetn']
        exact hsplit
      · intro n hn
        rfl
    have hfind := findList_present hpre hpost hmgr hlength false 0 0
    rw [← hsplit, Nat.zero_add, Nat.zero_add] at hfind
    have hend := (hp.carried hq hdepth).addChildren_found hfind hstart
    rw [List.append_nil] at hend
    exact ⟨pre, post, hp, hend⟩
  · have hold := getChildrenForManager_absent hmem
    have hp : Place root t node mgr children (t.children node) [] := by
      refine ⟨hwf, hgiven, hmem, List.not_mem_nil, ?_, ?_⟩
      · rw [hold, List.append_nil]
        exact (List.append_nil _).symm
      · rw [filter_others hmem, List.append_nil]
    have hfind := findList_absent hmem (hwf.length node) false 0 0
    rw [Nat.zero_add] at hfind
    have hempty : Stage root t node mgr children (t.children node) [] depth
        (getChildrenForManager t node mgr)
        ⟨newList (setParents t node children) node mgr, (getChildren t node).length, []⟩ := by
      apply Stage.start hp (newList (setParents t node children) node mgr) rfl
      · rw [hold]
        simp only [newList, if_true]
        rfl
      · intro n hn
        simp only [newList, if_neg hn]
        rfl
    rw [hold] at hempty
    have hend := (hp.carried hq hdepth).addChildren_absent hfind hempty
    rw [List.append_nil] at hend
    exact ⟨t.children node, [], hp, hend⟩

end Stages

end LibGda.TreeNodes

/-! The trees which calls of _gda_tree_node_add_children make. -/

namespace LibGda.TreeNodes

open DecimalText PathTree

variable {M N : Type} [DecidableEq M] [DecidableEq N]

inductive Grown (root : N) : Heap M N → Prop where
  | alone {t : Heap M N} (hroot : t.parent root = none) (hnone : ∀ n, t.children n = []) :
    Grown root t
  | added {t : Heap M N} {node : N} {mgr : M} {children : List N} {q : List Nat} (ht : Grown root t)
    (hq : nodeAt (getChildren t) root q = some node) (hgiven : Given root t node mgr children) :
    Grown root (addChildren t node mgr children).heap

variable {root node : N} {t : Heap M N} {mgr : M} {children : List N} {q : List Nat}
  {pre post : List (NodesList M N)} {s : Filling M N} {nodes : List N}

theorem Filled.wellFormed (hp : Place root t node mgr children pre post)
    (h : Filled t node mgr children pre post nodes s)
    (ha : Admissible t node mgr children nodes) : WellFormed root s.heap := by
  have hmem : ∀ tn ∈ pre ++ post, tn ∈ t.children node := by
    intro tn htn
    rw [← hp.others] at htn
    exact List.mem_of_mem_filter htn
  refine ⟨h.linked hp ha, ?_, ?_⟩
  · intro n
    by_cases hn : n = node
    · subst hn
      have hsub : (pre ++ post).Sublist (t.children n) := by
        rw [← hp.others]
        exact List.filter_sublist
      have hnodup := (hsub.map (·.mgr)).nodup (hp.wellFormed.mgrs n)
      rw [List.map_append] at hnodup
      rw [h.children_node, List.map_append, List.map_cons]
      apply List.nodup_middle.2
      apply List.nodup_cons.2
      refine ⟨?_, hnodup⟩
      intro hin
      rcases List.mem_append.1 hin with hin | hin
      · exact hp.pre_mgr hin
      · exact hp.post_mgr hin
    · rw [h.children_off n hn]
      exact hp.wellFormed.mgrs n
  · intro n tn htn
    by_cases hn : n = node
    · subst hn
      rw [h.children_node] at htn
      rcases List.mem_append.1 htn with htn | htn
      · exact hp.wellFormed.length n tn (hmem tn (List.mem_append_left _ htn))
      · rcases List.mem_cons.1 htn with htn | htn
        · rw [htn]
        · exact hp.wellFormed.length n tn (hmem tn (List.mem_append_right _ htn))
    · rw [h.children_off n hn] at htn
      exact hp.wellFormed.length n tn htn

theorem Grown.wellFormed (h : Grown root t) : WellFormed root t := by
  induction h with
  | alone hroot hnone =>
    refine ⟨⟨hroot, ?_, ?_⟩, ?_, ?_⟩
    · intro n c hc
      rw [getChildren, hnone] at hc
      cases hc
    · intro n
      rw [getChildren, hnone]
      exact List.nodup_nil
    · intro n
      rw [hnone]
      exact List.nodup_nil
    · intro n tn htn
      rw [hnone] at htn
      cases htn
  | added ht hq hgiven ih =>
    obtain ⟨pre, post, hp, hstage⟩ := addChildren_stage ih hgiven hq (Nat.lt_succ_self _)
    exact hstage.filled.wellFormed hp hstage.admissible

/-- One call: the children, the listener's tree, the paths and the reports. -/
theorem addChildren_mirrored (ht : Grown root t) (hq : nodeAt (getChildren t) root q = some node)
    (hgiven : Given root t node mgr children) :
    (getChildrenForManager (addChildren t node mgr children).heap node mgr = children ∧
      (⟨mgr, children, children.length⟩ : NodesList M N) ∈
        (addChildren t node mgr children).heap.children node ∧
      (∀ m, m ≠ mgr → getChildrenForManager (addChildren t node mgr children).heap node m =
        getChildrenForManager t node m) ∧
      ∀ n, n ≠ node → (addChildren t node mgr children).heap.children n = t.children n) ∧
    (∀ depth, q.length < depth →
      (addChildren t node mgr children).emitted.foldl (listen root depth node)
        (nodeAt (getChildren t) root) =
      nodeAt (getChildren (addChildren t node mgr children).heap) root) ∧
    (∀ u, u = t ∨ u = (addChildren t node mgr children).heap → ∀ path n depth, path ≠ [] →
      nodeAt (getChildren u) root path = some n → path.length ≤ depth →
        ∃ text, getNodePath u root depth n = some text ∧ getNode u root text = some n) ∧
    Toggled node (addChildren t node mgr children).emitted := by
  have hwf := ht.wellFormed
  obtain ⟨pre, post, hp, hstage⟩ := addChildren_stage hwf hgiven hq (Nat.lt_succ_self _)
  have hfilled := hstage.filled
  refine ⟨⟨?_, ?_, ?_, hfilled.children_off⟩, ?_, ?_, hstage.toggled⟩
  · exact (addChildren_contents t node mgr children).nodes.nodes_eq
  · rw [hfilled.children_node]
    exact List.mem_append_right _ List.mem_cons_self
  · intro m hm
    exact (addChildren_contents t node mgr children).others m hm
  · intro depth hdepth
    obtain ⟨_, _, _, hmirror⟩ := addChildren_stage hwf hgiven hq hdepth
    exact hmirror.mirrored
  · intro u hu path n depth hne hpath hdepth
    have hwfu : WellFormed root u := by
      rcases hu with rfl | rfl
      · exact hwf
      · exact hfilled.wellFormed hp hstage.admissible
    exact getNode_getNodePath hwfu.linked hwfu.length hpath hne hdepth

def rootAlone : Heap Nat Nat := ⟨fun _ => none, fun _ => [], fun _ => 1⟩

theorem given_to_rootAlone : Given 0 rootAlone 0 7 [1, 2] := by
  refine ⟨by decide, ?_⟩
  intro c hc _
  refine ⟨?_, ?_⟩
  · intro heq
    subst heq
    exact absurd hc (by decide)
  · intro n
    exact List.not_mem_nil

/-- The two children of a root change their places. -/
theorem addChildren_mirrored_reordered :
    (addChildren (addChildren rootAlone 0 7 [1, 2]).heap 0 7 [2, 1]).emitted.foldl (listen 0 1 0)
      (nodeAt (getChildren (addChildren rootAlone 0 7 [1, 2]).heap) 0) =
    nodeAt (getChildren (addChildren (addChildren rootAlone 0 7 [1, 2]).heap 0 7 [2, 1]).heap) 0 := by
  have hgiven : Given 0 (addChildren rootAlone 0 7 [1, 2]).heap 0 7 [2, 1] := by
    refine ⟨by decide, ?_⟩
    intro c hc hnew
    refine absurd ?_ hnew
    revert c
    decide
  have hgrown : Grown 0 (addChildren rootAlone 0 7 [1, 2]).heap :=
    Grown.added (Grown.alone rfl fun _ => rfl) (q := []) rfl given_to_rootAlone
  exact (addChildren_mirrored hgrown (q := []) rfl hgiven).2.1 1 (by decide)

end LibGda.TreeNodes
