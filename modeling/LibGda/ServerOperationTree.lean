import LibGda.ServerOperation

/-! What the nodes of an operation should be: a forest whose roots are the top nodes. The nodes
which are made for the elements of a sequence never know that sequence. -/

namespace LibGda

open RunInvariant

namespace ServerOperation

variable {op op' op'' : ServerOperation} {p q : OperationNodePtr} {load : Load}

inductive Reachable (op : ServerOperation) : OperationNodePtr → Prop where
  | top {p : OperationNodePtr} (h : p ∈ op.topnodes) : Reachable op p
  | held {p q : OperationNodePtr} (hq : Reachable op q) (h : p ∈ op.contents q) : Reachable op p

/-- The nodes are the ones which are reached, each knows the node which holds it and is found at
its path, and the sequences have as many items as they should. -/
structure WellFormed (op : ServerOperation) : Prop where
  allnodes : ∀ p, p ∈ op.allnodes ↔ op.Reachable p
  topParent : ∀ p ∈ op.topnodes, (op.node p).parent = none
  parent : ∀ q, op.Reachable q → ∀ p ∈ op.contents q, (op.node p).parent = some q
  found : ∀ p, op.Reachable p → op.nodeFind (op.completePath p) = some p
  items : ∀ p, op.Reachable p → (op.node p).type = .sequence →
    (op.node p).minItems ≤ (op.node p).seqItems.length ∧
      (op.node p).seqItems.length ≤ (op.node p).maxItems

def Made (op : ServerOperation) : Prop :=
  ∀ p ∈ op.allnodes, p < op.next

structure SameNode (n n' : OperationNode) : Prop where
  type : n'.type = n.type
  parent : n'.parent = n.parent
  pathName : n'.pathName = n.pathName
  seqTmpl : n'.seqTmpl = n.seqTmpl

theorem SameNode.of_eq {n n' : OperationNode} (h : n' = n) : SameNode n n' := by
  subst h
  exact ⟨rfl, rfl, rfl, rfl⟩

theorem SameNode.trans {n n' n'' : OperationNode} (h : SameNode n n') (h' : SameNode n' n'') :
    SameNode n n'' :=
  ⟨h'.type.trans h.type, h'.parent.trans h.parent, h'.pathName.trans h.pathName,
    h'.seqTmpl.trans h.seqTmpl⟩

structure Grows (op op' : ServerOperation) : Prop where
  next : op.next ≤ op'.next
  made : op'.Made
  same : ∀ p < op.next, SameNode (op.node p) (op'.node p)

theorem Grows.refl (h : op.Made) : Grows op op :=
  ⟨Nat.le_refl _, h, fun _ _ => SameNode.of_eq rfl⟩

theorem Grows.extend (h : Grows op op') (hnext : op'.next ≤ op''.next) (hmade : op''.Made)
    (hsame : ∀ p < op.next, SameNode (op'.node p) (op''.node p)) : Grows op op'' where
  next := Nat.le_trans h.next hnext
  made := hmade
  same p hp := (h.same p hp).trans (hsame p hp)

theorem Grows.trans (h : Grows op op') (h' : Grows op' op'') : Grows op op'' :=
  h.extend h'.next h'.made fun p hp => h'.same p (Nat.lt_of_lt_of_le hp h.next)

theorem node_setNode_of_ne (n : OperationNode) (h : q ≠ p) :
    (op.setNode p n).node q = op.node q := by
  simp [setNode, Function.update, h]

@[simp] theorem node_setNode (n : OperationNode) : (op.setNode p n).node p = n := by
  simp [setNode, Function.update]

@[simp] theorem next_setNode (n : OperationNode) : (op.setNode p n).next = op.next := rfl

@[simp] theorem node_nodeNew (n : OperationNode) : (op.nodeNew n).node op.next = n :=
  node_setNode n

@[simp] theorem next_nodeNew (n : OperationNode) : (op.nodeNew n).next = op.next + 1 := rfl

theorem nodeNew_grows (h : op.Made) (n : OperationNode) : Grows op (op.nodeNew n) := by
  constructor
  · exact Nat.le_succ _
  · intro p hp
    exact Nat.lt_succ_of_lt (h p hp)
  · intro p hp
    exact SameNode.of_eq (node_setNode_of_ne n (Nat.ne_of_lt hp))

theorem insertNode_grows (h : op.Made) (hp : p < op.next) : Grows op (op.insertNode p) := by
  constructor
  · exact Nat.le_refl _
  · intro q hq
    rcases List.mem_append.mp hq with hq | hq
    · exact h q hq
    · exact List.mem_singleton.mp hq ▸ hp
  · exact fun _ _ => SameNode.of_eq rfl

theorem mem_of_mem_foldl_erase {freed l : List OperationNodePtr}
    (h : p ∈ freed.foldl List.erase l) : p ∈ l := by
  induction freed generalizing l with
  | nil => exact h
  | cons q freed ih => exact List.mem_of_mem_erase (ih h)

theorem nodeDestroy_grows (h : op.Made) (p : OperationNodePtr) : Grows op (op.nodeDestroy p) := by
  constructor
  · exact Nat.le_refl _
  · intro q hq
    exact h q (mem_of_mem_foldl_erase hq)
  · exact fun _ _ => SameNode.of_eq rfl

theorem destroyOld_grows (h : op.Made) (retlist : List OperationNodePtr) (path : String) :
    Grows op (op.destroyOld retlist path).1 := by
  rw [destroyOld]
  cases op.nodeFind path with
  | none => exact Grows.refl h
  | some old => exact nodeDestroy_grows h old

theorem mem_of_mem_destroyOld {retlist : List OperationNodePtr} {path : String}
    (h : p ∈ (op.destroyOld retlist path).2) : p ∈ retlist := by
  rw [destroyOld] at h
  cases hf : op.nodeFind path with
  | none => simpa [hf] using h
  | some old =>
    rw [hf] at h
    exact List.mem_of_mem_erase h

theorem nodeFind_mem {path : String} (h : op.nodeFind path = some p) : p ∈ op.allnodes := by
  rw [nodeFind] at h
  split at h
  · exact List.mem_of_find?_eq_some h
  · cases h

theorem completePath_of_nodeFind {path : String} (h : op.nodeFind path = some p) :
    op.completePath p = path := by
  rw [nodeFind] at h
  split at h
  · simpa using List.find?_some h
  · cases h

def Loads (load : Load) : Prop :=
  ∀ op op' specs root nodes, op.Made → load op specs root = .ok (op', nodes) →
    Grows op op' ∧ ∀ p ∈ nodes, op.next ≤ p ∧ p < op'.next ∧
      (op'.node p).parent = root.bind op.nodeFind

theorem insertItem_grows {first : ServerOperation} {nodes : List OperationNodePtr}
    (h : Grows first op) (hp : p < op.next) (hnodes : ∀ q ∈ nodes, first.next ≤ q) :
    Grows first (op.insertItem p nodes) := by
  rw [insertItem]
  apply h.extend
  · exact Nat.le_succ _
  · intro q hq
    rcases List.mem_append.mp hq with hq | hq
    · exact Nat.lt_succ_of_lt (h.made q hq)
    · obtain rfl := List.mem_singleton.mp hq
      exact Nat.lt_succ_self _
  · intro q hq
    have hnot : q ∉ nodes := fun hm => Nat.lt_irrefl _ (Nat.lt_of_lt_of_le hq (hnodes q hm))
    have hlt : q < op.next := Nat.lt_of_lt_of_le hq h.next
    simp only [if_neg hnot]
    have hnew := fun n => (nodeNew_grows h.made n).same q hlt
    rw [node_setNode_of_ne _ (Nat.ne_of_lt hlt)]
    by_cases hqp : q = p
    · subst hqp
      rw [node_setNode]
      exact ⟨(hnew _).type, (hnew _).parent, (hnew _).pathName, (hnew _).seqTmpl⟩
    · rw [node_setNode_of_ne _ hqp]
      exact hnew _

theorem sequenceAddItem_grows (hload : Loads load) (h : op.Made) (hp : p < op.next)
    (hadd : op.sequenceAddItem load p = .ok op') : Grows op op' := by
  rw [sequenceAddItem] at hadd
  obtain ⟨⟨mid, nodes⟩, hmid, hadd⟩ := bind_ok hadd
  obtain ⟨hgrows, hnodes⟩ := hload _ _ _ _ _ h hmid
  by_cases hempty : nodes = []
  · simp [hempty] at hadd
  · simp only [hempty, if_false] at hadd
    obtain rfl := Except.ok.inj hadd
    exact insertItem_grows hgrows (Nat.lt_of_lt_of_le hp hgrows.next) fun q hq => (hnodes q hq).1

theorem addItemToSequence_grows (hload : Loads load) (h : op.Made) {seqPath : String} {n : Nat}
    (hadd : op.addItemToSequence load seqPath = .ok (op', n)) : Grows op op' := by
  rw [addItemToSequence] at hadd
  cases hf : op.nodeFind seqPath with
  | none =>
    rw [hf] at hadd
    cases hadd
    exact Grows.refl h
  | some p =>
    rw [hf] at hadd
    simp only at hadd
    split at hadd
    · cases hadd
      exact Grows.refl h
    split at hadd
    · cases hadd
      exact Grows.refl h
    · obtain ⟨mid, hmid, hadd⟩ := bind_ok hadd
      cases hadd
      exact sequenceAddItem_grows hload h (h p (nodeFind_mem hf)) hmid

theorem addMinItems_grows (hload : Loads load) {seqPath : String} {n : Nat} (h : op.Made)
    (hadd : addMinItems load seqPath n op = .ok op') : Grows op op' := by
  induction n generalizing op with
  | zero =>
    cases hadd
    exact Grows.refl h
  | succ n ih =>
    obtain ⟨⟨mid, index⟩, hmid, hadd⟩ := bind_ok hadd
    have hgrows := addItemToSequence_grows hload h hmid
    exact hgrows.trans (ih hgrows.made hadd)

structure LoadedNode (spec : OperationSpec) (parent : Option OperationNodePtr)
    (op : ServerOperation) (p : OperationNodePtr) : Prop where
  lt : p < op.next
  parent : (op.node p).parent = parent
  pathName : (op.node p).pathName = spec.id
  template : spec.isSequence = true → (op.node p).type = .sequence ∧
    ∃ t ∈ (op.node p).seqTmpl, t < op.next ∧ (op.node t).parent ≠ some p

theorem LoadedNode.grows {spec : OperationSpec} {parent : Option OperationNodePtr}
    (h : LoadedNode spec parent op p) (hg : Grows op op') : LoadedNode spec parent op' p where
  lt := Nat.lt_of_lt_of_le h.lt hg.next
  parent := (hg.same p h.lt).parent.trans h.parent
  pathName := (hg.same p h.lt).pathName.trans h.pathName
  template hs := by
    obtain ⟨htype, t, ht, hlt, hne⟩ := h.template hs
    refine ⟨(hg.same p h.lt).type.trans htype, t, ?_, Nat.lt_of_lt_of_le hlt hg.next, ?_⟩
    · rwa [(hg.same p h.lt).seqTmpl]
    · rwa [(hg.same t hlt).parent]

theorem loadNode_cases (hload : Loads load) {parent : Option OperationNodePtr}
    {root : Option String} {r r' : ServerOperation × List OperationNodePtr} {spec : OperationSpec}
    (h : r.1.Made) (hr : loadNode load parent root r spec = .ok r') :
    Grows r.1 r'.1 ∧ ∃ p, r.1.next ≤ p ∧ LoadedNode spec parent r'.1 p ∧
      r'.2 = (r.1.destroyOld r.2 (root.getD "" ++ ("/" ++ spec.id))).2 ++ [p] := by
  have hold := destroyOld_grows h r.2 (root.getD "" ++ ("/" ++ spec.id))
  simp only [loadNode.eq_def] at hr
  generalize r.1.destroyOld r.2 (root.getD "" ++ ("/" ++ spec.id)) = old at hold hr ⊢
  obtain ⟨op, retlist⟩ := old
  cases spec with
  | leaf element id optional =>
    obtain rfl := Except.ok.inj hr
    let node : OperationNode :=
      { parent := parent, type := element.nodeType, optional := optional, pathName := id }
    have hnew := nodeNew_grows hold.made node
    have hins : Grows (op.nodeNew node) ((op.nodeNew node).insertNode op.next) :=
      insertNode_grows hnew.made (Nat.lt_succ_self _)
    refine ⟨hold.trans (hnew.trans hins), op.next, hold.next, ?_, rfl⟩
    have hnode : ((op.nodeNew node).insertNode op.next).node op.next = node := node_nodeNew node
    constructor
    · exact Nat.lt_succ_self _
    · rw [hnode]
    · rw [hnode]
      rfl
    · intro hs
      cases hs
  | sequence id optional minItems maxItems children =>
    have hnew := nodeNew_grows hold.made (sequenceNode parent id optional minItems maxItems
      children)
    obtain ⟨⟨mid, seqTmpl⟩, hmid, hr⟩ := bind_ok hr
    obtain ⟨hgrows, hnodes⟩ := hload _ _ _ _ _ hnew.made hmid
    have hlt : op.next < mid.next := Nat.lt_of_lt_of_le (Nat.lt_succ_self _) hgrows.next
    by_cases hempty : seqTmpl = []
    · simp [hempty] at hr
    · simp only [hempty, if_false] at hr
      obtain ⟨last, hlast, hr⟩ := bind_ok hr
      obtain rfl := Except.ok.inj hr
      have hset : Grows op (mid.setNode op.next { mid.node op.next with seqTmpl := seqTmpl }) :=
        (hnew.trans hgrows).extend (Nat.le_refl _) hgrows.made fun p hp =>
          SameNode.of_eq (node_setNode_of_ne _ (Nat.ne_of_lt hp))
      have hins := hset.trans (insertNode_grows hset.made hlt)
      have hmin := addMinItems_grows hload hins.made hlast
      refine ⟨hold.trans (hins.trans hmin), op.next, hold.next, LoadedNode.grows ?_ hmin, rfl⟩
      have hmade := hgrows.same op.next (Nat.lt_succ_self _)
      rw [node_nodeNew] at hmade
      have hnode : ((mid.setNode op.next { mid.node op.next with seqTmpl := seqTmpl }).insertNode
          op.next).node op.next = { mid.node op.next with seqTmpl := seqTmpl } := node_setNode _
      constructor
      · exact hlt
      · rw [hnode]
        exact hmade.parent
      · rw [hnode]
        exact hmade.pathName
      · intro _
        rw [hnode]
        obtain ⟨t, ht⟩ := List.exists_mem_of_ne_nil _ hempty
        obtain ⟨hge, htlt, htparent⟩ := hnodes t ht
        refine ⟨hmade.type, t, ht, htlt, ?_⟩
        have hne : t ≠ op.next := Nat.ne_of_gt hge
        have hsame : ((mid.setNode op.next { mid.node op.next with seqTmpl := seqTmpl }).insertNode
            op.next).node t = mid.node t := node_setNode_of_ne _ hne
        rw [hsame, htparent]
        -- the node of the sequence is not in the list yet, so it is not found
        intro hfound
        have hmem : op.next ∈ (op.nodeNew (sequenceNode parent id optional minItems maxItems
            children)).allnodes := nodeFind_mem hfound
        exact Nat.lt_irrefl _ (hold.made _ hmem)

structure LoadedSince (first : ServerOperation) (parent : Option OperationNodePtr)
    (r : ServerOperation × List OperationNodePtr) : Prop where
  grows : Grows first r.1
  nodes : ∀ p ∈ r.2, first.next ≤ p ∧ p < r.1.next ∧ (r.1.node p).parent = parent

theorem LoadedSince.loadNode (hload : Loads load) {parent : Option OperationNodePtr}
    {root : Option String} {r r' : ServerOperation × List OperationNodePtr} {spec : OperationSpec}
    (h : LoadedSince op parent r) (hr : loadNode load parent root r spec = .ok r') :
    LoadedSince op parent r' := by
  obtain ⟨hgrows, p, hnext, hp, hlist⟩ := loadNode_cases hload h.grows.made hr
  refine ⟨h.grows.trans hgrows, ?_⟩
  intro q hq
  rw [hlist] at hq
  rcases List.mem_append.mp hq with hq | hq
  · obtain ⟨hge, hlt, hparent⟩ := h.nodes q (mem_of_mem_destroyOld hq)
    exact ⟨hge, Nat.lt_of_lt_of_le hlt hgrows.next, (hgrows.same q hlt).parent.trans hparent⟩
  · obtain rfl := List.mem_singleton.mp hq
    exact ⟨Nat.le_trans h.grows.next hnext, hp.lt, hp.parent⟩

theorem loadXmlSpec_loads (fuel : Nat) : Loads (loadXmlSpec fuel) := by
  induction fuel with
  | zero =>
    intro op op' specs root nodes _ h
    cases h
  | succ fuel ih =>
    intro op op' specs root nodes hmade h
    have hsince : LoadedSince op (root.bind op.nodeFind) (op', nodes) := by
      apply foldlM_keeps _ _ h
      · exact fun r spec _ r' hr hstep => hr.loadNode ih hstep
      · exact ⟨Grows.refl hmade, fun p hp => absurd hp (List.not_mem_nil)⟩
    exact ⟨hsince.grows, hsince.nodes⟩

theorem not_wellFormed_of_loadedNode {spec : OperationSpec} {parent : Option OperationNodePtr}
    (h : LoadedNode spec parent op p) (hs : spec.isSequence = true) (hp : p ∈ op.topnodes) :
    ¬ op.WellFormed := by
  intro hwf
  obtain ⟨htype, t, ht, -, hne⟩ := h.template hs
  apply hne
  apply hwf.parent p (.top hp) t
  rw [contents, htype]
  exact List.mem_append_left _ ht

theorem completePath_of_top (hp : p < op.next) (hparent : (op.node p).parent = none) :
    op.completePath p = "/" ++ (op.node p).pathName := by
  have hportion : op.pathPortion p = (op.node p).pathName := by
    rw [pathPortion, hparent]
    cases (op.node p).type <;> rfl
  obtain ⟨n, hn⟩ := Nat.exists_eq_succ_of_ne_zero
    (Nat.ne_of_gt (Nat.lt_of_le_of_lt (Nat.zero_le p) hp))
  rw [completePath, hn, completePathFrom, hparent, ← hportion]

theorem slash_append_inj (s t : String) :
    "/" ++ s = Option.getD none "" ++ ("/" ++ t) ↔ s = t := by
  rw [← String.toList_inj, ← String.toList_inj]
  simp

structure LoadedTop (specs : List OperationSpec) (r : ServerOperation × List OperationNodePtr) :
    Prop where
  made : r.1.Made
  sequences : ∀ spec ∈ specs, spec.isSequence = true → ∃ p ∈ r.2, LoadedNode spec none r.1 p

theorem LoadedTop.loadNode (hload : Loads load) {specs : List OperationSpec}
    {r r' : ServerOperation × List OperationNodePtr} {spec : OperationSpec}
    (h : LoadedTop specs r) (hnew : spec.id ∉ specs.map OperationSpec.id)
    (hr : loadNode load none none r spec = .ok r') : LoadedTop (specs ++ [spec]) r' := by
  obtain ⟨hgrows, p, hnext, hp, hlist⟩ := loadNode_cases hload h.made hr
  refine ⟨hgrows.made, ?_⟩
  intro s hs hseq
  rcases List.mem_append.mp hs with hs | hs
  · obtain ⟨q, hq, hloaded⟩ := h.sequences s hs hseq
    refine ⟨q, ?_, hloaded.grows hgrows⟩
    rw [hlist]
    apply List.mem_append_left
    rw [destroyOld]
    cases hf : r.1.nodeFind (Option.getD none "" ++ ("/" ++ spec.id)) with
    | none => exact hq
    | some old =>
      apply (List.mem_erase_of_ne _).mpr hq
      rintro rfl
      -- the node answers to its own name, which is not the name of the element
      have hpath := completePath_of_nodeFind hf
      rw [completePath_of_top hloaded.lt hloaded.parent, hloaded.pathName] at hpath
      have hid : s.id = spec.id := (slash_append_inj _ _).mp hpath
      exact hnew (hid ▸ List.mem_map_of_mem hs)
  · obtain rfl := List.mem_singleton.mp hs
    refine ⟨p, ?_, hp⟩
    rw [hlist]
    exact List.mem_append_right _ (List.mem_singleton_self p)

theorem loadedTop_foldlM (hload : Loads load) {specs rest : List OperationSpec}
    {r r' : ServerOperation × List OperationNodePtr} (h : LoadedTop specs r)
    (hnodup : ((specs ++ rest).map OperationSpec.id).Nodup)
    (hr : rest.foldlM (loadNode load none none) r = .ok r') : LoadedTop (specs ++ rest) r' := by
  induction rest generalizing specs r with
  | nil =>
    obtain rfl := Except.ok.inj hr
    rwa [List.append_nil]
  | cons spec rest ih =>
    rw [List.foldlM_cons] at hr
    obtain ⟨mid, hmid, hr⟩ := bind_ok hr
    rw [List.append_cons] at hnodup ⊢
    have hnew : spec.id ∉ specs.map OperationSpec.id := by
      intro hmem
      rw [List.map_append, List.map_append, List.append_assoc] at hnodup
      exact (List.nodup_append.mp hnodup).2.2 _ hmem _ (by simp) rfl
    exact ih (h.loadNode hload hnew hmid) hnodup hr

theorem not_wellFormed_new {fuel : Nat} {specs : List OperationSpec}
    (hids : (specs.map OperationSpec.id).Nodup) (hnew : new fuel specs = .ok op)
    {spec : OperationSpec} (hspec : spec ∈ specs) (hseq : spec.isSequence = true) :
    ¬ op.WellFormed := by
  obtain ⟨⟨last, topnodes⟩, hload, hnew⟩ := bind_ok hnew
  obtain rfl := Except.ok.inj hnew
  cases fuel with
  | zero => cases hload
  | succ fuel =>
    have hempty : LoadedTop [] (({} : ServerOperation), []) :=
      ⟨fun p hp => absurd hp List.not_mem_nil, fun s hs => absurd hs List.not_mem_nil⟩
    have htop := loadedTop_foldlM (loadXmlSpec_loads fuel) hempty hids hload
    obtain ⟨p, hp, hloaded⟩ := htop.sequences spec hspec hseq
    have hloaded' : LoadedNode spec none { last with topnodes := topnodes } p :=
      ⟨hloaded.lt, hloaded.parent, hloaded.pathName, hloaded.template⟩
    exact not_wellFormed_of_loadedNode hloaded' hseq hp

end ServerOperation

end LibGda
