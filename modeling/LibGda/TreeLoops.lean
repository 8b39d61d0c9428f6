import LibGda.TreeNodes

/-! The loops of _gda_tree_node_add_children, with what the three signals carry along. -/

namespace LibGda.TreeNodes

open DecimalText

variable {M N : Type} [DecidableEq M] [DecidableEq N]

structure Carried (node : N) (mgr : M) (children : List N) (before : Nat)
    (P : List N → List N → Filling M N → Prop) : Prop where
  change : ∀ {done x enodes s}, P done (x :: enodes) s → P (done ++ [x]) enodes (signalChange x s)
  insertion : ∀ {done x clist s}, done ++ x :: clist = children → P done [] s →
    P (done ++ [x]) [] (signalInsertion node mgr x s)
  deletion : ∀ {done e enodes s}, P done (e :: enodes) s →
    P done enodes (signalDeletion node mgr (decimal (before + done.length)) done.length e s)

section Loops

variable {node : N} {mgr : M} {children clist enodes rest done : List N} {before : Nat}
  {P : List N → List N → Filling M N → Prop} {s s' : Filling M N}

theorem deleteNodes_stop {rpath : List UInt8} {stop : Option N} {link : Nat} {c : N}
    (hrun : deleteNodes node mgr rpath stop link enodes s = (c :: rest, s')) : stop = some c := by
  induction enodes generalizing s with
  | nil => cases hrun
  | cons e enodes ih =>
    rw [deleteNodes] at hrun
    by_cases hstop : stop = some e
    · rw [if_pos hstop] at hrun
      cases hrun
      exact hstop
    · rw [if_neg hstop] at hrun
      exact ih hrun

theorem Carried.deletions (h : Carried node mgr children before P) {stop : Option N}
    (hP : P done enodes s)
    (hrun : deleteNodes node mgr (decimal (before + done.length)) stop done.length enodes s =
      (rest, s')) : P done rest s' := by
  induction enodes generalizing s with
  | nil =>
    cases hrun
    exact hP
  | cons e enodes ih =>
    rw [deleteNodes] at hrun
    by_cases hstop : stop = some e
    · rw [if_pos hstop] at hrun
      cases hrun
      exact hP
    · rw [if_neg hstop] at hrun
      exact ih (h.deletion hP) hrun

theorem Carried.updates (h : Carried node mgr children before P) (done : List N)
    (hdone : done ++ clist = children) (hP : P done enodes s) {pos link : Nat}
    (hrun : updateNodes node mgr clist enodes (before + done.length) done.length s =
      (rest, pos, link, s')) :
    P children rest s' ∧ pos = before + children.length ∧ link = children.length := by
  induction clist generalizing done enodes s with
  | nil =>
    rw [List.append_nil] at hdone
    subst hdone
    cases hrun
    exact ⟨hP, rfl, rfl⟩
  | cons x clist ih =>
    have hdone' : (done ++ [x]) ++ clist = children := by
      rw [← hdone, List.append_assoc, List.singleton_append]
    have hnext : ∀ {tail s₁}, P (done ++ [x]) tail s₁ →
        updateNodes node mgr clist tail (before + done.length + 1) (done.length + 1) s₁ =
          (rest, pos, link, s') →
        P children rest s' ∧ pos = before + children.length ∧ link = children.length := by
      intro tail s₁ hP₁ hrun₁
      apply ih (done ++ [x]) hdone' hP₁
      rw [List.length_append, List.length_singleton]
      exact hrun₁
    cases enodes with
    | nil => exact hnext (h.insertion hdone hP) hrun
    | cons e enodes =>
      rw [updateNodes] at hrun
      by_cases he : x = e
      · subst he
        rw [if_pos rfl] at hrun
        exact hnext (h.change hP) hrun
      · rw [if_neg he] at hrun
        cases hd : deleteNodes node mgr (decimal (before + done.length)) (some x) done.length
          (e :: enodes) s with
        | mk left s₁ =>
          have hP₁ := h.deletions hP hd
          rw [hd] at hrun
          cases left with
          | nil => exact hnext (h.insertion hdone hP₁) hrun
          | cons c left =>
            have hc := deleteNodes_stop hd
            cases hc
            exact hnext (h.change hP₁) hrun

theorem Carried.insertions (h : Carried node mgr children before P) (done : List N)
    (hdone : done ++ clist = children) (hP : P done [] s) :
    P children [] (clist.foldl (fun s child => signalInsertion node mgr child s) s) := by
  induction clist generalizing done s with
  | nil =>
    rw [List.append_nil] at hdone
    subst hdone
    exact hP
  | cons x clist ih =>
    have hdone' : (done ++ [x]) ++ clist = children := by
      rw [← hdone, List.append_assoc, List.singleton_append]
    exact ih (done ++ [x]) hdone' (h.insertion hdone hP)

theorem Carried.addChildren_found (h : Carried node mgr children before P) {t : Heap M N}
    {count : Nat} (hfind : findList mgr (t.children node) false 0 0 = (true, before, count))
    (hP : P [] (getChildrenForManager t node mgr) ⟨setParents t node children, count, []⟩) :
    P children [] (addChildren t node mgr children) := by
  have hsame : getChildrenForManager (setParents t node children) node mgr =
      getChildrenForManager t node mgr := rfl
  rw [addChildren, hfind]
  dsimp only
  rw [hsame, if_pos rfl]
  cases hu : updateNodes node mgr children (getChildrenForManager t node mgr) before 0
    ⟨setParents t node children, count, []⟩ with
  | mk rest r =>
    obtain ⟨pos, link, s₁⟩ := r
    obtain ⟨hP₁, hpos, hlink⟩ := h.updates [] rfl hP hu
    dsimp only
    rw [hpos, hlink]
    cases hd : deleteNodes node mgr (decimal (before + children.length)) none children.length rest
      s₁ with
    | mk left s₂ =>
      have hP₂ := h.deletions hP₁ hd
      cases left with
      | nil => exact hP₂
      | cons c left => cases deleteNodes_stop hd

theorem Carried.addChildren_absent (h : Carried node mgr children before P) {t : Heap M N}
    {nb count : Nat} (hfind : findList mgr (t.children node) false 0 0 = (false, nb, count))
    (hP : P [] [] ⟨newList (setParents t node children) node mgr, count, []⟩) :
    P children [] (addChildren t node mgr children) := by
  rw [addChildren, hfind]
  dsimp only
  rw [if_neg Bool.false_ne_true]
  exact h.insertions [] rfl hP

omit [DecidableEq N] in
theorem findList_fst (mgr : M) (lists : List (NodesList M N)) (found : Bool) (before n : Nat) :
    (findList mgr lists found before n).1 = (found || decide (mgr ∈ lists.map (·.mgr))) := by
  induction lists generalizing found before n with
  | nil => simp [findList]
  | cons tn lists ih =>
    rw [findList]
    by_cases htn : tn.mgr = mgr
    · rw [if_pos htn, ih]
      simp [htn]
    · have hne : ¬ mgr = tn.mgr := fun heq => htn heq.symm
      rw [if_neg htn, ih]
      simp [hne]

omit [DecidableEq N] in
theorem getChildrenForManager_absent {t : Heap M N} (h : mgr ∉ (t.children node).map (·.mgr)) :
    getChildrenForManager t node mgr = [] := by
  have hnone : (t.children node).find? (fun tn => decide (tn.mgr = mgr)) = none := by
    apply List.find?_eq_none.2
    intro tn htn hdec
    exact h (List.mem_map.2 ⟨tn, htn, of_decide_eq_true hdec⟩)
  rw [getChildrenForManager, hnone]

theorem addChildren_carries {t : Heap M N}
    (h : ∀ before, Carried node mgr children before P)
    (hfound : mgr ∈ (t.children node).map (·.mgr) → ∀ count,
      P [] (getChildrenForManager t node mgr) ⟨setParents t node children, count, []⟩)
    (habsent : mgr ∉ (t.children node).map (·.mgr) → ∀ count,
      P [] [] ⟨newList (setParents t node children) node mgr, count, []⟩) :
    P children [] (addChildren t node mgr children) := by
  have hfst := findList_fst mgr (t.children node) false 0 0
  rw [Bool.false_or] at hfst
  cases hfind : findList mgr (t.children node) false 0 0 with
  | mk found counts =>
    obtain ⟨before, count⟩ := counts
    rw [hfind] at hfst
    by_cases hmem : mgr ∈ (t.children node).map (·.mgr)
    · rw [decide_eq_true hmem] at hfst
      cases hfst
      exact (h before).addChildren_found hfind (hfound hmem count)
    · rw [decide_eq_false hmem] at hfst
      cases hfst
      exact (h before).addChildren_absent hfind (habsent hmem count)

end Loops

section Signals

variable {node x e : N} {mgr : M} {s : Filling M N}

theorem heap_signalInsertion :
    (signalInsertion node mgr x s).heap = modifyList s.heap node mgr (appendNode x) := by
  rw [signalInsertion]
  split
  · rfl
  · rfl

theorem heap_signalDeletion (rpath : List UInt8) (link : Nat) :
    (signalDeletion node mgr rpath link e s).heap =
      modifyList (unref s.heap e) node mgr (deleteLink link) := by
  rw [signalDeletion]
  split
  · rfl
  · rfl

end Signals

section Contents

variable {node n : N} {mgr m : M} {children nodes nodes' : List N} {t u : Heap M N}
  {f : NodesList M N → NodesList M N}

def HasList (t : Heap M N) (node : N) (mgr : M) (nodes : List N) : Prop :=
  ((t.children node).find? (·.mgr = mgr)).map (·.nodes) = some nodes

omit [DecidableEq N] in
theorem HasList.nodes_eq (h : HasList t node mgr nodes) :
    getChildrenForManager t node mgr = nodes := by
  rw [HasList] at h
  rw [getChildrenForManager]
  cases hfind : (t.children node).find? (·.mgr = mgr) with
  | none =>
    rw [hfind] at h
    cases h
  | some tn =>
    rw [hfind] at h
    cases h
    rfl

theorem find_modifyList (hf : ∀ tn, (f tn).mgr = tn.mgr) :
    ((modifyList t node mgr f).children node).find? (·.mgr = m) =
      ((t.children node).find? (·.mgr = m)).map fun tn => if tn.mgr = mgr then f tn else tn := by
  have hkeep : ((fun tn : NodesList M N => decide (tn.mgr = m)) ∘
      fun tn => if tn.mgr = mgr then f tn else tn) = fun tn => decide (tn.mgr = m) := by
    funext tn
    by_cases htn : tn.mgr = mgr
    · simp only [Function.comp, if_pos htn, hf]
    · simp only [Function.comp, if_neg htn]
  simp only [modifyList, if_true, List.find?_map, hkeep]

theorem HasList.modifyList (h : HasList t node mgr nodes) (hf : ∀ tn, (f tn).mgr = tn.mgr)
    (hnodes : ∀ tn : NodesList M N, tn.nodes = nodes → (f tn).nodes = nodes') :
    HasList (modifyList t node mgr f) node mgr nodes' := by
  rw [HasList] at h ⊢
  rw [find_modifyList hf]
  cases hfind : (t.children node).find? (·.mgr = mgr) with
  | none =>
    rw [hfind] at h
    cases h
  | some tn =>
    rw [hfind] at h
    cases h
    have hmgr := List.find?_some hfind
    rw [decide_eq_true_iff] at hmgr
    rw [Option.map_some, Option.map_some, if_pos hmgr, hnodes tn rfl]

theorem getChildrenForManager_modifyList (hf : ∀ tn, (f tn).mgr = tn.mgr) (hm : m ≠ mgr) :
    getChildrenForManager (modifyList t node mgr f) node m = getChildrenForManager t node m := by
  rw [getChildrenForManager, find_modifyList hf, getChildrenForManager]
  cases hfind : (t.children node).find? (·.mgr = m) with
  | none => rfl
  | some tn =>
    have hmgr := List.find?_some hfind
    rw [decide_eq_true_iff] at hmgr
    have hne : ¬ tn.mgr = mgr := fun heq => hm (hmgr.symm.trans heq)
    simp only [Option.map_some, if_neg hne]

theorem children_modifyList (hn : n ≠ node) :
    (modifyList t node mgr f).children n = t.children n := by
  simp only [modifyList, if_neg hn]

structure Contents (t : Heap M N) (node : N) (mgr : M) (nodes : List N) (u : Heap M N) : Prop where
  nodes : HasList u node mgr nodes
  others : ∀ m, m ≠ mgr → getChildrenForManager u node m = getChildrenForManager t node m
  off : ∀ n, n ≠ node → u.children n = t.children n

theorem Contents.modifyList (h : Contents t node mgr nodes u) (hf : ∀ tn, (f tn).mgr = tn.mgr)
    (hnodes : ∀ tn : NodesList M N, tn.nodes = nodes → (f tn).nodes = nodes') :
    Contents t node mgr nodes' (modifyList u node mgr f) := by
  refine ⟨h.nodes.modifyList hf hnodes, ?_, ?_⟩
  · intro m hm
    rw [getChildrenForManager_modifyList hf hm, h.others m hm]
  · intro n hn
    rw [children_modifyList hn, h.off n hn]

theorem Contents.carried (before : Nat) : Carried node mgr children before fun done enodes s =>
    Contents t node mgr (done ++ enodes) s.heap := by
  refine ⟨?_, ?_, ?_⟩
  · intro done x enodes s h
    rw [List.append_assoc, List.singleton_append]
    exact ⟨h.nodes, h.others, h.off⟩
  · intro done x clist s _ h
    rw [List.append_nil] at h ⊢
    rw [heap_signalInsertion]
    apply h.modifyList
    · intro tn
      rfl
    · intro tn htn
      rw [appendNode, htn]
  · intro done e enodes s h
    rw [heap_signalDeletion]
    have hunref : Contents t node mgr (done ++ e :: enodes) (unref s.heap e) :=
      ⟨h.nodes, h.others, h.off⟩
    apply hunref.modifyList
    · intro tn
      rfl
    · intro tn htn
      rw [deleteLink, htn, List.eraseIdx_append_of_length_le (Nat.le_refl _), Nat.sub_self,
        List.eraseIdx_cons_zero]

theorem addChildren_contents (t : Heap M N) (node : N) (mgr : M) (children : List N) :
    Contents t node mgr children (addChildren t node mgr children).heap := by
  have hall : Contents t node mgr (children ++ []) (addChildren t node mgr children).heap := by
    apply addChildren_carries (P := fun done enodes s => Contents t node mgr (done ++ enodes) s.heap)
    · intro before
      exact Contents.carried before
    · intro hmem count
      refine ⟨?_, fun _ _ => rfl, fun _ _ => rfl⟩
      obtain ⟨tn, htn, hmgr⟩ := List.mem_map.1 hmem
      cases hfind : (t.children node).find? (·.mgr = mgr) with
      | none => exact absurd (decide_eq_true hmgr) (List.find?_eq_none.1 hfind tn htn)
      | some etn =>
        have hfind' : ((setParents t node children).children node).find? (·.mgr = mgr) = some etn :=
          hfind
        rw [HasList, hfind', Option.map_some, List.nil_append, getChildrenForManager, hfind]
    · intro hmem count
      have hnone : (t.children node).find? (fun tn => decide (tn.mgr = mgr)) = none := by
        apply List.find?_eq_none.2
        intro tn htn hdec
        exact hmem (List.mem_map.2 ⟨tn, htn, of_decide_eq_true hdec⟩)
      have hnew : (newList (setParents t node children) node mgr).children node =
          t.children node ++ [⟨mgr, [], 0⟩] := by
        simp only [newList, if_true]
        rfl
      refine ⟨?_, ?_, ?_⟩
      · rw [HasList, hnew, List.find?_append, hnone, Option.none_or]
        simp
      · intro m hm
        have hne : ¬ mgr = m := fun heq => hm heq.symm
        have hfind : [(⟨mgr, [], 0⟩ : NodesList M N)].find? (fun tn => decide (tn.mgr = m)) = none := by
          simp [hne]
        rw [getChildrenForManager, hnew, List.find?_append, hfind, Option.or_none,
          getChildrenForManager]
      · intro n hn
        simp only [newList, if_neg hn]
        rfl
  rw [List.append_nil] at hall
  exact hall

theorem getChildrenForManager_addChildren (t : Heap M N) (node : N) (mgr : M) (children : List N)
    (n : N) (m : M) :
    getChildrenForManager (addChildren t node mgr children).heap n m =
      if n = node ∧ m = mgr then children else getChildrenForManager t n m := by
  have h := addChildren_contents t node mgr children
  by_cases hn : n = node
  · subst hn
    by_cases hm : m = mgr
    · subst hm
      rw [if_pos ⟨rfl, rfl⟩, h.nodes.nodes_eq]
    · rw [if_neg (fun heq => hm heq.2), h.others m hm]
  · rw [if_neg (fun heq => hn heq.1), getChildrenForManager, h.off n hn, getChildrenForManager]

end Contents

end LibGda.TreeNodes
