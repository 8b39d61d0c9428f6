import LibGda.ServerOperationTree
import Mathlib.Data.List.Nodup

/-! The operations whose specification has no sequence: no call makes or destroys a node. -/

namespace LibGda

open RunInvariant

namespace ServerOperation

variable {op op' : ServerOperation} {p q : OperationNodePtr} {load : Load} {names : List String}

structure FlatNodes (names : List String) (op : ServerOperation) : Prop where
  made : op.Made
  parent : ∀ p ∈ op.allnodes, (op.node p).parent = none
  type : ∀ p ∈ op.allnodes, (op.node p).type ≠ .sequence ∧ (op.node p).type ≠ .sequenceItem
  names : op.allnodes.map (fun p => (op.node p).pathName) = names

namespace FlatNodes

theorem completePath (h : FlatNodes names op) (hp : p ∈ op.allnodes) :
    op.completePath p = "/" ++ (op.node p).pathName :=
  completePath_of_top (h.made p hp) (h.parent p hp)

theorem contents (h : FlatNodes names op) (hp : p ∈ op.allnodes) : op.contents p = [] := by
  obtain ⟨hseq, hitem⟩ := h.type p hp
  rw [ServerOperation.contents]
  cases htype : (op.node p).type with
  | sequence => exact absurd htype hseq
  | sequenceItem => exact absurd htype hitem
  | paramList => rfl
  | dataModel => rfl
  | param => rfl

theorem nodeFind_new (h : FlatNodes names op) {id : String} (hid : id ∉ names) :
    op.nodeFind (Option.getD none "" ++ ("/" ++ id)) = none := by
  cases hf : op.nodeFind (Option.getD none "" ++ ("/" ++ id)) with
  | none => rfl
  | some p =>
    have hp := nodeFind_mem hf
    have hpath := completePath_of_nodeFind hf
    rw [h.completePath hp] at hpath
    have hname : (op.node p).pathName = id := (slash_append_inj _ _).mp hpath
    apply absurd _ hid
    rw [← h.names, ← hname]
    exact List.mem_map_of_mem (f := fun p => (op.node p).pathName) hp

theorem loadNode (h : FlatNodes names op) (load : Load) {spec : OperationSpec}
    (hid : spec.id ∉ names)
    (hs : spec.isSequence = false) : ∃ op',
      loadNode load none none (op, op.allnodes) spec = .ok (op', op'.allnodes) ∧
        FlatNodes (names ++ [spec.id]) op' := by
  cases spec with
  | sequence id optional minItems maxItems children => cases hs
  | leaf element id optional =>
    let node : OperationNode :=
      { parent := none, type := element.nodeType, optional := optional, pathName := id }
    have hnew : ((op.nodeNew node).insertNode op.next).node op.next = node := node_nodeNew node
    have hold : ∀ p ∈ op.allnodes,
        ((op.nodeNew node).insertNode op.next).node p = op.node p := fun p hp =>
      node_setNode_of_ne node (Nat.ne_of_lt (h.made p hp))
    have hdestroy : op.destroyOld op.allnodes (Option.getD none "" ++ ("/" ++ id)) =
        (op, op.allnodes) := by
      have hnone : op.nodeFind (Option.getD none "" ++ ("/" ++ id)) = none := h.nodeFind_new hid
      rw [destroyOld, hnone]
    refine ⟨(op.nodeNew node).insertNode op.next, ?_, ?_⟩
    · simp only [loadNode.eq_def, OperationSpec.id, hdestroy]
      rfl
    · constructor
      · exact (insertNode_grows (nodeNew_grows h.made node).made (Nat.lt_succ_self _)).made
      · intro p hp
        rcases List.mem_append.mp hp with hp | hp
        · rw [hold p hp]
          exact h.parent p hp
        · obtain rfl := List.mem_singleton.mp hp
          rw [hnew]
      · intro p hp
        rcases List.mem_append.mp hp with hp | hp
        · rw [hold p hp]
          exact h.type p hp
        · obtain rfl := List.mem_singleton.mp hp
          rw [hnew]
          cases element <;> simp [node, OperationElement.nodeType]
      · have hmap : op.allnodes.map (fun p => (((op.nodeNew node).insertNode op.next).node
            p).pathName) = names := by
          rw [← h.names]
          exact List.map_congr_left fun p hp => by rw [hold p hp]
        have hlast : [op.next].map (fun p => (((op.nodeNew node).insertNode op.next).node
            p).pathName) = [id] := by
          rw [List.map_singleton, hnew]
        exact (List.map_append ..).trans (by rw [hlast]; exact congrArg (· ++ [id]) hmap)

theorem foldlM_loadNode (h : FlatNodes names op) (load : Load) {specs : List OperationSpec}
    (hids : (names ++ specs.map OperationSpec.id).Nodup)
    (hs : ∀ spec ∈ specs, spec.isSequence = false) : ∃ op',
      specs.foldlM (ServerOperation.loadNode load none none) (op, op.allnodes) =
          .ok (op', op'.allnodes) ∧
        FlatNodes (names ++ specs.map OperationSpec.id) op' := by
  induction specs generalizing names op with
  | nil =>
    refine ⟨op, rfl, ?_⟩
    rwa [List.map_nil, List.append_nil]
  | cons spec specs ih =>
    rw [List.map_cons, List.append_cons] at hids ⊢
    have hid : spec.id ∉ names := by
      intro hmem
      rw [List.append_assoc] at hids
      exact (List.nodup_append.mp hids).2.2 _ hmem _ (List.mem_cons_self ..) rfl
    obtain ⟨mid, hmid, hflat⟩ := h.loadNode load hid (hs spec (List.mem_cons_self ..))
    obtain ⟨op', hop', hlast⟩ := ih hflat hids fun s hm => hs s (List.mem_cons_of_mem _ hm)
    refine ⟨op', ?_, hlast⟩
    rw [List.foldlM_cons, hmid]
    exact hop'

section Calls

variable (h : FlatNodes names op)

include h

theorem not_sequence {path : String} (hp : op.nodeFind path = some p) :
    (op.node p).type ≠ .sequence ∧ (op.node p).type ≠ .sequenceItem :=
  h.type p (nodeFind_mem hp)

theorem addItemToSequence (load : Load) (seqPath : String) :
    op.addItemToSequence load seqPath = .ok (op, 0) := by
  rw [ServerOperation.addItemToSequence]
  cases hf : op.nodeFind seqPath with
  | none => rfl
  | some p => exact if_pos (h.not_sequence hf).1

theorem delItemFromSequence (itemPath : String) :
    op.delItemFromSequence itemPath = (op, false) := by
  rw [ServerOperation.delItemFromSequence]
  generalize String.ofList
    (itemPath.toList.reverse.dropWhile fun c => c.isDigit || c = '/').reverse = seqPath
  simp only
  cases hf : op.nodeFind seqPath with
  | none => rfl
  | some p => exact if_pos (.inl (h.not_sequence hf).1)

theorem nodeFindOrCreateFrom (load : Load) (length : Nat) (path : String) : ∃ found,
    op.nodeFindOrCreateFrom load length path = .ok (op, found) ∧
      ∀ p, found = some p → p ∈ op.allnodes := by
  induction length generalizing path with
  | zero => exact ⟨none, rfl, fun p hp => by cases hp⟩
  | succ length ih =>
    rw [ServerOperation.nodeFindOrCreateFrom]
    by_cases hslash : path.toList.head? = some '/'
    · rw [if_neg (not_not_intro hslash)]
      cases hf : op.nodeFind path with
      | some p =>
        refine ⟨some p, rfl, ?_⟩
        intro q hq
        exact Option.some.inj hq ▸ nodeFind_mem hf
      | none =>
        obtain ⟨found, hfound, hmem⟩ := ih (splitPath path).1
        refine ⟨none, ?_, fun p hp => by cases hp⟩
        simp only [hfound]
        cases found with
        | none => rfl
        | some p =>
          -- what has been found holds no item
          obtain ⟨hseq, hitem⟩ := h.type p (hmem p rfl)
          cases htype : (op.node p).type with
          | sequence => exact absurd htype hseq
          | sequenceItem => exact absurd htype hitem
          | paramList => simp [bind, Except.bind, htype, pure, Except.pure]
          | dataModel => simp [bind, Except.bind, htype, pure, Except.pure]
          | param => simp [bind, Except.bind, htype, pure, Except.pure]
    · rw [if_pos hslash]
      exact ⟨none, rfl, fun p hp => by cases hp⟩

theorem nodeFindOrCreate (load : Load) (path : String) :
    (op.nodeFindOrCreate load path).map Prod.fst = .ok op := by
  obtain ⟨found, hfound, -⟩ := h.nodeFindOrCreateFrom load path.toList.length path
  rw [ServerOperation.nodeFindOrCreate, hfound]
  rfl

theorem removeItems (n : Nat) : op.removeItems n = op := by
  cases n with
  | zero => rfl
  | succ n =>
    have hnone : op.filledSequence = none := by
      rw [filledSequence, List.find?_eq_none]
      intro p hp
      simp [(h.type p hp).1]
    rw [ServerOperation.removeItems, hnone]

theorem loadDataFromXml (load : Load) (paths : List String) :
    op.loadDataFromXml load paths = .ok op := by
  rw [ServerOperation.loadDataFromXml, h.removeItems]
  induction paths with
  | nil => rfl
  | cons path paths ih =>
    rw [List.foldlM_cons, h.nodeFindOrCreate]
    exact ih

theorem step (fuel : Nat) (call : OperationCall) : step fuel op call = .ok op := by
  cases call with
  | addItemToSequence seqPath =>
    rw [ServerOperation.step, h.addItemToSequence]
    rfl
  | delItemFromSequence itemPath =>
    rw [ServerOperation.step, h.delItemFromSequence]
  | setValueAtPath path => exact h.nodeFindOrCreate (loadXmlSpec fuel) path
  | loadDataFromXml paths => exact h.loadDataFromXml (loadXmlSpec fuel) paths

theorem run (fuel : Nat) (calls : List OperationCall) :
    run (ServerOperation.step fuel) op calls = .ok op := by
  induction calls with
  | nil => rfl
  | cons call calls ih =>
    rw [RunInvariant.run, h.step fuel call]
    exact ih

theorem nodeFind_completePath (hnames : names.Nodup) (hp : p ∈ op.allnodes) :
    op.nodeFind (op.completePath p) = some p := by
  have hslash : (op.completePath p).toList.head? = some '/' := by
    rw [h.completePath hp]
    simp
  rw [nodeFind, if_pos hslash]
  cases hf : op.allnodes.find? fun q => op.completePath q = op.completePath p with
  | none => exact absurd (List.find?_eq_none.mp hf p hp) (by simp)
  | some q =>
    have hq := List.mem_of_find?_eq_some hf
    have hpath : op.completePath q = op.completePath p := by simpa using List.find?_some hf
    rw [h.completePath hq, h.completePath hp] at hpath
    have hname : (op.node q).pathName = (op.node p).pathName :=
      (slash_append_inj _ _).mp (hpath.trans (by simp))
    rw [← h.names] at hnames
    exact congrArg some (List.inj_on_of_nodup_map hnames hq hp hname)

theorem wellFormed (hnames : names.Nodup) (htop : op.topnodes = op.allnodes) :
    op.WellFormed := by
  have hreach : ∀ p, op.Reachable p → p ∈ op.allnodes := by
    intro p hp
    induction hp with
    | top hp => exact htop ▸ hp
    | held _ hp ih =>
      rw [h.contents ih] at hp
      cases hp
  constructor
  · exact fun p => ⟨fun hp => .top (htop ▸ hp), hreach p⟩
  · exact fun p hp => h.parent p (htop ▸ hp)
  · intro q hq p hp
    rw [h.contents (hreach q hq)] at hp
    cases hp
  · exact fun p hp => h.nodeFind_completePath hnames (hreach p hp)
  · exact fun p hp htype => absurd htype (h.type p (hreach p hp)).1

end Calls

end FlatNodes

theorem flatNodes_new {fuel : Nat} {specs : List OperationSpec}
    (hids : (specs.map OperationSpec.id).Nodup) (hs : ∀ spec ∈ specs, spec.isSequence = false)
    (hnew : new fuel specs = .ok op) :
    FlatNodes (specs.map OperationSpec.id) op ∧ op.topnodes = op.allnodes := by
  obtain ⟨⟨last, topnodes⟩, hload, hnew⟩ := bind_ok hnew
  obtain rfl := Except.ok.inj hnew
  cases fuel with
  | zero => cases hload
  | succ fuel =>
    have hempty : FlatNodes [] ({} : ServerOperation) := by
      constructor
      · exact fun p hp => absurd hp List.not_mem_nil
      · exact fun p hp => absurd hp List.not_mem_nil
      · exact fun p hp => absurd hp List.not_mem_nil
      · rfl
    obtain ⟨op', hop', hflat⟩ := hempty.foldlM_loadNode (loadXmlSpec fuel) hids hs
    obtain ⟨rfl, rfl⟩ := Prod.mk.inj (Except.ok.inj (hload.symm.trans hop'))
    exact ⟨⟨hflat.made, hflat.parent, hflat.type, hflat.names⟩, rfl⟩

/-- Every state reached is well formed where the specification has no sequence, and only there. -/
theorem wellFormed_runs_iff (fuel : Nat) (specs : List OperationSpec) (op : ServerOperation)
    (hids : (specs.map OperationSpec.id).Nodup) (hnew : new fuel specs = .ok op) :
    (∀ calls op', run (step fuel) op calls = .ok op' → op'.WellFormed) ↔
      ∀ spec ∈ specs, spec.isSequence = false := by
  constructor
  · intro h spec hspec
    by_contra hseq
    have hseq' : spec.isSequence = true := by simpa using hseq
    exact not_wellFormed_new hids hnew hspec hseq' (h [] op rfl)
  · intro hs calls op' hrun
    obtain ⟨hflat, htop⟩ := flatNodes_new hids hs hnew
    rw [hflat.run] at hrun
    obtain rfl := Except.ok.inj hrun
    exact hflat.wellFormed hids htop

def sameNameSpecs : List OperationSpec :=
  [.sequence "S" false none none [.leaf .parameter "P" false], .leaf .parameter "P" false]

theorem exists_new_sameNameSpecs : ∃ op, new 2 sameNameSpecs = .ok op ∧ op.topnodes = [0, 2] ∧
    op.allnodes = [0, 2] ∧ op.contents 0 = [1] := by
  have hall : (new 2 sameNameSpecs).toOption.map (fun op =>
      (op.topnodes, op.allnodes, op.contents 0)) = some ([0, 2], [0, 2], [1]) := by decide
  cases hnew : new 2 sameNameSpecs with
  | error e =>
    rw [hnew] at hall
    cases hall
  | ok op =>
    rw [hnew] at hall
    obtain ⟨htop, hnodes⟩ := Prod.mk.inj (Option.some.inj hall)
    obtain ⟨hnodes, hcontents⟩ := Prod.mk.inj hnodes
    exact ⟨op, rfl, htop, hnodes, hcontents⟩

theorem wellFormed_runs_iff_sameNameSpecs : ∃ op, new 2 sameNameSpecs = .ok op ∧
    ¬ ∀ calls op', run (step 2) op calls = .ok op' → op'.WellFormed := by
  obtain ⟨op, hnew, -⟩ := exists_new_sameNameSpecs
  refine ⟨op, hnew, ?_⟩
  rw [wellFormed_runs_iff 2 sameNameSpecs op (by decide) hnew]
  decide

/-- The node which is made for the parameter outside has the one of the template destroyed. -/
theorem not_wellFormed_sameNameSpecs : ∃ op, new 2 sameNameSpecs = .ok op ∧ op.Reachable 1 ∧
    1 ∉ op.allnodes ∧ ¬ op.WellFormed := by
  obtain ⟨op, hnew, htop, hnodes, hcontents⟩ := exists_new_sameNameSpecs
  have hreach : op.Reachable 1 := by
    apply Reachable.held (q := 0)
    · exact .top (by simp [htop])
    · simp [hcontents]
  have hnot : 1 ∉ op.allnodes := by simp [hnodes]
  refine ⟨op, hnew, hreach, hnot, ?_⟩
  intro hwf
  exact hnot ((hwf.allnodes 1).mpr hreach)

end ServerOperation

end LibGda
