import LibGda.TreeLoops

/-! Updates of a tree through its managers: gda-tree-manager.c and gda-tree.c. -/

namespace LibGda.TreeUpdates

open LibGda.TreeNodes PathTree

variable {M N W : Type} [DecidableEq M] [DecidableEq N]

structure GivenList (M N : Type) where
  node : N
  mgr : M
  children : List N
  failed : Bool
deriving DecidableEq

/-- A tree while it is updated: the "recursive" property of the managers, the world in which the
update functions run, and the lists given so far. -/
structure Updating (M N W : Type) where
  tree : Heap M N
  recursive : M → Bool
  world : W
  given : List (GivenList M N)

/-- The managers: the sub managers of each, and the update functions, which return the new list and
whether there was an error. -/
structure Managers (M N W : Type) where
  subManagers : M → List M
  update : M → N → List N → W → List N × Bool × W

def giveList (node : N) (mgr : M) (children : List N) (failed : Bool) (s : Updating M N W) :
    Updating M N W :=
  { s with
    tree := (addChildren s.tree node mgr children).heap
    given := s.given ++ [⟨node, mgr, children, failed⟩] }

def updateSubManagers (step : M → N → Updating M N W → Option (Bool × Updating M N W)) (manager : M) :
    List (N × M) → Updating M N W → Option (Bool × Updating M N W)
  | [], s => some (false, s)
  | (parent, mgr) :: rest, s =>
    if s.recursive manager then
      match step mgr parent s with
      | none => none
      | some (true, s) => some (true, s)
      | some (false, s) => updateSubManagers step manager rest s
    else updateSubManagers step manager rest (giveList parent mgr [] false s)

/-- _gda_tree_manager_update_children: whether there was an error; the number bounds the depth of
the recursion. -/
def updateChildren (managers : Managers M N W) : Nat → M → N → Updating M N W →
    Option (Bool × Updating M N W)
  | 0, _, _, _ => none
  | depth + 1, manager, node, s =>
    let (nodesList, error, world) :=
      managers.update manager node (getChildrenForManager s.tree node manager) s.world
    let s := giveList node manager nodesList error { s with world := world }
    match updateSubManagers (updateChildren managers depth) manager
      (nodesList.flatMap fun child => (managers.subManagers manager).map fun sub => (child, sub)) s with
    | none => none
    | some (subError, s) => some (error || subError, s)

def setRecursive (manager : M) (value : Bool) (s : Updating M N W) : Updating M N W :=
  { s with recursive := fun m => if m = manager then value else s.recursive m }

def createOrUpdateChildren (managers : Managers M N W) (depth : Nat) (parent : N)
    (disableRecurs : Bool) : List M → Updating M N W → Option (Bool × Updating M N W)
  | [], s => some (true, s)
  | manager :: rest, s =>
    let recurs := disableRecurs && s.recursive manager
    let s := if recurs then setRecursive manager false s else s
    match updateChildren managers depth manager parent s with
    | none => none
    | some (true, s) => some (false, s)
    | some (false, s) =>
      createOrUpdateChildren managers depth parent disableRecurs rest
        (if recurs then setRecursive manager true s else s)

structure GdaTree (M N : Type) where
  managers : List M
  root : N

def updateAll (managers : Managers M N W) (depth : Nat) (tree : GdaTree M N) (s : Updating M N W) :
    Option (Bool × Updating M N W) :=
  createOrUpdateChildren managers depth tree.root false tree.managers s

def getManagerForChild (t : Heap M N) (node child : N) : Option M :=
  if t.parent child = some node then
    ((t.children node).find? fun tn => child ∈ tn.nodes).map (·.mgr)
  else none

/-- The managers which provide the children of a node: gda_tree_manager_get_managers of its own
manager. -/
def managersBelow (managers : Managers M N W) (tree : GdaTree M N) (t : Heap M N) (node : N) :
    List M :=
  match getManagerForChild t ((getParent t node).getD tree.root) node with
  | none => []
  | some mgr => managers.subManagers mgr

def updatePart (managers : Managers M N W) (depth : Nat) (tree : GdaTree M N) (node : N)
    (s : Updating M N W) : Option (Bool × Updating M N W) :=
  let mgrlist := managersBelow managers tree s.tree node
  if mgrlist = [] then some (true, s)
  else createOrUpdateChildren managers depth node false mgrlist s

def updateChildrenOf (managers : Managers M N W) (depth : Nat) (tree : GdaTree M N)
    (node : Option N) (s : Updating M N W) : Option (Bool × Updating M N W) :=
  match node with
  | some node =>
    let mgrlist := managersBelow managers tree s.tree node
    if mgrlist = [] then some (true, s)
    else createOrUpdateChildren managers depth node true mgrlist s
  | none =>
    match createOrUpdateChildren managers depth tree.root true tree.managers s with
    | none => none
    | some (_, s) => some (true, s)

end LibGda.TreeUpdates

/-! What a failing update function leaves of a tree. -/

namespace LibGda.TreeUpdates

open LibGda.TreeNodes PathTree

variable {M N W : Type} [DecidableEq M] [DecidableEq N]

def lastGiven (node : N) (mgr : M) : List (GivenList M N) → Option (List N)
  | [] => none
  | g :: rest =>
    match lastGiven node mgr rest with
    | some children => some children
    | none => if node = g.node ∧ mgr = g.mgr then some g.children else none

structure Ran (s s' : Updating M N W) (log : List (GivenList M N)) (failed : Bool) : Prop where
  given : s'.given = s.given ++ log
  contents : ∀ n m, getChildrenForManager s'.tree n m =
    (lastGiven n m log).getD (getChildrenForManager s.tree n m)
  recursive : s'.recursive = s.recursive
  failures : failed = log.any (·.failed)

section Runs

variable {s s' s₁ : Updating M N W} {log log' : List (GivenList M N)} {failed failed' : Bool}
  {node n : N} {manager m : M} {managers : Managers M N W} {depth : Nat}

theorem lastGiven_append (log log' : List (GivenList M N)) :
    lastGiven n m (log ++ log') = (lastGiven n m log').or (lastGiven n m log) := by
  induction log with
  | nil =>
    rw [List.nil_append, lastGiven, Option.or_none]
  | cons g log ih =>
    rw [List.cons_append, lastGiven, ih, lastGiven]
    cases lastGiven n m log' with
    | none => rfl
    | some children => rfl

theorem Ran.refl (s : Updating M N W) : Ran s s [] false := by
  refine ⟨?_, fun n m => rfl, rfl, rfl⟩
  rw [List.append_nil]

theorem Ran.trans (h : Ran s s₁ log failed) (h' : Ran s₁ s' log' failed') :
    Ran s s' (log ++ log') (failed || failed') := by
  refine ⟨?_, ?_, h'.recursive.trans h.recursive, ?_⟩
  · rw [h'.given, h.given, List.append_assoc]
  · intro n m
    rw [h'.contents, h.contents, lastGiven_append]
    cases lastGiven n m log' with
    | none => rfl
    | some children => rfl
  · rw [h.failures, h'.failures, List.any_append]

theorem Ran.give (s : Updating M N W) (node : N) (mgr : M) (children : List N) (error : Bool) :
    Ran s (giveList node mgr children error s) [⟨node, mgr, children, error⟩] error := by
  refine ⟨rfl, ?_, rfl, ?_⟩
  · intro n m
    rw [giveList, getChildrenForManager_addChildren]
    simp only [lastGiven]
    by_cases h : n = node ∧ m = mgr
    · rw [if_pos h, if_pos h]
      rfl
    · rw [if_neg h, if_neg h]
      rfl
  · rw [List.any_cons, List.any_nil, Bool.or_false]

theorem updateSubManagers_ran {step : M → N → Updating M N W → Option (Bool × Updating M N W)}
    (hstep : ∀ {mgr parent s b s'}, step mgr parent s = some (b, s') → ∃ log, Ran s s' log b)
    {pairs : List (N × M)} {b : Bool}
    (hrun : updateSubManagers step manager pairs s = some (b, s')) : ∃ log, Ran s s' log b := by
  induction pairs generalizing s with
  | nil =>
    cases hrun
    exact ⟨[], Ran.refl _⟩
  | cons pair rest ih =>
    obtain ⟨parent, mgr⟩ := pair
    rw [updateSubManagers] at hrun
    by_cases hrec : s.recursive manager = true
    · rw [if_pos hrec] at hrun
      cases hsub : step mgr parent s with
      | none =>
        rw [hsub] at hrun
        cases hrun
      | some r =>
        obtain ⟨error, s₁⟩ := r
        obtain ⟨log, hlog⟩ := hstep hsub
        rw [hsub] at hrun
        cases error with
        | true =>
          cases hrun
          exact ⟨log, hlog⟩
        | false =>
          obtain ⟨log', hlog'⟩ := ih hrun
          exact ⟨log ++ log', hlog.trans hlog'⟩
    · rw [if_neg hrec] at hrun
      obtain ⟨log', hlog'⟩ := ih hrun
      exact ⟨_, (Ran.give s parent mgr [] false).trans hlog'⟩

theorem updateSubManagers_cleared
    (step : M → N → Updating M N W → Option (Bool × Updating M N W)) (pairs : List (N × M))
    (hrec : s.recursive manager = false) :
    ∃ s' log, updateSubManagers step manager pairs s = some (false, s') ∧ Ran s s' log false := by
  induction pairs generalizing s with
  | nil => exact ⟨s, [], rfl, Ran.refl s⟩
  | cons pair rest ih =>
    obtain ⟨parent, mgr⟩ := pair
    have hgive := Ran.give s parent mgr [] false
    have hrec' : (giveList parent mgr [] false s).recursive manager = false := hrec
    obtain ⟨s', log', hrun, hlog'⟩ := ih hrec'
    refine ⟨s', _, ?_, hgive.trans hlog'⟩
    rw [updateSubManagers, if_neg (by rw [hrec]; exact Bool.false_ne_true), hrun]

theorem Ran.answer (s : Updating M N W) (node : N) (manager : M) (world : W) (children : List N)
    (error : Bool) :
    Ran s (giveList node manager children error { s with world := world })
      [⟨node, manager, children, error⟩] error := by
  have hgive := Ran.give { s with world := world } node manager children error
  exact ⟨hgive.given, hgive.contents, hgive.recursive, hgive.failures⟩

theorem updateChildren_ran {b : Bool}
    (hrun : updateChildren managers depth manager node s = some (b, s')) : ∃ log, Ran s s' log b := by
  induction depth generalizing manager node s b s' with
  | zero => cases hrun
  | succ depth ih =>
    rw [updateChildren] at hrun
    cases hanswer : managers.update manager node (getChildrenForManager s.tree node manager) s.world with
    | mk nodesList rest =>
      obtain ⟨error, world⟩ := rest
      rw [hanswer] at hrun
      dsimp only at hrun
      have hgive := Ran.answer s node manager world nodesList error
      cases hsubs : updateSubManagers (updateChildren managers depth) manager
        (nodesList.flatMap fun child => (managers.subManagers manager).map fun sub => (child, sub))
        (giveList node manager nodesList error { s with world := world }) with
      | none =>
        rw [hsubs] at hrun
        cases hrun
      | some r =>
        obtain ⟨subError, s₁⟩ := r
        rw [hsubs] at hrun
        cases hrun
        obtain ⟨log, hlog⟩ := updateSubManagers_ran ih hsubs
        exact ⟨_, hgive.trans hlog⟩

theorem updateChildren_flat {b : Bool} (hrec : s.recursive manager = false)
    (hrun : updateChildren managers depth manager node s = some (b, s')) :
    ∃ log, Ran s s' log b ∧ ∀ g ∈ log, g.failed = true → g.mgr = manager := by
  cases depth with
  | zero => cases hrun
  | succ depth =>
    rw [updateChildren] at hrun
    cases hanswer : managers.update manager node (getChildrenForManager s.tree node manager) s.world with
    | mk nodesList rest =>
      obtain ⟨error, world⟩ := rest
      rw [hanswer] at hrun
      dsimp only at hrun
      have hgive := Ran.answer s node manager world nodesList error
      have hrec' : (giveList node manager nodesList error { s with world := world }).recursive
          manager = false := hrec
      obtain ⟨s₁, log, hsubs, hlog⟩ := updateSubManagers_cleared (updateChildren managers depth)
        (nodesList.flatMap fun child => (managers.subManagers manager).map fun sub => (child, sub))
        hrec'
      rw [hsubs] at hrun
      cases hrun
      refine ⟨_, hgive.trans hlog, ?_⟩
      intro g hg hfailed
      rcases List.mem_append.1 hg with hg | hg
      · rw [List.mem_singleton.1 hg]
      · have hnone := hlog.failures
        have hany : log.any (·.failed) = true := List.any_eq_true.2 ⟨g, hg, hfailed⟩
        rw [hany] at hnone
        cases hnone

theorem createOrUpdateChildren_ran {mgrlist : List M} {b : Bool}
    (hrun : createOrUpdateChildren managers depth node false mgrlist s = some (b, s')) :
    ∃ log, Ran s s' log (!b) := by
  induction mgrlist generalizing s with
  | nil =>
    cases hrun
    exact ⟨[], Ran.refl _⟩
  | cons manager rest ih =>
    rw [createOrUpdateChildren, Bool.false_and, if_neg Bool.false_ne_true] at hrun
    cases hupdate : updateChildren managers depth manager node s with
    | none =>
      rw [hupdate] at hrun
      cases hrun
    | some r =>
      obtain ⟨error, s₁⟩ := r
      obtain ⟨log, hlog⟩ := updateChildren_ran hupdate
      rw [hupdate] at hrun
      cases error with
      | true =>
        cases hrun
        exact ⟨log, hlog⟩
      | false =>
        dsimp only at hrun
        rw [if_neg Bool.false_ne_true] at hrun
        obtain ⟨log', hlog'⟩ := ih hrun
        exact ⟨log ++ log', hlog.trans hlog'⟩

/-- How a run which switches the "recursive" property off ends: it is on again, unless a manager
has failed. -/
inductive Switched (s s' : Updating M N W) (log : List (GivenList M N)) : Bool → Prop where
  | done (hrec : s'.recursive = s.recursive) (hnone : log.any (·.failed) = false) :
    Switched s s' log true
  | failed (manager : M) (hrec : ∀ m, s'.recursive m = (if m = manager then false else s.recursive m))
    (hany : log.any (·.failed) = true) (honly : ∀ g ∈ log, g.failed = true → g.mgr = manager) :
    Switched s s' log false

omit [DecidableEq M] [DecidableEq N] in
theorem not_failed_of_any (h : log.any (·.failed) = false) {g : GivenList M N} (hg : g ∈ log)
    (hfailed : g.failed = true) : False := by
  have hany : log.any (·.failed) = true := List.any_eq_true.2 ⟨g, hg, hfailed⟩
  rw [hany] at h
  cases h

omit [DecidableEq N] in
theorem Switched.behind {b : Bool} (h : Switched s₁ s' log' b) (hrec : s₁.recursive = s.recursive)
    (hnone : log.any (·.failed) = false) : Switched s s' (log ++ log') b := by
  cases h with
  | done hrec' hnone' =>
    apply Switched.done (hrec'.trans hrec)
    rw [List.any_append, hnone, hnone', Bool.or_false]
  | failed manager hrec' hany honly =>
    apply Switched.failed manager
    · intro m
      rw [hrec', hrec]
    · rw [List.any_append, hany, Bool.or_true]
    · intro g hg hfailed
      rcases List.mem_append.1 hg with hg | hg
      · exact (not_failed_of_any hnone hg hfailed).elim
      · exact honly g hg hfailed

def switchedOff (manager : M) (s : Updating M N W) : Updating M N W :=
  if s.recursive manager then setRecursive manager false s else s

omit [DecidableEq N] in
theorem switchedOff_recursive (manager m : M) (s : Updating M N W) :
    (switchedOff manager s).recursive m = if m = manager then false else s.recursive m := by
  rw [switchedOff]
  by_cases hm : m = manager
  · subst hm
    rw [if_pos rfl]
    by_cases hrec : s.recursive m = true
    · rw [if_pos hrec]
      simp [setRecursive]
    · rw [if_neg hrec]
      exact eq_false_of_ne_true hrec
  · rw [if_neg hm]
    by_cases hrec : s.recursive manager = true
    · rw [if_pos hrec]
      simp [setRecursive, hm]
    · rw [if_neg hrec]

omit [DecidableEq N] in
theorem switchedOff_given (manager : M) (s : Updating M N W) :
    (switchedOff manager s).given = s.given := by
  rw [switchedOff]
  by_cases hrec : s.recursive manager = true
  · rw [if_pos hrec]
    rfl
  · rw [if_neg hrec]

theorem createOrUpdateChildren_switched {mgrlist : List M} {b : Bool}
    (hrun : createOrUpdateChildren managers depth node true mgrlist s = some (b, s')) :
    ∃ log, s'.given = s.given ++ log ∧ Switched s s' log b := by
  induction mgrlist generalizing s with
  | nil =>
    cases hrun
    exact ⟨[], (List.append_nil _).symm, .done rfl rfl⟩
  | cons manager rest ih =>
    rw [createOrUpdateChildren, Bool.true_and] at hrun
    change (match updateChildren managers depth manager node (switchedOff manager s) with
      | none => none
      | some (true, s) => some (false, s)
      | some (false, s₁) => createOrUpdateChildren managers depth node true rest
        (if s.recursive manager then setRecursive manager true s₁ else s₁)) = some (b, s') at hrun
    have hoff : (switchedOff manager s).recursive manager = false := by
      rw [switchedOff_recursive, if_pos rfl]
    cases hupdate : updateChildren managers depth manager node (switchedOff manager s) with
    | none =>
      rw [hupdate] at hrun
      cases hrun
    | some r =>
      obtain ⟨error, s₁⟩ := r
      obtain ⟨log, hlog, honly⟩ := updateChildren_flat hoff hupdate
      have hgiven := hlog.given
      rw [switchedOff_given] at hgiven
      rw [hupdate] at hrun
      cases error with
      | true =>
        cases hrun
        refine ⟨log, hgiven, .failed manager ?_ hlog.failures.symm honly⟩
        intro m
        rw [hlog.recursive, switchedOff_recursive]
      | false =>
        have hback : ∀ m, (if s.recursive manager then setRecursive manager true s₁ else s₁).recursive m =
            s.recursive m := by
          intro m
          have hs₁ : s₁.recursive m = if m = manager then false else s.recursive m := by
            rw [hlog.recursive, switchedOff_recursive]
          by_cases hrec : s.recursive manager = true
          · rw [if_pos hrec]
            by_cases hm : m = manager
            · subst hm
              simp [setRecursive, hrec]
            · simp [setRecursive, hm, hs₁]
          · rw [if_neg hrec, hs₁]
            by_cases hm : m = manager
            · subst hm
              rw [if_pos rfl]
              exact (eq_false_of_ne_true hrec).symm
            · rw [if_neg hm]
        obtain ⟨log', hgiven', hswitched⟩ := ih hrun
        refine ⟨log ++ log', ?_, hswitched.behind (funext hback) hlog.failures.symm⟩
        rw [hgiven']
        by_cases hrec : s.recursive manager = true
        · rw [if_pos hrec, ← List.append_assoc, ← hgiven]
          rfl
        · rw [if_neg hrec, ← List.append_assoc, ← hgiven]

end Runs

section Ends

variable {managers : Managers M N W} {depth : Nat} {rank : M → Nat}

theorem updateSubManagers_ends {step : M → N → Updating M N W → Option (Bool × Updating M N W)}
    {manager : M} {pairs : List (N × M)}
    (hstep : ∀ pair ∈ pairs, ∀ s, (step pair.2 pair.1 s).isSome) (s : Updating M N W) :
    (updateSubManagers step manager pairs s).isSome := by
  induction pairs generalizing s with
  | nil => rfl
  | cons pair rest ih =>
    obtain ⟨hpair, hrest⟩ := List.forall_mem_cons.1 hstep
    obtain ⟨parent, mgr⟩ := pair
    rw [updateSubManagers]
    by_cases hrec : s.recursive manager = true
    · rw [if_pos hrec]
      obtain ⟨r, hr⟩ := Option.isSome_iff_exists.1 (hpair s)
      obtain ⟨error, s₁⟩ := r
      dsimp only at hr
      rw [hr]
      cases error with
      | true => rfl
      | false => exact ih hrest s₁
    · rw [if_neg hrec]
      exact ih hrest _

theorem updateChildren_ends (hrank : ∀ m, ∀ sub ∈ managers.subManagers m, rank sub < rank m)
    {manager : M} (hdepth : rank manager < depth) (node : N) (s : Updating M N W) :
    (updateChildren managers depth manager node s).isSome := by
  induction depth generalizing manager node s with
  | zero => cases hdepth
  | succ depth ih =>
    rw [updateChildren]
    cases managers.update manager node (getChildrenForManager s.tree node manager) s.world with
    | mk nodesList rest =>
      obtain ⟨error, world⟩ := rest
      dsimp only
      have hstep : ∀ pair ∈ nodesList.flatMap fun child =>
          (managers.subManagers manager).map fun sub => (child, sub),
          ∀ s, (updateChildren managers depth pair.2 pair.1 s).isSome := by
        intro pair hpair s
        obtain ⟨child, -, hpair⟩ := List.mem_flatMap.1 hpair
        obtain ⟨sub, hsub, rfl⟩ := List.mem_map.1 hpair
        exact ih (Nat.lt_of_lt_of_le (hrank manager sub hsub) (Nat.le_of_lt_succ hdepth)) child s
      obtain ⟨r, hr⟩ := Option.isSome_iff_exists.1 (@updateSubManagers_ends _ _ _ _ _ _ manager _ hstep
        (giveList node manager nodesList error { s with world := world }))
      obtain ⟨subError, s₁⟩ := r
      rw [hr]
      rfl

theorem createOrUpdateChildren_ends
    (hrank : ∀ m, ∀ sub ∈ managers.subManagers m, rank sub < rank m) {mgrlist : List M}
    (hdepth : ∀ m ∈ mgrlist, rank m < depth) (node : N) (disableRecurs : Bool)
    (s : Updating M N W) :
    (createOrUpdateChildren managers depth node disableRecurs mgrlist s).isSome := by
  induction mgrlist generalizing s with
  | nil => rfl
  | cons manager rest ih =>
    obtain ⟨hmanager, hrest⟩ := List.forall_mem_cons.1 hdepth
    rw [createOrUpdateChildren]
    generalize (if (disableRecurs && s.recursive manager) = true then setRecursive manager false s
      else s) = s₀
    obtain ⟨r, hr⟩ := Option.isSome_iff_exists.1 (updateChildren_ends hrank hmanager node s₀)
    obtain ⟨error, s₁⟩ := r
    rw [hr]
    cases error with
    | true => rfl
    | false => exact ih hrest _

end Ends

end LibGda.TreeUpdates

/-! When a failed update leaves a tree as it was. -/

namespace LibGda.TreeUpdates

open LibGda.TreeNodes PathTree

variable {M N W : Type} [DecidableEq M] [DecidableEq N]

def SameNodes (root : N) (t t' : Heap M N) : Prop :=
  ∀ path n, nodeAt (getChildren t) root path = some n →
    ∀ m, getChildrenForManager t' n m = getChildrenForManager t n m

def Failed (given : List (GivenList M N)) : Prop := ∃ g ∈ given, g.failed = true

def AllMeets (root : N) (s s' : Updating M N W) (result : Bool) : Prop :=
  Failed s'.given → result = false ∧ SameNodes root s.tree s'.tree

def PartMeets (s s' : Updating M N W) (result : Bool) : Prop :=
  (result = false ↔ Failed s'.given) ∧ s'.recursive = s.recursive

def AllHolds (root : N) (t : Heap M N) (given : List (GivenList M N)) : Prop :=
  ¬ Failed given ∨ ∀ path n, nodeAt (getChildren t) root path = some n →
    ∀ m children, lastGiven n m given = some children → children = getChildrenForManager t n m

def ChildrenHolds (recursive : M → Bool) (node : Option N) (given : List (GivenList M N)) : Prop :=
  match node with
  | none => ¬ Failed given
  | some _ => ∀ g ∈ given, g.failed = true → recursive g.mgr = false

def start (t : Heap M N) (recursive : M → Bool) (world : W) : Updating M N W :=
  ⟨t, recursive, world, []⟩

section Failures

variable {s s' : Updating M N W} {log : List (GivenList M N)} {managers : Managers M N W}
  {depth : Nat} {root node : N} {b : Bool}

omit [DecidableEq M] [DecidableEq N] in
theorem failed_iff_any : Failed log ↔ log.any (·.failed) = true := by
  rw [List.any_eq_true]
  rfl

theorem Ran.failed_iff (h : Ran s s' log (!b)) : b = false ↔ Failed log := by
  have hfailures := h.failures
  rw [failed_iff_any, ← hfailures]
  cases b with
  | false => exact ⟨fun _ => rfl, fun _ => rfl⟩
  | true =>
    constructor
    · intro h
      cases h
    · intro h
      cases h

theorem Ran.allMeets_iff (h : Ran s s' log (!b)) (hgiven : s.given = []) :
    AllMeets root s s' b ↔ AllHolds root s.tree s'.given := by
  have hlog : s'.given = log := by rw [h.given, hgiven, List.nil_append]
  rw [AllMeets, AllHolds, hlog]
  constructor
  · intro hmeets
    by_cases hfailed : Failed log
    · right
      intro path n hn m children hchildren
      have hsame := (hmeets hfailed).2 path n hn m
      rw [h.contents, hchildren] at hsame
      exact hsame
    · exact .inl hfailed
  · intro hholds hfailed
    refine ⟨h.failed_iff.2 hfailed, ?_⟩
    intro path n hn m
    rw [h.contents]
    cases hlast : lastGiven n m log with
    | none => rfl
    | some children => exact (hholds.resolve_left (fun hnot => hnot hfailed)) path n hn m children hlast

theorem Ran.partMeets (h : Ran s s' log (!b)) (hgiven : s.given = []) : PartMeets s s' b := by
  have hlog : s'.given = log := by rw [h.given, hgiven, List.nil_append]
  refine ⟨?_, h.recursive⟩
  rw [hlog]
  exact h.failed_iff

omit [DecidableEq N] in
theorem Switched.failed_iff (h : Switched s s' log b) : b = false ↔ Failed log := by
  rw [failed_iff_any]
  cases h with
  | done hrec hnone =>
    rw [hnone]
    constructor
    · intro h
      cases h
    · intro h
      cases h
  | failed manager hrec hany honly => exact ⟨fun _ => hany, fun _ => rfl⟩

omit [DecidableEq N] in
theorem Switched.recursive_iff (h : Switched s s' log b) :
    s'.recursive = s.recursive ↔ ∀ g ∈ log, g.failed = true → s.recursive g.mgr = false := by
  cases h with
  | done hrec hnone =>
    constructor
    · intro _ g hg hfailed
      exact (not_failed_of_any hnone hg hfailed).elim
    · intro _
      exact hrec
  | failed manager hrec hany honly =>
    constructor
    · intro hsame g hg hfailed
      rw [honly g hg hfailed, ← hsame, hrec, if_pos rfl]
    · intro hoff
      obtain ⟨g, hg, hfailed⟩ := List.any_eq_true.1 hany
      have hmanager := hoff g hg hfailed
      rw [honly g hg hfailed] at hmanager
      funext m
      rw [hrec]
      by_cases hm : m = manager
      · rw [if_pos hm, hm, hmanager]
      · rw [if_neg hm]

end Failures

section Results

variable (managers : Managers M N W) (depth : Nat) (tree : GdaTree M N) (t : Heap M N)
  (recursive : M → Bool) (world : W)

theorem updateAll_meets_iff {result : Bool} {s' : Updating M N W}
    (hrun : updateAll managers depth tree (start t recursive world) = some (result, s')) :
    AllMeets tree.root (start t recursive world) s' result ↔ AllHolds tree.root t s'.given := by
  obtain ⟨log, hlog⟩ := createOrUpdateChildren_ran hrun
  exact hlog.allMeets_iff rfl

theorem updatePart_meets {node : N} {result : Bool} {s' : Updating M N W}
    (hrun : updatePart managers depth tree node (start t recursive world) = some (result, s')) :
    PartMeets (start t recursive world) s' result := by
  rw [updatePart] at hrun
  by_cases hempty : managersBelow managers tree (start t recursive world).tree node = []
  · rw [if_pos hempty] at hrun
    cases hrun
    exact @Ran.partMeets _ _ _ _ _ _ _ [] true (Ran.refl _) rfl
  · rw [if_neg hempty] at hrun
    obtain ⟨log, hlog⟩ := createOrUpdateChildren_ran hrun
    exact hlog.partMeets rfl

theorem updateChildrenOf_meets_iff {node : Option N} {result : Bool} {s' : Updating M N W}
    (hrun : updateChildrenOf managers depth tree node (start t recursive world) = some (result, s')) :
    PartMeets (start t recursive world) s' result ↔ ChildrenHolds recursive node s'.given := by
  cases node with
  | none =>
    rw [updateChildrenOf] at hrun
    cases hall : createOrUpdateChildren managers depth tree.root true tree.managers
      (start t recursive world) with
    | none =>
      rw [hall] at hrun
      cases hrun
    | some r =>
      obtain ⟨b, s₁⟩ := r
      obtain ⟨log, hgiven, hswitched⟩ := createOrUpdateChildren_switched hall
      rw [hall] at hrun
      cases hrun
      rw [PartMeets, ChildrenHolds]
      constructor
      · intro hmeets hfailed
        cases hmeets.1.2 hfailed
      · intro hnone
        refine ⟨⟨fun h => absurd h.symm Bool.false_ne_true, fun hfailed => absurd hfailed hnone⟩, ?_⟩
        apply hswitched.recursive_iff.2
        intro g hg hfailed
        refine absurd ⟨g, ?_, hfailed⟩ hnone
        rw [hgiven]
        exact List.mem_append_right _ hg
  | some node =>
    rw [updateChildrenOf] at hrun
    by_cases hempty : managersBelow managers tree (start t recursive world).tree node = []
    · simp only [if_pos hempty] at hrun
      cases hrun
      constructor
      · intro _ g hg
        cases hg
      · intro _
        exact @Ran.partMeets _ _ _ _ _ _ _ [] true (Ran.refl _) rfl
    · simp only [if_neg hempty] at hrun
      obtain ⟨log, hgiven, hswitched⟩ := createOrUpdateChildren_switched hrun
      have hlog : s'.given = log := hgiven
      rw [PartMeets, ChildrenHolds, hlog, hswitched.recursive_iff]
      constructor
      · intro hmeets
        exact hmeets.2
      · intro hoff
        exact ⟨hswitched.failed_iff, hoff⟩

/-- The three updates: what each does, and when it does what it is to do. -/
theorem updates_meet_iff :
    (∀ result s', updateAll managers depth tree (start t recursive world) = some (result, s') →
      (AllMeets tree.root (start t recursive world) s' result ↔ AllHolds tree.root t s'.given)) ∧
    (∀ node result s',
      updateChildrenOf managers depth tree node (start t recursive world) = some (result, s') →
        (PartMeets (start t recursive world) s' result ↔ ChildrenHolds recursive node s'.given)) ∧
    (∀ node result s',
      updatePart managers depth tree node (start t recursive world) = some (result, s') →
        PartMeets (start t recursive world) s' result) ∧
    ∀ rank : M → Nat, (∀ m, ∀ sub ∈ managers.subManagers m, rank sub < rank m) →
      (∀ m, rank m < depth) →
        (updateAll managers depth tree (start t recursive world)).isSome ∧
        (∀ node, (updateChildrenOf managers depth tree node (start t recursive world)).isSome) ∧
        ∀ node, (updatePart managers depth tree node (start t recursive world)).isSome := by
  refine ⟨?_, ?_, ?_, ?_⟩
  · intro result s' hrun
    exact updateAll_meets_iff managers depth tree t recursive world hrun
  · intro node result s' hrun
    exact updateChildrenOf_meets_iff managers depth tree t recursive world hrun
  · intro node result s' hrun
    exact updatePart_meets managers depth tree t recursive world hrun
  · intro rank hrank hdepth
    have hends := fun mgrlist node disableRecurs => @createOrUpdateChildren_ends M N W _ _ managers
      depth rank hrank mgrlist (fun m _ => hdepth m) node disableRecurs
      (start t recursive world)
    refine ⟨hends _ _ _, ?_, ?_⟩
    · intro node
      cases node with
      | none =>
        obtain ⟨r, hr⟩ := Option.isSome_iff_exists.1 (hends tree.managers tree.root true)
        obtain ⟨b, s₁⟩ := r
        rw [updateChildrenOf, hr]
        rfl
      | some node =>
        rw [updateChildrenOf]
        split
        · rfl
        · exact hends _ _ _
    · intro node
      rw [updatePart]
      split
      · rfl
      · exact hends _ _ _

end Results

def secondFails : Managers Nat Nat Unit :=
  ⟨fun _ => [], fun mgr _ _ _ => if mgr = 1 then ([10], false, ()) else ([], true, ())⟩

def emptyTree : Heap Nat Nat := ⟨fun _ => none, fun _ => [], fun _ => 1⟩

/-- gda_tree_update_all fails, and the new node is in the tree. -/
theorem updateAll_leaves_node :
    ¬ ∀ (managers : Managers Nat Nat Unit) depth tree t recursive world result s',
      updateAll managers depth tree (start t recursive world) = some (result, s') →
        AllMeets tree.root (start t recursive world) s' result := by
  intro h
  have hall := h secondFails 1 ⟨[1, 2], 0⟩ emptyTree (fun _ => true) () false _ rfl
  obtain ⟨-, hsame⟩ := hall ⟨⟨0, 2, [], true⟩, by decide, rfl⟩
  have hroot := hsame [] 0 rfl 1
  exact absurd hroot (by decide)

end LibGda.TreeUpdates
