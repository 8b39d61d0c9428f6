import LibGda.RunInvariant
import Mathlib.Algebra.Order.Ring.Int
import Mathlib.Data.List.Nodup
import Mathlib.Data.List.Perm.Basic

/-! The tasks of a connection which are executed asynchronously. -/

namespace LibGda

open RunInvariant

inductive AsyncFault where
  | assertionFailed
  /-- a task is written to after it was freed -/
  | useAfterFree
  | outOfBounds
  deriving DecidableEq

/-- The ID a provider gives to a task it has started; `0` stands for a task not yet started. -/
abbrev ProvTaskId := { id : Nat // 0 < id }

structure CncTask (ρ ε : Type) where
  taskId : Nat
  provTaskId : Nat := 0
  beingProcessed : Bool := false
  result : Option ρ := none
  error : Option ε := none
  deriving DecidableEq

inductive StartAnswer (ε : Type) where
  | started (provTaskId : ProvTaskId)
  | failed (error : ε)

/-- The tasks of a `GdaConnection`, and those which were handed to the provider so far. -/
structure AsyncTasks (ρ ε : Type) where
  nextTaskId : Nat := 1
  waitingTasks : List (CncTask ρ ε) := []
  completedTasks : List (CncTask ρ ε) := []
  handed : List Nat := []
  deriving DecidableEq

/-- The next value of a `guint`. -/
def guintSucc (n : Nat) : Nat := (n + 1) % 2 ^ 32

namespace AsyncTasks

variable {ρ ε : Type} (cnc : AsyncTasks ρ ε)

/-- `get_task_index`: whether the task is completed, and its place. -/
def getTaskIndex (p : CncTask ρ ε → Bool) : Option (Bool × Nat) :=
  match cnc.completedTasks.findIdx? p with
  | some i => some (true, i)
  | none => (cnc.waitingTasks.findIdx? p).map (false, ·)

def startWaiting (answer : Nat → StartAnswer ε) :
    List (CncTask ρ ε) → List (CncTask ρ ε) × List (CncTask ρ ε) × List Nat
  | [] => ([], [], [])
  | task :: rest =>
    match answer task.taskId with
    | .started id =>
      ({ task with beingProcessed := true, provTaskId := id.1 } :: rest, [], [task.taskId])
    | .failed error =>
      let (waiting, failed, handed) := startWaiting answer rest
      (waiting, { task with beingProcessed := false, error := some error } :: failed,
        task.taskId :: handed)

def asyncStmtExecCb (provTaskId : ProvTaskId) (result : Option ρ) (error : Option ε)
    (answer : Nat → StartAnswer ε) : Except AsyncFault (AsyncTasks ρ ε) :=
  match cnc.getTaskIndex (·.provTaskId = provTaskId.1) with
  | none => .ok cnc
  | some (true, _) => .error .assertionFailed
  | some (false, i) =>
    match cnc.waitingTasks[i]? with
    | none => .error .outOfBounds
    | some task =>
      let task := { task with beingProcessed := false, result := result, error := error }
      let (waiting, failed, handed) := startWaiting answer (cnc.waitingTasks.eraseIdx i)
      .ok { cnc with
        waitingTasks := waiting
        completedTasks := cnc.completedTasks ++ task :: failed
        handed := cnc.handed ++ handed }

/-- `gda_connection_async_statement_execute`, once the connection is locked, open and able to
execute asynchronously. -/
def asyncStatementExecute (answer : StartAnswer ε) : Except AsyncFault (Nat × AsyncTasks ρ ε) :=
  let id := cnc.nextTaskId
  let task : CncTask ρ ε := { taskId := id }
  let cnc := { cnc with
    nextTaskId := guintSucc id, waitingTasks := cnc.waitingTasks ++ [task] }
  if cnc.waitingTasks.length = 1 then
    let cnc := { cnc with handed := cnc.handed ++ [id] }
    match answer with
    | .started provTaskId =>
      let task := { task with beingProcessed := true, provTaskId := provTaskId.1 }
      .ok (id, { cnc with waitingTasks := [task] })
    | .failed error =>
      match cnc.getTaskIndex (·.taskId = id) with
      | some (false, i) =>
        .ok (id, { cnc with
          waitingTasks := cnc.waitingTasks.eraseIdx i
          completedTasks := cnc.completedTasks ++ [{ task with error := some error }] })
      | _ => .error .assertionFailed
  else .ok (id, cnc)

/-- `gda_connection_async_fetch_result`, once the connection is locked and the provider was given
the occasion to call back: the result and the error, of a completed task. -/
def asyncFetchResult (taskId : Nat) : Option (Option ρ × Option ε) × AsyncTasks ρ ε :=
  match cnc.getTaskIndex (·.taskId = taskId) with
  | some (true, i) =>
    (cnc.completedTasks[i]?.map fun task => (task.result, task.error),
      { cnc with completedTasks := cnc.completedTasks.eraseIdx i })
  | _ => (none, cnc)

/-- `gda_connection_async_cancel`, where `answer` is the one of the provider, if it can cancel. -/
def asyncCancel (taskId : Nat) (answer : Option Bool) :
    Except AsyncFault (Bool × AsyncTasks ρ ε) :=
  match cnc.getTaskIndex (·.taskId = taskId) with
  | none => .ok (false, cnc)
  | some (true, _) => .ok (true, cnc)
  | some (false, i) =>
    match cnc.waitingTasks[i]? with
    | none => .error .outOfBounds
    | some task =>
      if task.beingProcessed then
        -- the task is freed, then its flag is cleared
        if answer = some true then .error .useAfterFree
        else
          .ok (false, { cnc with
            waitingTasks := cnc.waitingTasks.set i { task with beingProcessed := false } })
      else .ok (true, { cnc with waitingTasks := cnc.waitingTasks.eraseIdx i })

end AsyncTasks

inductive AsyncAction (ρ ε : Type) where
  | asyncStatementExecute (answer : StartAnswer ε)
  | asyncStmtExecCb (provTaskId : ProvTaskId) (result : Option ρ) (error : Option ε)
      (answer : Nat → StartAnswer ε)
  | asyncFetchResult (taskId : Nat)
  | asyncCancel (taskId : Nat) (answer : Option Bool)

structure TaskHistory where
  returned : List Nat := []
  fetched : List Nat := []
  cancelled : List Nat := []
  deriving DecidableEq

def asyncStep {ρ ε : Type} (s : AsyncTasks ρ ε × TaskHistory) :
    AsyncAction ρ ε → Except AsyncFault (AsyncTasks ρ ε × TaskHistory)
  | .asyncStatementExecute answer =>
    (s.1.asyncStatementExecute answer).map fun (id, cnc) =>
      (cnc, { s.2 with returned := s.2.returned ++ [id] })
  | .asyncStmtExecCb provTaskId result error answer =>
    (s.1.asyncStmtExecCb provTaskId result error answer).map (·, s.2)
  | .asyncFetchResult taskId =>
    match s.1.asyncFetchResult taskId with
    | (none, cnc) => .ok (cnc, s.2)
    | (some _, cnc) => .ok (cnc, { s.2 with fetched := s.2.fetched ++ [taskId] })
  | .asyncCancel taskId answer =>
    (s.1.asyncCancel taskId answer).map fun (_, cnc) =>
      -- a waiting task which is no longer there
      let gone := cnc.waitingTasks.length < s.1.waitingTasks.length
      (cnc, if gone then { s.2 with cancelled := s.2.cancelled ++ [taskId] } else s.2)

end LibGda

/-! Where each task is, and which one is processed, in any order of the calls. -/

namespace LibGda

open RunInvariant

namespace AsyncTasks

variable {ρ ε : Type} {cnc : AsyncTasks ρ ε} {h : TaskHistory}

structure Settled (cnc : AsyncTasks ρ ε) (h : TaskHistory) : Prop where
  nodup : h.returned.Nodup
  onePlace : h.returned.Perm (cnc.waitingTasks.map (·.taskId) ++
    (cnc.completedTasks.map (·.taskId) ++ (h.fetched ++ h.cancelled)))
  inOrder : cnc.handed.Sublist h.returned
  atMostOne : ((cnc.waitingTasks ++ cnc.completedTasks).filter (·.beingProcessed)).length ≤ 1
  firstProcessed : ∀ task ∈ cnc.waitingTasks.head?, task.beingProcessed = true

inductive Waits : List (CncTask ρ ε) → Prop
  | nil : Waits []
  | cons {task rest} (hfirst : task.beingProcessed = true)
      (hrest : ∀ other ∈ rest, other.beingProcessed = false ∧ other.provTaskId = 0) :
      Waits (task :: rest)

structure Keeps (cnc : AsyncTasks ρ ε) (h : TaskHistory) : Prop where
  waits : Waits cnc.waitingTasks
  completed : ∀ task ∈ cnc.completedTasks, task.beingProcessed = false
  onePlace : h.returned.Perm (cnc.waitingTasks.map (·.taskId) ++
    (cnc.completedTasks.map (·.taskId) ++ (h.fetched ++ h.cancelled)))
  bound : ∀ id ∈ h.returned, id < cnc.nextTaskId
  nodup : h.returned.Nodup
  inOrder : (cnc.handed ++ cnc.waitingTasks.tail.map (·.taskId)).Sublist h.returned

theorem Keeps.settled (hk : cnc.Keeps h) : cnc.Settled h := by
  have hcompleted : cnc.completedTasks.filter (·.beingProcessed) = [] := by
    rw [List.filter_eq_nil_iff]
    intro task htask
    simp [hk.completed task htask]
  refine ⟨hk.nodup, hk.onePlace, (List.sublist_append_left _ _).trans hk.inOrder, ?_, ?_⟩
  · rw [List.filter_append, hcompleted, List.append_nil]
    cases hw : cnc.waitingTasks with
    | nil => simp
    | cons task rest =>
      have hwaits := hk.waits
      rw [hw] at hwaits
      cases hwaits with
      | cons hfirst hrest =>
        have hnone : rest.filter (·.beingProcessed) = [] := by
          rw [List.filter_eq_nil_iff]
          intro other hother
          simp [(hrest other hother).1]
        rw [List.filter_cons_of_pos hfirst, hnone]
        simp
  · intro task htask
    cases hw : cnc.waitingTasks with
    | nil =>
      rw [hw] at htask
      cases htask
    | cons first rest =>
      rw [hw] at htask
      obtain rfl := Option.some.inj htask
      have hwaits := hk.waits
      rw [hw] at hwaits
      cases hwaits with
      | cons hfirst hrest => exact hfirst

theorem startWaiting_keeps (answer : Nat → StartAnswer ε) (tasks : List (CncTask ρ ε))
    (htasks : ∀ task ∈ tasks, task.beingProcessed = false ∧ task.provTaskId = 0) :
    Waits (startWaiting answer tasks).1 ∧
      (∀ task ∈ (startWaiting answer tasks).2.1, task.beingProcessed = false) ∧
      (tasks.map (·.taskId)).Perm ((startWaiting answer tasks).1.map (·.taskId) ++
        (startWaiting answer tasks).2.1.map (·.taskId)) ∧
      (startWaiting answer tasks).2.2 ++ (startWaiting answer tasks).1.tail.map (·.taskId) =
        tasks.map (·.taskId) := by
  induction tasks with
  | nil => exact ⟨.nil, nofun, List.Perm.refl _, rfl⟩
  | cons task rest ih =>
    have hrest := fun other hother => htasks other (List.mem_cons_of_mem task hother)
    rw [startWaiting]
    cases answer task.taskId with
    | started id => exact ⟨.cons rfl hrest, nofun, by simp, rfl⟩
    | failed error =>
      obtain ⟨hwaits, hfailed, hperm, hhanded⟩ := ih hrest
      refine ⟨hwaits, List.forall_mem_cons.2 ⟨rfl, hfailed⟩, ?_, ?_⟩
      · exact (hperm.cons task.taskId).trans List.perm_middle.symm
      · exact congrArg (task.taskId :: ·) hhanded

theorem Keeps.id_lt (hk : cnc.Keeps h) {task : CncTask ρ ε}
    (htask : task ∈ cnc.waitingTasks ∨ task ∈ cnc.completedTasks) : task.taskId < cnc.nextTaskId := by
  apply hk.bound
  rw [hk.onePlace.mem_iff, List.mem_append, List.mem_append]
  rcases htask with h | h
  · exact .inl (List.mem_map_of_mem h)
  · exact .inr (.inl (List.mem_map_of_mem h))

theorem Keeps.execute (hk : cnc.Keeps h) (hid : cnc.nextTaskId + 1 < 2 ^ 32)
    (answer : StartAnswer ε) :
    ∃ cnc', cnc.asyncStatementExecute answer = .ok (cnc.nextTaskId, cnc') ∧
      cnc'.Keeps { h with returned := h.returned ++ [cnc.nextTaskId] } := by
  have hnext : guintSucc cnc.nextTaskId = cnc.nextTaskId + 1 := Nat.mod_eq_of_lt hid
  have hfresh : cnc.nextTaskId ∉ h.returned := fun hmem => Nat.lt_irrefl _ (hk.bound _ hmem)
  have hbound : ∀ id ∈ h.returned ++ [cnc.nextTaskId], id < cnc.nextTaskId + 1 := by
    intro id hmem
    rcases List.mem_append.1 hmem with hold | hnew
    · exact Nat.lt_succ_of_lt (hk.bound id hold)
    · rw [List.mem_singleton.1 hnew]
      exact Nat.lt_succ_self _
  have hnodup : (h.returned ++ [cnc.nextTaskId]).Nodup := by
    rw [List.nodup_append]
    refine ⟨hk.nodup, List.nodup_singleton _, ?_⟩
    rintro id hold other hnew rfl
    exact hfresh (List.mem_singleton.1 hnew ▸ hold)
  rw [asyncStatementExecute]
  simp only [hnext]
  cases hw : cnc.waitingTasks with
  | nil =>
    have horder := hk.inOrder
    have hperm := hk.onePlace
    rw [hw] at horder hperm
    have hhanded : (cnc.handed ++ [cnc.nextTaskId]).Sublist (h.returned ++ [cnc.nextTaskId]) := by
      rw [List.tail_nil, List.map_nil, List.append_nil] at horder
      exact horder.append (List.Sublist.refl _)
    have hone : ([] ++ [({ taskId := cnc.nextTaskId } : CncTask ρ ε)]).length = 1 := rfl
    rw [if_pos hone]
    cases answer with
    | started id =>
      refine ⟨_, rfl, .cons rfl nofun, hk.completed, ?_, hbound, hnodup, ?_⟩
      · rw [List.perm_iff_count] at hperm ⊢
        intro a
        have hcount := hperm a
        simp only [List.count_append, List.map_cons, List.map_nil, List.count_nil] at hcount ⊢
        omega
      · rw [List.tail_cons, List.map_nil, List.append_nil]
        exact hhanded
    | failed error =>
      have hnone : cnc.completedTasks.findIdx? (fun task => decide (task.taskId = cnc.nextTaskId)) =
          none := by
        rw [List.findIdx?_eq_none_iff]
        intro task htask
        have hlt := hk.id_lt (.inr htask)
        simpa using Nat.ne_of_lt hlt
      rw [getTaskIndex]
      simp only [hnone, List.nil_append, List.findIdx?_cons, decide_true, if_true, Option.map_some]
      refine ⟨_, rfl, .nil, ?_, ?_, hbound, hnodup, ?_⟩
      · intro task htask
        rcases List.mem_append.1 htask with hold | hnew
        · exact hk.completed task hold
        · rw [List.mem_singleton.1 hnew]
      · rw [List.perm_iff_count] at hperm ⊢
        intro a
        have hcount := hperm a
        simp only [List.count_append, List.map_append, List.map_cons, List.map_nil,
          List.count_nil, List.eraseIdx_zero, List.tail_cons] at hcount ⊢
        omega
      · show (cnc.handed ++ [cnc.nextTaskId] ++ []).Sublist _
        rw [List.append_nil]
        exact hhanded
  | cons first rest =>
    have hlong : (first :: rest ++ [({ taskId := cnc.nextTaskId } : CncTask ρ ε)]).length ≠ 1 := by
      simp
    have hwaits := hk.waits
    have horder := hk.inOrder
    have hperm := hk.onePlace
    rw [hw] at hwaits horder hperm
    rw [if_neg hlong]
    refine ⟨_, rfl, ?_, hk.completed, ?_, hbound, hnodup, ?_⟩
    · cases hwaits with
      | cons hfirst hrest =>
        refine .cons hfirst ?_
        intro other hother
        rcases List.mem_append.1 hother with hold | hnew
        · exact hrest other hold
        · rw [List.mem_singleton.1 hnew]
          exact ⟨rfl, rfl⟩
    · rw [List.perm_iff_count] at hperm ⊢
      intro a
      have hcount := hperm a
      simp only [List.count_append, List.map_append, List.map_cons, List.map_nil] at hcount ⊢
      omega
    · have hmore := horder.append (List.Sublist.refl [cnc.nextTaskId])
      simpa using hmore

theorem Keeps.callBack (hk : cnc.Keeps h) {provTaskId : ProvTaskId}
    (hcompleted : ∀ task ∈ cnc.completedTasks, task.provTaskId ≠ provTaskId.1) (result : Option ρ)
    (error : Option ε) (answer : Nat → StartAnswer ε) :
    ∃ cnc', cnc.asyncStmtExecCb provTaskId result error answer = .ok cnc' ∧ cnc'.Keeps h := by
  have hnone : cnc.completedTasks.findIdx? (fun task => decide (task.provTaskId = provTaskId.1)) =
      none := by
    rw [List.findIdx?_eq_none_iff]
    intro task htask
    simpa using hcompleted task htask
  rw [asyncStmtExecCb, getTaskIndex]
  simp only [hnone]
  cases hfind : cnc.waitingTasks.findIdx? (fun task => decide (task.provTaskId = provTaskId.1)) with
  | none => exact ⟨cnc, rfl, hk⟩
  | some i =>
    obtain ⟨hi, hid, -⟩ := List.findIdx?_eq_some_iff_getElem.1 hfind
    have hwaits := hk.waits
    have horder := hk.inOrder
    have hperm := hk.onePlace
    cases hw : cnc.waitingTasks with
    | nil =>
      rw [hw] at hi
      cases hi
    | cons first rest =>
      rw [hw] at hwaits horder hperm
      cases hwaits with
      | cons hfirst hrest =>
        -- only the first task has an ID of the provider
        have hzero : i = 0 := by
          cases i with
          | zero => rfl
          | succ i =>
            simp only [hw, List.getElem_cons_succ] at hid
            have hlater := hrest _ (List.getElem_mem (by simpa [hw] using hi))
            have hpos := provTaskId.2
            have heq := of_decide_eq_true hid
            omega
        subst hzero
        have hstart := startWaiting_keeps answer rest hrest
        rcases hs : startWaiting answer rest with ⟨waiting, failed, handed⟩
        rw [hs] at hstart
        obtain ⟨hnew, hfailed, hstarted, hhanded⟩ := hstart
        refine ⟨{ cnc with
          waitingTasks := waiting
          completedTasks := cnc.completedTasks ++
            { first with beingProcessed := false, result := result, error := error } :: failed
          handed := cnc.handed ++ handed }, ?_, hnew, ?_, ?_, hk.bound, hk.nodup, ?_⟩
        · simp [hs]
        · intro task htask
          rcases List.mem_append.1 htask with hold | hmem
          · exact hk.completed task hold
          · rcases List.mem_cons.1 hmem with rfl | hmem
            · rfl
            · exact hfailed task hmem
        · rw [List.perm_iff_count] at hperm hstarted ⊢
          intro a
          have hcount := hperm a
          have hsplit := hstarted a
          simp only [List.count_append, List.map_append, List.map_cons, List.count_cons]
            at hcount hsplit ⊢
          omega
        · rw [List.append_assoc, hhanded]
          exact horder

theorem Keeps.fetch (hk : cnc.Keeps h) (taskId : Nat) :
    ((cnc.asyncFetchResult taskId).1 = none → (cnc.asyncFetchResult taskId).2.Keeps h) ∧
      ((cnc.asyncFetchResult taskId).1 ≠ none →
        (cnc.asyncFetchResult taskId).2.Keeps { h with fetched := h.fetched ++ [taskId] }) := by
  rw [asyncFetchResult, getTaskIndex]
  cases hfind : cnc.completedTasks.findIdx? (fun task => decide (task.taskId = taskId)) with
  | none =>
    cases cnc.waitingTasks.findIdx? (fun task => decide (task.taskId = taskId)) with
    | none => exact ⟨fun _ => hk, fun hne => absurd rfl hne⟩
    | some i => exact ⟨fun _ => hk, fun hne => absurd rfl hne⟩
  | some i =>
    obtain ⟨hi, hid, -⟩ := List.findIdx?_eq_some_iff_getElem.1 hfind
    have hid := of_decide_eq_true hid
    have herase := (List.getElem_cons_eraseIdx_perm hi).map (·.taskId)
    have hperm := hk.onePlace
    refine ⟨fun hnone => ?_, fun _ => ⟨hk.waits, ?_, ?_, hk.bound, hk.nodup, hk.inOrder⟩⟩
    · simp [List.getElem?_eq_getElem hi] at hnone
    · intro task htask
      exact hk.completed task (List.mem_of_mem_eraseIdx htask)
    · rw [List.perm_iff_count] at hperm herase ⊢
      intro a
      have hcount := hperm a
      have hsplit := herase a
      simp only [List.count_append, List.map_cons, List.count_cons, List.count_nil, hid]
        at hcount hsplit ⊢
      omega

theorem Keeps.cancel (hk : cnc.Keeps h) {taskId : Nat} (answer : Option Bool)
    (hidle : ∀ task ∈ cnc.waitingTasks, task.taskId = taskId → task.beingProcessed = false) :
    ∃ done cnc', cnc.asyncCancel taskId answer = .ok (done, cnc') ∧
      cnc'.Keeps (if cnc'.waitingTasks.length < cnc.waitingTasks.length then
        { h with cancelled := h.cancelled ++ [taskId] } else h) := by
  have hsame : cnc.Keeps (if cnc.waitingTasks.length < cnc.waitingTasks.length then
      { h with cancelled := h.cancelled ++ [taskId] } else h) := by
    rw [if_neg (Nat.lt_irrefl _)]
    exact hk
  rw [asyncCancel, getTaskIndex]
  cases hdone : cnc.completedTasks.findIdx? (fun task => decide (task.taskId = taskId)) with
  | some i => exact ⟨true, cnc, rfl, hsame⟩
  | none =>
    cases hfind : cnc.waitingTasks.findIdx? (fun task => decide (task.taskId = taskId)) with
    | none => exact ⟨false, cnc, rfl, hsame⟩
    | some i =>
      obtain ⟨hi, hid, -⟩ := List.findIdx?_eq_some_iff_getElem.1 hfind
      have hid := of_decide_eq_true hid
      have hnot := hidle _ (List.getElem_mem hi) hid
      have hperm := hk.onePlace
      have herase := (List.getElem_cons_eraseIdx_perm hi).map (·.taskId)
      have hshort : (cnc.waitingTasks.eraseIdx i).length < cnc.waitingTasks.length := by
        rw [List.length_eraseIdx_of_lt hi]
        omega
      simp only [Option.map_some, List.getElem?_eq_getElem hi, hnot, Bool.false_eq_true, if_false]
      refine ⟨_, _, rfl, ?_⟩
      rw [if_pos hshort]
      obtain ⟨hwaits, horder⟩ : Waits (cnc.waitingTasks.eraseIdx i) ∧
          (cnc.handed ++ (cnc.waitingTasks.eraseIdx i).tail.map (·.taskId)).Sublist h.returned := by
        have hwaits := hk.waits
        have horder := hk.inOrder
        cases hw : cnc.waitingTasks with
        | nil =>
          rw [hw] at hi
          cases hi
        | cons first rest =>
          rw [hw] at hwaits horder
          cases hwaits with
          | cons hfirst hrest =>
            cases i with
            | zero =>
              simp only [hw, List.getElem_cons_zero] at hnot
              rw [hnot] at hfirst
              cases hfirst
            | succ i =>
              have hless : (rest.eraseIdx i).Sublist rest := List.eraseIdx_sublist ..
              refine ⟨.cons hfirst fun other hother => hrest other (hless.subset hother), ?_⟩
              exact ((List.Sublist.refl _).append (hless.map _)).trans horder
      refine ⟨hwaits, hk.completed, ?_, hk.bound, hk.nodup, horder⟩
      rw [List.perm_iff_count] at hperm herase ⊢
      intro a
      have hcount := hperm a
      have hsplit := herase a
      simp only [List.count_append, List.map_cons, List.count_cons, List.count_nil, hid]
        at hcount hsplit ⊢
      omega

/-- No ID is given a second time, a provider calls back once for what it has started, and the task
which is processed is not cancelled. -/
def AsyncMeets (s : AsyncTasks ρ ε × TaskHistory) : AsyncAction ρ ε → Prop
  | .asyncStatementExecute _ => s.1.nextTaskId + 1 < 2 ^ 32
  | .asyncStmtExecCb provTaskId _ _ _ =>
    ∀ task ∈ s.1.completedTasks, task.provTaskId ≠ provTaskId.1
  | .asyncFetchResult _ => True
  | .asyncCancel taskId _ =>
    ∀ task ∈ s.1.waitingTasks, task.taskId = taskId → task.beingProcessed = false

instance : ∀ (s : AsyncTasks ρ ε × TaskHistory) (a : AsyncAction ρ ε), Decidable (AsyncMeets s a)
  | s, .asyncStatementExecute _ => inferInstanceAs (Decidable (s.1.nextTaskId + 1 < 2 ^ 32))
  | s, .asyncStmtExecCb provTaskId _ _ _ =>
    inferInstanceAs (Decidable (∀ task ∈ s.1.completedTasks, task.provTaskId ≠ provTaskId.1))
  | _, .asyncFetchResult _ => isTrue trivial
  | s, .asyncCancel taskId _ => inferInstanceAs (Decidable
      (∀ task ∈ s.1.waitingTasks, task.taskId = taskId → task.beingProcessed = false))

theorem Keeps.step {s : AsyncTasks ρ ε × TaskHistory} (hk : s.1.Keeps s.2) {a : AsyncAction ρ ε}
    (hmeets : AsyncMeets s a) : ∃ s', asyncStep s a = .ok s' ∧ s'.1.Keeps s'.2 := by
  cases a with
  | asyncStatementExecute answer =>
    obtain ⟨cnc', heq, hkept⟩ := hk.execute hmeets answer
    refine ⟨(cnc', _), ?_, hkept⟩
    rw [asyncStep, heq]
    rfl
  | asyncStmtExecCb provTaskId result error answer =>
    obtain ⟨cnc', heq, hkept⟩ := hk.callBack hmeets result error answer
    refine ⟨(cnc', s.2), ?_, hkept⟩
    rw [asyncStep, heq]
    rfl
  | asyncFetchResult taskId =>
    obtain ⟨hnone, hsome⟩ := hk.fetch taskId
    rw [asyncStep]
    rcases hfetch : s.1.asyncFetchResult taskId with ⟨fetched, cnc'⟩
    rw [hfetch] at hnone hsome
    cases fetched with
    | none => exact ⟨(cnc', s.2), rfl, hnone rfl⟩
    | some result => exact ⟨(cnc', _), rfl, hsome nofun⟩
  | asyncCancel taskId answer =>
    obtain ⟨done, cnc', heq, hkept⟩ := hk.cancel answer hmeets
    refine ⟨(cnc', _), ?_, hkept⟩
    rw [asyncStep, heq]
    rfl

/-- After any calls which meet the condition no assertion has failed, and all tasks are where they
are to be. -/
theorem settled_run (actions : List (AsyncAction ρ ε))
    (hmeets : StepsMeet asyncStep AsyncMeets ({}, {}) actions) :
    ∃ s, run asyncStep ({}, {}) actions = .ok s ∧ s.1.Settled s.2 := by
  have hnew : ({} : AsyncTasks ρ ε).Keeps {} :=
    ⟨.nil, nofun, List.Perm.refl _, nofun, List.nodup_nil, List.Sublist.refl _⟩
  have hstep : ∀ (s : AsyncTasks ρ ε × TaskHistory) (a : AsyncAction ρ ε),
      s.1.Keeps s.2 → AsyncMeets s a → ∃ s', asyncStep s a = .ok s' ∧ s'.1.Keeps s'.2 :=
    fun s a hk hmeets => hk.step hmeets
  obtain ⟨s, hrun, hk⟩ := run_keeps hstep hnew hmeets
  exact ⟨s, hrun, hk.settled⟩

def exampleTasks : List (AsyncAction String String) :=
  [.asyncStatementExecute (.started ⟨7, by decide⟩), .asyncStatementExecute (.failed ""),
    .asyncStatementExecute (.failed ""), .asyncStatementExecute (.failed ""),
    .asyncCancel 3 none,
    .asyncStmtExecCb ⟨7, by decide⟩ (some "rows") none fun id =>
      if id = 2 then .failed "closed" else .started ⟨8, by decide⟩,
    .asyncFetchResult 1, .asyncStmtExecCb ⟨9, by decide⟩ none none fun _ => .failed ""]

theorem exampleTasks_settled :
    ∃ s, run asyncStep ({}, {}) exampleTasks = .ok s ∧ s.1.Settled s.2 :=
  settled_run exampleTasks (by decide)

/-- A task which the provider cannot cancel is no longer processed, and when it is cancelled again
the one behind it waits for ever. -/
theorem cancelled_leaves_waiting :
    ¬ ∃ s, run asyncStep (({} : AsyncTasks String String), {})
        [.asyncStatementExecute (.started ⟨7, by decide⟩), .asyncStatementExecute (.failed ""),
          .asyncCancel 1 none, .asyncCancel 1 none] = .ok s ∧ s.1.Settled s.2 := by
  rintro ⟨s, hrun, hsettled⟩
  obtain rfl := Except.ok.inj hrun
  have hfirst := hsettled.firstProcessed _ rfl
  cases hfirst

end AsyncTasks

end LibGda
