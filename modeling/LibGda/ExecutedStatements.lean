import LibGda.TransactionTracking

/-! What the executed statements make of the transactions: each event holds one open transaction. -/

namespace LibGda

section Linear

variable {events events' : TransactionEvents} {added : GdaTransactionStatusEvent}

theorem linear_iff : linear events = true ↔ (∀ event ∈ events, linearEvent event = true) ∧
    events.Pairwise fun a b => a.isSubTransaction = true → b.isSubTransaction = false := by
  induction events with
  | nil => simp [linear]
  | cons event rest ih =>
    cases hsub : event.isSubTransaction <;>
      simp [linear, ih, hsub, and_assoc, and_comm, and_left_comm]

theorem linear_sublist (h : linear events = true) (hsub : events'.Sublist events) :
    linear events' = true := by
  rw [linear_iff] at h ⊢
  exact ⟨fun event hmem => h.1 event (hsub.subset hmem), h.2.sublist hsub⟩

theorem linear_replace {before after : TransactionEvents} {event event' : GdaTransactionStatusEvent}
    (hsub : event'.isSubTransaction = event.isSubTransaction)
    (hevent : linearEvent event = true → linearEvent event' = true)
    (h : linear (before ++ event :: after) = true) :
    linear (before ++ event' :: after) = true := by
  rw [linear_iff] at h ⊢
  simp only [List.mem_append, List.mem_cons, or_imp, forall_and, forall_eq, List.pairwise_append,
    List.pairwise_cons, hsub] at h ⊢
  obtain ⟨⟨hbefore, hold, hafter⟩, hpairs⟩ := h
  exact ⟨⟨hbefore, hevent hold, hafter⟩, hpairs⟩

theorem AppendsCurrent.linear (h : AppendsCurrent added events events')
    (hadded : linearEvent added = true) (hlinear : linear events = true) :
    linear events' = true := by
  induction h with
  | here hno =>
    rw [linear_iff] at hlinear ⊢
    refine ⟨?_, ?_⟩
    · intro event hmem
      rcases List.mem_append.1 hmem with hold | hnew
      · exact hlinear.1 event hold
      · rwa [List.mem_singleton.1 hnew]
    · rw [List.pairwise_append]
      refine ⟨hlinear.2, List.pairwise_singleton _ _, ?_⟩
      intro a ha b _ hsub
      rw [hno a ha] at hsub
      cases hsub
  | inside before name isolationLevel hafter _ ih =>
    refine linear_replace ?_ ?_ hlinear
    · rfl
    · exact ih

theorem linear_updateAt {f : TransactionEvents → TransactionEvents}
    (hf : ∀ events, (f events).Sublist events) (path : TransactionPath) (events : TransactionEvents)
    (h : linear events = true) : linear (updateAt f path events) = true := by
  induction path generalizing events with
  | nil => exact linear_sublist h (hf events)
  | cons i path ih =>
    rw [updateAt]
    by_cases hi : i < events.length
    · have hsplit := List.take_append_drop i events
      rw [List.drop_eq_getElem_cons hi] at hsplit
      rw [List.modify_eq_take_cons_drop hi]
      rw [← hsplit] at h
      refine linear_replace ?_ ?_ h
      · cases events[i] <;> rfl
      · intro hevent
        cases hget : events[i] with
        | savepoint svpName => rfl
        | sql sql => rfl
        | subTransaction name isolationLevel inner =>
          rw [hget] at hevent
          exact ih inner hevent
    · rwa [List.modify_eq_self (Nat.le_of_not_lt hi)]

end Linear

namespace TransStatus

def IsLinear (status : TransStatus) : Prop :=
  status.whenOpen (fun tstatus => linear tstatus.events) = true

variable {status : TransStatus}

theorem IsLinear.freeEvents {tstatus : GdaTransactionStatus} (h : linear tstatus.events = true)
    (st : TransactionPath) (event : Option EventPlace) (freeAfter : Bool) :
    linear (tstatus.freeEvents st event freeAfter).events = true := by
  cases event with
  | none => exact h
  | some place =>
    rw [GdaTransactionStatus.freeEvents]
    split
    · apply linear_updateAt _ st tstatus.events h
      intro events
      cases freeAfter with
      | false => exact List.eraseIdx_sublist ..
      | true => exact List.take_sublist ..
    · exact h

theorem IsLinear.transactionEnded (h : status.IsLinear) (transName : Option String) :
    (status.transactionEnded transName).IsLinear := by
  cases status with
  | none => rfl
  | some tstatus =>
    rw [TransStatus.transactionEnded]
    split
    · exact h
    · rfl
    · exact IsLinear.freeEvents h _ _ _

theorem IsLinear.savepointEnded (h : status.IsLinear) (svpName : Option String)
    (freeAfter : Bool) : (status.savepointEnded svpName freeAfter).IsLinear := by
  cases status with
  | none => rfl
  | some tstatus =>
    rw [TransStatus.savepointEnded]
    split
    · exact h
    · exact IsLinear.freeEvents h _ _ _

theorem IsLinear.addEvent {tstatus : GdaTransactionStatus} (h : linear tstatus.events = true)
    {added : GdaTransactionStatusEvent} (hadded : linearEvent added = true) :
    linear (tstatus.addEvent tstatus.findCurrent.1 added).events = true :=
  (appendsCurrent tstatus h added).linear hadded h

theorem IsLinear.statementExecuted (h : status.IsLinear) (stmt : ExecutedStatement)
    (failed : Bool) : (status.statementExecuted stmt failed).IsLinear := by
  cases failed with
  | true => exact h
  | false =>
    cases stmt with
    | begin transName isolationLevel =>
      cases status with
      | none => rfl
      | some tstatus => exact IsLinear.addEvent h rfl
    | rollback transName => exact h.transactionEnded transName
    | commit transName => exact h.transactionEnded transName
    | savepoint svpName =>
      cases status with
      | none => rfl
      | some tstatus =>
        cases svpName with
        | none => exact h
        | some svpName => exact IsLinear.addEvent h rfl
    | rollbackSavepoint svpName => exact h.savepointEnded svpName true
    | deleteSavepoint svpName => exact h.savepointEnded svpName false
    | other sql =>
      cases status with
      | none => exact h
      | some tstatus =>
        cases sql with
        | none => exact h
        | some sql => exact IsLinear.addEvent h rfl

end TransStatus

/-- Whatever statements were executed so far, successfully or not, the next one which names no
transaction to end does what it is to do. -/
theorem statements_reported (executed : List (ExecutedStatement × Bool)) (failed : Bool)
    (name sql : Option String) (isolationLevel : GdaTransactionIsolation) :
    let status : TransStatus :=
      executed.foldl (fun status e => TransStatus.statementExecuted status e.1 e.2) none
    let isReported := fun stmt : ExecutedStatement =>
      status.Reported (status.statementExecuted stmt failed) (.statementExecuted stmt failed)
    isReported (.begin name isolationLevel) ∧ isReported (.rollback none) ∧
      isReported (.commit none) ∧ isReported (.savepoint name) ∧ isReported (.other sql) := by
  intro status isReported
  have hlinear : status.IsLinear := by
    have hrun : ∀ start : TransStatus, start.IsLinear →
        TransStatus.IsLinear (executed.foldl
          (fun status e => TransStatus.statementExecuted status e.1 e.2) start) := by
      induction executed with
      | nil => exact fun _ h => h
      | cons e executed ih => exact fun start h => ih _ (h.statementExecuted e.1 e.2)
    exact hrun none rfl
  cases failed with
  | true => exact ⟨rfl, rfl, rfl, rfl, rfl⟩
  | false =>
    have hadded : status.addMeets none name = true := by
      cases hstatus : status with
      | none => rfl
      | some tstatus =>
        rw [hstatus] at hlinear
        have hopen : linear tstatus.events = true := hlinear
        simp [TransStatus.addMeets, TransStatus.whenOpen, GdaTransactionStatus.parentMeets, hopen]
    refine ⟨TransStatus.started_reported none name isolationLevel hlinear,
      TransStatus.ended_reported none hlinear, TransStatus.ended_reported none hlinear,
      TransStatus.added_reported none name hadded, TransStatus.executed_reported sql ?_⟩
    rw [Bool.or_eq_true]
    exact .inr hlinear

end LibGda
