import LibGda.TransactionStatus

/-! When the transactions which are kept track of are the ones which are open. -/

namespace LibGda

open RunInvariant

variable {str : String} {event : GdaTransactionStatusEvent} {events events' : TransactionEvents}
  {i : Nat}

theorem updateAt_inside (f : TransactionEvents → TransactionEvents) (path : TransactionPath)
    (before rest : TransactionEvents) (name : Option String)
    (isolationLevel : GdaTransactionIsolation) (inner : TransactionEvents) :
    updateAt f (before.length :: path) (before ++ .subTransaction name isolationLevel inner :: rest) =
      before ++ .subTransaction name isolationLevel (updateAt f path inner) :: rest := by
  rw [updateAt]
  induction before with
  | nil => rfl
  | cons event before ih =>
    rw [List.cons_append, List.length_cons, List.modify_succ_cons, ih]
    rfl

section Find

mutual

theorem findEvent_eq_none (event : GdaTransactionStatusEvent) (i : Nat) :
    findEvent str i event = none ↔ mentionEvent str event = none := by
  cases event with
  | savepoint svpName =>
    rw [findEvent, mentionEvent]
    split <;> simp
  | sql sql =>
    rw [findEvent, mentionEvent]
    split <;> simp
  | subTransaction name isolationLevel events =>
    rw [findEvent, mentionEvent]
    split
    · simp
    · rw [Option.map_eq_none_iff, Option.map_eq_none_iff]
      exact findEvents_eq_none events 0

theorem findEvents_eq_none (events : TransactionEvents) (i : Nat) :
    findEvents str i events = none ↔ firstMention str events = none := by
  cases events with
  | nil => exact ⟨fun _ => rfl, fun _ => rfl⟩
  | cons event rest =>
    have hrest := findEvents_eq_none rest (i + 1)
    rw [firstMention, Option.or_eq_none_iff, ← findEvent_eq_none event i, ← hrest, findEvents]
    cases findEvent str i event with
    | none => simp
    | some found => simp

end

def GdaTransactionStatusEvent.IsCalled (event : GdaTransactionStatusEvent) (str : String) :
    Mention → Prop
  | .transaction => ∃ isolationLevel events, event = .subTransaction (some str) isolationLevel events
  | .savepoint => event = .savepoint str
  | .sql => event = .sql str

theorem isCalled_of_mention {mention : Mention} (h : mentionEvent str event = some (true, mention)) :
    event.IsCalled str mention := by
  cases event with
  | savepoint svpName =>
    rw [mentionEvent] at h
    split at h
    · rename_i heq
      cases h
      exact congrArg _ heq
    · cases h
  | sql sql =>
    rw [mentionEvent] at h
    split at h
    · rename_i heq
      cases h
      exact congrArg _ heq
    · cases h
  | subTransaction name isolationLevel events =>
    rw [mentionEvent] at h
    split at h
    · rename_i heq
      cases h
      exact ⟨isolationLevel, events, by rw [heq]⟩
    · obtain ⟨inner, -, hinner⟩ := Option.map_eq_some_iff.1 h
      cases hinner

theorem findEvent_called {mention : Mention} (h : event.IsCalled str mention) (i : Nat) :
    findEvent str i event = some (i, if mention = .transaction then [i] else []) := by
  cases mention with
  | transaction =>
    obtain ⟨isolationLevel, events, rfl⟩ := h
    exact if_pos rfl
  | savepoint =>
    obtain rfl := h
    exact if_pos rfl
  | sql =>
    obtain rfl := h
    exact if_pos rfl

theorem findEvents_here {mention : Mention} (h : firstMention str events = some (true, mention)) :
    ∃ before event after, events = before ++ event :: after ∧ event.IsCalled str mention ∧
      ∀ i, findEvents str i events = some (i + before.length,
        if mention = .transaction then [i + before.length] else []) := by
  induction events with
  | nil => cases h
  | cons event rest ih =>
    rw [firstMention] at h
    cases hevent : mentionEvent str event with
    | none =>
      rw [hevent, Option.none_or] at h
      obtain ⟨before, found, after, rfl, hcalled, hfind⟩ := ih h
      refine ⟨event :: before, found, after, rfl, hcalled, ?_⟩
      intro i
      have hlen : i + (event :: before).length = i + 1 + before.length := by
        rw [List.length_cons]
        omega
      rw [findEvents, (findEvent_eq_none event i).2 hevent, hlen]
      exact hfind (i + 1)
    | some found =>
      rw [hevent, Option.some_or] at h
      obtain rfl := Option.some.inj h
      have hcalled := isCalled_of_mention hevent
      refine ⟨[], event, rest, rfl, hcalled, ?_⟩
      intro i
      rw [findEvents, findEvent_called hcalled]
      rfl

end Find

section Mentioned

theorem not_eventEdits {R : TransactionEvents → TransactionEvents → Prop}
    (hhead : ∀ events events', R events events' → ∃ event rest mention, events = event :: rest ∧
      event.IsCalled str mention) (h : firstMention str events = none) : ¬ EventEdits R events events' := by
  intro hedit
  induction hedit with
  | here hR =>
    obtain ⟨event, rest, mention, rfl, hcalled⟩ := hhead _ _ hR
    have hfind := (findEvents_eq_none (event :: rest) 0).2 h
    rw [findEvents, findEvent_called hcalled] at hfind
    cases hfind
  | later event _ ih =>
    rw [firstMention, Option.or_eq_none_iff] at h
    exact ih h.2
  | inside name isolationLevel rest _ ih =>
    rw [firstMention, Option.or_eq_none_iff, mentionEvent] at h
    obtain ⟨h, -⟩ := h
    split at h
    · cases h
    · exact ih (Option.map_eq_none_iff.1 h)

theorem not_ends (h : firstMention str events = none) : ¬ EndsNamed str events events' := by
  apply not_eventEdits _ h
  rintro _ _ ⟨⟨isolationLevel, inner, rest, rfl⟩, -⟩
  exact ⟨_, rest, .transaction, rfl, isolationLevel, inner, rfl⟩

theorem not_appendsTo (h : firstMention str events = none) : ¬ AppendsTo str event events events' := by
  apply not_eventEdits _ h
  rintro _ _ ⟨isolationLevel, inner, rest, rfl, -⟩
  exact ⟨_, rest, .transaction, rfl, isolationLevel, inner, rfl⟩

end Mentioned

section Current

variable {before rest : TransactionEvents}

theorem findCurrentEvents_eq_none (h : findCurrentEvents i events = none) : NoSub events := by
  induction events generalizing i with
  | nil => exact nofun
  | cons event rest ih =>
    rw [findCurrentEvents] at h
    cases event with
    | savepoint svpName => exact List.forall_mem_cons.2 ⟨rfl, ih h⟩
    | sql sql => exact List.forall_mem_cons.2 ⟨rfl, ih h⟩
    | subTransaction name isolationLevel events =>
      rw [findCurrentEvent] at h
      cases hinner : findCurrentEvents 0 events with
      | none =>
        rw [hinner] at h
        cases h
      | some found =>
        rw [hinner] at h
        cases h

theorem noSub_of_linear (h : linear (event :: rest) = true) (hsub : event.isSubTransaction = true) :
    NoSub rest := by
  rw [linear, hsub, Bool.not_true, Bool.false_or, Bool.and_eq_true, List.all_eq_true] at h
  intro e he
  simpa using h.2 e he

mutual

theorem current_event (added event : GdaTransactionStatusEvent) (before rest : TransactionEvents)
    (st path : TransactionPath) (j : Nat) (hlinear : linearEvent event = true) (hrest : NoSub rest)
    (h : findCurrentEvent before.length event = some (st, (path, j))) :
    AppendsCurrent added (before ++ event :: rest)
        (updateAt (· ++ [added]) st (before ++ event :: rest)) ∧
      EndsCurrent (before ++ event :: rest)
        (updateAt (·.take j) path (before ++ event :: rest)) := by
  cases event with
  | savepoint svpName => cases h
  | sql sql => cases h
  | subTransaction name isolationLevel inner =>
    rw [findCurrentEvent] at h
    cases hinner : findCurrentEvents 0 inner with
    | none =>
      rw [hinner] at h
      cases h
      have hno := findCurrentEvents_eq_none hinner
      rw [updateAt_inside]
      refine ⟨.inside before name isolationLevel hrest (.here hno), ?_⟩
      rw [updateAt, List.take_left]
      exact .here before name isolationLevel hno hrest
    | some found =>
      obtain ⟨st', path', j'⟩ := found
      rw [hinner] at h
      cases h
      obtain ⟨happends, hends⟩ := current_events added inner [] st' path' j hlinear hinner
      rw [updateAt_inside, updateAt_inside]
      exact ⟨.inside before name isolationLevel hrest happends,
        .inside before name isolationLevel hrest hends⟩

theorem current_events (added : GdaTransactionStatusEvent) (events before : TransactionEvents)
    (st path : TransactionPath) (j : Nat) (hlinear : linear events = true)
    (h : findCurrentEvents before.length events = some (st, (path, j))) :
    AppendsCurrent added (before ++ events) (updateAt (· ++ [added]) st (before ++ events)) ∧
      EndsCurrent (before ++ events) (updateAt (·.take j) path (before ++ events)) := by
  cases events with
  | nil => cases h
  | cons event rest =>
    have hparts := hlinear
    rw [linear, Bool.and_eq_true, Bool.and_eq_true] at hparts
    rw [findCurrentEvents] at h
    cases hevent : findCurrentEvent before.length event with
    | none =>
      rw [hevent] at h
      have hlen : before.length + 1 = (before ++ [event]).length := by simp
      rw [hlen] at h
      have hlast := current_events added rest (before ++ [event]) st path j hparts.1.2 h
      rwa [List.append_assoc] at hlast
    | some found =>
      rw [hevent] at h
      obtain rfl := Option.some.inj h
      have hsub : event.isSubTransaction = true := by
        cases event with
        | savepoint svpName => cases hevent
        | sql sql => cases hevent
        | subTransaction name isolationLevel inner => rfl
      exact current_event added event before rest st path j hparts.1.1
        (noSub_of_linear hlinear hsub) hevent

end

theorem appendsCurrent (tstatus : GdaTransactionStatus) (hlinear : linear tstatus.events = true)
    (added : GdaTransactionStatusEvent) :
    AppendsCurrent added tstatus.events
      (updateAt (· ++ [added]) tstatus.findCurrent.1 tstatus.events) := by
  rw [GdaTransactionStatus.findCurrent]
  cases hfind : findCurrentEvents 0 tstatus.events with
  | none => exact .here (findCurrentEvents_eq_none hfind)
  | some found =>
    obtain ⟨st, path, j⟩ := found
    exact (current_events added tstatus.events [] st path j hlinear hfind).1

mutual

theorem length_current_event (event : GdaTransactionStatusEvent) (i : Nat) (st path : TransactionPath)
    (j : Nat) (h : findCurrentEvent i event = some (st, (path, j))) :
    st.length = path.length + 1 := by
  cases event with
  | savepoint svpName => cases h
  | sql sql => cases h
  | subTransaction name isolationLevel inner =>
    rw [findCurrentEvent] at h
    cases hinner : findCurrentEvents 0 inner with
    | none =>
      rw [hinner] at h
      cases h
      rfl
    | some found =>
      obtain ⟨st', path', j'⟩ := found
      rw [hinner] at h
      cases h
      have hlen := length_current_events inner 0 st' path' j hinner
      rw [List.length_cons, List.length_cons, hlen]

theorem length_current_events (events : TransactionEvents) (i : Nat) (st path : TransactionPath)
    (j : Nat) (h : findCurrentEvents i events = some (st, (path, j))) :
    st.length = path.length + 1 := by
  cases events with
  | nil => cases h
  | cons event rest =>
    rw [findCurrentEvents] at h
    cases hevent : findCurrentEvent i event with
    | none =>
      rw [hevent] at h
      exact length_current_events rest (i + 1) st path j h
    | some found =>
      rw [hevent] at h
      obtain rfl := Option.some.inj h
      exact length_current_event event i st path j hevent

end

end Current

section Named

variable {before rest : TransactionEvents} {path : TransactionPath}

mutual

theorem appendsTo_event (added event : GdaTransactionStatusEvent) (before rest : TransactionEvents)
    (j : Nat) (path : TransactionPath) (h : findEvent str before.length event = some (j, path))
    (hmention : (mentionEvent str event).map (·.2) = some .transaction) :
    ∃ event', updateAt (· ++ [added]) path (before ++ event :: rest) = before ++ event' :: rest ∧
      AppendsTo str added (event :: rest) (event' :: rest) := by
  cases event with
  | savepoint svpName =>
    rw [mentionEvent] at hmention
    split at hmention <;> cases hmention
  | sql sql =>
    rw [mentionEvent] at hmention
    split at hmention <;> cases hmention
  | subTransaction name isolationLevel inner =>
    rw [mentionEvent] at hmention
    rw [findEvent] at h
    split at h
    · rename_i hname
      cases h
      refine ⟨.subTransaction name isolationLevel (inner ++ [added]), updateAt_inside .., ?_⟩
      exact .here ⟨isolationLevel, inner, rest, by rw [hname], by rw [hname]⟩
    · rename_i hname
      rw [if_neg hname] at hmention
      obtain ⟨⟨k, path'⟩, hinner, heq⟩ := Option.map_eq_some_iff.1 h
      cases heq
      have hkind : (firstMention str inner).map (·.2) = some .transaction := by
        rw [← hmention, Option.map_map]
        rfl
      obtain ⟨inner', hupdate, happends⟩ :=
        appendsTo_events added inner [] k path' hinner hkind
      refine ⟨.subTransaction name isolationLevel inner', ?_,
        .inside name isolationLevel rest happends⟩
      rw [updateAt_inside]
      exact congrArg (fun events => before ++ .subTransaction name isolationLevel events :: rest)
        hupdate

theorem appendsTo_events (added : GdaTransactionStatusEvent) (events before : TransactionEvents)
    (j : Nat) (path : TransactionPath) (h : findEvents str before.length events = some (j, path))
    (hmention : (firstMention str events).map (·.2) = some .transaction) :
    ∃ events', updateAt (· ++ [added]) path (before ++ events) = before ++ events' ∧
      AppendsTo str added events events' := by
  cases events with
  | nil => cases h
  | cons event rest =>
    rw [findEvents] at h
    rw [firstMention] at hmention
    cases hevent : findEvent str before.length event with
    | none =>
      rw [hevent] at h
      rw [(findEvent_eq_none event _).1 hevent, Option.none_or] at hmention
      have hlen : before.length + 1 = (before ++ [event]).length := by simp
      rw [hlen] at h
      obtain ⟨rest', hupdate, happends⟩ :=
        appendsTo_events added rest (before ++ [event]) j path h hmention
      refine ⟨event :: rest', ?_, .later event happends⟩
      rwa [List.append_assoc, List.append_assoc] at hupdate
    | some found =>
      rw [hevent] at h
      obtain rfl := Option.some.inj h
      have hsome : mentionEvent str event ≠ none := by
        intro hnone
        rw [(findEvent_eq_none event _).2 hnone] at hevent
        cases hevent
      obtain ⟨mention, hfirst⟩ := Option.ne_none_iff_exists'.1 hsome
      rw [hfirst, Option.some_or] at hmention
      rw [← hfirst] at hmention
      obtain ⟨event', hupdate, happends⟩ :=
        appendsTo_event added event before rest j path hevent hmention
      exact ⟨event' :: rest, hupdate, happends⟩

end

end Named

namespace GdaTransactionStatus

variable (tstatus : GdaTransactionStatus)

def parentMeets (parentTrans : Option String) : Bool :=
  match parentTrans with
  | none => linear tstatus.events
  | some name =>
    tstatus.name = some name || (firstMention name tstatus.events).map (·.2) = some .transaction

def endMeets (transName : Option String) : Bool :=
  match transName with
  | none => linear tstatus.events
  | some name =>
    tstatus.name = some name || firstMention name tstatus.events = none ||
      firstMention name tstatus.events = some (true, .transaction)

def savepointMeets (svpName : Option String) : Bool :=
  match svpName with
  | none => true
  | some name =>
    (tstatus.name ≠ some name && firstMention name tstatus.events = some (true, .savepoint)) ||
      (!hasSavepoint name tstatus.events &&
        (tstatus.name = some name || firstMention name tstatus.events ≠ some (true, .sql)))

def isNotOpen (parentTrans : Option String) : Bool :=
  match parentTrans with
  | none => false
  | some name => tstatus.name ≠ some name && firstMention name tstatus.events = none

end GdaTransactionStatus

namespace TransStatus

/-- `meets` for the outermost transaction, when there is one. -/
def whenOpen (status : TransStatus) (meets : GdaTransactionStatus → Bool) : Bool :=
  match status with
  | none => true
  | some tstatus => meets tstatus

def addMeets (status : TransStatus) (parentTrans svpName : Option String) : Bool :=
  status.whenOpen fun tstatus =>
    svpName = none || tstatus.parentMeets parentTrans || tstatus.isNotOpen parentTrans

def meets (status : TransStatus) : TransactionReport → Bool
  | .transactionStarted parentTrans _ _ => status.whenOpen (·.parentMeets parentTrans)
  | .transactionRolledback transName => status.whenOpen (·.endMeets transName)
  | .transactionCommitted transName => status.whenOpen (·.endMeets transName)
  | .savepointAdded parentTrans svpName => status.addMeets parentTrans svpName
  | .savepointRolledback svpName => status.whenOpen (·.savepointMeets svpName)
  | .savepointRemoved svpName => status.whenOpen (·.savepointMeets svpName)
  | .statementExecuted stmt failed =>
    failed ||
      match stmt with
      | .begin _ _ => status.whenOpen (·.parentMeets none)
      | .rollback transName => status.whenOpen (·.endMeets transName)
      | .commit transName => status.whenOpen (·.endMeets transName)
      | .savepoint svpName => status.addMeets none svpName
      | .rollbackSavepoint svpName => status.whenOpen (·.savepointMeets svpName)
      | .deleteSavepoint svpName => status.whenOpen (·.savepointMeets svpName)
      | .other sql => sql = none || status.whenOpen (·.parentMeets none)

end TransStatus

section Steps

theorem find_current (tstatus : GdaTransactionStatus) :
    tstatus.find none = some tstatus.findCurrent := rfl

theorem find_outermost {tstatus : GdaTransactionStatus} {name : String}
    (h : tstatus.name = some name) : tstatus.find (some name) = some ([], none) := if_pos h

theorem find_inside {tstatus : GdaTransactionStatus} {name : String}
    (h : tstatus.name ≠ some name) : tstatus.find (some name) =
      (findEvents name 0 tstatus.events).map fun found => (found.2, some ([], found.1)) := if_neg h

theorem EventEdits.append {R : TransactionEvents → TransactionEvents → Prop} (h : EventEdits R events events')
    (before : TransactionEvents) : EventEdits R (before ++ events) (before ++ events') := by
  induction before with
  | nil => exact h
  | cons event before ih => exact .later event ih

variable {tstatus : GdaTransactionStatus} {status : TransStatus}

theorem find_parent {parentTrans : Option String} (h : tstatus.parentMeets parentTrans = true)
    (added : GdaTransactionStatusEvent) :
    ∃ parent event, tstatus.find parentTrans = some (parent, event) ∧
      tstatus.Appends parentTrans added (tstatus.addEvent parent added) := by
  cases parentTrans with
  | none =>
    refine ⟨tstatus.findCurrent.1, tstatus.findCurrent.2, rfl, _, rfl, ?_⟩
    exact appendsCurrent tstatus h added
  | some name =>
    by_cases hname : tstatus.name = some name
    · exact ⟨[], none, find_outermost hname, _, rfl, .inl ⟨hname, rfl⟩⟩
    · have hkind : (firstMention name tstatus.events).map (·.2) = some .transaction := by
        rw [GdaTransactionStatus.parentMeets, Bool.or_eq_true] at h
        rcases h with h | h
        · exact absurd (of_decide_eq_true h) hname
        · exact of_decide_eq_true h
      cases hfind : findEvents name 0 tstatus.events with
      | none =>
        rw [(findEvents_eq_none _ 0).1 hfind] at hkind
        cases hkind
      | some found =>
        obtain ⟨j, path⟩ := found
        obtain ⟨events', hupdate, happends⟩ :=
          appendsTo_events added tstatus.events [] j path hfind hkind
        refine ⟨path, some ([], j), ?_, events', congrArg _ hupdate, .inr happends⟩
        rw [find_inside hname, hfind]
        rfl

theorem TransStatus.started_reported (parentTrans transName : Option String) (isolLevel : GdaTransactionIsolation)
    (h : status.whenOpen (·.parentMeets parentTrans) = true) :
    status.Started parentTrans transName isolLevel
      (status.transactionStarted parentTrans transName isolLevel) := by
  cases status with
  | none => rfl
  | some tstatus =>
    obtain ⟨parent, event, hfind, happends⟩ :=
      find_parent h (.subTransaction transName isolLevel [])
    rw [TransStatus.transactionStarted, hfind]
    exact ⟨_, rfl, happends⟩

theorem TransStatus.executed_reported (sql : Option String)
    (h : (sql = none || status.whenOpen (·.parentMeets none)) = true) :
    status.Executed sql (status.sqlExecuted sql) := by
  cases status with
  | none => rfl
  | some tstatus =>
    cases sql with
    | none => rfl
    | some sql => exact ⟨_, rfl, _, rfl, appendsCurrent tstatus h (.sql sql)⟩

theorem TransStatus.added_reported (parentTrans svpName : Option String)
    (h : status.addMeets parentTrans svpName = true) :
    status.Added parentTrans svpName (status.savepointAdded parentTrans svpName) := by
  cases status with
  | none => cases svpName <;> rfl
  | some tstatus =>
    cases svpName with
    | none =>
      rw [TransStatus.savepointAdded]
      cases tstatus.find parentTrans <;> rfl
    | some svpName =>
      have hparts : tstatus.parentMeets parentTrans = true ∨
          tstatus.isNotOpen parentTrans = true := by
        simpa [TransStatus.addMeets, TransStatus.whenOpen] using h
      rcases hparts with hmeets | hno
      · obtain ⟨parent, event, hfind, happends⟩ := find_parent hmeets (.savepoint svpName)
        left
        rw [TransStatus.savepointAdded, hfind]
        exact ⟨_, rfl, happends⟩
      · right
        cases parentTrans with
        | none => cases hno
        | some name =>
          rw [GdaTransactionStatus.isNotOpen, Bool.and_eq_true] at hno
          have hname : tstatus.name ≠ some name := of_decide_eq_true hno.1
          have hmention : firstMention name tstatus.events = none := of_decide_eq_true hno.2
          refine ⟨?_, ?_⟩
          · rintro tstatus' ⟨events', -, hroot | happends⟩
            · exact hname hroot.1
            · exact not_appendsTo hmention happends
          · rw [TransStatus.savepointAdded, find_inside hname, (findEvents_eq_none _ 0).2 hmention]
            rfl

theorem TransStatus.ended_reported (transName : Option String) (h : status.whenOpen (·.endMeets transName) = true) :
    status.Ended transName (status.transactionEnded transName) := by
  cases status with
  | none => rfl
  | some tstatus =>
    rw [TransStatus.transactionEnded]
    cases transName with
    | none =>
      rw [find_current, GdaTransactionStatus.findCurrent]
      cases hfind : findCurrentEvents 0 tstatus.events with
      | none => exact .inl ⟨findCurrentEvents_eq_none hfind, rfl⟩
      | some found =>
        obtain ⟨st, path, j⟩ := found
        have hends := (current_events (.sql "") tstatus.events [] st path j h hfind).2
        refine .inr ⟨_, hends, ?_⟩
        simp [GdaTransactionStatus.freeEvents]
    | some name =>
      by_cases hname : tstatus.name = some name
      · rw [find_outermost hname]
        exact .inl ⟨hname, rfl⟩
      · have hmention : firstMention name tstatus.events = none ∨
            firstMention name tstatus.events = some (true, .transaction) := by
          simpa [TransStatus.whenOpen, GdaTransactionStatus.endMeets, hname] using h
        rw [find_inside hname]
        rcases hmention with hnone | hhere
        · rw [(findEvents_eq_none _ 0).2 hnone]
          exact .inr (.inr ⟨hname, fun events' => not_ends hnone, rfl⟩)
        · obtain ⟨before, event, after, hevents, ⟨isolationLevel, inner, rfl⟩, hfind⟩ :=
            findEvents_here hhere
          rw [hfind 0]
          refine .inr (.inl ⟨before, ?_, ?_⟩)
          · have hgone : EndsNamed name (.subTransaction (some name) isolationLevel inner :: after) [] :=
              .here ⟨⟨isolationLevel, inner, after, rfl⟩, rfl⟩
            have hends := EventEdits.append hgone before
            rwa [List.append_nil, ← hevents] at hends
          · simp [GdaTransactionStatus.freeEvents, updateAt, hevents]

end Steps

end LibGda
