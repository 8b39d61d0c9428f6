import LibGda.RunInvariant
import Mathlib.Data.List.Basic

/-! The meta data of a connection, updated after the statements which change it, and again after
a transaction which is rolled back. -/

namespace LibGda

open RunInvariant

inductive MetaFault where
  | assertionFailed
  deriving DecidableEq

structure GdaMetaContext where
  tableName : String := "_tables"
  columns : List (String × String)
  deriving DecidableEq

inductive GdaMetaStore where
  | inSameConnection
  | inOtherConnection
  deriving DecidableEq

/-- The type of a statement which was executed; those of type unknown come with the contexts
`meta_data_context_from_statement` makes of their SQL. -/
inductive ExecutedType where
  | begin | commit | rollback
  | unknown (contexts : List GdaMetaContext)
  /-- a SELECT, a statement on a savepoint and so on -/
  | other
  deriving DecidableEq

/-- What a `GdaConnection` has for its meta data, and the contexts which were updated so far. -/
structure MetaUpdates where
  opened : Bool := false
  metaStore : Option GdaMetaStore := none
  autoMetaData : Bool := false
  transMetaContext : Option (List GdaMetaContext) := none
  updated : List GdaMetaContext := []
  deriving DecidableEq

namespace MetaUpdates

variable (cnc : MetaUpdates)

def updateMetaStore (contexts : List GdaMetaContext) : MetaUpdates :=
  { cnc with updated := cnc.updated ++ contexts }

def updateContexts (contexts : List GdaMetaContext) : MetaUpdates :=
  { cnc.updateMetaStore contexts with
    transMetaContext := cnc.transMetaContext.map (contexts.reverse ++ ·) }

def updateAfterStatementExec (type : ExecutedType) : Except MetaFault MetaUpdates :=
  match cnc.metaStore with
  | none => .ok cnc
  | some store =>
    if cnc.autoMetaData = false then .ok cnc
    else
      match type with
      | .begin =>
        if store = .inSameConnection then .ok cnc
        else if cnc.transMetaContext.isSome then .error .assertionFailed
        else .ok { cnc with transMetaContext := some [] }
      | .rollback =>
        if store = .inSameConnection then .ok cnc
        else
          match cnc.transMetaContext with
          | none => .error .assertionFailed
          | some contexts =>
            .ok { cnc.updateMetaStore contexts with transMetaContext := none }
      | .commit =>
        if store = .inSameConnection then .ok cnc
        else
          match cnc.transMetaContext with
          | none => .error .assertionFailed
          | some _ => .ok { cnc with transMetaContext := none }
      | .unknown contexts => .ok (cnc.updateContexts contexts)
      | .other => .ok cnc

/-- `_gda_connection_signal_meta_table_update`, the context being the one of the table's name. -/
def signalMetaTableUpdate (context : GdaMetaContext) : MetaUpdates :=
  if cnc.metaStore.isNone || !cnc.autoMetaData then cnc else cnc.updateContexts [context]

def closeTransaction (transStatus : Bool) : MetaUpdates :=
  match cnc.transMetaContext with
  | none => cnc
  | some contexts =>
    if cnc.metaStore = some .inOtherConnection ∧ transStatus = true then
      { cnc.updateMetaStore contexts with transMetaContext := none }
    else cnc

/-- `gda_connection_close_no_warning`, where `transStatus` tells whether a transaction is kept
track of. -/
def closeNoWarning (transStatus : Bool) : MetaUpdates :=
  if cnc.opened = false then cnc else { cnc.closeTransaction transStatus with opened := false }

/-- The property `options`, which is not changed once the connection is opened. -/
def setAutoMetaData (on : Bool) : MetaUpdates :=
  if cnc.opened then cnc else { cnc with autoMetaData := on }

end MetaUpdates

inductive MetaAction where
  | openConnection
  | setMetaStore (store : Option GdaMetaStore)
  | setAutoMetaData (on : Bool)
  /-- a statement which is successfully executed, which none is on a closed connection -/
  | executed (type : ExecutedType)
  | signalMetaTableUpdate (context : GdaMetaContext)
  | close (transStatus : Bool)

def MetaUpdates.step (cnc : MetaUpdates) : MetaAction → Except MetaFault MetaUpdates
  | .openConnection => .ok { cnc with opened := true }
  | .setMetaStore store => .ok { cnc with metaStore := store }
  | .setAutoMetaData on => .ok (cnc.setAutoMetaData on)
  | .executed type => if cnc.opened then cnc.updateAfterStatementExec type else .ok cnc
  | .signalMetaTableUpdate context => .ok (cnc.signalMetaTableUpdate context)
  | .close transStatus => .ok (cnc.closeNoWarning transStatus)

def MetaUpdates.updatedSince (cnc cnc' : MetaUpdates) : List GdaMetaContext :=
  cnc'.updated.drop cnc.updated.length

abbrev OpenTransaction := Option (List GdaMetaContext)

def OpenTransaction.afterStatement (transaction : OpenTransaction)
    (updated : List GdaMetaContext) : ExecutedType → OpenTransaction
  | .begin => some []
  | .commit => none
  | .rollback => none
  | .unknown _ => transaction.map (· ++ updated)
  | .other => transaction.map (· ++ updated)

def OpenTransaction.next (transaction : OpenTransaction) (cnc cnc' : MetaUpdates) :
    MetaAction → OpenTransaction
  | .executed type =>
    if cnc.opened then transaction.afterStatement (cnc.updatedSince cnc') type else transaction
  | .close _ => none
  | _ => transaction.map (· ++ cnc.updatedSince cnc')

def metaStep (s : MetaUpdates × OpenTransaction) (a : MetaAction) :
    Except MetaFault (MetaUpdates × OpenTransaction) :=
  (s.1.step a).map fun cnc => (cnc, s.2.next s.1 cnc a)

namespace MetaUpdates

def updates (cnc : MetaUpdates) : Bool := cnc.metaStore.isSome && cnc.autoMetaData

/-- While a transaction is open the updating is neither begun nor given up, and the connection is
closed only while the transaction is kept track of. -/
def MetaMeets (s : MetaUpdates × OpenTransaction) : MetaAction → Prop
  | .openConnection => True
  | .setMetaStore store => store ≠ some .inSameConnection ∧
      (s.2 ≠ none → s.1.autoMetaData = true → store.isSome = s.1.metaStore.isSome)
  | .setAutoMetaData _ => True
  | .executed type => s.1.opened = true → s.1.updates = true →
      (type = .begin → s.2 = none) ∧ (type = .commit ∨ type = .rollback → s.2 ≠ none)
  | .signalMetaTableUpdate _ => True
  | .close transStatus => s.1.updates = true → s.2 ≠ none → transStatus = true

instance : ∀ (s : MetaUpdates × OpenTransaction) (a : MetaAction), Decidable (MetaMeets s a)
  | _, .openConnection => isTrue trivial
  | s, .setMetaStore store => inferInstanceAs (Decidable (store ≠ some .inSameConnection ∧
      (s.2 ≠ none → s.1.autoMetaData = true → store.isSome = s.1.metaStore.isSome)))
  | _, .setAutoMetaData _ => isTrue trivial
  | s, .executed type => inferInstanceAs (Decidable (s.1.opened = true → s.1.updates = true →
      (type = .begin → s.2 = none) ∧ (type = .commit ∨ type = .rollback → s.2 ≠ none)))
  | _, .signalMetaTableUpdate _ => isTrue trivial
  | s, .close transStatus => inferInstanceAs (Decidable
      (s.1.updates = true → s.2 ≠ none → transStatus = true))

structure Follows (cnc : MetaUpdates) (transaction : OpenTransaction) : Prop where
  store : cnc.metaStore ≠ some .inSameConnection
  closed : cnc.opened = false → transaction = none
  outside : transaction = none → cnc.transMetaContext = none
  kept : ∀ since, transaction = some since → cnc.updates = true →
    ∃ contexts, cnc.transMetaContext = some contexts ∧ ∀ context ∈ since, context ∈ contexts
  idle : ∀ since, transaction = some since → cnc.updates = false →
    cnc.transMetaContext = none ∧ since = []

variable {cnc cnc' : MetaUpdates} {transaction : OpenTransaction}

theorem updatedSince_self (h : cnc'.updated = cnc.updated) : cnc.updatedSince cnc' = [] := by
  rw [updatedSince, h, List.drop_length]

theorem updatedSince_append {contexts : List GdaMetaContext}
    (h : cnc'.updated = cnc.updated ++ contexts) : cnc.updatedSince cnc' = contexts := by
  rw [updatedSince, h, List.drop_left]

theorem OpenTransaction.map_nil (transaction : OpenTransaction) :
    transaction.map (· ++ ([] : List GdaMetaContext)) = transaction := by
  cases transaction with
  | none => rfl
  | some since => exact congrArg some (List.append_nil since)

theorem Follows.updateContexts (hf : cnc.Follows transaction) (hupdates : cnc.updates = true)
    (contexts : List GdaMetaContext) :
    (cnc.updateContexts contexts).Follows
      (transaction.map (· ++ cnc.updatedSince (cnc.updateContexts contexts))) := by
  have hsince : cnc.updatedSince (cnc.updateContexts contexts) = contexts := updatedSince_append rfl
  rw [hsince]
  refine ⟨hf.store, ?_, ?_, ?_, ?_⟩
  · intro hclosed
    rw [hf.closed hclosed]
    rfl
  · intro hnone
    have houtside := hf.outside (Option.map_eq_none_iff.1 hnone)
    show cnc.transMetaContext.map _ = none
    rw [houtside]
    rfl
  · intro since hsome _
    obtain ⟨before, hbefore, rfl⟩ := Option.map_eq_some_iff.1 hsome
    obtain ⟨kept, hkept, hmem⟩ := hf.kept before hbefore hupdates
    refine ⟨contexts.reverse ++ kept, ?_, ?_⟩
    · show cnc.transMetaContext.map _ = _
      rw [hkept]
      rfl
    · intro context hcontext
      rcases List.mem_append.1 hcontext with h | h
      · exact List.mem_append_right _ (hmem context h)
      · exact List.mem_append_left _ (List.mem_reverse.2 h)
  · intro since _ hidle
    have : cnc.updates = false := hidle
    rw [hupdates] at this
    cases this

theorem Follows.transMetaContext_idle (hf : cnc.Follows transaction) (h : cnc.updates = false) :
    cnc.transMetaContext = none := by
  cases htrans : transaction with
  | none => exact hf.outside htrans
  | some since => exact (hf.idle since htrans h).1

theorem Follows.inOther (hf : cnc.Follows transaction) (h : cnc.updates = true) :
    cnc.metaStore = some .inOtherConnection := by
  rw [updates, Bool.and_eq_true] at h
  obtain ⟨store, hstore⟩ := Option.isSome_iff_exists.1 h.1
  cases store with
  | inSameConnection => exact absurd hstore hf.store
  | inOtherConnection => exact hstore

theorem Follows.of_ended (hstore : cnc.metaStore ≠ some .inSameConnection)
    (hnone : cnc.transMetaContext = none) : cnc.Follows none :=
  ⟨hstore, fun _ => rfl, fun _ => hnone, nofun, nofun⟩

theorem Follows.idle_executed (hf : cnc.Follows transaction) (hopened : cnc.opened = true)
    (h : cnc.updates = false) (type : ExecutedType) :
    cnc.updateAfterStatementExec type = .ok cnc ∧
      cnc.Follows (transaction.next cnc cnc (.executed type)) := by
  have hnone := hf.transMetaContext_idle h
  have hsame : cnc.updatedSince cnc = [] := updatedSince_self rfl
  refine ⟨?_, ?_⟩
  · rw [updateAfterStatementExec]
    cases hstore : cnc.metaStore with
    | none => rfl
    | some store =>
      have hauto : cnc.autoMetaData = false := by
        rw [updates, hstore] at h
        exact h
      simp only
      rw [if_pos hauto]
  · rw [OpenTransaction.next, if_pos hopened]
    cases type with
    | begin =>
      refine ⟨hf.store, ?_, nofun, ?_, ?_⟩
      · intro hclosed
        rw [hopened] at hclosed
        cases hclosed
      · intro since _ hupdates
        rw [h] at hupdates
        cases hupdates
      · intro since hsince _
        exact ⟨hnone, (Option.some.inj hsince).symm⟩
    | commit => exact .of_ended hf.store hnone
    | rollback => exact .of_ended hf.store hnone
    | unknown contexts =>
      rw [hsame, OpenTransaction.afterStatement, OpenTransaction.map_nil]
      exact hf
    | other =>
      rw [hsame, OpenTransaction.afterStatement, OpenTransaction.map_nil]
      exact hf

theorem Follows.executed (hf : cnc.Follows transaction) (hopened : cnc.opened = true)
    {type : ExecutedType} (hmeets : MetaMeets (cnc, transaction) (.executed type)) :
    ∃ cnc', cnc.updateAfterStatementExec type = .ok cnc' ∧
      cnc'.Follows (transaction.next cnc cnc' (.executed type)) := by
  cases hupdates : cnc.updates with
  | false => exact ⟨cnc, hf.idle_executed hopened hupdates type⟩
  | true =>
    obtain ⟨hbegin, hend⟩ := hmeets hopened hupdates
    have hparts := hupdates
    rw [updates, Bool.and_eq_true] at hparts
    have hstore := hf.inOther hupdates
    have hauto : cnc.autoMetaData ≠ false := by
      rw [hparts.2]
      decide
    have hsame : cnc.updatedSince cnc = [] := updatedSince_self rfl
    rw [updateAfterStatementExec, hstore]
    simp only
    rw [if_neg hauto]
    cases type with
    | begin =>
      have hoff := hf.outside (hbegin rfl)
      refine ⟨{ cnc with transMetaContext := some [] }, ?_, ?_⟩
      · simp [hoff, hstore]
      · rw [OpenTransaction.next, if_pos hopened]
        refine ⟨hf.store, ?_, nofun, ?_, ?_⟩
        · intro hclosed
          have hcontra : cnc.opened = false := hclosed
          rw [hopened] at hcontra
          cases hcontra
        · intro since hsince _
          obtain rfl := Option.some.inj hsince
          exact ⟨[], rfl, nofun⟩
        · intro since _ hidle
          have hcontra : cnc.updates = false := hidle
          rw [hupdates] at hcontra
          cases hcontra
    | commit =>
      obtain ⟨since, hsince⟩ := Option.ne_none_iff_exists'.1 (hend (.inl rfl))
      obtain ⟨contexts, hkept, -⟩ := hf.kept since hsince hupdates
      refine ⟨{ cnc with transMetaContext := none }, ?_, ?_⟩
      · simp [hkept, hstore]
      · rw [OpenTransaction.next, if_pos hopened]
        exact .of_ended hf.store rfl
    | rollback =>
      obtain ⟨since, hsince⟩ := Option.ne_none_iff_exists'.1 (hend (.inr rfl))
      obtain ⟨contexts, hkept, -⟩ := hf.kept since hsince hupdates
      refine ⟨{ cnc.updateMetaStore contexts with transMetaContext := none }, ?_, ?_⟩
      · simp [hkept]
      · rw [OpenTransaction.next, if_pos hopened]
        exact .of_ended hf.store rfl
    | unknown contexts =>
      refine ⟨cnc.updateContexts contexts, rfl, ?_⟩
      rw [OpenTransaction.next, if_pos hopened]
      exact hf.updateContexts hupdates contexts
    | other =>
      refine ⟨cnc, rfl, ?_⟩
      rw [OpenTransaction.next, if_pos hopened]
      rw [hsame, OpenTransaction.afterStatement, OpenTransaction.map_nil]
      exact hf

theorem Follows.closeTransaction (hf : cnc.Follows transaction) {transStatus : Bool}
    (hmeets : MetaMeets (cnc, transaction) (.close transStatus)) :
    (cnc.closeTransaction transStatus).metaStore ≠ some .inSameConnection ∧
      (cnc.closeTransaction transStatus).transMetaContext = none := by
  rw [MetaUpdates.closeTransaction]
  cases hkept : cnc.transMetaContext with
  | none => exact ⟨hf.store, hkept⟩
  | some contexts =>
    have hsome : transaction ≠ none := by
      intro hnone
      rw [hf.outside hnone] at hkept
      cases hkept
    have hupdates : cnc.updates = true := by
      by_contra hidle
      rw [hf.transMetaContext_idle (Bool.eq_false_iff.2 hidle)] at hkept
      cases hkept
    simp only
    rw [if_pos ⟨hf.inOther hupdates, hmeets hupdates hsome⟩]
    exact ⟨hf.store, rfl⟩

theorem Follows.step {s : MetaUpdates × OpenTransaction} (hf : s.1.Follows s.2) {a : MetaAction}
    (hmeets : MetaMeets s a) : ∃ s', metaStep s a = .ok s' ∧ s'.1.Follows s'.2 := by
  obtain ⟨cnc, transaction⟩ := s
  have hsame : ∀ cnc' : MetaUpdates, cnc'.updated = cnc.updated →
      transaction.map (· ++ cnc.updatedSince cnc') = transaction := by
    intro cnc' h
    rw [updatedSince_self h, OpenTransaction.map_nil]
  cases a with
  | openConnection =>
    refine ⟨({ cnc with opened := true }, _), rfl, ?_⟩
    show Follows _ (transaction.map _)
    rw [hsame { cnc with opened := true } rfl]
    exact ⟨hf.store, nofun, hf.outside, hf.kept, hf.idle⟩
  | setMetaStore store =>
    obtain ⟨hother, hkeeps⟩ := hmeets
    refine ⟨({ cnc with metaStore := store }, _), rfl, ?_⟩
    show Follows _ (transaction.map _)
    rw [hsame { cnc with metaStore := store } rfl]
    have hupdates : ∀ since, transaction = some since →
        ({ cnc with metaStore := store } : MetaUpdates).updates = cnc.updates := by
      intro since hsince
      show (store.isSome && cnc.autoMetaData) = (cnc.metaStore.isSome && cnc.autoMetaData)
      have hne : transaction ≠ none := by simp [hsince]
      cases hauto : cnc.autoMetaData with
      | false => rw [Bool.and_false, Bool.and_false]
      | true => rw [hkeeps hne hauto]
    exact ⟨hother, hf.closed, hf.outside,
      fun since hsince h => hf.kept since hsince (hupdates since hsince ▸ h),
      fun since hsince h => hf.idle since hsince (hupdates since hsince ▸ h)⟩
  | setAutoMetaData on =>
    by_cases hopened : cnc.opened = true
    · refine ⟨(cnc, _), ?_, hf⟩
      have hset : cnc.setAutoMetaData on = cnc := if_pos hopened
      show Except.ok (cnc.setAutoMetaData on, transaction.map _) = _
      rw [hset, hsame cnc rfl]
    · have hnone := hf.closed (Bool.eq_false_iff.2 hopened)
      have hset : cnc.setAutoMetaData on = { cnc with autoMetaData := on } := if_neg hopened
      refine ⟨({ cnc with autoMetaData := on }, transaction), ?_, ?_⟩
      · show Except.ok (cnc.setAutoMetaData on, transaction.map _) = _
        rw [hset, hsame { cnc with autoMetaData := on } rfl]
      · rw [hnone]
        exact .of_ended hf.store (hf.outside hnone)
  | executed type =>
    by_cases hopened : cnc.opened = true
    · obtain ⟨cnc', hexec, hnext⟩ := hf.executed hopened hmeets
      refine ⟨(cnc', _), ?_, hnext⟩
      rw [metaStep, MetaUpdates.step, if_pos hopened, hexec]
      rfl
    · refine ⟨(cnc, transaction), ?_, hf⟩
      rw [metaStep, MetaUpdates.step, if_neg hopened]
      show Except.ok (cnc, transaction.next cnc cnc (.executed type)) = _
      rw [OpenTransaction.next, if_neg hopened]
  | signalMetaTableUpdate context =>
    refine ⟨(cnc.signalMetaTableUpdate context, _), rfl, ?_⟩
    show Follows _ (transaction.map _)
    rw [signalMetaTableUpdate]
    cases hupdates : cnc.updates with
    | true =>
      have hoff : (cnc.metaStore.isNone || !cnc.autoMetaData) = false := by
        rw [updates, Bool.and_eq_true] at hupdates
        rw [hupdates.2, ← Option.not_isSome, hupdates.1]
        rfl
      simp only [hoff, Bool.false_eq_true, if_false]
      exact hf.updateContexts hupdates [context]
    | false =>
      have hoff : (cnc.metaStore.isNone || !cnc.autoMetaData) = true := by
        rw [updates] at hupdates
        cases hstore : cnc.metaStore with
        | none => rfl
        | some store =>
          rw [hstore] at hupdates
          have hauto : cnc.autoMetaData = false := hupdates
          rw [hauto]
          rfl
      simp only [hoff, if_true]
      rw [hsame cnc rfl]
      exact hf
  | close transStatus =>
    refine ⟨(cnc.closeNoWarning transStatus, none), rfl, ?_⟩
    rw [closeNoWarning]
    split
    · rename_i hclosed
      exact .of_ended hf.store (hf.outside (hf.closed hclosed))
    · obtain ⟨hstore, hnone⟩ := hf.closeTransaction hmeets
      exact .of_ended hstore hnone

theorem Follows.rollback (hf : cnc.Follows transaction) (hupdates : cnc.updates = true)
    {since : List GdaMetaContext} (hsince : transaction = some since)
    (h : cnc.updateAfterStatementExec .rollback = .ok cnc') :
    ∀ context ∈ since, context ∈ cnc.updatedSince cnc' := by
  obtain ⟨contexts, hkept, hmem⟩ := hf.kept since hsince hupdates
  have hparts := hupdates
  rw [updates, Bool.and_eq_true] at hparts
  have heq : cnc.updateAfterStatementExec .rollback =
      .ok { cnc.updateMetaStore contexts with transMetaContext := none } := by
    rw [updateAfterStatementExec]
    simp [hf.inOther hupdates, hparts.2, hkept]
  rw [heq] at h
  obtain rfl := Except.ok.inj h
  have hagain : cnc.updatedSince { cnc.updateMetaStore contexts with transMetaContext := none } =
      contexts := updatedSince_append rfl
  rw [hagain]
  exact hmem

/-- After any steps which meet the condition no assertion has failed, and a ROLLBACK updates again
all contexts which were updated since the BEGIN. -/
theorem updatedAgain_run (actions : List MetaAction)
    (hmeets : StepsMeet metaStep MetaMeets ({}, none) actions) :
    ∃ s, run metaStep ({}, none) actions = .ok s ∧
      ∀ cnc' since, s.1.updateAfterStatementExec .rollback = .ok cnc' → s.2 = some since →
        ∀ context ∈ since, context ∈ s.1.updatedSince cnc' := by
  have hnew : Follows {} none := .of_ended nofun rfl
  have hstep : ∀ (s : MetaUpdates × OpenTransaction) (a : MetaAction), s.1.Follows s.2 →
      MetaMeets s a → ∃ s', metaStep s a = .ok s' ∧ s'.1.Follows s'.2 :=
    fun s a hf hmeets => hf.step hmeets
  obtain ⟨s, hrun, hf⟩ := run_keeps (I := fun s => s.1.Follows s.2) hstep hnew hmeets
  refine ⟨s, hrun, ?_⟩
  intro cnc' since h hsince
  cases hupdates : s.1.updates with
  | true => exact hf.rollback hupdates hsince h
  | false =>
    rw [(hf.idle since hsince hupdates).2]
    exact nofun

def tableContext (name : String) : GdaMetaContext := { columns := [("table_name", name)] }

def exampleStatements : List MetaAction :=
  [.setMetaStore (some .inOtherConnection), .setAutoMetaData true, .openConnection,
    .executed .begin, .executed (.unknown [tableContext "a"]), .executed .commit,
    .executed .begin, .close true, .openConnection,
    .executed .begin, .executed (.unknown [tableContext "b", tableContext "c"]), .executed .other]

theorem exampleStatements_updatedAgain :
    ∃ s, run metaStep ({}, none) exampleStatements = .ok s ∧
      ∀ cnc' since, s.1.updateAfterStatementExec .rollback = .ok cnc' → s.2 = some since →
        ∀ context ∈ since, context ∈ s.1.updatedSince cnc' :=
  updatedAgain_run exampleStatements (by decide)

/-- A meta store which is set while a transaction is open: the assertion at its COMMIT fails. -/
theorem lateMetaStore_aborts :
    ¬ ∃ s, run metaStep ({}, none)
      [.setAutoMetaData true, .openConnection, .executed .begin,
        .setMetaStore (some .inOtherConnection), .executed .commit] = .ok s := by
  rintro ⟨s, hrun⟩
  cases hrun

end MetaUpdates

end LibGda
