import LibGda.MetaMigration

/-! `handle_schema_version`: for which databases and which failures a store is brought to the current
version, with the version which is recorded never ahead of what is there. -/

namespace LibGda

namespace SchemaStore

variable {outcomes : MigrationOutcomes} {m : SchemaMigration} {s t : SchemaStore}

theorem runOwn_undone {ms : List SchemaMigration} {s : SchemaStore}
    (hms : ∀ m ∈ ms, m.target ≠ 4 ∧ s.version ≠ m.target) :
    (runMigrations false outcomes ms s).database = s.database ∧
      ((∀ m ∈ ms, ¬ outcomes.Reached m) ∧ (runMigrations false outcomes ms s).version = s.version ∨
        (∃ m ∈ ms, outcomes.Reached m) ∧ (runMigrations false outcomes ms s).version = 4) := by
  induction ms generalizing s with
  | nil => exact ⟨rfl, .inl ⟨fun m hm => absurd hm List.not_mem_nil, rfl⟩⟩
  | cons m ms ih =>
    obtain ⟨htarget, hv⟩ := hms m (List.mem_cons_self ..)
    obtain ⟨hdatabase, hversion⟩ := @migrate_own_undone outcomes m s htarget hv
    have hstep : runMigrations false outcomes (m :: ms) s =
        runMigrations false outcomes ms (s.migrateSchema outcomes m.target false m.items) := rfl
    have hnext (m' : SchemaMigration) (hm' : m' ∈ ms) : m'.target ≠ 4 ∧
        (s.migrateSchema outcomes m.target false m.items).version ≠ m'.target := by
      obtain ⟨htarget', hv'⟩ := hms m' (List.mem_cons_of_mem m hm')
      refine ⟨htarget', ?_⟩
      rw [hversion]
      split
      · exact Ne.symm htarget'
      · exact hv'
    obtain ⟨hdatabase', hcases⟩ := ih hnext
    rw [hstep, hdatabase', hdatabase]
    refine ⟨rfl, ?_⟩
    by_cases hr : outcomes.Reached m
    · rw [if_pos hr] at hversion
      refine .inr ⟨⟨m, List.mem_cons_self .., hr⟩, ?_⟩
      rcases hcases with ⟨-, hsame⟩ | ⟨-, hcurrent⟩
      · exact hsame.trans hversion
      · exact hcurrent
    · rw [if_neg hr] at hversion
      rcases hcases with ⟨hnone, hsame⟩ | ⟨⟨m', hm', hr'⟩, hcurrent⟩
      · refine .inl ⟨fun m' hm' => ?_, hsame.trans hversion⟩
        rcases List.mem_cons.1 hm' with rfl | hm'
        · exact hr
        · exact hnone m' hm'
      · exact .inr ⟨⟨m', List.mem_cons_of_mem m hm', hr'⟩, hcurrent⟩

theorem runOwn_allHold {ms : List SchemaMigration} {s : SchemaStore}
    (hms : ∀ m ∈ ms, m.target ≠ 4 ∧ s.version ≠ m.target) (h : s.database.Holds s.version)
    (hrecorded : s.database.recorded ≠ none) :
    (runMigrations false outcomes ms s).AllHold ↔
      s.AllHold ∧ ((∃ m ∈ ms, outcomes.Reached m) → s.database.Complete) := by
  induction ms using List.reverseRecOn with
  | nil => simp [runMigrations]
  | append_singleton ms m ih =>
    have hms' (m' : SchemaMigration) (hm' : m' ∈ ms) : m'.target ≠ 4 ∧ s.version ≠ m'.target :=
      hms m' (List.mem_append_left [m] hm')
    have hm := hms m (List.mem_append_right ms (List.mem_singleton.2 rfl))
    have hstep : runMigrations false outcomes (ms ++ [m]) s =
        (runMigrations false outcomes ms s).migrateSchema outcomes m.target false m.items :=
      List.foldl_append
    obtain ⟨hdatabase, hcases⟩ := @runOwn_undone outcomes ms s hms'
    have hex : (∃ m' ∈ ms ++ [m], outcomes.Reached m') ↔
        (∃ m' ∈ ms, outcomes.Reached m') ∨ outcomes.Reached m := by
      simp [or_and_right, exists_or]
    have ih := ih hms'
    have hhistory := @migrate_history outcomes false m (runMigrations false outcomes ms s)
    rw [hstep, hex]
    generalize runMigrations false outcomes ms s = u at hdatabase hcases ih hhistory ⊢
    have hrecorded' : u.database.recorded ≠ none := hdatabase ▸ hrecorded
    rcases hcases with ⟨hnone, hsame⟩ | ⟨hsome, hcurrent⟩
    · have hu : u.database.Holds u.version := by
        rw [hdatabase, hsame]
        exact h
      have hnone' : ¬ ∃ m' ∈ ms, outcomes.Reached m' := fun ⟨m', hm', hr⟩ => hnone m' hm' hr
      rw [migrate_own_allHold hm.1 (hsame ▸ hm.2) hu hrecorded', ih, hdatabase]
      simp only [hnone', false_implies, and_true, false_or]
    · constructor
      · intro hall
        obtain ⟨hs, hcomplete⟩ := ih.1 (hall.of_history hhistory)
        exact ⟨hs, fun _ => hcomplete hsome⟩
      · intro hall
        have hcomplete : s.database.Complete := hall.2 (.inl hsome)
        have hu : u.database.Holds u.version := by
          rw [hdatabase]
          exact hcomplete.holds u.version
        refine (migrate_own_allHold hm.1 (hcurrent ▸ Ne.symm hm.1) hu hrecorded').2 ?_
        exact ⟨ih.2 ⟨hall.1, fun _ => hcomplete⟩, fun _ => hdatabase ▸ hcomplete⟩

theorem migrate_last (h : s.database.Holds s.version) (hrecorded : s.database.recorded ≠ none)
    (hr : outcomes.Reached lastMigration) (hc : outcomes.commits lastMigration.target = true) :
    let t := s.migrateSchema outcomes lastMigration.target false lastMigration.items
    t.version = 4 ∧ t.database.recorded = some 4 ∧
      (t.AllHold ↔ s.AllHold ∧ (s.database.withItems lastMigration.items).Complete) := by
  have hversion : (s.migrationOperations outcomes lastMigration.target
    lastMigration.items).version =
      lastMigration.target := s.operations_version hr.2
  have hstep : s.migrateSchema outcomes lastMigration.target false lastMigration.items =
      s.migrationOperations outcomes lastMigration.target lastMigration.items := by
    rw [migrate_own, if_pos hr.1, endTransaction, if_neg (not_not_intro hversion), if_pos hc]
  dsimp only
  rw [hstep]
  refine ⟨hversion, ?_, s.operations_allHold hr.2 hrecorded h⟩
  rw [s.operations_database hr.2]
  exact MetaDatabase.recorded_withVersion (by simpa using hrecorded)

theorem migrate_last_undone
    (hnot : ¬ (outcomes.Reached lastMigration ∧ outcomes.commits lastMigration.target = true)) :
    let t := s.migrateSchema outcomes lastMigration.target false lastMigration.items
    t.database.recorded = s.database.recorded ∧
      (outcomes.Reached lastMigration → t.version = 4) ∧
      (¬ outcomes.Reached lastMigration → t.version = s.version ∧
        (s.database.Holds s.version → (t.AllHold ↔ s.AllHold))) := by
  dsimp only
  rw [migrate_own]
  by_cases hb : outcomes.begins lastMigration.target = true
  · rw [if_pos hb]
    by_cases hu : outcomes.Updated lastMigration
    · have hc : ¬ outcomes.commits lastMigration.target = true := fun hc => hnot ⟨⟨hb, hu⟩, hc⟩
      have hversion : (s.migrationOperations outcomes lastMigration.target
          lastMigration.items).version = lastMigration.target := s.operations_version hu
      rw [endTransaction, if_neg (not_not_intro hversion), if_neg hc]
      exact ⟨rfl, fun _ => hversion, fun hr => absurd ⟨hb, hu⟩ hr⟩
    · obtain ⟨hdatabase, hversion⟩ := s.operations_not_updated hu
      have hall := fun h => s.operations_not_updated_allHold hu h
      have hrecorded : (s.migrationOperations outcomes lastMigration.target
          lastMigration.items).database.recorded = s.database.recorded := by
        rw [hdatabase, MetaDatabase.recorded_withItems]
      have hback (h : s.database.Holds s.version) :
          (SchemaStore.change (s.migrationOperations outcomes lastMigration.target
            lastMigration.items) s.database s.version).AllHold ↔ s.AllHold := by
        rw [allHold_change, hall h]
        exact and_iff_left h
      refine ⟨?_, fun hr => absurd hr.2 hu, fun _ => ⟨?_, fun h => ?_⟩⟩
      · rw [endTransaction]
        split
        · rfl
        · split
          · exact hrecorded
          · rfl
      · rw [endTransaction]
        split
        · exact hversion
        · split
          · exact hversion
          · exact hversion
      · rw [endTransaction]
        split
        · exact hversion ▸ hback h
        · split
          · exact hall h
          · exact hversion ▸ hback h
  · rw [if_neg hb]
    exact ⟨rfl, fun hr => absurd hr.1 hb, fun _ => ⟨rfl, fun _ => Iff.rfl⟩⟩

/-! The version which is recorded last. -/

def Logged (s : SchemaStore) : Prop :=
  (s.database, s.version) ∈ s.history

theorem change_logged (s : SchemaStore) (db : MetaDatabase) (version : Int) :
    (s.change db version).Logged :=
  List.mem_append_right _ (List.mem_singleton.2 rfl)

theorem performItems_logged (target : Int) (items : List SchemaItem) {s : SchemaStore}
    (h : s.Logged) : (performItems outcomes target items s).1.Logged := by
  induction items generalizing s with
  | nil => exact h
  | cons item items ih =>
    cases hperform : outcomes.performs target item with
    | false =>
      simp only [performItems, perform, hperform, Bool.false_eq_true, if_false]
      exact h
    | true =>
      simp only [performItems, perform, hperform, if_true]
      exact ih (s.change_logged _ _)

theorem migrate_logged (outer : Bool) (m : SchemaMigration) (h : s.Logged) :
    (s.migrateSchema outcomes m.target outer m.items).Logged := by
  have hoperations : (s.migrationOperations outcomes m.target m.items).Logged := by
    have hitems := @performItems_logged outcomes m.target m.items s h
    rw [migrationOperations]
    split
    · rw [updateSchemaVersion]
      split
      · exact change_logged _ _ _
      · exact hitems
    · exact hitems
  rw [migrateSchema]
  split
  · exact h
  · split
    · exact hoperations
    · rw [endTransaction]
      split
      · exact change_logged _ _ _
      · split
        · exact hoperations
        · exact change_logged _ _ _

theorem run_logged (outer : Bool) (ms : List SchemaMigration) (h : s.Logged) :
    (runMigrations outer outcomes ms s).Logged := by
  induction ms generalizing s with
  | nil => exact h
  | cons m ms ih => exact ih (migrate_logged outer m h)

theorem complete_of_allHold (h : s.AllHold) (hlogged : s.Logged) (hversion : s.version = 4) :
    s.database.Complete := by
  have hholds : s.database.Holds s.version := h _ hlogged
  rw [hversion] at hholds
  exact MetaDatabase.reaches_four.1 hholds.2

/-! `handle_schema_version` -/

section Versions

variable {db : MetaDatabase} {v : Int} {outer : Bool}

theorem recorded_ge (h : db.recorded = some v) : 1 ≤ v := by
  rw [MetaDatabase.recorded] at h
  split at h
  · obtain rfl := Option.some.inj h
    exact le_max_left ..
  · cases h

def readStore (db : MetaDatabase) (v : Int) : SchemaStore :=
  ({ database := db } : SchemaStore).change db v

theorem readStore_database (db : MetaDatabase) (v : Int) : (readStore db v).database = db := rfl

theorem handle_eq (h : db.recorded = some v) :
    handleSchemaVersion outer outcomes { database := db } =
      if v = 4 then (readStore db v, true)
      else
        (runMigrations outer outcomes (migrationsAbove v) (readStore db v),
          decide ((runMigrations outer outcomes (migrationsAbove v) (readStore db v)).version =
            4)) := by
  have hv := recorded_ge h
  rw [MetaDatabase.recorded] at h
  split at h
  · next text htext =>
    obtain rfl := Option.some.inj h
    have hcurrent : versionNumber currentSchemaVersion = 4 := by decide
    simp only [handleSchemaVersion, htext, hcurrent]
    by_cases hfour : max 1 (versionNumber text) = 4
    · rw [if_neg (not_not_intro hfour), if_pos hfour]
      rfl
    · rw [if_pos hfour, if_neg hfour, migrateFrom_eq hv hfour]
      rfl
  · cases h

theorem readStore_allHold (h : db.recorded = some v) : (readStore db v).AllHold ↔ db.Reaches v := by
  rw [readStore, allHold_change]
  constructor
  · intro hall
    exact hall.2.2
  · intro hreaches
    refine ⟨fun p hp => absurd hp List.not_mem_nil, fun w hw => ?_, hreaches⟩
    rw [h] at hw
    exact Option.some.inj hw ▸ hreaches

theorem holds_zero (h : ∀ v, db.recorded = some v → db.Reaches v) : db.Holds 0 := by
  refine ⟨h, fun m hm hle => ?_⟩
  have hall : ∀ m ∈ schemaMigrations, 0 < m.target := by decide
  exact absurd hle (not_le_of_gt (hall m hm))

theorem meets_of_unread (h : db.recorded = none) : MigrationMeets outer outcomes db := by
  have hrun : handleSchemaVersion outer outcomes { database := db } =
    ({ database := db }, false) := by
    rw [handleSchemaVersion]
    split
    · next text htext =>
      rw [MetaDatabase.recorded, htext] at h
      cases h
    · rfl
  refine ⟨fun htrue => ?_, fun p hp => ?_⟩
  · rw [hrun] at htrue
    cases htrue
  · rw [hrun] at hp
    obtain rfl := List.mem_singleton.1 hp
    refine holds_zero fun v hv => ?_
    rw [h] at hv
    cases hv

theorem meets_current (h : db.recorded = some 4) : MigrationMeets outer outcomes db ↔
    db.Reaches 4 := by
  have hrun : handleSchemaVersion outer outcomes { database := db } = (readStore db 4, true) := by
    rw [handle_eq h, if_pos rfl]
  constructor
  · intro hmeets
    refine (readStore_allHold h).1 fun p hp => hmeets.moments p ?_
    rw [hrun]
    exact List.mem_cons_of_mem _ hp
  · intro hreaches
    refine ⟨fun _ => ⟨4, h, ?_, fun m hm => ?_⟩, fun p hp => ?_⟩
    · rw [hrun]
      exact h
    · have hlt : 4 < m.target := by simpa using (List.mem_filter.1 hm).2
      exact absurd (MetaDatabase.target_le (List.mem_filter.1 hm).1) (not_le_of_gt hlt)
    · rw [hrun] at hp
      rcases List.mem_cons.1 hp with rfl | hp
      · exact holds_zero fun v hv => by
          rw [h] at hv
          exact Option.some.inj hv ▸ hreaches
      · exact (readStore_allHold h).2 hreaches p hp

theorem meets_run (h : db.recorded = some v) (hne : v ≠ 4) :
    MigrationMeets outer outcomes db ↔
      (runMigrations outer outcomes (migrationsAbove v) (readStore db v)).AllHold ∧
        ((runMigrations outer outcomes (migrationsAbove v) (readStore db v)).version = 4 →
          (runMigrations outer outcomes (migrationsAbove v) (readStore db v)).database.recorded =
            some 4) := by
  have hrun := @handle_eq outcomes db v outer h
  rw [if_neg hne] at hrun
  have hlogged : (runMigrations outer outcomes (migrationsAbove v) (readStore db v)).Logged :=
    run_logged outer _ (change_logged _ _ _)
  have hhistory := @run_history outcomes outer (migrationsAbove v) (readStore db v)
  generalize runMigrations outer outcomes (migrationsAbove v) (readStore db v) = t at *
  constructor
  · intro hmeets
    refine ⟨fun p hp => hmeets.moments p ?_, fun hversion => ?_⟩
    · rw [hrun]
      exact List.mem_cons_of_mem _ hp
    · have htrue : (handleSchemaVersion outer outcomes { database := db }).2 = true := by
        rw [hrun]
        exact decide_eq_true hversion
      obtain ⟨w, -, hrecorded, -⟩ := hmeets.upToDate htrue
      rw [hrun] at hrecorded
      exact hrecorded
  · intro hend
    have hreaches : db.Reaches v := (readStore_allHold h).1 (hend.1.of_history hhistory)
    refine ⟨fun htrue => ?_, fun p hp => ?_⟩
    · rw [hrun] at htrue ⊢
      have hversion : t.version = 4 := of_decide_eq_true htrue
      refine ⟨v, h, hend.2 hversion, fun m hm => ?_⟩
      exact complete_of_allHold hend.1 hlogged hversion m (List.mem_filter.1 hm).1
    · rw [hrun] at hp
      rcases List.mem_cons.1 hp with rfl | hp
      · exact holds_zero fun w hw => by
          rw [h] at hw
          exact Option.some.inj hw ▸ hreaches
      · exact hend.1 p hp

theorem complete_iff_above {db' : MetaDatabase} (hreaches : db.Reaches v) (hsub : db.Within db') :
    db'.Complete ↔ ∀ m ∈ migrationsAbove v, db'.Present m := by
  constructor
  · exact fun h m hm => h m (List.mem_filter.1 hm).1
  · intro h m hm
    by_cases hv : v < m.target
    · exact h m (List.mem_filter.2 ⟨hm, decide_eq_true hv⟩)
    · exact fun item hitem => hsub item (hreaches m hm (not_lt.1 hv) item hitem)

theorem meets_outer (h : db.recorded = some v) (hne : v ≠ 4) (hreaches : db.Reaches v) :
    MigrationMeets true outcomes db ↔ outcomes.OuterSound db v := by
  have hrecorded : (readStore db v).database.recorded ≠ none := by
    rw [readStore_database, h]
    exact Option.some_ne_none v
  have hholds : (readStore db v).database.Holds (readStore db v).version :=
    (readStore_allHold h).2 hreaches _ (change_logged _ _ _)
  rw [meets_run h hne, runOuter_allHold hholds hrecorded]
  have hversion : (runMigrations true outcomes (migrationsAbove v) (readStore db v)).version = 4 →
      (runMigrations true outcomes (migrationsAbove v) (readStore db v)).database.recorded =
        some 4 := by
    intro hfour
    rcases @runOuter_version outcomes (migrationsAbove v) _ hrecorded with ⟨-, hsame⟩ | ⟨-, -, hend⟩
    · exact absurd (hsame.symm.trans hfour) hne
    · exact hend
  rw [and_iff_left hversion, and_iff_right ((readStore_allHold h).2 hreaches)]
  refine forall_congr' fun before => forall_congr' fun m => forall_congr' fun after =>
    forall_congr' fun _ => forall_congr' fun _ => forall_congr' fun _ => ?_
  rw [readStore_database, complete_iff_above hreaches (MetaDatabase.within_withItems db _)]
  refine forall_congr' fun m' => forall_congr' fun _ => forall_congr' fun item =>
    forall_congr' fun _ => ?_
  exact (MetaDatabase.has_withItems _ db item).trans (or_congr_right List.mem_append)

theorem above_eq (hlow : 1 ≤ v) (hhigh : v < 4) :
    ∃ before, migrationsAbove v = before ++ [lastMigration] ∧
      ∀ m ∈ before, m.target ≠ 4 ∧ v ≠ m.target ∧ m ≠ lastMigration ∧
        ∀ item ∈ m.items, item ∉ lastMigration.items := by
  have hcases : v = 1 ∨ v = 2 ∨ v = 3 := by omega
  rcases hcases with rfl | rfl | rfl
  · exact ⟨[⟨2, [.dbobj "_table_indexes", .dbobj "_index_column_usage"]⟩,
      ⟨3, [.dbobj "__declared_fk"]⟩], rfl, by decide⟩
  · exact ⟨[⟨3, [.dbobj "__declared_fk"]⟩], rfl, by decide⟩
  · exact ⟨[], rfl, by decide⟩

theorem complete_withLast {before : List SchemaMigration} (hreaches : db.Reaches v)
    (hsplit : migrationsAbove v = before ++ [lastMigration])
    (hdisjoint : ∀ m ∈ before, ∀ item ∈ m.items, item ∉ lastMigration.items) :
    (db.withItems lastMigration.items).Complete ↔ ∀ m ∈ before, db.Present m := by
  rw [complete_iff_above hreaches (MetaDatabase.within_withItems db _), hsplit]
  constructor
  · intro h m hm item hitem
    have hhas := (MetaDatabase.has_withItems _ db item).1 (h m (List.mem_append_left _ hm) item
      hitem)
    exact hhas.resolve_right (hdisjoint m hm item hitem)
  · intro h m hm item hitem
    rcases List.mem_append.1 hm with hm | hm
    · exact (MetaDatabase.has_withItems _ db item).2 (.inl (h m hm item hitem))
    · rw [List.mem_singleton.1 hm] at hitem
      exact (MetaDatabase.has_withItems _ db item).2 (.inr hitem)

theorem ownSound_iff {before : List SchemaMigration} (hreaches : db.Reaches v)
    (hsplit : migrationsAbove v = before ++ [lastMigration])
    (hne : ∀ m ∈ before, m ≠ lastMigration) :
    outcomes.OwnSound db v ↔
      ((∃ m ∈ before, outcomes.Reached m) ∨ outcomes.Reached lastMigration →
        outcomes.Reached lastMigration ∧ outcomes.commits lastMigration.target = true) ∧
      (outcomes.Reached lastMigration → ∀ m ∈ before, db.Present m) ∧
      ((∃ m ∈ before, outcomes.Reached m) → db.Complete) := by
  have hlast : lastMigration ∈ migrationsAbove v :=
    hsplit ▸ List.mem_append_right before (List.mem_singleton.2 rfl)
  have hbefore {m : SchemaMigration} (hm : m ∈ before) : m ∈ migrationsAbove v :=
    hsplit ▸ List.mem_append_left [lastMigration] hm
  constructor
  · intro h
    refine ⟨?_, fun hr m hm => ?_, ?_⟩
    · rintro (⟨m, hm, hr⟩ | hr)
      · exact ⟨(h m (hbefore hm) hr).1, (h m (hbefore hm) hr).2.1⟩
      · exact ⟨hr, (h _ hlast hr).2.1⟩
    · exact ((h _ hlast hr).2.2 m (hbefore hm)).resolve_right fun heq => hne m hm heq.1
    · rintro ⟨m, hm, hr⟩
      have hsub : db.Within db := fun item hitem => hitem
      refine (complete_iff_above hreaches hsub).2 fun m' hm' => ?_
      exact ((h m (hbefore hm) hr).2.2 m' hm').resolve_right fun heq => hne m hm heq.2
  · intro h m hm hr
    rw [hsplit] at hm
    rcases List.mem_append.1 hm with hm | hm
    · obtain ⟨hreached, hcommits⟩ := h.1 (.inl ⟨m, hm, hr⟩)
      exact ⟨hreached, hcommits, fun m' hm' =>
        .inl (h.2.2 ⟨m, hm, hr⟩ m' (List.mem_filter.1 hm').1)⟩
    · obtain rfl := List.mem_singleton.1 hm
      obtain ⟨hreached, hcommits⟩ := h.1 (.inr hr)
      refine ⟨hreached, hcommits, fun m' hm' => ?_⟩
      rw [hsplit] at hm'
      rcases List.mem_append.1 hm' with hm' | hm'
      · exact .inl (h.2.1 hr m' hm')
      · exact .inr ⟨List.mem_singleton.1 hm', rfl⟩

theorem meets_own (h : db.recorded = some v) (hhigh : v < 4) (hreaches : db.Reaches v) :
    MigrationMeets false outcomes db ↔ outcomes.OwnSound db v := by
  obtain ⟨before, hsplit, hms⟩ := above_eq (recorded_ge h) hhigh
  have hne : v ≠ 4 := hhigh.ne
  have hrecorded : db.recorded ≠ none := by
    rw [h]
    exact Option.some_ne_none v
  have hread : (readStore db v).AllHold := (readStore_allHold h).2 hreaches
  have hholds : db.Holds v := hread _ (change_logged _ _ _)
  have hbefore (m : SchemaMigration) (hm : m ∈ before) :
      m.target ≠ 4 ∧ (readStore db v).version ≠ m.target := ⟨(hms m hm).1, (hms m hm).2.1⟩
  have hstep : runMigrations false outcomes (migrationsAbove v) (readStore db v) =
      (runMigrations false outcomes before (readStore db v)).migrateSchema outcomes
        lastMigration.target false lastMigration.items := by
    rw [hsplit]
    exact List.foldl_append
  obtain ⟨hdatabase, hcases⟩ := @runOwn_undone outcomes before _ hbefore
  have hall := @runOwn_allHold outcomes before _ hbefore hholds hrecorded
  rw [meets_run h hne, ownSound_iff hreaches hsplit fun m hm => (hms m hm).2.2.1, hstep]
  have hhistory := @migrate_history outcomes false lastMigration
    (runMigrations false outcomes before (readStore db v))
  rw [readStore_database] at hdatabase hall
  rw [and_iff_right hread] at hall
  generalize runMigrations false outcomes before (readStore db v) = u at *
  by_cases hlast : outcomes.Reached lastMigration ∧ outcomes.commits lastMigration.target = true
  · have hlast' : outcomes.Reached lastMigration := hlast.1
    have hu (hcomplete : (∃ m ∈ before, outcomes.Reached m) → db.Complete) :
        u.database.Holds u.version := by
      rw [hdatabase]
      rcases hcases with ⟨-, hsame⟩ | ⟨hsome, -⟩
      · rw [hsame]
        exact hholds
      · exact (hcomplete hsome).holds u.version
    have hlasts (hcomplete : (∃ m ∈ before, outcomes.Reached m) → db.Complete) :=
      migrate_last (hu hcomplete) (hdatabase ▸ hrecorded) hlast.1 hlast.2
    have hwith := complete_withLast hreaches hsplit fun m hm => (hms m hm).2.2.2
    constructor
    · intro hend
      have hcomplete := hall.1 (hend.1.of_history hhistory)
      have hitems := ((hlasts hcomplete).2.2.1 hend.1).2
      rw [hdatabase] at hitems
      exact ⟨fun _ => hlast, fun _ => hwith.1 hitems, hcomplete⟩
    · intro hsound
      obtain ⟨-, hend, hmoments⟩ := hlasts hsound.2.2
      refine ⟨hmoments.2 ⟨hall.2 hsound.2.2, ?_⟩, fun _ => hend⟩
      rw [hdatabase]
      exact hwith.2 (hsound.2.1 hlast')
  · obtain ⟨hsame, hcurrent, hkeeps⟩ := @migrate_last_undone outcomes u hlast
    have hrecorded' : (u.migrateSchema outcomes lastMigration.target false
        lastMigration.items).database.recorded = some v := by
      rw [hsame, hdatabase, h]
    have hnot : ¬ (u.migrateSchema outcomes lastMigration.target false
        lastMigration.items).database.recorded = some 4 := by
      rw [hrecorded']
      exact fun heq => hne (Option.some.inj heq)
    constructor
    · intro hend
      have hversion : (u.migrateSchema outcomes lastMigration.target false
          lastMigration.items).version ≠ 4 := fun hversion => hnot (hend.2 hversion)
      have hnotLast : ¬ outcomes.Reached lastMigration := fun hr => hversion (hcurrent hr)
      have hnone : ¬ ∃ m ∈ before, outcomes.Reached m := by
        intro hsome
        rcases hcases with ⟨hnone, -⟩ | ⟨-, hfour⟩
        · obtain ⟨m, hm, hr⟩ := hsome
          exact hnone m hm hr
        · exact hversion ((hkeeps hnotLast).1.trans hfour)
      exact ⟨fun hor => absurd hor (not_or_intro hnone hnotLast), fun hr => absurd hr hnotLast,
        fun hsome => absurd hsome hnone⟩
    · intro hsound
      have hnotLast : ¬ outcomes.Reached lastMigration := fun hr => hlast (hsound.1 (.inr hr))
      have hnone : ¬ ∃ m ∈ before, outcomes.Reached m := fun hsome => hlast (hsound.1 (.inl hsome))
      obtain ⟨hversion, hmoments⟩ := hkeeps hnotLast
      rcases hcases with ⟨-, hsame'⟩ | ⟨hsome, -⟩
      · refine ⟨(hmoments ?_).2 (hall.2 fun hsome => absurd hsome hnone), fun hfour => ?_⟩
        · rw [hdatabase, hsame']
          exact hholds
        · exact absurd ((hsame'.symm.trans hversion.symm).trans hfour) hne
      · exact absurd hsome hnone

/-- A store comes to the current version, and the versions are never ahead, just where the database
is what its version tells and the migrations are sound. -/
theorem migrationMeets_iff (outer : Bool) (outcomes : MigrationOutcomes) (db : MetaDatabase) :
    MigrationMeets outer outcomes db ↔ ∀ v, db.recorded = some v → db.Reaches v ∧
      if outer then outcomes.OuterSound db v else outcomes.OwnSound db v := by
  cases h : db.recorded with
  | none =>
    constructor
    · intro _ v hv
      cases hv
    · exact fun _ => meets_of_unread h
  | some v =>
    have honly {P : Int → Prop} : (∀ w, some v = some w → P w) ↔ P v :=
      ⟨fun hall => hall v rfl, fun hv w hw => Option.some.inj hw ▸ hv⟩
    rw [honly]
    by_cases hhigh : v < 4
    · have hmoments (hmeets : MigrationMeets outer outcomes db) : db.Reaches v := by
        have hall := ((meets_run h hhigh.ne).1 hmeets).1
        exact (readStore_allHold h).1 (hall.of_history (run_history outer _ _))
      cases outer with
      | true =>
        exact ⟨fun hmeets => ⟨hmoments hmeets, (meets_outer h hhigh.ne (hmoments hmeets)).1 hmeets⟩,
          fun hsound => (meets_outer h hhigh.ne hsound.1).2 hsound.2⟩
      | false =>
        exact ⟨fun hmeets => ⟨hmoments hmeets, (meets_own h hhigh (hmoments hmeets)).1 hmeets⟩,
          fun hsound => (meets_own h hhigh hsound.1).2 hsound.2⟩
    · -- from the current version on, there is nothing to migrate
      have hnone : migrationsAbove v = [] := migrationsAbove_eq_nil (not_lt.1 hhigh)
      have hsound : if outer then outcomes.OuterSound db v else outcomes.OwnSound db v := by
        cases outer with
        | true =>
          intro before m after hsplit
          rw [hnone] at hsplit
          exact absurd hsplit
            (List.append_ne_nil_of_right_ne_nil before (List.cons_ne_nil m after)).symm
        | false =>
          intro m hm
          rw [hnone] at hm
          exact absurd hm List.not_mem_nil
      rw [and_iff_left hsound]
      by_cases hfour : v = 4
      · subst hfour
        exact meets_current h
      · rw [meets_run h hfour, hnone]
        have hrun : runMigrations outer outcomes [] (readStore db v) = readStore db v := rfl
        rw [hrun, readStore_allHold h]
        exact and_iff_left fun hversion => absurd hversion hfour

end Versions

def firstDatabase : MetaDatabase where
  has _ := false
  versions := some [some ⟨bytes "1", by decide⟩]

def allSucceed : MigrationOutcomes where
  begins _ := true
  performs _ _ := true
  updates _ := true
  commits _ := true

/-- Where nothing fails, a store of the first version is told to be up to date, but it has none of the
tables. -/
theorem first_without_tables :
    (handleSchemaVersion false allSucceed { database := firstDatabase }).2 = true ∧
      (handleSchemaVersion false allSucceed { database := firstDatabase }).1.database.has
        (.dbobj "_table_indexes") = false ∧
      ¬ MigrationMeets false allSucceed firstDatabase := by
  have htrue : (handleSchemaVersion false allSucceed { database := firstDatabase }).2 = true := by
    decide
  have htable : (handleSchemaVersion false allSucceed { database := firstDatabase }).1.database.has
      (.dbobj "_table_indexes") = false := by
    decide
  refine ⟨htrue, htable, fun hmeets => ?_⟩
  obtain ⟨v, hv, -, hpresent⟩ := hmeets.upToDate htrue
  have hrecorded : firstDatabase.recorded = some 1 := by decide
  obtain rfl : 1 = v := Option.some.inj (hrecorded.symm.trans hv)
  have hhas := hpresent ⟨2, [.dbobj "_table_indexes", .dbobj "_index_column_usage"]⟩
    (List.mem_cons_self ..) (.dbobj "_table_indexes") (List.mem_cons_self ..)
  rw [htable] at hhas
  cases hhas

end SchemaStore

end LibGda
