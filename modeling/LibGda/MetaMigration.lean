import LibGda.ValueText
import Mathlib.Data.List.Induction

/-! The schema of a meta store database and its migrations: what each version of the schema adds, and
how a store of an earlier version is brought to the current one. -/

namespace LibGda

inductive SchemaItem where
  | dbobj (name : String)
  | column (table column : String)
  deriving DecidableEq

/-- The objects and columns, and the rows where the version is recorded: none where they cannot be
read, and a row without a text which can be. -/
structure MetaDatabase where
  has : SchemaItem → Bool
  versions : Option (List (Option CBytes))

def currentSchemaVersion : CBytes := ⟨bytes "4", by decide⟩

def versionNumber (text : CBytes) : Int := (NumberType.cast .int (strtol text.1).1).1

namespace MetaDatabase

def withItem (db : MetaDatabase) (item : SchemaItem) : MetaDatabase :=
  { db with has := Function.update db.has item true }

def withVersion (db : MetaDatabase) (text : CBytes) : MetaDatabase :=
  { db with versions := db.versions.map fun rows => rows.map fun _ => some text }

end MetaDatabase

/-- A `GdaMetaStore` on a connection, with what the database and the version of the store were after
each operation. -/
structure SchemaStore where
  database : MetaDatabase
  version : Int := 0
  history : List (MetaDatabase × Int) := []

/-- What the operations of each migration give, which is known by the version it leads to. -/
structure MigrationOutcomes where
  begins : Int → Bool
  performs : Int → SchemaItem → Bool
  updates : Int → Bool
  commits : Int → Bool

namespace SchemaStore

section Migrations

variable (outcomes : MigrationOutcomes) (target : Int) (s : SchemaStore)

def change (database : MetaDatabase) (version : Int) : SchemaStore :=
  { database, version, history := s.history ++ [(database, version)] }

/-- `create_a_dbobj` and `add_a_column`, which may fail in several ways. -/
def perform (item : SchemaItem) : SchemaStore × Bool :=
  if outcomes.performs target item then (s.change (s.database.withItem item) s.version, true)
  else (s, false)

def performItems : List SchemaItem → SchemaStore → SchemaStore × Bool
  | [], s => (s, true)
  | item :: items, s =>
    let r := s.perform outcomes target item
    if r.2 then performItems items r.1 else r

/-- `update_schema_version`: the version which is given is not used. -/
def updateSchemaVersion (_version : Int) : SchemaStore × Bool :=
  if outcomes.updates target then
    let s := s.change (s.database.withVersion currentSchemaVersion) s.version
    (s.change s.database (versionNumber currentSchemaVersion), true)
  else (s, false)

def migrationOperations (items : List SchemaItem) : SchemaStore :=
  let r := performItems outcomes target items s
  if r.2 then (r.1.updateSchemaVersion outcomes target target).1 else r.1

def endTransaction (before : MetaDatabase) : SchemaStore :=
  if s.version ≠ target then s.change before s.version
  else if outcomes.commits target then s
  else s.change before s.version

/-- A migration; `outer` tells that a transaction is started already. -/
def migrateSchema (outer : Bool) (items : List SchemaItem) : SchemaStore :=
  if !outer && !outcomes.begins target then s
  else
    let t := s.migrationOperations outcomes target items
    if outer then t else t.endTransaction outcomes target s.database

end Migrations

section Versions

variable (outer : Bool) (outcomes : MigrationOutcomes) (s : SchemaStore)

def migrateSchemaFromV1ToV2 : SchemaStore :=
  s.migrateSchema outcomes 2 outer [.dbobj "_table_indexes", .dbobj "_index_column_usage"]

def migrateSchemaFromV2ToV3 : SchemaStore :=
  s.migrateSchema outcomes 3 outer [.dbobj "__declared_fk"]

def migrateSchemaFromV3ToV4 : SchemaStore :=
  s.migrateSchema outcomes 4 outer [.column "_schemata" "schema_default"]

/-- The `switch` of the version, where each case falls through to the next one. -/
def migrateFrom (version : Int) : SchemaStore :=
  if version = 1 then
    ((s.migrateSchemaFromV1ToV2 outer outcomes).migrateSchemaFromV2ToV3 outer
      outcomes).migrateSchemaFromV3ToV4 outer outcomes
  else if version = 2 then
    (s.migrateSchemaFromV2ToV3 outer outcomes).migrateSchemaFromV3ToV4 outer outcomes
  else if version = 3 then s.migrateSchemaFromV3ToV4 outer outcomes
  else s

def handleSchemaVersion : SchemaStore × Bool :=
  match s.database.versions with
  | some [some text] =>
    let version := max 1 (versionNumber text)
    let s := s.change s.database version
    if version ≠ versionNumber currentSchemaVersion then
      let s := s.migrateFrom outer outcomes version
      (s, s.version = versionNumber currentSchemaVersion)
    else (s, true)
  | _ => (s, false)

end Versions

end SchemaStore

end LibGda

/-! Which stores a migration brings to the current version, and what is recorded of the version on the
way. -/

namespace LibGda

structure SchemaMigration where
  target : Int
  items : List SchemaItem
  deriving DecidableEq

def lastMigration : SchemaMigration := ⟨4, [.column "_schemata" "schema_default"]⟩

def schemaMigrations : List SchemaMigration :=
  [⟨2, [.dbobj "_table_indexes", .dbobj "_index_column_usage"]⟩, ⟨3, [.dbobj "__declared_fk"]⟩,
    lastMigration]

def migrationsAbove (version : Int) : List SchemaMigration :=
  schemaMigrations.filter fun m => version < m.target

namespace MetaDatabase

/-- The version which is recorded, as `handle_schema_version` reads it. -/
def recorded (db : MetaDatabase) : Option Int :=
  match db.versions with
  | some [some text] => some (max 1 (versionNumber text))
  | _ => none

def Present (db : MetaDatabase) (m : SchemaMigration) : Prop :=
  ∀ item ∈ m.items, db.has item = true

def Reaches (db : MetaDatabase) (version : Int) : Prop :=
  ∀ m ∈ schemaMigrations, m.target ≤ version → db.Present m

def Holds (db : MetaDatabase) (version : Int) : Prop :=
  (∀ v, db.recorded = some v → db.Reaches v) ∧ db.Reaches version

def withItems (db : MetaDatabase) (items : List SchemaItem) : MetaDatabase :=
  items.foldl withItem db

end MetaDatabase

namespace SchemaStore

/-- A store which is up to date has what every migration above its version adds, and at every moment
the versions are reached. -/
structure MigrationMeets (outer : Bool) (outcomes : MigrationOutcomes) (db : MetaDatabase) :
    Prop where
  upToDate : (handleSchemaVersion outer outcomes { database := db }).2 = true →
    ∃ v, db.recorded = some v ∧
      (handleSchemaVersion outer outcomes { database := db }).1.database.recorded = some 4 ∧
      ∀ m ∈ migrationsAbove v,
        (handleSchemaVersion outer outcomes { database := db }).1.database.Present m
  moments : ∀ p ∈ (db, 0) :: (handleSchemaVersion outer outcomes { database := db }).1.history,
    p.1.Holds p.2

end SchemaStore

namespace MigrationOutcomes

variable (outcomes : MigrationOutcomes)

def Updated (m : SchemaMigration) : Prop :=
  (∀ item ∈ m.items, outcomes.performs m.target item = true) ∧ outcomes.updates m.target = true

def Reached (m : SchemaMigration) : Prop :=
  outcomes.begins m.target = true ∧ outcomes.Updated m

def created (m : SchemaMigration) : List SchemaItem :=
  m.items.takeWhile (outcomes.performs m.target)

def OuterSound (db : MetaDatabase) (version : Int) : Prop :=
  ∀ before m after, migrationsAbove version = before ++ m :: after →
    (∀ m' ∈ before, ¬ outcomes.Updated m') → outcomes.Updated m →
    ∀ m' ∈ migrationsAbove version, ∀ item ∈ m'.items,
      db.has item = true ∨ item ∈ before.flatMap outcomes.created ∨ item ∈ m.items

/-- In a transaction for each migration: one which gets to the update is the last one, the last one
is committed, and everything else was there before. -/
def OwnSound (db : MetaDatabase) (version : Int) : Prop :=
  ∀ m ∈ migrationsAbove version, outcomes.Reached m →
    outcomes.Reached lastMigration ∧ outcomes.commits lastMigration.target = true ∧
      ∀ m' ∈ migrationsAbove version, db.Present m' ∨ m' = m ∧ m = lastMigration

end MigrationOutcomes

namespace MetaDatabase

@[simp] theorem recorded_withItem (db : MetaDatabase) (item : SchemaItem) :
    (db.withItem item).recorded = db.recorded := rfl

@[simp] theorem recorded_withItems (items : List SchemaItem) (db : MetaDatabase) :
    (db.withItems items).recorded = db.recorded := by
  induction items generalizing db with
  | nil => rfl
  | cons item items ih => exact ih (db.withItem item)

@[simp] theorem has_withItem (db : MetaDatabase) (item i : SchemaItem) :
    (db.withItem item).has i = true ↔ i = item ∨ db.has i = true := by
  by_cases h : i = item
  · subst h
    simp [withItem]
  · simp [withItem, h]

@[simp] theorem has_withItems (items : List SchemaItem) (db : MetaDatabase) (i : SchemaItem) :
    (db.withItems items).has i = true ↔ db.has i = true ∨ i ∈ items := by
  induction items generalizing db with
  | nil => simp [withItems]
  | cons item items ih =>
    have hstep : db.withItems (item :: items) = (db.withItem item).withItems items := rfl
    rw [hstep, ih, has_withItem, List.mem_cons]
    tauto

@[simp] theorem has_withVersion (db : MetaDatabase) (text : CBytes) :
    (db.withVersion text).has = db.has := rfl

theorem withItems_append (db : MetaDatabase) (items items' : List SchemaItem) :
    db.withItems (items ++ items') = (db.withItems items).withItems items' :=
  List.foldl_append

def Within (db db' : MetaDatabase) : Prop :=
  ∀ i, db.has i = true → db'.has i = true

theorem Reaches.within {db db' : MetaDatabase} {version : Int} (h : db.Reaches version)
    (hsub : db.Within db') : db'.Reaches version :=
  fun m hm hle item hitem => hsub item (h m hm hle item hitem)

theorem within_withItems (db : MetaDatabase) (items : List SchemaItem) :
    db.Within (db.withItems items) :=
  fun i h => (has_withItems items db i).2 (.inl h)

theorem recorded_withVersion {db : MetaDatabase} (h : db.recorded ≠ none) :
    (db.withVersion currentSchemaVersion).recorded = some 4 := by
  rw [recorded] at h
  split at h
  · next text hversions =>
    simp only [recorded, withVersion, hversions, Option.map_some, List.map_cons, List.map_nil]
    decide
  · exact absurd rfl h

def Complete (db : MetaDatabase) : Prop :=
  ∀ m ∈ schemaMigrations, db.Present m

theorem target_le {m : SchemaMigration} (hm : m ∈ schemaMigrations) : m.target ≤ 4 := by
  have hall : ∀ m ∈ schemaMigrations, m.target ≤ 4 := by decide
  exact hall m hm

theorem reaches_four {db : MetaDatabase} : db.Reaches 4 ↔ db.Complete :=
  ⟨fun h m hm => h m hm (target_le hm), fun h m hm _ => h m hm⟩

theorem Complete.reaches {db : MetaDatabase} (h : db.Complete) (version : Int) :
    db.Reaches version :=
  fun m hm _ => h m hm

theorem Complete.holds {db : MetaDatabase} (h : db.Complete) (version : Int) : db.Holds version :=
  ⟨fun v _ => h.reaches v, h.reaches version⟩

theorem Complete.within {db db' : MetaDatabase} (h : db.Complete) (hsub : db.Within db') :
    db'.Complete :=
  fun m hm item hitem => hsub item (h m hm item hitem)

theorem Holds.within {db db' : MetaDatabase} {version : Int} (h : db.Holds version)
    (hsub : db.Within db') (hrecorded : db'.recorded = db.recorded) : db'.Holds version := by
  refine ⟨fun v hv => ?_, h.2.within hsub⟩
  rw [hrecorded] at hv
  exact (h.1 v hv).within hsub

theorem holds_withVersion {db : MetaDatabase} {version : Int} (hrecorded : db.recorded ≠ none) :
    (db.withVersion currentSchemaVersion).Holds version ↔ db.Complete := by
  constructor
  · intro h
    exact reaches_four.1 (h.1 4 (recorded_withVersion hrecorded))
  · intro h
    have hcomplete : (db.withVersion currentSchemaVersion).Complete := h
    exact hcomplete.holds version

end MetaDatabase

namespace SchemaStore

variable {outcomes : MigrationOutcomes} {m : SchemaMigration} {s t : SchemaStore}

def AllHold (s : SchemaStore) : Prop :=
  ∀ p ∈ s.history, p.1.Holds p.2

@[simp] theorem allHold_change {db : MetaDatabase} {version : Int} :
    (s.change db version).AllHold ↔ s.AllHold ∧ db.Holds version := by
  simp [AllHold, change, or_imp, forall_and]

section Items

variable {target : Int}

theorem performItems_database (items : List SchemaItem) (s : SchemaStore) :
    (performItems outcomes target items s).1.database =
      s.database.withItems (items.takeWhile (outcomes.performs target)) := by
  induction items generalizing s with
  | nil => rfl
  | cons item items ih =>
    cases hperform : outcomes.performs target item with
    | false => simp [performItems, perform, hperform, MetaDatabase.withItems]
    | true =>
      simp only [performItems, perform, hperform, if_true, ih, List.takeWhile_cons]
      rfl

theorem performItems_version (items : List SchemaItem) (s : SchemaStore) :
    (performItems outcomes target items s).1.version = s.version := by
  induction items generalizing s with
  | nil => rfl
  | cons item items ih =>
    cases hperform : outcomes.performs target item with
    | false => simp [performItems, perform, hperform]
    | true =>
      simp only [performItems, perform, hperform, if_true, ih]
      rfl

theorem performItems_true (items : List SchemaItem) (s : SchemaStore) :
    (performItems outcomes target items s).2 = true ↔
      ∀ item ∈ items, outcomes.performs target item = true := by
  induction items generalizing s with
  | nil => simp [performItems]
  | cons item items ih =>
    cases hperform : outcomes.performs target item with
    | false => simp [performItems, perform, hperform]
    | true => simp [performItems, perform, hperform, ih]

theorem performItems_allHold (items : List SchemaItem) {s : SchemaStore}
    (h : s.database.Holds s.version) :
    (performItems outcomes target items s).1.AllHold ↔ s.AllHold := by
  induction items generalizing s with
  | nil => rfl
  | cons item items ih =>
    cases hperform : outcomes.performs target item with
    | false => simp [performItems, perform, hperform]
    | true =>
      have hitem : (s.database.withItem item).Holds s.version :=
        h.within (MetaDatabase.within_withItems s.database [item]) rfl
      simp only [performItems, perform, hperform, if_true]
      rw [ih hitem, allHold_change]
      exact and_iff_left hitem

end Items

section Operations

variable (s)

theorem operations_database (hu : outcomes.Updated m) :
    (s.migrationOperations outcomes m.target m.items).database =
      (s.database.withItems m.items).withVersion currentSchemaVersion := by
  have hall := (performItems_true m.items s).2 hu.1
  have hdatabase := @performItems_database outcomes m.target m.items s
  rw [List.takeWhile_eq_self_iff.2 hu.1] at hdatabase
  simp only [migrationOperations, hall, if_true, updateSchemaVersion, hu.2, change, hdatabase]

theorem operations_version (hu : outcomes.Updated m) :
    (s.migrationOperations outcomes m.target m.items).version = 4 := by
  have hall := (performItems_true m.items s).2 hu.1
  simp only [migrationOperations, hall, if_true, updateSchemaVersion, hu.2, change]
  decide

theorem operations_allHold (hu : outcomes.Updated m) (hrecorded : s.database.recorded ≠ none)
    (h : s.database.Holds s.version) :
    (s.migrationOperations outcomes m.target m.items).AllHold ↔
      s.AllHold ∧ (s.database.withItems m.items).Complete := by
  have hall := (performItems_true m.items s).2 hu.1
  have hdatabase := @performItems_database outcomes m.target m.items s
  rw [List.takeWhile_eq_self_iff.2 hu.1] at hdatabase
  have hrecorded' : (s.database.withItems m.items).recorded ≠ none := by
    rw [MetaDatabase.recorded_withItems]
    exact hrecorded
  have hfirst (version : Int) : ((performItems outcomes m.target m.items s).1.database.withVersion
      currentSchemaVersion).Holds version ↔ (s.database.withItems m.items).Complete := by
    rw [hdatabase]
    exact MetaDatabase.holds_withVersion hrecorded'
  simp only [migrationOperations, hall, if_true, updateSchemaVersion, hu.2, allHold_change,
    performItems_allHold m.items h]
  rw [and_assoc]
  refine and_congr_right fun _ => ?_
  constructor
  · intro hmoments
    exact (hfirst _).1 hmoments.1
  · intro hcomplete
    exact ⟨(hfirst _).2 hcomplete, (hfirst _).2 hcomplete⟩

theorem operations_of_not_updated (hu : ¬ outcomes.Updated m) :
    s.migrationOperations outcomes m.target m.items =
      (performItems outcomes m.target m.items s).1 := by
  rw [migrationOperations]
  split
  · next hall =>
    have hupdate : outcomes.updates m.target = false := Bool.eq_false_iff.2 fun hupdate =>
      hu ⟨(performItems_true m.items s).1 hall, hupdate⟩
    rw [updateSchemaVersion, if_neg (by simp [hupdate])]
  · rfl

theorem operations_not_updated (hu : ¬ outcomes.Updated m) :
    (s.migrationOperations outcomes m.target m.items).database =
        s.database.withItems (outcomes.created m) ∧
      (s.migrationOperations outcomes m.target m.items).version = s.version := by
  rw [s.operations_of_not_updated hu]
  exact ⟨performItems_database m.items s, performItems_version m.items s⟩

theorem operations_not_updated_allHold (hu : ¬ outcomes.Updated m)
    (h : s.database.Holds s.version) :
    (s.migrationOperations outcomes m.target m.items).AllHold ↔ s.AllHold := by
  rw [s.operations_of_not_updated hu]
  exact performItems_allHold m.items h

theorem operations_recorded (hrecorded : s.database.recorded ≠ none) :
    (s.migrationOperations outcomes m.target m.items).database.recorded ≠ none := by
  by_cases hu : outcomes.Updated m
  · rw [s.operations_database hu, MetaDatabase.recorded_withVersion (by simpa using hrecorded)]
    exact Option.some_ne_none 4
  · rw [(s.operations_not_updated hu).1, MetaDatabase.recorded_withItems]
    exact hrecorded

end Operations

def runMigrations (outer : Bool) (outcomes : MigrationOutcomes) (ms : List SchemaMigration)
    (s : SchemaStore) : SchemaStore :=
  ms.foldl (fun s m => s.migrateSchema outcomes m.target outer m.items) s

theorem migrationsAbove_eq_nil {version : Int} (h : 4 ≤ version) : migrationsAbove version =
    [] := by
  apply List.filter_eq_nil_iff.2
  intro m hm
  have hle := MetaDatabase.target_le hm
  simp only [decide_eq_true_eq]
  omega

theorem migrateFrom_eq {version : Int} (h : 1 ≤ version) (hcurrent : version ≠ 4) (outer : Bool)
    (s : SchemaStore) :
    s.migrateFrom outer outcomes version =
      runMigrations outer outcomes (migrationsAbove version) s := by
  by_cases hsmall : version ≤ 3
  · have hcases : version = 1 ∨ version = 2 ∨ version = 3 := by omega
    rcases hcases with rfl | rfl | rfl
    · rfl
    · rfl
    · rfl
  · have hnone : migrationsAbove version = [] := migrationsAbove_eq_nil (by omega)
    have hne : version ≠ 1 ∧ version ≠ 2 ∧ version ≠ 3 := by omega
    rw [hnone, migrateFrom, if_neg hne.1, if_neg hne.2.1, if_neg hne.2.2]
    rfl

theorem AllHold.of_history {s t : SchemaStore} (h : t.AllHold) (hsub : s.history <+: t.history) :
    s.AllHold :=
  fun p hp => h p (hsub.subset hp)

theorem change_history (s : SchemaStore) (db : MetaDatabase) (version : Int) :
    s.history <+: (s.change db version).history :=
  List.prefix_append _ _

theorem performItems_history (target : Int) (items : List SchemaItem) (s : SchemaStore) :
    s.history <+: (performItems outcomes target items s).1.history := by
  induction items generalizing s with
  | nil => exact List.prefix_refl s.history
  | cons item items ih =>
    cases hperform : outcomes.performs target item with
    | false =>
      simp only [performItems, perform, hperform, Bool.false_eq_true, if_false]
      exact List.prefix_refl s.history
    | true =>
      simp only [performItems, perform, hperform, if_true]
      exact (s.change_history _ _).trans (ih _)

theorem operations_history (target : Int) (items : List SchemaItem) (s : SchemaStore) :
    s.history <+: (s.migrationOperations outcomes target items).history := by
  have hitems := @performItems_history outcomes target items s
  rw [migrationOperations]
  split
  · rw [updateSchemaVersion]
    split
    · exact (hitems.trans (change_history _ _ _)).trans (change_history _ _ _)
    · exact hitems
  · exact hitems

theorem migrate_history (outer : Bool) (m : SchemaMigration) (s : SchemaStore) :
    s.history <+: (s.migrateSchema outcomes m.target outer m.items).history := by
  have hoperations := @operations_history outcomes m.target m.items s
  rw [migrateSchema]
  split
  · exact List.prefix_refl s.history
  · split
    · exact hoperations
    · rw [endTransaction]
      split
      · exact hoperations.trans (change_history _ _ _)
      · split
        · exact hoperations
        · exact hoperations.trans (change_history _ _ _)

theorem run_history (outer : Bool) (ms : List SchemaMigration) (s : SchemaStore) :
    s.history <+: (runMigrations outer outcomes ms s).history := by
  induction ms generalizing s with
  | nil => exact List.prefix_refl s.history
  | cons m ms ih => exact (migrate_history outer m s).trans (ih _)

/-! In the transaction of the caller. -/

section Outer

variable (s)

theorem runOuter_complete {ms : List SchemaMigration} {s : SchemaStore}
    (hcomplete : s.database.Complete) (hrecorded : s.database.recorded ≠ none) :
    (runMigrations true outcomes ms s).AllHold ↔ s.AllHold := by
  induction ms generalizing s with
  | nil => rfl
  | cons m ms ih =>
    have hwithin (items : List SchemaItem) : (s.database.withItems items).Complete :=
      hcomplete.within (MetaDatabase.within_withItems s.database items)
    have hstep : runMigrations true outcomes (m :: ms) s =
        runMigrations true outcomes ms (s.migrationOperations outcomes m.target m.items) := rfl
    rw [hstep]
    by_cases hu : outcomes.Updated m
    · have hdatabase := s.operations_database hu
      have hnext : (s.migrationOperations outcomes m.target m.items).database.Complete := by
        rw [hdatabase]
        exact hwithin m.items
      rw [ih hnext (s.operations_recorded hrecorded), s.operations_allHold hu hrecorded
        (hcomplete.holds s.version)]
      exact and_iff_left (hwithin m.items)
    · have hdatabase := (s.operations_not_updated hu).1
      rw [ih (hdatabase ▸ hwithin _) (s.operations_recorded hrecorded),
        s.operations_not_updated_allHold hu (hcomplete.holds s.version)]

theorem runOuter_allHold {ms : List SchemaMigration} {s : SchemaStore}
    (h : s.database.Holds s.version) (hrecorded : s.database.recorded ≠ none) :
    (runMigrations true outcomes ms s).AllHold ↔
      s.AllHold ∧ ∀ before m after, ms = before ++ m :: after →
        (∀ m' ∈ before, ¬ outcomes.Updated m') → outcomes.Updated m →
        (s.database.withItems (before.flatMap outcomes.created ++ m.items)).Complete := by
  induction ms generalizing s with
  | nil =>
    refine (and_iff_left ?_).symm
    intro before m after hsplit
    exact absurd hsplit (List.append_ne_nil_of_right_ne_nil before (List.cons_ne_nil m after)).symm
  | cons m ms ih =>
    have hstep : runMigrations true outcomes (m :: ms) s =
        runMigrations true outcomes ms (s.migrationOperations outcomes m.target m.items) := rfl
    by_cases hu : outcomes.Updated m
    · have hall := s.operations_allHold hu hrecorded h
      have hcond : (∀ before m' after, m :: ms = before ++ m' :: after →
          (∀ m'' ∈ before, ¬ outcomes.Updated m'') → outcomes.Updated m' →
          (s.database.withItems (before.flatMap outcomes.created ++ m'.items)).Complete) ↔
          (s.database.withItems m.items).Complete := by
        constructor
        · intro hcond
          exact hcond [] m ms rfl (fun m' hm' => absurd hm' List.not_mem_nil) hu
        · intro hcomplete before m' after hsplit hbefore _
          cases before with
          | nil =>
            obtain ⟨rfl, -⟩ := List.cons.inj hsplit
            exact hcomplete
          | cons m'' before =>
            obtain ⟨rfl, -⟩ := List.cons.inj hsplit
            exact absurd hu (hbefore m (List.mem_cons_self ..))
      rw [hcond, ← hall, hstep]
      constructor
      · exact fun hend => hend.of_history (run_history true ms _)
      · intro hnext
        have hcomplete : (s.database.withItems m.items).Complete := (hall.1 hnext).2
        have hdatabase := s.operations_database hu
        refine (runOuter_complete ?_ (s.operations_recorded hrecorded)).2 hnext
        rw [hdatabase]
        exact hcomplete
    · obtain ⟨hdatabase, hversion⟩ := s.operations_not_updated hu
      have hall := s.operations_not_updated_allHold hu h
      rw [hstep, ih]
      · rw [hall]
        refine and_congr_right fun _ => ?_
        rw [hdatabase]
        constructor
        · intro hcond before m' after hsplit hbefore hm'
          cases before with
          | nil =>
            obtain ⟨rfl, -⟩ := List.cons.inj hsplit
            exact absurd hm' hu
          | cons m'' before =>
            obtain ⟨rfl, hrest⟩ := List.cons.inj hsplit
            have hlater := hcond before m' after hrest
              (fun m'' hm'' => hbefore m'' (List.mem_cons_of_mem _ hm'')) hm'
            rw [List.flatMap_cons, List.append_assoc, MetaDatabase.withItems_append]
            exact hlater
        · intro hcond before m' after hsplit hbefore hm'
          have hlater := hcond (m :: before) m' after (congrArg (List.cons m) hsplit)
            (fun m'' hm'' => by
              rcases List.mem_cons.1 hm'' with rfl | hm''
              · exact hu
              · exact hbefore m'' hm'') hm'
          rw [List.flatMap_cons, List.append_assoc, MetaDatabase.withItems_append] at hlater
          exact hlater
      · rw [hdatabase, hversion]
        exact h.within (MetaDatabase.within_withItems _ _) (MetaDatabase.recorded_withItems _ _)
      · exact s.operations_recorded hrecorded

theorem runOuter_concat (ms : List SchemaMigration) (m : SchemaMigration) (s : SchemaStore) :
    runMigrations true outcomes (ms ++ [m]) s =
      (runMigrations true outcomes ms s).migrationOperations outcomes m.target m.items :=
  List.foldl_append

theorem runOuter_recorded (ms : List SchemaMigration) {s : SchemaStore}
    (hrecorded : s.database.recorded ≠ none) :
    (runMigrations true outcomes ms s).database.recorded ≠ none := by
  induction ms generalizing s with
  | nil => exact hrecorded
  | cons m ms ih => exact ih (s.operations_recorded hrecorded)

theorem runOuter_version (ms : List SchemaMigration) {s : SchemaStore}
    (hrecorded : s.database.recorded ≠ none) :
    (∀ m ∈ ms, ¬ outcomes.Updated m) ∧ (runMigrations true outcomes ms s).version = s.version ∨
      (∃ m ∈ ms, outcomes.Updated m) ∧ (runMigrations true outcomes ms s).version = 4 ∧
        (runMigrations true outcomes ms s).database.recorded = some 4 := by
  induction ms using List.reverseRecOn with
  | nil => exact .inl ⟨fun m hm => absurd hm List.not_mem_nil, rfl⟩
  | append_singleton ms m ih =>
    have hmem : m ∈ ms ++ [m] := List.mem_append_right ms (List.mem_singleton.2 rfl)
    have hrecorded' := @runOuter_recorded outcomes ms s hrecorded
    rw [runOuter_concat]
    generalize runMigrations true outcomes ms s = t at ih hrecorded' ⊢
    by_cases hu : outcomes.Updated m
    · refine .inr ⟨⟨m, hmem, hu⟩, t.operations_version hu, ?_⟩
      rw [t.operations_database hu]
      exact MetaDatabase.recorded_withVersion (by simpa using hrecorded')
    · obtain ⟨hdatabase, hversion⟩ := t.operations_not_updated hu
      rw [hdatabase, hversion, MetaDatabase.recorded_withItems]
      rcases ih with ⟨hnone, hsame⟩ | ⟨⟨m', hm', hu'⟩, hcurrent⟩
      · refine .inl ⟨fun m' hm' => ?_, hsame⟩
        rcases List.mem_append.1 hm' with hm' | hm'
        · exact hnone m' hm'
        · exact List.mem_singleton.1 hm' ▸ hu
      · exact .inr ⟨⟨m', List.mem_append_left [m] hm', hu'⟩, hcurrent⟩

end Outer

/-! In a transaction for each migration. -/

section Own

theorem migrate_own (m : SchemaMigration) (s : SchemaStore) :
    s.migrateSchema outcomes m.target false m.items =
      if outcomes.begins m.target = true then
        (s.migrationOperations outcomes m.target m.items).endTransaction outcomes m.target
          s.database
      else s := by
  rw [migrateSchema]
  cases outcomes.begins m.target <;> simp

theorem migrate_own_undone (hm : m.target ≠ 4) (hv : s.version ≠ m.target) :
    (s.migrateSchema outcomes m.target false m.items).database = s.database ∧
      (s.migrateSchema outcomes m.target false m.items).version =
        (open Classical in if outcomes.Reached m then 4 else s.version) := by
  classical
  rw [migrate_own]
  by_cases hb : outcomes.begins m.target = true
  · rw [if_pos hb]
    by_cases hu : outcomes.Updated m
    · have hversion := s.operations_version hu
      rw [endTransaction, if_pos (by rw [hversion]; exact Ne.symm hm), if_pos ⟨hb, hu⟩]
      exact ⟨rfl, hversion⟩
    · have hversion := (s.operations_not_updated hu).2
      rw [endTransaction, if_pos (by rw [hversion]; exact hv), if_neg fun hr => hu hr.2]
      exact ⟨rfl, hversion⟩
  · rw [if_neg hb, if_neg fun hr => hb hr.1]
    exact ⟨rfl, rfl⟩

theorem migrate_own_allHold (hm : m.target ≠ 4) (hv : s.version ≠ m.target)
    (h : s.database.Holds s.version) (hrecorded : s.database.recorded ≠ none) :
    (s.migrateSchema outcomes m.target false m.items).AllHold ↔
      s.AllHold ∧ (outcomes.Reached m → s.database.Complete) := by
  rw [migrate_own]
  by_cases hb : outcomes.begins m.target = true
  · rw [if_pos hb]
    by_cases hu : outcomes.Updated m
    · have hversion := s.operations_version hu
      rw [endTransaction, if_pos (by rw [hversion]; exact Ne.symm hm), allHold_change, hversion,
        s.operations_allHold hu hrecorded h, and_assoc]
      refine and_congr_right fun _ => ?_
      constructor
      · intro hend _
        exact MetaDatabase.reaches_four.1 hend.2.2
      · intro hcomplete
        have hall : s.database.Complete := hcomplete ⟨hb, hu⟩
        exact ⟨hall.within (MetaDatabase.within_withItems _ _), hall.holds 4⟩
    · have hversion := (s.operations_not_updated hu).2
      rw [endTransaction, if_pos (by rw [hversion]; exact hv), allHold_change, hversion,
        s.operations_not_updated_allHold hu h]
      refine and_congr_right fun _ => ?_
      exact ⟨fun _ hr => absurd hr.2 hu, fun _ => h⟩
  · rw [if_neg hb]
    exact (and_iff_left fun hr => absurd hr.1 hb).symm

end Own

end SchemaStore

end LibGda
