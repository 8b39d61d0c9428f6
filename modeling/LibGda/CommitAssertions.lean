import LibGda.RegistryAgreement

/-! What every pending change holds, so that none of the assertions made when it is
committed can fail. -/

namespace LibGda

open RunInvariant

variable {D : Type}

def Fault.isCommitAssertion : Fault → Bool
  | .commitDeleteModelRow => true
  | .commitUpdateModifyValues => true
  | .commitUpdateOrigValues => true
  | .commitInsertModifyValues => true
  | _ => false

/-- What `commit_row_modif` needs of a change. -/
structure Committable (rm : RowModif D) : Prop where
  content : (rm.toBeDeleted = true ∧ 0 ≤ rm.modelRow) ∨ rm.modifyValues ≠ []
  original : 0 ≤ rm.modelRow → rm.origValues.isSome
  columns : (rm.modifyValues.map RowValue.modelColumn).Nodup

/-- What the operations keep of a change: it is committable, only rows of the model
are marked, and new rows have no original values. -/
structure WellFormed (rm : RowModif D) : Prop extends Committable rm where
  marked : rm.toBeDeleted = true → 0 ≤ rm.modelRow
  inserted : rm.modelRow < 0 → rm.modelRow = -1 ∧ rm.origValues = none

theorem replaceRowValue_columns (rv : RowValue D) (values : List (RowValue D)) :
    (replaceRowValue rv values).map RowValue.modelColumn = values.map RowValue.modelColumn := by
  induction values with
  | nil => rfl
  | cons x xs ih =>
    unfold replaceRowValue
    split
    case isTrue he => simp [he]
    case isFalse => simp [ih]

theorem replaceRowValue_ne_nil (rv : RowValue D) {values : List (RowValue D)} (h : values ≠ []) :
    replaceRowValue rv values ≠ [] := fun he => by
  have hc := replaceRowValue_columns rv values
  rw [he] at hc
  exact h (List.map_eq_nil_iff.1 hc.symm)

theorem removeRowValue_sublist (column : Int) (values : List (RowValue D)) :
    List.Sublist (removeRowValue column values) values := by
  induction values with
  | nil => exact List.Sublist.refl _
  | cons x xs ih =>
    unfold removeRowValue
    split
    · exact List.sublist_cons_self _ _
    · exact ih.cons_cons _

theorem findRowValue_column {column : Int} {values : List (RowValue D)} {rv : RowValue D}
    (h : findRowValue column values = some rv) : rv.modelColumn = column ∧ values ≠ [] := by
  have hp := List.find?_some h
  exact ⟨by simpa using hp, fun he => by simp [he, findRowValue] at h⟩

theorem findRowValue_none {column : Int} {values : List (RowValue D)}
    (h : findRowValue column values = none) : column ∉ values.map RowValue.modelColumn := by
  intro hm
  obtain ⟨rv, hrv, he⟩ := List.mem_map.1 hm
  have hp := List.find?_eq_none.1 h rv hrv
  simp [he] at hp

namespace GdaDataProxy

theorem putValue_columns [ContentsCompare D] (p : GdaDataProxy D) (rm : RowModif D) (col : Int)
    (value : GValue D) (isOrig : Bool) (h : (rm.modifyValues.map RowValue.modelColumn).Nodup) :
    ((p.putValue rm (findRowValue col rm.modifyValues) col value isOrig).map
      RowValue.modelColumn).Nodup := by
  unfold putValue
  split
  · split
    · split
      · exact h.sublist ((removeRowValue_sublist col _).map _)
      · rwa [replaceRowValue_columns]
    · rwa [replaceRowValue_columns]
  · exact List.nodup_cons.2 ⟨findRowValue_none (by assumption), h⟩

theorem putValue_ne_nil [ContentsCompare D] (p : GdaDataProxy D) {rm : RowModif D} (col : Int)
    (value : GValue D) (isOrig : Bool) (h : rm.origValues = none) :
    p.putValue rm (findRowValue col rm.modifyValues) col value isOrig ≠ [] := by
  unfold putValue
  split
  case h_1 rv hrv =>
    simp only [h, Option.bind_none]
    exact replaceRowValue_ne_nil _ (findRowValue_column hrv).2
  case h_2 => exact List.cons_ne_nil _ _

theorem putDefault_columns (p : GdaDataProxy D) (rm : RowModif D) (col modelCol : Int)
    (h : (rm.modifyValues.map RowValue.modelColumn).Nodup) :
    ((p.putDefault rm (findRowValue modelCol rm.modifyValues) col modelCol).map
      RowValue.modelColumn).Nodup := by
  cases hf : findRowValue modelCol rm.modifyValues with
  | some rv => simpa only [putDefault, replaceRowValue_columns] using h
  | none => exact List.nodup_cons.2 ⟨findRowValue_none hf, h⟩

theorem putDefault_ne_nil (p : GdaDataProxy D) (rm : RowModif D) (col modelCol : Int) :
    p.putDefault rm (findRowValue modelCol rm.modifyValues) col modelCol ≠ [] := by
  unfold putDefault
  split
  case h_1 rv hrv => exact replaceRowValue_ne_nil _ (findRowValue_column hrv).2
  case h_2 => exact List.cons_ne_nil _ _

theorem createdFor_orig_isSome {p : GdaDataProxy D} {proxyRow : Int} (hpos : 0 ≤ proxyRow)
    (h0 : 0 ≤ p.proxyRowToModelRow proxyRow) (hcols : p.modelNbCols ≠ 0) :
    (p.createdFor proxyRow).origValues.isSome := by
  simp [createdFor_orig hpos h0, hcols]

theorem createdFor_wellFormed {p : GdaDataProxy D} {proxyRow : Int} (hpos : 0 ≤ proxyRow)
    (h0 : 0 ≤ p.proxyRowToModelRow proxyRow) (hcols : p.modelNbCols ≠ 0)
    {values : List (RowValue D)} (hne : values ≠ [])
    (hcolumns : (values.map RowValue.modelColumn).Nodup) :
    WellFormed (withValues values (p.createdFor proxyRow)) where
  content := Or.inr hne
  original _ := createdFor_orig_isSome hpos h0 hcols
  columns := hcolumns
  marked _ := h0
  inserted hneg := absurd h0 (Int.not_le.2 hneg)

end GdaDataProxy

def wellFormedRules : EditRules D where
  form := WellFormed
  clobber := True

open GdaDataProxy in
theorem wellFormedRules_form [ContentsCompare D] : FormRules (wellFormedRules : EditRules D) where
  written p col value isOrig rm values hvalues hkept h := by
    subst hvalues
    refine ⟨⟨?_, h.original, p.putValue_columns rm col value isOrig h.columns⟩, h.marked, h.inserted⟩
    rcases hkept with hdel | hne | hneg
    · exact Or.inl ⟨hdel, h.marked hdel⟩
    · exact Or.inr hne
    · exact Or.inr (p.putValue_ne_nil col value isOrig (h.inserted hneg).2)
  created p proxyRow col value hpos h0 hcol :=
    createdFor_wellFormed hpos h0 (by omega) (List.cons_ne_nil _ _) (List.nodup_singleton _)
  defaulted p col modelCol rm h :=
    ⟨⟨Or.inr (p.putDefault_ne_nil rm col modelCol), h.original,
      p.putDefault_columns rm col modelCol h.columns⟩, h.marked, h.inserted⟩
  createdDefault p proxyRow col modelCol hpos h0 hcols :=
    createdFor_wellFormed hpos h0 hcols (List.cons_ne_nil _ _) (by
      simp [putDefault])
  createdBlank p proxyRow hblank := hblank.elim
  marked rm hrow h := by
    have h0 : 0 ≤ rm.modelRow := by
      by_contra hneg
      exact hrow (h.inserted (Int.not_le.1 hneg)).1
    exact ⟨⟨Or.inl ⟨rfl, h0⟩, h.original, h.columns⟩, fun _ => h0, h.inserted⟩
  createdDeleted p proxyRow hpos hstray hblank := by
    have h0 := hstray.resolve_left not_false
    have hcols := hblank.resolve_left not_false
    refine ⟨⟨Or.inl ⟨rfl, h0⟩, fun _ => createdFor_orig_isSome hpos h0 hcols, ?_⟩, fun _ => h0,
      fun hneg => absurd h0 (Int.not_le.2 hneg)⟩
    rw [createdFor_modifyValues]
    exact List.nodup_nil
  unmarked rm hne h := ⟨⟨Or.inr hne, h.original, h.columns⟩, (nomatch ·), h.inserted⟩
  cancelled col rm hkept h := by
    refine ⟨⟨?_, h.original, ?_⟩, h.marked, h.inserted⟩
    · rcases hkept with hne | hdel
      · exact Or.inr hne
      · exact Or.inl ⟨hdel, h.marked hdel⟩
    · refine h.columns.sublist (List.Sublist.map _ ?_)
      simp only [withValues, cancelValues]
      split
      · exact List.nil_sublist _
      · exact removeRowValue_sublist _ _
  newRow p hblank := by
    have hcols := hblank.resolve_left not_false
    refine ⟨⟨Or.inr ?_, fun h0 => ?_, ?_⟩, (nomatch ·), fun _ => ⟨rfl, rfl⟩⟩
    · simp [newRowModif, hcols]
    · exact absurd h0 (by simp [newRowModif])
    · simp only [newRowModif, List.map_reverse, List.map_map, List.nodup_reverse]
      exact List.nodup_range.map fun a b he => Int.ofNat_inj.1 he

abbrev NoCommitAssertion {α : Type} (x : Except Fault α) : Prop :=
  Avoids (fun fault => fault.isCommitAssertion = true) x

namespace GdaDataProxy

theorem absoluteRowToProxyRow_noAssertion (p : GdaDataProxy D) (absRow : Int) :
    NoCommitAssertion (p.absoluteRowToProxyRow absRow) := by
  unfold absoluteRowToProxyRow
  simp only
  split
  · exact avoids_ok _
  · split
    · exact avoids_ok _
    · split
      · split <;> exact avoids_ok _
      · split
        · exact avoids_error (by decide)
        · exact avoids_ok _

theorem mappingRowRemoved_noAssertion (absRow : Int) (mapping : List Int) :
    NoCommitAssertion (mappingRowRemoved absRow mapping) := by
  rw [mappingRowRemoved_eq]
  split
  · exact avoids_ok _
  · exact avoids_error (by decide)

theorem onModelSignal_noAssertion (p : GdaDataProxy D) (model : GdaDataModel D)
    (signal : ModelSignal) : NoCommitAssertion (p.onModelSignal model signal) := by
  unfold onModelSignal
  simp only
  generalize ({ p with model := model } : GdaDataProxy D) = q
  cases signal with
  | rowInserted row =>
    refine Avoids.bind ?_ fun _ _ => avoids_ok _
    unfold chunkToRowInserted
    split <;> first | exact avoids_ok _ | exact avoids_error (by decide)
  | rowUpdated row =>
    exact (absoluteRowToProxyRow_noAssertion _ _).bind fun _ _ => avoids_ok _
  | rowRemoved row =>
    refine (absoluteRowToProxyRow_noAssertion _ _).bind fun _ _ => Avoids.bind ?_ fun _ _ =>
      Avoids.bind ?_ fun _ _ => avoids_ok _
    · unfold chunkRowRemoved
      split
      · exact avoids_ok _
      · exact (mappingRowRemoved_noAssertion _ _).map _
    · unfold chunkToRowRemoved
      split
      · exact avoids_ok _
      · exact avoids_error (by decide)
      · exact avoids_error (by decide)
      · exact (mappingRowRemoved_noAssertion _ _).map _

theorem receive_noAssertion {β : Type} (p : GdaDataProxy D) (reply : ModelReply D β) :
    NoCommitAssertion (p.receive reply) := by
  refine Avoids.bind ?_ fun _ _ => avoids_ok _
  generalize reply.signals = signals
  induction signals generalizing p with
  | nil => exact avoids_ok _
  | cons s rest ih => exact (p.onModelSignal_noAssertion s.1 s.2).bind fun q _ => ih q

theorem filteredRowAt_noAssertion (rows : List Int) (row : Int) :
    NoCommitAssertion (filteredRowAt rows row) := by
  unfold filteredRowAt
  split
  · split
    · split
      · exact avoids_ok _
      · exact avoids_error (by decide)
    · exact avoids_error (by decide)
  · exact avoids_error (by decide)

theorem sampleRowAt_noAssertion (p : GdaDataProxy D) (row : Int) :
    NoCommitAssertion (p.sampleRowAt row) := by
  unfold sampleRowAt
  split
  · exact avoids_ok _
  · exact avoids_error (by decide)

theorem computeDisplayChunk_noAssertion (p : GdaDataProxy D) :
    NoCommitAssertion p.computeDisplayChunk := by
  unfold computeDisplayChunk
  split
  · exact (avoids_mapM (fun i => filteredRowAt_noAssertion _ _) _).bind fun _ _ => avoids_ok _
  · split
    · split
      · exact (avoids_mapM (fun i => sampleRowAt_noAssertion _ _) _).bind fun _ _ => avoids_ok _
      · exact avoids_ok _
    · split <;> exact avoids_ok _

theorem adjustDisplayedChunk_noAssertion (p : GdaDataProxy D) :
    NoCommitAssertion p.adjustDisplayedChunk := by
  refine (computeDisplayChunk_noAssertion _).bind fun r _ => ?_
  simp only
  split
  · exact avoids_ok _
  · split <;> exact avoids_ok _

theorem commitChange_noAssertion {p : GdaDataProxy D} {ptr : RowModifPtr}
    (h : WellFormed (p.modifs.memory ptr)) (proxied : ProxiedModel D) (proxyRow : Int) :
    NoCommitAssertion (p.commitChange proxied ptr proxyRow) := by
  unfold commitChange commitExisting commitInsert
  simp only [Bool.or_eq_true, decide_eq_true_eq, List.isEmpty_iff, Option.isNone_iff_eq_none]
  by_cases hdel : (p.modifs.memory ptr).toBeDeleted = true
  · have h0 := h.marked hdel
    simp only [hdel, true_or, if_true, Int.not_lt.2 h0, if_false]
    exact (receive_noAssertion _ _).bind fun _ _ => avoids_ok _
  · have hne := h.content.resolve_left fun hh => hdel hh.1
    simp only [hdel, Bool.false_eq_true, false_or, if_false, hne]
    split
    case isTrue h0 =>
      obtain ⟨orig, horig⟩ := Option.isSome_iff_exists.1 (h.original h0)
      simp only [horig, reduceCtorEq, if_false]
      exact (receive_noAssertion _ _).bind fun _ _ => avoids_ok _
    case isFalse => exact (receive_noAssertion _ _).bind fun _ _ => avoids_ok _

theorem commitRowModif_noAssertion {p : GdaDataProxy D} {ptr : RowModifPtr}
    (h : WellFormed (p.modifs.memory ptr)) (proxied : ProxiedModel D) (adjustDisplay : Bool) :
    NoCommitAssertion (p.commitRowModif proxied (some ptr) adjustDisplay) := by
  rw [← ensureChunkSync_modifs p] at h
  refine (absoluteRowToProxyRow_noAssertion _ _).bind fun proxyRow _ => ?_
  simp only
  split
  · exact avoids_ok _
  · refine (commitChange_noAssertion h proxied proxyRow).bind fun r _ => ?_
    split
    · exact (adjustDisplayedChunk_noAssertion _).bind fun _ _ => avoids_ok _
    · exact avoids_ok _

end GdaDataProxy

theorem AllHave.edits {rules : EditRules D} (hstray : ¬ rules.stray) (horphan : ¬ rules.orphan)
    (hstable : ∀ rm : RowModif D, ∀ row : Int, 0 ≤ rm.modelRow → 0 ≤ row →
      rules.form rm → rules.form { rm with modelRow := row })
    {rs ss : RowModifs D} (hl : Linked rs) (h : AllHave rules.form rs) (he : Edits rules rs ss) :
    AllHave rules.form ss := by
  induction he with
  | refl => exact h
  | tail hedits hedit ih =>
    exact ih.edit (hl.edits hstray horphan hedits) (fun _ => hstable) hedit

theorem WellFormed.atRow {rm : RowModif D} {row : Int} (h0 : 0 ≤ rm.modelRow) (h0' : 0 ≤ row)
    (h : WellFormed rm) : WellFormed { rm with modelRow := row } where
  content := h.content.imp_left fun hh => ⟨hh.1, h0'⟩
  original _ := h.original h0
  columns := h.columns
  marked _ := h0'
  inserted hneg := absurd h0' (Int.not_le.2 hneg)

structure ChangesWellFormed (rs : RowModifs D) : Prop where
  linked : Linked rs
  wellFormed : AllHave WellFormed rs

theorem ChangesWellFormed.edits {rs ss : RowModifs D} (h : ChangesWellFormed rs)
    (he : Edits wellFormedRules rs ss) : ChangesWellFormed ss where
  linked := h.linked.edits not_false not_false he
  wellFormed := by
    have hstray : ¬ (wellFormedRules : EditRules D).stray := not_false
    exact AllHave.edits hstray not_false (fun _ _ h0 h0' hw => WellFormed.atRow h0 h0' hw)
      h.linked h.wellFormed he

theorem ChangesWellFormed.of_mem {rs : RowModifs D} (h : ChangesWellFormed rs) {ptr : RowModifPtr}
    (hm : ptr ∈ rs.allModifs) : WellFormed (rs.memory ptr) :=
  h.wellFormed ptr (RowModifs.mem_pool.2 (Or.inl hm))

namespace GdaDataProxy

theorem applyRowChanges_noAssertion {p : GdaDataProxy D} (h : ChangesWellFormed p.modifs)
    (proxied : ProxiedModel D) (proxyRow : Int) :
    NoCommitAssertion (p.applyRowChanges proxied proxyRow) := by
  unfold applyRowChanges
  split
  · exact avoids_ok _
  · cases hrm : p.proxyRowToRowModif proxyRow with
    | none => exact avoids_ok _
    | some ptr =>
      have hreach : p.modifs.Reached ptr :=
        reached_of_absoluteRow (Prod.ext rfl ((p.proxyRowToRowModif_eq proxyRow).symm.trans hrm))
      exact commitRowModif_noAssertion (h.of_mem (h.linked.row_of_reached hreach)) _ _

theorem applyLoop_noAssertion (turns : Nat) (proxied : Nat → ProxiedModel D)
    {p : GdaDataProxy D} (h : ChangesWellFormed p.modifs) :
    NoCommitAssertion (applyLoop turns proxied p) := by
  induction turns generalizing proxied p with
  | zero => exact avoids_ok _
  | succ turns ih =>
    unfold applyLoop
    split
    case h_1 => exact avoids_ok _
    case h_2 ptr rest hall =>
      have hm : ptr ∈ p.modifs.allModifs := by simp [hall]
      refine (commitRowModif_noAssertion (h.of_mem hm) _ _).bind fun r hr => ?_
      obtain ⟨q, allok⟩ := r
      have hedits : Edits wellFormedRules p.modifs q.modifs :=
        commitRowModif_edits trivial (Or.inl trivial) hr
      cases allok with
      | true => exact ih _ (h.edits hedits)
      | false => exact avoids_ok _

theorem applyAllChanges_noAssertion {p : GdaDataProxy D} (h : ChangesWellFormed p.modifs)
    (proxied : Nat → ProxiedModel D) : NoCommitAssertion (p.applyAllChanges proxied) := by
  rw [← ensureChunkSync_modifs p] at h
  refine (applyLoop_noAssertion _ proxied h).bind fun r _ => ?_
  exact (adjustDisplayedChunk_noAssertion _).bind fun _ _ => avoids_ok _

variable [ContentsCompare D]

theorem changesWellFormed_step {p q : GdaDataProxy D} {act : Act D}
    (h : ChangesWellFormed p.modifs) (hm : p.StepMeets wellFormedRules act)
    (hs : p.step act = .ok q) : ChangesWellFormed q.modifs :=
  h.edits (step_edits trivial wellFormedRules_form hm hs)

/-- Unless a change is created without content, for no row or for a model without columns, the
changes are committable and no assertion fails when they are applied. -/
theorem committable_run {model : GdaDataModel D} {acts : List (Act D)} {p q : GdaDataProxy D}
    (hnew : new model = .ok p) (hmeets : StepsMeet step (StepMeets wellFormedRules) p acts)
    (hrun : run step p acts = .ok q) :
    (∀ ptr ∈ q.modifs.allModifs, Committable (q.modifs.memory ptr)) ∧
      (∀ proxied proxyRow, NoCommitAssertion (q.applyRowChanges proxied proxyRow)) ∧
      ∀ proxied, NoCommitAssertion (q.applyAllChanges proxied) := by
  have hinit : ChangesWellFormed p.modifs := by
    rw [new_modifs hnew]
    exact ⟨linked_empty, fun ptr hp => by cases hp⟩
  have hlast : ChangesWellFormed q.modifs :=
    run_invariant (fun _ _ _ => changesWellFormed_step) hinit hmeets hrun
  exact ⟨fun ptr hm => (hlast.of_mem hm).toCommittable, applyRowChanges_noAssertion hlast,
    applyAllChanges_noAssertion hlast⟩

theorem editedRow_committable : ∃ p q, new threeRows = .ok p ∧
    run step p [.delete 2, .alterValueAttributes 1 0 { isDefault := true }] = .ok q ∧
      (∀ ptr ∈ q.modifs.allModifs, Committable (q.modifs.memory ptr)) ∧
      (∀ proxied proxyRow, NoCommitAssertion (q.applyRowChanges proxied proxyRow)) ∧
      ∀ proxied, NoCommitAssertion (q.applyAllChanges proxied) := by
  obtain ⟨p, hp⟩ : ∃ p, new threeRows = .ok p := ⟨_, rfl⟩
  obtain ⟨q, hq⟩ : ∃ q, run step p
      [.delete 2, .alterValueAttributes 1 0 { isDefault := true }] = .ok q := by
    obtain rfl := Except.ok.inj hp
    exact ⟨_, rfl⟩
  refine ⟨p, q, hp, hq, committable_run hp ?_ hq⟩
  refine ⟨fun _ => ⟨Or.inr ?_, Or.inr ?_⟩, fun r _ => ⟨Or.inr fun hblank => ?_, fun _ _ => trivial⟩⟩
  · obtain rfl := Except.ok.inj hp
    decide
  · obtain rfl := Except.ok.inj hp
    decide
  · cases hblank.2.2.2.1

def acceptAll : ProxiedModel Int where
  removeRow model _ := { result := true, model := model }
  setValues model _ _ := { result := true, model := model }
  appendValues model _ := { result := 0, model := model }

/-- An alteration without any flag creates a change without any value, and applying
the changes fails in an assertion. -/
theorem blankChange_not_committable : ¬ ∀ (model : GdaDataModel Int) (acts : List (Act Int))
    (p q : GdaDataProxy Int), new model = .ok p → run step p acts = .ok q →
      (∀ ptr ∈ q.modifs.allModifs, Committable (q.modifs.memory ptr)) ∧
      (∀ proxied proxyRow, NoCommitAssertion (q.applyRowChanges proxied proxyRow)) ∧
      ∀ proxied, NoCommitAssertion (q.applyAllChanges proxied) := by
  intro h
  have happly := (h threeRows [.alterValueAttributes 0 0 {}] _ _ rfl rfl).2.2 fun _ => acceptAll
  exact happly .commitUpdateModifyValues rfl rfl

end GdaDataProxy

end LibGda
