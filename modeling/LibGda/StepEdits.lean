import LibGda.OperationEdits

/-! Every step of the proxy is a sequence of edits of its registries. -/

namespace LibGda

open RunInvariant

variable {D : Type}

theorem Edits.refl {rules : EditRules D} (rs : RowModifs D) : Edits rules rs rs :=
  Relation.ReflTransGen.refl

structure FormRules [ContentsCompare D] (rules : EditRules D) : Prop where
  written : ∀ (p : GdaDataProxy D) (col : Int) (value : GValue D) (isOrig : Bool)
    (rm : RowModif D) (values : List (RowValue D)),
    values = p.putValue rm (findRowValue col rm.modifyValues) col value isOrig →
    (rm.toBeDeleted = true ∨ values ≠ [] ∨ rm.modelRow < 0) → rules.form rm →
    rules.form (withValues values rm)
  created : ∀ (p : GdaDataProxy D) (proxyRow col : Int) (value : GValue D), 0 ≤ proxyRow →
    0 ≤ p.proxyRowToModelRow proxyRow → 0 ≤ col ∧ col < p.modelNbCols →
    rules.form (withValues
      [GdaDataProxy.storeValue col value { p.columnAttrs col with hasValueOrig := true }]
      (p.createdFor proxyRow))
  defaulted : ∀ (p : GdaDataProxy D) (col modelCol : Int) (rm : RowModif D), rules.form rm →
    rules.form (withValues
      (p.putDefault rm (findRowValue modelCol rm.modifyValues) col modelCol) rm)
  createdDefault : ∀ (p : GdaDataProxy D) (proxyRow col modelCol : Int), 0 ≤ proxyRow →
    0 ≤ p.proxyRowToModelRow proxyRow → p.modelNbCols ≠ 0 →
    rules.form (withValues (p.putDefault (p.createdFor proxyRow) none col modelCol)
      (p.createdFor proxyRow))
  createdBlank : ∀ (p : GdaDataProxy D) (proxyRow : Int), rules.blank →
    rules.form (p.createdFor proxyRow)
  marked : ∀ rm : RowModif D, rm.modelRow ≠ -1 → rules.form rm →
    rules.form { rm with toBeDeleted := true }
  createdDeleted : ∀ (p : GdaDataProxy D) (proxyRow : Int), 0 ≤ proxyRow →
    rules.stray ∨ 0 ≤ p.proxyRowToModelRow proxyRow → rules.blank ∨ p.modelNbCols ≠ 0 →
    rules.form { p.createdFor proxyRow with toBeDeleted := true }
  unmarked : ∀ rm : RowModif D, rm.modifyValues ≠ [] → rules.form rm →
    rules.form { rm with toBeDeleted := false }
  cancelled : ∀ (col : Int) (rm : RowModif D),
    (GdaDataProxy.cancelValues col rm.modifyValues ≠ [] ∨ rm.toBeDeleted = true) → rules.form rm →
    rules.form (withValues (GdaDataProxy.cancelValues col rm.modifyValues) rm)
  newRow : ∀ p : GdaDataProxy D, rules.blank ∨ p.modelNbCols ≠ 0 → rules.form p.newRowModif

namespace GdaDataProxy

variable [ContentsCompare D] {rules : EditRules D}

theorem ValueWritten.edits {p : GdaDataProxy D} {col proxyRow : Int} {value : GValue D}
    {isOrig : Bool} {modifs : RowModifs D} (hf : FormRules rules) (hpos : 0 ≤ proxyRow)
    (hcol : modifs = p.modifs ∨ 0 ≤ col ∧ col < p.modelNbCols)
    (h : p.ValueWritten col proxyRow value isOrig modifs) : Edits rules p.modifs modifs := by
  rcases hcol with rfl | hcol
  · exact .refl _
  cases h with
  | unchanged => exact .refl _
  | written hptr hreach hvalues hkept =>
    exact (Edit.write rfl fun h => hf.written p col value isOrig _ _ hvalues hkept h).edits
  | dropped hptr hreach h0 hdel hvalues =>
    exact (Edit.dropModified rfl hreach (Or.inr (Or.inl ⟨h0, rfl⟩))).edits
  | created hptr h0 hfree =>
    exact (Edit.create rfl (fun _ => hfree) (Or.inr h0)
      (hf.created p proxyRow col value hpos h0 hcol)).edits

theorem setValue_edits {p q : GdaDataProxy D} {col proxyRow : Int} {value : GValue D}
    {isOrig b : Bool} (hf : FormRules rules) (hpos : 0 ≤ proxyRow)
    (h : p.setValue col proxyRow value isOrig = .ok (q, b)) : Edits rules p.modifs q.modifs := by
  obtain ⟨modifs, error, emitted, hw, hcol, rfl⟩ := setValue_ok h
  rw [← ensureChunkSync_modifs p] at hcol ⊢
  exact hw.edits hf hpos hcol

theorem setValueAt_edits {p q : GdaDataProxy D} {col proxyRow : Int} {value : Option (GValue D)}
    {b : Bool} (hf : FormRules rules) (h : p.setValueAt col proxyRow value = .ok (q, b)) :
    Edits rules p.modifs q.modifs := by
  unfold setValueAt at h
  split at h
  case isTrue =>
    obtain ⟨rfl, -⟩ := pair_ok h
    exact .refl _
  case isFalse hpos =>
    cases value with
    | none =>
      obtain ⟨rfl, -⟩ := pair_ok h
      exact .refl _
    | some value => exact setValue_edits hf (by omega) h

theorem setValuesLoop_edits {p q : GdaDataProxy D} {row : Int} {col last : Nat} {b : Bool}
    {values : List (Option (GValue D))} (hf : FormRules rules)
    (h : p.setValuesLoop row col values = .ok (q, b, last)) : Edits rules p.modifs q.modifs := by
  induction values generalizing p col with
  | nil =>
    obtain ⟨rfl, -⟩ := pair_ok h
    exact .refl _
  | cons value rest ih =>
    cases value with
    | none => exact ih h
    | some value =>
      obtain ⟨⟨r, ok⟩, hr, h⟩ := bind_ok h
      have hstep := setValueAt_edits hf hr
      cases ok with
      | true => exact hstep.trans (ih h)
      | false =>
        obtain ⟨rfl, -⟩ := pair_ok h
        exact hstep

theorem setValues_edits {p q : GdaDataProxy D} {row : Int} {values : List (Option (GValue D))}
    {b : Bool} (hf : FormRules rules) (h : p.setValues row values = .ok (q, b)) :
    Edits rules p.modifs q.modifs := by
  unfold setValues at h
  split at h
  · obtain ⟨rfl, -⟩ := pair_ok h
    exact .refl _
  · split at h
    · obtain ⟨rfl, -⟩ := pair_ok h
      exact .refl _
    · split at h
      · obtain ⟨rfl, -⟩ := pair_ok h
        exact .refl _
      · obtain ⟨⟨r, ok, col⟩, hr, h⟩ := bind_ok h
        obtain ⟨rfl, -⟩ := pair_ok h
        have hloop := setValuesLoop_edits hf hr
        split <;> exact hloop

def BlankAlter (p : GdaDataProxy D) (proxyRow col : Int) (alterFlags : GdaValueAttribute) : Prop :=
  let modelCol := col.tmod p.modelNbCols
  0 ≤ proxyRow ∧ p.modelNbCols ≠ 0 ∧ alterFlags.isNull = false ∧ alterFlags.isDefault = false ∧
    p.proxyRowToRowModif proxyRow = none ∧ 0 ≤ p.proxyRowToModelRow proxyRow ∧
    ¬ (alterFlags.isUnchanged = true ∧ p.chunkSyncIdleId = false ∧
      ¬ (proxyRow = 0 ∧ p.addNullEntry = true) ∧ 0 ≤ modelCol ∧
      ∃ value, p.model.getValueAt modelCol (p.proxyRowToModelRow proxyRow) = some value ∧
        gdaValueCompare value value ≠ 0)

theorem alterValueAttributes_ok {p q : GdaDataProxy D} {proxyRow col : Int}
    {alterFlags : GdaValueAttribute} (h : p.alterValueAttributes proxyRow col alterFlags = .ok q) :
    q = p ∨ (0 ≤ proxyRow ∧ p.modelNbCols ≠ 0 ∧ alterFlags.isNull = false ∧ ∃ r ptr rv,
      p.findOrCreateRowModif proxyRow (col.tmod p.modelNbCols) = .ok (r, ptr, rv) ∧
      ∃ s, s = (if alterFlags.isDefault then
          r.writeDefault ptr rv col (col.tmod p.modelNbCols) proxyRow else r) ∧
        ((q = s ∧ (alterFlags.isUnchanged = true →
            s.origValue ptr (col.tmod p.modelNbCols) = none)) ∨
          ∃ value b, alterFlags.isUnchanged = true ∧
            s.origValue ptr (col.tmod p.modelNbCols) = some value ∧
            s.setValue (col.tmod p.modelNbCols) proxyRow value true = .ok (q, b))) := by
  unfold alterValueAttributes at h
  split at h
  case isTrue => exact Or.inl (Except.ok.inj h).symm
  case isFalse hpos =>
    split at h
    case isTrue => cases h
    case isFalse hcols =>
      simp only at h
      split at h
      case isTrue hnull =>
        obtain ⟨⟨r, b⟩, hr, h⟩ := bind_ok h
        obtain rfl := Except.ok.inj h
        unfold setValueAt at hr
        simp only [hpos, if_false] at hr
        exact Or.inl (pair_ok hr).1.symm
      case isFalse hnull =>
        obtain ⟨⟨r, ptr, rv⟩, hr, h⟩ := bind_ok h
        refine Or.inr ⟨by omega, hcols, by simpa using hnull, r, ptr, rv, hr, _, rfl, ?_⟩
        split at h
        case h_1 hnone =>
          refine Or.inl ⟨(Except.ok.inj h).symm, fun hu => ?_⟩
          rw [if_pos hu] at hnone
          exact hnone
        case h_2 value hsome =>
          obtain ⟨⟨s, b⟩, hs, h⟩ := bind_ok h
          obtain rfl := Except.ok.inj h
          by_cases hu : alterFlags.isUnchanged = true
          · rw [if_pos hu] at hsome
            exact Or.inr ⟨value, b, hu, hsome, hs⟩
          · rw [if_neg hu] at hsome
            cases hsome

theorem setValue_created {p q : GdaDataProxy D} {proxyRow col : Int} {value : GValue D} {b : Bool}
    (hpos : 0 ≤ proxyRow) (h0 : 0 ≤ p.proxyRowToModelRow proxyRow) (hidle : p.chunkSyncIdleId = false)
    (hnull : ¬ (proxyRow = 0 ∧ p.addNullEntry = true)) (hcol : 0 ≤ col ∧ col < p.modelNbCols)
    (hvalue : p.model.getValueAt col (p.proxyRowToModelRow proxyRow) = some value)
    (hne : gdaValueCompare value value ≠ 0)
    (h : (p.withCreated proxyRow).setValue col proxyRow value true = .ok (q, b)) :
    q.modifs = p.modifs.addModified (p.proxyRowToModelRow proxyRow)
      (withValues [storeValue col value { p.columnAttrs col with hasValueOrig := true }]
        (p.createdFor proxyRow)) := by
  obtain ⟨hfound, hrow⟩ := proxyRowToRowModif_created h0
  have hmem : (p.withCreated proxyRow).modifs.memory p.modifs.nextPtr = p.createdFor proxyRow :=
    RowModifs.addModified_memory_self _ _ _
  have hneg : ¬ proxyRow < 0 := by omega
  have hget : (p.withCreated proxyRow).getValueAt col proxyRow = .ok value := by
    have hnull' : ¬ (proxyRow = 0 ∧ (p.withCreated proxyRow).addNullEntry = true) := hnull
    have hcol' : col < (p.withCreated proxyRow).modelNbCols := hcol.2
    have hmodel : (p.withCreated proxyRow).model.getValueAt col (p.proxyRowToModelRow proxyRow) =
        some value := hvalue
    simp [getValueAt, hneg, hnull', hcol', hfound, hrow, hmem, findRowValue, h0, hmodel]
  unfold setValue at h
  rw [ensureChunkSync_of_not_scheduled (by exact hidle)] at h
  generalize hr : p.withCreated proxyRow = r at h hfound hrow hmem hget
  have hnull' : ¬ (proxyRow = 0 ∧ r.addNullEntry = true) := by rw [← hr]; exact hnull
  have hcol' : 0 ≤ col ∧ col < r.modelNbCols := by rw [← hr]; exact hcol
  have hcheck : ({ r with error := r.readError col proxyRow } : GdaDataProxy D).checkValue col
      proxyRow value = .accepted := by
    have hget' : ({ r with error := r.readError col proxyRow } : GdaDataProxy D).getValueAt col
        proxyRow = .ok value := hget
    unfold checkValue
    simp [hget', hne]
  simp only [hnull', hcol', and_self, if_true, if_false, hcheck] at h
  obtain ⟨⟨s, ptr, rv⟩, hs, h⟩ := bind_ok h
  obtain ⟨rfl, -⟩ := pair_ok h
  rcases findOrCreateRowModif_ok hs with ⟨hptr', rfl, -, rfl⟩ | ⟨hptr', -⟩
  · have hptr'' : some p.modifs.nextPtr = some ptr := hfound.symm.trans hptr'
    obtain rfl := Option.some.inj hptr''
    have hwrite : ({ r with error := r.readError col proxyRow } : GdaDataProxy D).writeValue
        p.modifs.nextPtr (findRowValue col (r.modifs.memory p.modifs.nextPtr).modifyValues) col
          value true = r.writeValue p.modifs.nextPtr none col value true := by
      rw [hmem, createdFor_modifyValues]
      rfl
    have hcreated : (p.withCreated proxyRow).writeValue _ none col value true = _ :=
      writeValue_withCreated h0
    rw [hr] at hcreated
    exact hwrite.trans hcreated
  · have hptr'' : some p.modifs.nextPtr = none := hfound.symm.trans hptr'
    cases hptr''

theorem alterCreated_edits {p : GdaDataProxy D} {proxyRow col : Int} {isDefault : Bool}
    (hf : FormRules rules) (hpos : 0 ≤ proxyRow) (hcols : p.modelNbCols ≠ 0)
    (h0 : 0 ≤ p.proxyRowToModelRow proxyRow)
    (hfree : p.modifs.modifyRows (p.proxyRowToModelRow proxyRow) = none)
    (hblank : isDefault = true ∨ rules.blank) :
    Edits rules p.modifs (if isDefault then (p.withCreated proxyRow).writeDefault p.modifs.nextPtr
      none col (col.tmod p.modelNbCols) proxyRow else p.withCreated proxyRow).modifs := by
  cases isDefault with
  | true =>
    have hmem : (p.withCreated proxyRow).modifs.memory p.modifs.nextPtr = p.createdFor proxyRow :=
      RowModifs.addModified_memory_self _ _ _
    have hform := hf.createdDefault p proxyRow col (col.tmod p.modelNbCols) hpos h0 hcols
    have hcreate := (Edit.create rfl (fun _ => hfree) (Or.inr h0) hform).edits
    rw [if_pos rfl, writeDefault_modifs, hmem]
    simp only [withCreated]
    rw [RowModifs.addModified_update]
    exact hcreate
  | false =>
    have hb : rules.blank := by simpa using hblank
    exact (Edit.create rfl (fun _ => hfree) (Or.inr h0) (hf.createdBlank p proxyRow hb)).edits

theorem alterValueAttributes_edits {p q : GdaDataProxy D} {proxyRow col : Int}
    {alterFlags : GdaValueAttribute} (hf : FormRules rules)
    (hblank : rules.blank ∨ ¬ p.BlankAlter proxyRow col alterFlags)
    (h : p.alterValueAttributes proxyRow col alterFlags = .ok q) :
    Edits rules p.modifs q.modifs := by
  rcases alterValueAttributes_ok h with
    rfl | ⟨hpos, hcols, hnull, r, ptr, rv, hr, s, hs, hq⟩
  · exact .refl _
  -- what follows the writing of the original value, whatever comes before
  have hend : Edits rules p.modifs s.modifs → Edits rules p.modifs q.modifs := fun hedits => by
    rcases hq with ⟨rfl, -⟩ | ⟨value, b, -, -, hset⟩
    · exact hedits
    · exact hedits.trans (setValue_edits hf hpos hset)
  rcases findOrCreateRowModif_ok hr with
    ⟨hptr, rfl, hreach, rfl⟩ | ⟨hptr, h0, hfree, rfl, rfl, rfl⟩
  · refine hend ?_
    subst hs
    split
    · rw [writeDefault_modifs]
      exact (Edit.write rfl fun h => hf.defaulted _ _ _ _ h).edits
    · exact .refl _
  · by_cases hd : alterFlags.isDefault = true ∨ rules.blank
    · exact hend (hs ▸ alterCreated_edits hf hpos hcols h0 hfree hd)
    · obtain ⟨hd, hb⟩ := not_or.1 hd
      have hd : alterFlags.isDefault = false := by simpa using hd
      have hnot := hblank.resolve_left hb
      simp only [BlankAlter, hpos, hcols, hnull, hd, hptr, h0, ne_eq, not_false_iff, true_and,
        not_not] at hnot
      obtain ⟨hunch, hidle, hrow, hc0, value, hvalue, hne⟩ := hnot
      have hcol : 0 ≤ col.tmod p.modelNbCols ∧ col.tmod p.modelNbCols < p.modelNbCols :=
        ⟨hc0, Int.tmod_lt_of_pos _ (Int.natCast_pos.2 (Nat.pos_of_ne_zero hcols))⟩
      simp only [hd, Bool.false_eq_true, if_false] at hs
      subst hs
      have horig := (origValue_created hpos h0 hcol).trans hvalue
      rcases hq with ⟨-, hno⟩ | ⟨value', b, -, hsome, hset⟩
      · rw [hno hunch] at horig
        cases horig
      · rw [horig] at hsome
        obtain rfl := Option.some.inj hsome
        rw [setValue_created hpos h0 hidle hrow hcol hvalue hne hset]
        exact (Edit.create rfl (fun _ => hfree) (Or.inr h0)
          (hf.created p proxyRow _ value hpos h0 hcol)).edits

/-- `delete` finds no change of the row and creates one. -/
def DeleteCreates (p : GdaDataProxy D) (proxyRow : Int) : Prop :=
  0 ≤ proxyRow ∧ ¬ (p.addNullEntry = true ∧ proxyRow = 0) ∧ p.model.accessDelete = true ∧
    p.ensureChunkSync.proxyRowToRowModif proxyRow = none

/-- The change that `delete` creates is that of a row of the model, and has a
place for original values. -/
def DeleteMeets (rules : EditRules D) (p : GdaDataProxy D) (proxyRow : Int) : Prop :=
  p.DeleteCreates proxyRow →
    (rules.stray ∨ 0 ≤ p.ensureChunkSync.proxyRowToModelRow proxyRow) ∧
      (rules.blank ∨ p.modelNbCols ≠ 0)

/-- The change without values that `undelete` drops is that of a row of the model. -/
def UndeleteMeets (rules : EditRules D) (p : GdaDataProxy D) (proxyRow : Int) : Prop :=
  rules.orphan ∨ ∀ ptr, 0 ≤ proxyRow → p.ensureChunkSync.proxyRowToRowModif proxyRow = some ptr →
    (p.modifs.memory ptr).modifyValues = [] → 0 ≤ p.ensureChunkSync.proxyRowToModelRow proxyRow

/-- The row that `append` creates has columns. -/
def AppendMeets (rules : EditRules D) (p : GdaDataProxy D) : Prop :=
  p.model.accessInsert = true → p.modelNbRows ≠ -1 → rules.blank ∨ p.modelNbCols ≠ 0

theorem delete_edits {p : GdaDataProxy D} {proxyRow : Int} (hf : FormRules rules)
    (hmeets : p.DeleteMeets rules proxyRow) : Edits rules p.modifs (p.delete proxyRow).modifs := by
  rcases p.delete_eq proxyRow with ⟨-, he⟩ | ⟨hpos, chunk, modifs, emitted, hd, he⟩
  · rw [he]
    exact .refl _
  · rw [he]
    unfold DeleteMeets DeleteCreates at hmeets
    have hsame := p.redisplayed_ensureChunkSync
    rw [← ensureChunkSync_modifs p]
    generalize p.ensureChunkSync = q at hd hmeets hsame ⊢
    obtain ⟨_, _, _, _, _, _, _, _, rfl⟩ := hsame
    cases hd with
    | unchanged => exact .refl _
    | newRow hptr hreach hrow =>
      exact (Edit.dropNew hreach (by rw [hrow]; omega)).edits
    | marked hptr hreach hrow => exact (Edit.write (f := fun rm => { rm with toBeDeleted := true }) rfl
        (hf.marked _ hrow)).edits
    | created hptr hfree hrow haccess =>
      obtain ⟨hstray, hblank⟩ := hmeets ⟨hpos, hrow, haccess, hptr⟩
      exact (Edit.create rfl hfree hstray (hf.createdDeleted _ proxyRow hpos hstray hblank)).edits

theorem removeRow_edits {p : GdaDataProxy D} {row : Int} (hf : FormRules rules)
    (hmeets : p.DeleteMeets rules row) : Edits rules p.modifs (p.removeRow row).1.modifs := by
  unfold removeRow
  split
  · exact .refl _
  · exact delete_edits hf hmeets

theorem undelete_edits {p : GdaDataProxy D} {proxyRow : Int} (hf : FormRules rules)
    (hmeets : p.UndeleteMeets rules proxyRow) :
    Edits rules p.modifs (p.undelete proxyRow).modifs := by
  rcases p.undelete_eq proxyRow with ⟨-, he⟩ | ⟨hpos, modifs, emitted, hu, he⟩
  · rw [he]
    exact .refl _
  · rw [he]
    unfold UndeleteMeets at hmeets
    rw [← ensureChunkSync_modifs p] at hmeets ⊢
    generalize p.ensureChunkSync = q at hu hmeets ⊢
    cases hu with
    | unchanged => exact .refl _
    | unmarked hptr hreach hvalues => exact (Edit.write (f := fun rm => { rm with toBeDeleted := false }) rfl
        (hf.unmarked _ hvalues)).edits
    | dropped hptr hreach hvalues =>
      refine (Edit.dropModified rfl hreach ?_).edits
      rcases hmeets with horphan | hrow
      · exact Or.inr (Or.inr horphan)
      · have h0 := hrow _ hpos hptr hvalues
        exact Or.inl ⟨h0, modified_of_modelRow hptr h0⟩

theorem cancelRowChanges_edits {p : GdaDataProxy D} {proxyRow col : Int} (hf : FormRules rules) :
    Edits rules p.modifs (p.cancelRowChanges proxyRow col).modifs := by
  rcases p.cancelRowChanges_eq proxyRow col with ⟨-, he⟩ | ⟨-, chunk, modifs, emitted, hc, he⟩
  · rw [he]
    exact .refl _
  · rw [he, ← ensureChunkSync_modifs p]
    generalize p.ensureChunkSync = q at hc ⊢
    cases hc with
    | unchanged => exact .refl _
    | newRow hptr hreach hrow => exact (Edit.dropNew hreach hrow).edits
    | dropped hptr hreach hrow =>
      exact (Edit.dropModified rfl hreach (Or.inr (Or.inl ⟨hrow, rfl⟩))).edits
    | kept hptr hreach hvalues =>
      exact (Edit.write rfl (hf.cancelled col _ hvalues)).edits

theorem append_edits {p : GdaDataProxy D} (hf : FormRules rules) (hmeets : p.AppendMeets rules) :
    Edits rules p.modifs p.append.1.modifs := by
  rcases p.append_eq with ⟨he, -⟩ | ⟨haccess, hrows, emitted, he⟩
  · rw [he, ensureChunkSync_modifs]
    exact .refl _
  · rw [he]
    have hsame := p.redisplayed_ensureChunkSync
    unfold AppendMeets at hmeets
    generalize p.ensureChunkSync = q at haccess hrows hsame ⊢
    obtain ⟨_, _, _, _, _, _, _, _, rfl⟩ := hsame
    exact (Edit.createNew rfl (hf.newRow _ (hmeets haccess hrows))).edits

/-- `append_values` removes the row again when it does not accept a value. -/
def AppendValuesMeets (rules : EditRules D) (p : GdaDataProxy D)
    (values : List (Option (GValue D))) : Prop :=
  p.AppendMeets rules ∧ ∀ q newRow, p.appendWithValues values = .ok (q, false, newRow) →
    q.DeleteMeets rules newRow

theorem appendWithValues_edits {p q : GdaDataProxy D} {values : List (Option (GValue D))}
    {ok : Bool} {row : Int} (hf : FormRules rules) (hmeets : p.AppendMeets rules)
    (h : p.appendWithValues values = .ok (q, ok, row)) : Edits rules p.modifs q.modifs := by
  obtain ⟨⟨r, b⟩, hr, h⟩ := bind_ok h
  obtain ⟨rfl, -⟩ := pair_ok h
  refine Relation.ReflTransGen.trans ?_ (setValues_edits hf hr)
  obtain ⟨_, _, _, _, _, _, _, _, he⟩ := p.redisplayed_ensureChunkSync
  have hm : ({ p.ensureChunkSync with notifyChanges := false } :
      GdaDataProxy D).AppendMeets rules := by
    rw [he]
    exact hmeets
  have happend := append_edits hf hm
  rw [he] at happend ⊢
  exact happend

theorem appendValues_edits {p q : GdaDataProxy D} {values : List (Option (GValue D))} {row : Int}
    (hf : FormRules rules) (hmeets : p.AppendValuesMeets rules values)
    (h : p.appendValues values = .ok (q, row)) : Edits rules p.modifs q.modifs := by
  obtain ⟨⟨r, ok, newRow⟩, hr, h⟩ := bind_ok h
  have htrial := appendWithValues_edits hf hmeets.1 hr
  cases ok with
  | true =>
    obtain ⟨rfl, -⟩ := pair_ok h
    exact htrial
  | false =>
    obtain ⟨rfl, -⟩ := pair_ok h
    exact htrial.trans (removeRow_edits hf (hmeets.2 r newRow hr))

end GdaDataProxy

end LibGda
