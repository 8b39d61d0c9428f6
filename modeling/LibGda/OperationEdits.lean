import LibGda.DisplayFrame
import LibGda.RegistryEdits

/-! The operations on single rows, as edits of the registries. -/

namespace LibGda

open RunInvariant

variable {D : Type}

namespace RowModifs

theorem addModified_update (rs : RowModifs D) (key : Int) (rm : RowModif D)
    (f : RowModif D → RowModif D) :
    (rs.addModified key rm).update rs.nextPtr f = rs.addModified key (f rm) := by
  have hmem : ((rs.addModified key rm).update rs.nextPtr f).memory =
      (rs.addModified key (f rm)).memory := by
    funext ptr
    by_cases hp : ptr = rs.nextPtr <;> simp [addModified, prepend, update, hp]
  simp only [update, addModified, prepend] at hmem ⊢
  rw [hmem]

@[simp] theorem addModified_memory_self (rs : RowModifs D) (key : Int) (rm : RowModif D) :
    (rs.addModified key rm).memory rs.nextPtr = rm := by
  simp [addModified, prepend]

end RowModifs

/-- The values that `set_value_at` writes to a change. -/
def withValues (values : List (RowValue D)) (rm : RowModif D) : RowModif D :=
  { rm with modifyValues := values }

namespace GdaDataProxy

theorem reached_of_absoluteRow {p : GdaDataProxy D} {absRow modelRow : Int} {ptr : RowModifPtr}
    (h : p.absoluteRowToModelRow absRow = (modelRow, some ptr)) : p.modifs.Reached ptr := by
  unfold absoluteRowToModelRow at h
  split at h
  · cases h
  · split at h
    · exact Or.inl ⟨absRow, by omega, (Prod.mk.inj h).2⟩
    · exact Or.inr (List.mem_of_getElem? (Prod.mk.inj h).2)

theorem free_of_absoluteRow {p : GdaDataProxy D} {absRow modelRow : Int}
    (h : p.absoluteRowToModelRow absRow = (modelRow, none)) (h0 : 0 ≤ modelRow) :
    p.modifs.modifyRows modelRow = none := by
  unfold absoluteRowToModelRow at h
  split at h
  · obtain ⟨rfl, -⟩ := Prod.mk.inj h
    omega
  · split at h
    · obtain ⟨rfl, hm⟩ := Prod.mk.inj h
      exact hm
    · obtain ⟨rfl, -⟩ := Prod.mk.inj h
      omega

theorem modified_of_modelRow {p : GdaDataProxy D} {proxyRow : Int} {ptr : RowModifPtr}
    (h : p.proxyRowToRowModif proxyRow = some ptr) (h0 : 0 ≤ p.proxyRowToModelRow proxyRow) :
    p.modifs.modifyRows (p.proxyRowToModelRow proxyRow) = some ptr := by
  unfold proxyRowToRowModif at h
  unfold proxyRowToModelRow at h0 ⊢
  unfold absoluteRowToModelRow at h h0 ⊢
  split at h
  · cases h
  · split at h
    case isTrue hneg hin =>
      simp only [hneg, hin, if_true, if_false]
      exact h
    case isFalse hneg hin => simp [hneg, hin] at h0

def createdFor (p : GdaDataProxy D) (proxyRow : Int) : RowModif D :=
  { p.rowModifsNew proxyRow with modelRow := p.proxyRowToModelRow proxyRow }

def withCreated (p : GdaDataProxy D) (proxyRow : Int) : GdaDataProxy D :=
  { p with
    modifs := p.modifs.addModified (p.proxyRowToModelRow proxyRow) (p.createdFor proxyRow) }

@[simp] theorem createdFor_modifyValues (p : GdaDataProxy D) (proxyRow : Int) :
    (p.createdFor proxyRow).modifyValues = [] := by
  unfold createdFor rowModifsNew
  split <;> rfl

theorem createdFor_orig {p : GdaDataProxy D} {proxyRow : Int} (hpos : 0 ≤ proxyRow)
    (h0 : 0 ≤ p.proxyRowToModelRow proxyRow) : (p.createdFor proxyRow).origValues =
      if p.modelNbCols = 0 then none
      else some ((List.range p.modelNbCols).map fun (i : Nat) =>
        p.model.getValueAt i (p.proxyRowToModelRow proxyRow)) := by
  unfold createdFor rowModifsNew
  simp only [hpos, if_true, h0]

theorem proxyRowToRowModif_created {p : GdaDataProxy D} {proxyRow : Int}
    (h0 : 0 ≤ p.proxyRowToModelRow proxyRow) :
    (p.withCreated proxyRow).proxyRowToRowModif proxyRow = some p.modifs.nextPtr ∧
      (p.withCreated proxyRow).proxyRowToModelRow proxyRow = p.proxyRowToModelRow proxyRow := by
  have habs : (p.withCreated proxyRow).proxyRowToAbsoluteRow proxyRow =
      p.proxyRowToAbsoluteRow proxyRow := rfl
  unfold proxyRowToRowModif
  unfold proxyRowToModelRow at h0 ⊢
  rw [habs]
  have hmodifs : (p.withCreated proxyRow).modifs.modifyRows =
    hashInsert p.modifs.modifyRows (p.proxyRowToModelRow proxyRow) p.modifs.nextPtr := rfl
  unfold proxyRowToModelRow at hmodifs
  generalize p.proxyRowToAbsoluteRow proxyRow = absRow at h0 hmodifs ⊢
  have hrows : (p.withCreated proxyRow).modelNbRows = p.modelNbRows := rfl
  unfold absoluteRowToModelRow at h0 hmodifs ⊢
  by_cases hneg : absRow < 0
  · simp [hneg] at h0
  · by_cases hin : absRow < p.modelNbRows ∨ p.modelNbRows < 0
    · simp only [hneg, hin, if_true, if_false] at hmodifs
      simp [hneg, hin, hrows, hmodifs, hashInsert]
    · simp [hneg, hin] at h0

theorem findOrCreateRowModif_ok {p q : GdaDataProxy D} {proxyRow col : Int} {ptr : RowModifPtr}
    {rv : Option (RowValue D)} (h : p.findOrCreateRowModif proxyRow col = .ok (q, ptr, rv)) :
    (p.proxyRowToRowModif proxyRow = some ptr ∧ q = p ∧ p.modifs.Reached ptr ∧
      rv = findRowValue col (p.modifs.memory ptr).modifyValues) ∨
    (p.proxyRowToRowModif proxyRow = none ∧ 0 ≤ p.proxyRowToModelRow proxyRow ∧
      p.modifs.modifyRows (p.proxyRowToModelRow proxyRow) = none ∧ ptr = p.modifs.nextPtr ∧
      rv = none ∧ q = p.withCreated proxyRow) := by
  unfold findOrCreateRowModif at h
  cases hrow : p.absoluteRowToModelRow (p.proxyRowToAbsoluteRow proxyRow) with
  | mk modelRow found =>
    have hmodel : p.proxyRowToModelRow proxyRow = modelRow := by simp [proxyRowToModelRow, hrow]
    rw [hrow] at h
    cases found with
    | some rm =>
      obtain ⟨rfl, he⟩ := pair_ok h
      obtain ⟨rfl, rfl⟩ := Prod.mk.inj he
      exact Or.inl ⟨by simp [proxyRowToRowModif, hrow], rfl, reached_of_absoluteRow hrow, rfl⟩
    | none =>
      simp only at h
      split at h
      · cases h
      · obtain ⟨rfl, he⟩ := pair_ok h
        obtain ⟨rfl, rfl⟩ := Prod.mk.inj he
        rw [hmodel]
        refine Or.inr ⟨by simp [proxyRowToRowModif, hrow], by omega,
          free_of_absoluteRow hrow (by omega), rfl, rfl, ?_⟩
        rw [withCreated, createdFor, hmodel]

inductive ValueWritten [ContentsCompare D] (p : GdaDataProxy D) (col proxyRow : Int)
    (value : GValue D) (isOrig : Bool) : RowModifs D → Prop
  | unchanged : ValueWritten p col proxyRow value isOrig p.modifs
  | written {ptr : RowModifPtr} {values : List (RowValue D)}
      (hptr : p.proxyRowToRowModif proxyRow = some ptr) (hreach : p.modifs.Reached ptr)
      (hvalues : values = p.putValue (p.modifs.memory ptr)
        (findRowValue col (p.modifs.memory ptr).modifyValues) col value isOrig)
      (hkept : (p.modifs.memory ptr).toBeDeleted = true ∨ values ≠ [] ∨ p.modifs.modelRow ptr < 0) :
      ValueWritten p col proxyRow value isOrig (p.modifs.update ptr (withValues values))
  | dropped {ptr : RowModifPtr} (hptr : p.proxyRowToRowModif proxyRow = some ptr)
      (hreach : p.modifs.Reached ptr) (h0 : 0 ≤ p.modifs.modelRow ptr)
      (hdel : (p.modifs.memory ptr).toBeDeleted = false)
      (hvalues : p.putValue (p.modifs.memory ptr)
        (findRowValue col (p.modifs.memory ptr).modifyValues) col value isOrig = []) :
      ValueWritten p col proxyRow value isOrig
        (p.modifs.dropModified (p.modifs.modelRow ptr) ptr (withValues []))
  | created (hptr : p.proxyRowToRowModif proxyRow = none) (h0 : 0 ≤ p.proxyRowToModelRow proxyRow)
      (hfree : p.modifs.modifyRows (p.proxyRowToModelRow proxyRow) = none) :
      ValueWritten p col proxyRow value isOrig
        (p.modifs.addModified (p.proxyRowToModelRow proxyRow)
          (withValues [storeValue col value { p.columnAttrs col with hasValueOrig := true }]
            (p.createdFor proxyRow)))

theorem writeValue_written [ContentsCompare D] {p : GdaDataProxy D} {col proxyRow : Int}
    {value : GValue D} {isOrig : Bool} {ptr : RowModifPtr}
    (hptr : p.proxyRowToRowModif proxyRow = some ptr) (hreach : p.modifs.Reached ptr) :
    p.ValueWritten col proxyRow value isOrig (p.writeValue ptr
      (findRowValue col (p.modifs.memory ptr).modifyValues) col value isOrig) := by
  unfold writeValue
  simp only
  split
  case isTrue hdrop =>
    simp only [Bool.and_eq_true, Bool.not_eq_true', List.isEmpty_iff, decide_eq_true_eq] at hdrop
    obtain ⟨⟨hdel, hvalues⟩, h0⟩ := hdrop
    rw [hvalues]
    exact .dropped hptr hreach h0 hdel hvalues
  case isFalse hkeep =>
    refine .written hptr hreach rfl ?_
    simp only [Bool.and_eq_true, Bool.not_eq_true', List.isEmpty_iff, decide_eq_true_eq] at hkeep
    by_cases hdel : (p.modifs.memory ptr).toBeDeleted = true
    · exact Or.inl hdel
    · by_cases h0 : p.modifs.modelRow ptr < 0
      · exact Or.inr (Or.inr h0)
      · have h0' : 0 ≤ (p.modifs.memory ptr).modelRow := by
          have : ¬ (p.modifs.memory ptr).modelRow < 0 := h0
          omega
        exact Or.inr (Or.inl fun hv => hkeep ⟨⟨by simpa using hdel, hv⟩, h0'⟩)

theorem writeValue_withCreated [ContentsCompare D] {p : GdaDataProxy D} {col proxyRow : Int}
    {value : GValue D} {isOrig : Bool} (h0 : 0 ≤ p.proxyRowToModelRow proxyRow) :
    (p.withCreated proxyRow).writeValue p.modifs.nextPtr none col value isOrig =
      p.modifs.addModified (p.proxyRowToModelRow proxyRow)
        (withValues [storeValue col value { p.columnAttrs col with hasValueOrig := true }]
          (p.createdFor proxyRow)) := by
  rw [← RowModifs.addModified_update]
  have hrow : (p.createdFor proxyRow).modelRow = p.proxyRowToModelRow proxyRow := rfl
  simp only [withCreated, writeValue, RowModifs.addModified_memory_self, putValue,
    createdFor_modifyValues, hrow, h0, decide_true, List.isEmpty_cons, Bool.and_false,
    Bool.false_and, Bool.false_eq_true, if_false]
  rfl

theorem writeValue_created [ContentsCompare D] {p : GdaDataProxy D} {col proxyRow : Int}
    {value : GValue D} {isOrig : Bool} (hptr : p.proxyRowToRowModif proxyRow = none)
    (h0 : 0 ≤ p.proxyRowToModelRow proxyRow)
    (hfree : p.modifs.modifyRows (p.proxyRowToModelRow proxyRow) = none) :
    p.ValueWritten col proxyRow value isOrig
      ((p.withCreated proxyRow).writeValue p.modifs.nextPtr none col value isOrig) := by
  rw [writeValue_withCreated h0]
  exact .created hptr h0 hfree

theorem setValue_ok [ContentsCompare D] {p q : GdaDataProxy D} {col proxyRow : Int}
    {value : GValue D} {isOrig b : Bool} (h : p.setValue col proxyRow value isOrig = .ok (q, b)) :
    ∃ modifs error emitted, p.ensureChunkSync.ValueWritten col proxyRow value isOrig modifs ∧
      (modifs = p.modifs ∨ (0 ≤ col ∧ col < p.ensureChunkSync.modelNbCols)) ∧
      q = { p.ensureChunkSync with modifs := modifs, error := error, emitted := emitted } := by
  rw [← ensureChunkSync_modifs p]
  unfold setValue at h
  simp only at h
  split at h
  · obtain ⟨rfl, -⟩ := pair_ok h
    exact ⟨_, _, _, .unchanged, Or.inl rfl, rfl⟩
  · split at h
    case isTrue hcol =>
      split at h
      · obtain ⟨rfl, -⟩ := pair_ok h
        exact ⟨_, _, _, .unchanged, Or.inr hcol, rfl⟩
      · obtain ⟨rfl, -⟩ := pair_ok h
        exact ⟨_, _, _, .unchanged, Or.inr hcol, rfl⟩
      · obtain ⟨⟨r, ptr, rv⟩, hr, he⟩ := bind_ok h
        obtain ⟨rfl, -⟩ := pair_ok he
        rcases findOrCreateRowModif_ok hr with
          ⟨hptr, rfl, hreach, rfl⟩ | ⟨hptr, h0, hfree, rfl, rfl, rfl⟩
        · exact ⟨_, _, _, writeValue_written hptr hreach, Or.inr hcol, rfl⟩
        · exact ⟨_, _, _, writeValue_created hptr h0 hfree, Or.inr hcol, rfl⟩
    case isFalse =>
      obtain ⟨rfl, -⟩ := pair_ok h
      exact ⟨_, _, _, .unchanged, Or.inl rfl, rfl⟩

theorem proxyRowToRowModif_eq (p : GdaDataProxy D) (proxyRow : Int) :
    p.proxyRowToRowModif proxyRow =
      (p.absoluteRowToModelRow (p.proxyRowToAbsoluteRow proxyRow)).2 := rfl

inductive RowDeleted (p : GdaDataProxy D) (proxyRow : Int) :
    Option (List Int) → RowModifs D → Prop
  | unchanged : RowDeleted p proxyRow p.chunk p.modifs
  | newRow {ptr : RowModifPtr} (hptr : p.proxyRowToRowModif proxyRow = some ptr)
      (hreach : p.modifs.Reached ptr) (hrow : p.modifs.modelRow ptr = -1) :
      RowDeleted p proxyRow
        (p.forgetNewRow (p.proxyRowToAbsoluteRow proxyRow) (p.rowCmp proxyRow))
        (p.modifs.removeNew ptr)
  | marked {ptr : RowModifPtr} (hptr : p.proxyRowToRowModif proxyRow = some ptr)
      (hreach : p.modifs.Reached ptr) (hrow : p.modifs.modelRow ptr ≠ -1) :
      RowDeleted p proxyRow p.chunk (p.modifs.update ptr fun rm => { rm with toBeDeleted := true })
  | created (hptr : p.proxyRowToRowModif proxyRow = none)
      (hfree : 0 ≤ p.proxyRowToModelRow proxyRow →
        p.modifs.modifyRows (p.proxyRowToModelRow proxyRow) = none)
      (hrow : ¬ (p.addNullEntry = true ∧ proxyRow = 0)) (haccess : p.model.accessDelete = true) :
      RowDeleted p proxyRow p.chunk (p.modifs.addModified (p.proxyRowToModelRow proxyRow)
        { p.createdFor proxyRow with toBeDeleted := true })

theorem delete_eq (p : GdaDataProxy D) (proxyRow : Int) :
    (proxyRow < 0 ∧ p.delete proxyRow = p) ∨
    (0 ≤ proxyRow ∧ ∃ chunk modifs emitted,
      p.ensureChunkSync.RowDeleted proxyRow chunk modifs ∧ p.delete proxyRow =
        { p.ensureChunkSync with chunk := chunk, modifs := modifs, emitted := emitted }) := by
  unfold delete
  split
  case isTrue h => exact Or.inl ⟨h, rfl⟩
  case isFalse h =>
    refine Or.inr ⟨by omega, ?_⟩
    generalize p.ensureChunkSync = q
    simp only
    split
    case isTrue => exact ⟨_, _, _, .unchanged, rfl⟩
    case isFalse hnull =>
      split
      case isTrue => exact ⟨_, _, _, .unchanged, rfl⟩
      case isFalse haccess =>
        split
        case h_1 modelRow ptr hrow =>
          have hptr : q.proxyRowToRowModif proxyRow = some ptr := by
            rw [proxyRowToRowModif_eq, hrow]
          have hreach := reached_of_absoluteRow hrow
          split
          case isTrue => exact ⟨_, _, _, .unchanged, rfl⟩
          case isFalse =>
            split
            case isTrue hneg => exact ⟨_, _, _, .newRow hptr hreach hneg, rfl⟩
            case isFalse hneg => exact ⟨_, _, _, .marked hptr hreach hneg, rfl⟩
        case h_2 modelRow hrow =>
          have hmodel : q.proxyRowToModelRow proxyRow = modelRow := by
            simp [proxyRowToModelRow, hrow]
          have hptr : q.proxyRowToRowModif proxyRow = none := by rw [proxyRowToRowModif_eq, hrow]
          subst hmodel
          exact ⟨_, _, _, .created hptr (free_of_absoluteRow hrow) (by simpa using hnull)
            (by simpa using haccess), rfl⟩

/-- How `undelete` changes the registries. -/
inductive RowUndeleted (p : GdaDataProxy D) (proxyRow : Int) : RowModifs D → Prop
  | unchanged : RowUndeleted p proxyRow p.modifs
  | unmarked {ptr : RowModifPtr} (hptr : p.proxyRowToRowModif proxyRow = some ptr)
      (hreach : p.modifs.Reached ptr) (hvalues : (p.modifs.memory ptr).modifyValues ≠ []) :
      RowUndeleted p proxyRow (p.modifs.update ptr fun rm => { rm with toBeDeleted := false })
  | dropped {ptr : RowModifPtr} (hptr : p.proxyRowToRowModif proxyRow = some ptr)
      (hreach : p.modifs.Reached ptr) (hvalues : (p.modifs.memory ptr).modifyValues = []) :
      RowUndeleted p proxyRow (p.modifs.dropModified (p.proxyRowToModelRow proxyRow) ptr
        fun rm => { rm with toBeDeleted := false })

theorem undelete_eq (p : GdaDataProxy D) (proxyRow : Int) :
    (proxyRow < 0 ∧ p.undelete proxyRow = p) ∨
    (0 ≤ proxyRow ∧ ∃ modifs emitted, p.ensureChunkSync.RowUndeleted proxyRow modifs ∧
      p.undelete proxyRow = { p.ensureChunkSync with modifs := modifs, emitted := emitted }) := by
  unfold undelete
  split
  case isTrue h => exact Or.inl ⟨h, rfl⟩
  case isFalse h =>
    refine Or.inr ⟨by omega, ?_⟩
    generalize p.ensureChunkSync = q
    simp only
    split
    case h_1 => exact ⟨_, _, .unchanged, rfl⟩
    case h_2 modelRow ptr hrow =>
      have hptr : q.proxyRowToRowModif proxyRow = some ptr := by rw [proxyRowToRowModif_eq, hrow]
      have hmodel : q.proxyRowToModelRow proxyRow = modelRow := by simp [proxyRowToModelRow, hrow]
      have hreach := reached_of_absoluteRow hrow
      subst hmodel
      split
      case isTrue hempty =>
        exact ⟨_, _, .dropped hptr hreach (List.isEmpty_iff.1 hempty), rfl⟩
      case isFalse hempty =>
        exact ⟨_, _, .unmarked hptr hreach (fun hv => hempty (List.isEmpty_iff.2 hv)), rfl⟩

/-- How `cancel_row_changes` changes the displayed rows and the registries. -/
inductive RowCancelled (p : GdaDataProxy D) (proxyRow col : Int) :
    Option (List Int) → RowModifs D → Prop
  | unchanged : RowCancelled p proxyRow col p.chunk p.modifs
  | newRow {ptr : RowModifPtr} (hptr : p.proxyRowToRowModif proxyRow = some ptr)
      (hreach : p.modifs.Reached ptr) (hrow : p.modifs.modelRow ptr < 0) :
      RowCancelled p proxyRow col
        (p.forgetNewRow (p.proxyRowToAbsoluteRow proxyRow) (p.rowCmp proxyRow))
        (p.modifs.removeNew ptr)
  | dropped {ptr : RowModifPtr} (hptr : p.proxyRowToRowModif proxyRow = some ptr)
      (hreach : p.modifs.Reached ptr) (hrow : 0 ≤ p.modifs.modelRow ptr) :
      RowCancelled p proxyRow col p.chunk
        (p.modifs.dropModified (p.modifs.modelRow ptr) ptr id)
  | kept {ptr : RowModifPtr} (hptr : p.proxyRowToRowModif proxyRow = some ptr)
      (hreach : p.modifs.Reached ptr)
      (hvalues : cancelValues col (p.modifs.memory ptr).modifyValues ≠ [] ∨
        (p.modifs.memory ptr).toBeDeleted = true) :
      RowCancelled p proxyRow col p.chunk
        (p.modifs.update ptr (withValues (cancelValues col (p.modifs.memory ptr).modifyValues)))

theorem dropModified_id (rs : RowModifs D) (key : Int) (ptr : RowModifPtr) :
    rs.dropModified key ptr id = rs.removeModified key ptr := by
  have hmem : (rs.update ptr id).memory = rs.memory := by
    funext other
    by_cases ho : other = ptr <;> simp [RowModifs.update, ho]
  unfold RowModifs.dropModified RowModifs.removeModified
  rw [hmem]
  rfl

theorem cancelRowChanges_eq (p : GdaDataProxy D) (proxyRow col : Int) :
    (proxyRow < 0 ∧ p.cancelRowChanges proxyRow col = p) ∨
    (0 ≤ proxyRow ∧ ∃ chunk modifs emitted,
      p.ensureChunkSync.RowCancelled proxyRow col chunk modifs ∧
        p.cancelRowChanges proxyRow col =
          { p.ensureChunkSync with chunk := chunk, modifs := modifs, emitted := emitted }) := by
  unfold cancelRowChanges
  split
  case isTrue h => exact Or.inl ⟨h, rfl⟩
  case isFalse h =>
    refine Or.inr ⟨by omega, ?_⟩
    generalize p.ensureChunkSync = q
    simp only
    split
    case isTrue => exact ⟨_, _, _, .unchanged, rfl⟩
    case isFalse =>
      split
      case h_1 => exact ⟨_, _, _, .unchanged, rfl⟩
      case h_2 ptr hptr =>
        have hreach : q.modifs.Reached ptr :=
          reached_of_absoluteRow (Prod.ext rfl ((q.proxyRowToRowModif_eq proxyRow).symm.trans hptr))
        split
        case isTrue => exact ⟨_, _, _, .unchanged, rfl⟩
        case isFalse =>
          split
          case isTrue hempty =>
            split
            case isTrue hneg => exact ⟨_, _, _, .newRow hptr hreach hneg, rfl⟩
            case isFalse hneg =>
              have hdrop : q.RowCancelled proxyRow col _ _ :=
                .dropped hptr hreach (Int.not_lt.1 hneg)
              rw [dropModified_id] at hdrop
              split
              · exact ⟨_, _, _, hdrop, rfl⟩
              · exact ⟨_, _, _, hdrop, rfl⟩
          case isFalse hempty =>
            refine ⟨_, _, _, .kept hptr hreach ?_, rfl⟩
            simp only [Bool.and_eq_true, List.isEmpty_iff, Bool.not_eq_true', not_and] at hempty
            by_cases hv : cancelValues col (q.modifs.memory ptr).modifyValues = []
            · exact Or.inr (by simpa using hempty hv)
            · exact Or.inl hv

def newRowModif (p : GdaDataProxy D) : RowModif D where
  modelRow := -1
  modifyValues := ((List.range p.modelNbCols).map p.newRowValue).reverse
  origValues := none
  origValuesSize := p.modelNbCols

def appendedChunk (p : GdaDataProxy D) : Option (List Int) :=
  p.chunk.map fun mapping =>
    mapping ++ [({ p with modifs := p.modifs.addNew p.newRowModif } :
      GdaDataProxy D).rowModifToAbsoluteRow p.modifs.nextPtr]

theorem append_eq (p : GdaDataProxy D) :
    (p.append.1 = p.ensureChunkSync ∧ p.append.2 = -1) ∨
    (p.ensureChunkSync.model.accessInsert = true ∧ p.ensureChunkSync.modelNbRows ≠ -1 ∧
      ∃ emitted, p.append.1 = { p.ensureChunkSync with
        chunk := p.ensureChunkSync.appendedChunk
        modifs := p.modifs.addNew p.ensureChunkSync.newRowModif
        emitted := emitted }) := by
  rw [← ensureChunkSync_modifs p]
  unfold append
  generalize p.ensureChunkSync = q
  simp only
  split
  case isTrue => exact Or.inl ⟨rfl, rfl⟩
  case isFalse haccess =>
    split
    case isTrue => exact Or.inl ⟨rfl, rfl⟩
    case isFalse hrows =>
      refine Or.inr ⟨by simpa using haccess, hrows, ?_⟩
      cases hc : q.chunk with
      | none => exact ⟨_, by simp only [appendedChunk, hc]; rfl⟩
      | some mapping => exact ⟨_, by simp only [appendedChunk, hc]; rfl⟩

theorem origValue_created {p : GdaDataProxy D} {proxyRow col : Int} (hpos : 0 ≤ proxyRow)
    (h0 : 0 ≤ p.proxyRowToModelRow proxyRow) (hcol : 0 ≤ col ∧ col < p.modelNbCols) :
    (p.withCreated proxyRow).origValue p.modifs.nextPtr col =
      p.model.getValueAt col (p.proxyRowToModelRow proxyRow) := by
  have hmem : (p.withCreated proxyRow).modifs.memory p.modifs.nextPtr = p.createdFor proxyRow :=
    RowModifs.addModified_memory_self _ _ _
  have hlt : col.toNat < p.modelNbCols := by omega
  have hcols : p.modelNbCols ≠ 0 := by omega
  have hcast : ((col.toNat : Nat) : Int) = col := Int.toNat_of_nonneg hcol.1
  simp [origValue, hmem, createdFor_orig hpos h0, hcols, List.getElem?_range hlt, hcast]

theorem writeDefault_modifs (p : GdaDataProxy D) (ptr : RowModifPtr) (rv : Option (RowValue D))
    (col modelCol proxyRow : Int) : (p.writeDefault ptr rv col modelCol proxyRow).modifs =
      p.modifs.update ptr (withValues (p.putDefault (p.modifs.memory ptr) rv col modelCol)) := rfl

end GdaDataProxy

end LibGda
