import LibGda.IndexShift
import LibGda.KeyedTables
import LibGda.ProxyRows
import LibGda.RunInvariant
import Mathlib.Data.List.InsertIdx

/-! The loop of the callbacks which renumbers the pending changes, as a loop which
gives new keys to the values of a table. -/

namespace LibGda

open KeyTable

variable {D : Type}

namespace RowModifs

def keyed (rs : RowModifs D) : Keyed Int RowModifPtr where
  table := rs.modifyRows
  key := fun ptr => (rs.memory ptr).modelRow

@[simp] theorem update_memory_self (rs : RowModifs D) (ptr : RowModifPtr)
    (f : RowModif D → RowModif D) : (rs.update ptr f).memory ptr = f (rs.memory ptr) := by
  simp [update]

theorem update_memory_of_ne (rs : RowModifs D) {ptr other : RowModifPtr}
    (f : RowModif D → RowModif D) (h : other ≠ ptr) :
    (rs.update ptr f).memory other = rs.memory other := by
  simp [update, h]

theorem renumberStep_keyed (rs : RowModifs D) (row delta : Int) (ptr : RowModifPtr) :
    (rs.renumberStep row delta ptr).keyed =
      rekey (fun k => row < k) (fun k => k + delta) rs.keyed ptr := by
  by_cases hrow : row < (rs.memory ptr).modelRow
  · simp only [renumberStep, rekey, keyed, hrow, if_true, Keyed.mk.injEq]
    refine ⟨rfl, funext fun other => ?_⟩
    by_cases ho : other = ptr <;> simp [update, ho]
  · simp only [renumberStep, rekey, keyed, hrow, if_false]

theorem foldl_renumberStep_keyed (row delta : Int) (ptrs : List RowModifPtr)
    (rs : RowModifs D) : (ptrs.foldl (renumberStep row delta) rs).keyed =
      ptrs.foldl (rekey (fun k => row < k) fun k => k + delta) rs.keyed := by
  induction ptrs generalizing rs with
  | nil => rfl
  | cons ptr ptrs ih => rw [List.foldl_cons, List.foldl_cons, ih, renumberStep_keyed]

/-- Everything but `modify_rows` and the model rows is left as it is. -/
structure SameChanges (rs ss : RowModifs D) : Prop where
  allModifs : ss.allModifs = rs.allModifs
  newRows : ss.newRows = rs.newRows
  cachedModifs : ss.cachedModifs = rs.cachedModifs
  cachedInserts : ss.cachedInserts = rs.cachedInserts
  nextPtr : ss.nextPtr = rs.nextPtr
  memory : ∀ ptr, ss.memory ptr = { rs.memory ptr with modelRow := (ss.memory ptr).modelRow }

theorem renumberStep_same (rs : RowModifs D) (row delta : Int) (ptr : RowModifPtr) :
    SameChanges rs (rs.renumberStep row delta ptr) := by
  by_cases hrow : row < (rs.memory ptr).modelRow
  · simp only [renumberStep, hrow, if_true]
    refine ⟨rfl, rfl, rfl, rfl, rfl, fun other => ?_⟩
    by_cases ho : other = ptr <;> simp [update, ho]
  · simp only [renumberStep, hrow, if_false]
    exact ⟨rfl, rfl, rfl, rfl, rfl, fun _ => rfl⟩

theorem SameChanges.trans {rs ss ts : RowModifs D} (h : SameChanges rs ss)
    (h' : SameChanges ss ts) : SameChanges rs ts where
  allModifs := h'.allModifs.trans h.allModifs
  newRows := h'.newRows.trans h.newRows
  cachedModifs := h'.cachedModifs.trans h.cachedModifs
  cachedInserts := h'.cachedInserts.trans h.cachedInserts
  nextPtr := h'.nextPtr.trans h.nextPtr
  memory ptr := by
    have hh := h'.memory ptr
    rw [h.memory ptr] at hh
    exact hh

theorem renumber_same (rs : RowModifs D) (row delta : Int) :
    SameChanges rs (rs.renumber row delta) := by
  suffices h : ∀ ptrs : List RowModifPtr, SameChanges rs (ptrs.foldl (renumberStep row delta) rs) from h _
  intro ptrs
  induction ptrs generalizing rs with
  | nil => exact ⟨rfl, rfl, rfl, rfl, rfl, fun _ => rfl⟩
  | cons ptr ptrs ih => exact (renumberStep_same rs row delta ptr).trans (ih _)

@[simp] theorem renumber_allModifs (rs : RowModifs D) (row delta : Int) :
    (rs.renumber row delta).allModifs = rs.allModifs :=
  (renumber_same rs row delta).allModifs

@[simp] theorem renumber_newRows (rs : RowModifs D) (row delta : Int) :
    (rs.renumber row delta).newRows = rs.newRows :=
  (renumber_same rs row delta).newRows

theorem renumber_modelRow (rs : RowModifs D) (hn : rs.allModifs.Nodup) (row delta : Int)
    (ptr : RowModifPtr) : ((rs.renumber row delta).memory ptr).modelRow =
      if ptr ∈ rs.allModifs ∧ row < (rs.memory ptr).modelRow then
        (rs.memory ptr).modelRow + delta
      else (rs.memory ptr).modelRow := by
  have hh : (rs.allModifs.foldl (rekey (fun k => row < k) fun k => k + delta) rs.keyed).key ptr = _ :=
    foldl_rekey_key rs.keyed hn ptr
  rw [← foldl_renumberStep_keyed] at hh
  exact hh

/-- No change takes over the key of one which comes later in `all_modifs`. -/
def NoClobber (rs : RowModifs D) (row delta : Int) : Prop :=
  rs.allModifs.Pairwise fun a b => row < (rs.memory a).modelRow →
    (rs.memory b).modelRow ≠ (rs.memory a).modelRow + delta

end RowModifs

end LibGda

/-! What each callback on the signals of the proxied model does to the proxy. -/

namespace LibGda

open IndexShift RunInvariant

variable {D : Type}

theorem count_le_one_erase {mapping : List Int} {row : Int} (h : mapping.count row ≤ 1) :
    mapping.erase row = mapping.filter (· ≠ row) := by
  induction mapping with
  | nil => rfl
  | cons v vs ih =>
    by_cases hv : v = row
    · subst hv
      have hnot : v ∉ vs := List.count_eq_zero.1 (by simpa using h)
      have hf : vs.filter (· ≠ v) = vs :=
        List.filter_eq_self.2 fun w hw => by simpa using fun he : w = v => hnot (he ▸ hw)
      simpa using hf.symm
    · have hh := ih (by simpa [List.count_cons, hv] using h)
      simp [hv, hh]

def withoutRow (row : Int) (mapping : List Int) : List Int :=
  (mapping.filter (· ≠ row)).map (afterErase row)

theorem mappingRowRemoved_eq (row : Int) (mapping : List Int) :
    mappingRowRemoved row mapping =
      if mapping.count row ≤ 1 then .ok (withoutRow row mapping)
      else .error .removeIndexSet := by
  by_cases hc : mapping.count row ≤ 1
  · have he := List.erase_eq_eraseIdx mapping row
    rw [count_le_one_erase hc] at he
    rw [if_pos hc, withoutRow, he, mappingRowRemoved, if_neg (by omega)]
    cases hi : mapping.idxOf? row with
    | none => rfl
    | some i =>
      simp only [gArrayRemoveIndex]
      exact congrArg Except.ok (List.eraseIdx_map _ _ _)
  · rw [if_neg hc, mappingRowRemoved, if_pos (by omega)]

namespace GdaDataProxy

theorem signalInserted_eq (p : GdaDataProxy D) (row : Int) :
    ∃ catched emitted, p.signalInserted row =
      { p with catchedInsertedRow := catched, emitted := emitted } := by
  unfold signalInserted
  split
  · exact ⟨row, p.emitted, rfl⟩
  · split
    · exact ⟨p.catchedInsertedRow, _, rfl⟩
    · exact ⟨p.catchedInsertedRow, p.emitted, rfl⟩

theorem proxiedModelRowInsertedCb_ok {p q : GdaDataProxy D} {row : Int}
    (h : p.proxiedModelRowInsertedCb row = .ok q) :
    ∃ chunkTo catched emitted, p.chunkToRowInserted row = .ok chunkTo ∧ q =
      { p with
        chunk := p.chunk.map (List.map (afterInsert row))
        chunkTo := chunkTo
        modifs := p.modifs.renumber row 1
        modelNbRows := p.modelNbRows + 1
        catchedInsertedRow := catched
        emitted := emitted } := by
  obtain ⟨chunkTo, hto, hq⟩ := bind_ok h
  obtain rfl := Except.ok.inj hq
  obtain ⟨catched, emitted, he⟩ := signalInserted_eq { p with
    chunk := p.chunk.map (List.map fun v => if row ≤ v then v + 1 else v)
    chunkTo := chunkTo
    modifs := p.modifs.renumber row 1
    modelNbRows := p.modelNbRows + 1 } row
  exact ⟨chunkTo, catched, emitted, hto, he⟩

theorem proxiedModelRowInsertedCb_isOk {p : GdaDataProxy D} {row : Int}
    {chunkTo : Option DisplayChunk} (h : p.chunkToRowInserted row = .ok chunkTo) :
    ∃ q, p.proxiedModelRowInsertedCb row = .ok q :=
  bind_isOk h ⟨_, rfl⟩

theorem signalIf_eq (p : GdaDataProxy D) (c : Prop) [Decidable c] (signal : ProxySignal) :
    ∃ emitted, (if c then p.notify signal else p) = { p with emitted := emitted } := by
  split
  · exact ⟨_, rfl⟩
  · exact ⟨p.emitted, rfl⟩

theorem proxiedModelRowUpdatedCb_ok {p q : GdaDataProxy D} {row : Int}
    (h : p.proxiedModelRowUpdatedCb row = .ok q) :
    ∃ emitted, q = { p with modifs := p.modifs.destroyAt row, emitted := emitted } := by
  obtain ⟨proxyRow, -, hq⟩ := bind_ok h
  obtain rfl := Except.ok.inj hq
  exact signalIf_eq { p with modifs := p.modifs.destroyAt row } _ _

theorem proxiedModelRowRemovedCb_ok {p q : GdaDataProxy D} {row : Int}
    (h : p.proxiedModelRowRemovedCb row = .ok q) :
    ∃ chunk chunkSep chunkTo emitted,
      p.chunkRowRemoved (p.modelRowToAbsoluteRow row) = .ok chunk ∧
      p.chunkToRowRemoved (p.modelRowToAbsoluteRow row) = .ok chunkTo ∧ q =
        { p with
          chunk := chunk
          chunkSep := chunkSep
          chunkTo := chunkTo
          chunkProxyNbRows := p.chunkProxyNbRows - 1
          modelNbRows := p.modelNbRows - 1
          modifs := (p.modifs.destroyAt row).renumber row (-1)
          emitted := emitted } := by
  obtain ⟨proxyRow, -, h⟩ := bind_ok h
  obtain ⟨chunk, hchunk, h⟩ := bind_ok h
  obtain ⟨chunkTo, hto, hq⟩ := bind_ok h
  obtain rfl := Except.ok.inj hq
  obtain ⟨emitted, he⟩ := signalIf_eq { p with
    chunk := chunk
    chunkSep :=
      if p.chunk.isSome ∧ 0 ≤ proxyRow ∧
          proxyRow - (if p.addNullEntry then 1 else 0) ≤ p.chunkSep then p.chunkSep - 1
      else p.chunkSep
    chunkTo := chunkTo
    chunkProxyNbRows := p.chunkProxyNbRows - 1
    modelNbRows := p.modelNbRows - 1
    modifs := (p.modifs.destroyAt row).renumber row (-1) } (0 ≤ proxyRow) (.rowRemoved proxyRow)
  exact ⟨chunk, _, chunkTo, emitted, hchunk, hto, he⟩

theorem absoluteRowToProxyRow_isOk {p : GdaDataProxy D} (h : p.chunk.isSome ∨ p.chunkTo = none)
    (absRow : Int) : ∃ row, p.absoluteRowToProxyRow absRow = .ok row := by
  by_cases h0 : absRow < 0
  · exact ⟨-1, by simp [absoluteRowToProxyRow, h0]⟩
  by_cases hf : p.forceDirectMapping = true
  · simp only [absoluteRowToProxyRow, h0, hf, if_true, if_false]
    exact ⟨_, rfl⟩
  cases hc : p.chunk with
  | some mapping =>
    cases hi : mapping.idxOf? absRow with
    | none => exact ⟨-1, by simp [absoluteRowToProxyRow, h0, hf, hc, hi]⟩
    | some i =>
      simp only [absoluteRowToProxyRow, h0, hf, hc, hi, if_false]
      exact ⟨_, rfl⟩
  | none =>
    have hto : p.chunkTo = none := by simpa [hc] using h
    simp only [absoluteRowToProxyRow, h0, hf, hc, hto, if_false]
    exact ⟨_, rfl⟩

theorem proxiedModelRowUpdatedCb_isOk {p : GdaDataProxy D} {row : Int}
    (h : p.chunk.isSome ∨ p.chunkTo = none) :
    ∃ q, p.proxiedModelRowUpdatedCb row = .ok q := by
  obtain ⟨proxyRow, hrow⟩ := absoluteRowToProxyRow_isOk
    (p := { p with modifs := p.modifs.destroyAt row }) h (p.modelRowToAbsoluteRow row)
  exact bind_isOk hrow ⟨_, rfl⟩

theorem proxiedModelRowRemovedCb_isOk {p : GdaDataProxy D} {row : Int} {chunk : Option (List Int)}
    {chunkTo : Option DisplayChunk} (hs : p.chunk.isSome ∨ p.chunkTo = none)
    (hchunk : p.chunkRowRemoved (p.modelRowToAbsoluteRow row) = .ok chunk)
    (hto : p.chunkToRowRemoved (p.modelRowToAbsoluteRow row) = .ok chunkTo) :
    ∃ q, p.proxiedModelRowRemovedCb row = .ok q := by
  obtain ⟨proxyRow, hrow⟩ := absoluteRowToProxyRow_isOk hs (p.modelRowToAbsoluteRow row)
  exact bind_isOk hrow (bind_isOk hchunk (bind_isOk hto ⟨_, rfl⟩))

end GdaDataProxy

end LibGda
