import LibGda.SignalSpecs

/-! The rows which a chunk designates, before and after a row is inserted in or
removed from the proxied model. -/

namespace LibGda

open IndexShift

variable {D α β : Type}

def absoluteRows (labels : List α) (newRows : List RowModifPtr) : List (α ⊕ RowModifPtr) :=
  labels.map Sum.inl ++ newRows.map Sum.inr

def designated (rows : List β) (mapping : List Int) : List (Option β) :=
  mapping.map (rowAt rows)

theorem designated_afterInsert {rows : List β} {mapping : List Int} (x : β) {row : Nat}
    (h0 : ∀ v ∈ mapping, 0 ≤ v) :
    designated (rows.insertIdx row x) (mapping.map (afterInsert row)) =
      designated rows mapping := by
  unfold designated
  rw [List.map_map]
  refine List.map_congr_left fun v hv => ?_
  exact rowAt_insertIdx x (by omega : (0 : Int) ≤ row) (h0 v hv)

theorem designated_afterErase {rows : List β} {mapping : List Int} {row : Nat}
    (h0 : ∀ v ∈ mapping, 0 ≤ v) :
    designated (rows.eraseIdx row) (withoutRow row mapping) =
      designated rows (mapping.filter (· ≠ (row : Int))) := by
  unfold designated withoutRow
  rw [List.map_map]
  refine List.map_congr_left fun v hv => ?_
  obtain ⟨hm, hne⟩ := List.mem_filter.1 hv
  exact rowAt_eraseIdx (by omega : (0 : Int) ≤ row) (h0 v hm) (by simpa using hne)

theorem rowAt_mem_eraseIdx_iff {rows : List β} (hn : rows.Nodup) (row : Nat) {v : Int}
    (h0 : 0 ≤ v) (hl : v < rows.length) :
    (∃ x ∈ rows.eraseIdx row, rowAt rows v = some x) ↔ v ≠ row := by
  have hv : v.toNat < rows.length := by omega
  have hr : rowAt rows v = some rows[v.toNat] := by simp [rowAt, h0, hv]
  rw [hr]
  simp only [Option.some.injEq, List.mem_eraseIdx_iff_getElem]
  constructor
  · rintro ⟨x, ⟨i, hi, hne, rfl⟩, he⟩ rfl
    have := (hn.getElem_inj_iff).1 he
    omega
  · intro hne
    exact ⟨rows[v.toNat], ⟨v.toNat, hv, by omega, rfl⟩, rfl⟩

def stillIn [DecidableEq β] (rows : List β) (entries : List (Option β)) : List (Option β) :=
  entries.filter fun entry => entry.any fun x => decide (x ∈ rows)

theorem stillIn_designated_of_subset [DecidableEq β] {rows after : List β} {mapping : List Int}
    (hsub : ∀ x ∈ rows, x ∈ after) (hr : ∀ v ∈ mapping, 0 ≤ v ∧ v < rows.length) :
    stillIn after (designated rows mapping) = designated rows mapping := by
  refine List.filter_eq_self.2 fun entry he => ?_
  obtain ⟨v, hv, rfl⟩ := List.mem_map.1 he
  obtain ⟨x, hx⟩ := Option.isSome_iff_exists.1 (rowAt_isSome_iff.2 (hr v hv))
  simpa [hx] using hsub x (rowAt_mem hx)

theorem stillIn_designated_eraseIdx [DecidableEq β] {rows : List β} (hn : rows.Nodup)
    {mapping : List Int} (hr : ∀ v ∈ mapping, 0 ≤ v ∧ v < rows.length) (row : Nat) :
    stillIn (rows.eraseIdx row) (designated rows mapping) =
      designated rows (mapping.filter (· ≠ (row : Int))) := by
  unfold stillIn designated
  rw [List.filter_map]
  congr 1
  refine List.filter_congr fun v hv => ?_
  have hiff := rowAt_mem_eraseIdx_iff hn row (hr v hv).1 (hr v hv).2
  obtain ⟨x, hx⟩ := Option.isSome_iff_exists.1 (rowAt_isSome_iff.2 (hr v hv))
  simp only [hx, Option.some.injEq, exists_eq_right'] at hiff
  simp [hx, hiff]

namespace GdaDataProxy

/-- The entries of `chunk` and `chunk_to` are absolute numbers of rows. -/
def EntriesInRange (p : GdaDataProxy D) : Prop :=
  ∀ mapping, (p.chunk = some mapping ∨ p.chunkTo = some (some mapping)) →
    ∀ v ∈ mapping, 0 ≤ v ∧ v < p.modelNbRows + p.modifs.newRows.length

end GdaDataProxy

/-- The rows of a model, where `x` is the row it may insert, after a signal. -/
def rowsAfter (rows : List β) (x : β) : ModelSignal → List β
  | .rowInserted row => rows.insertIdx row x
  | .rowUpdated _ => rows
  | .rowRemoved row => rows.eraseIdx row

/-- A signal numbers a row of a model of `nbRows` rows. -/
def ModelSignal.Valid (nbRows : Int) : ModelSignal → Prop
  | .rowInserted row => (row : Int) ≤ nbRows
  | .rowUpdated row => (row : Int) < nbRows
  | .rowRemoved row => (row : Int) < nbRows

instance (nbRows : Int) : (signal : ModelSignal) → Decidable (signal.Valid nbRows)
  | .rowInserted row => inferInstanceAs (Decidable ((row : Int) ≤ nbRows))
  | .rowUpdated row => inferInstanceAs (Decidable ((row : Int) < nbRows))
  | .rowRemoved row => inferInstanceAs (Decidable ((row : Int) < nbRows))

theorem absoluteRows_insertIdx (labels : List α) (newRows : List RowModifPtr) (x : α) {row : Nat}
    (h : row ≤ labels.length) :
    absoluteRows (labels.insertIdx row x) newRows =
      (absoluteRows labels newRows).insertIdx row (Sum.inl x) := by
  unfold absoluteRows
  rw [insertIdx_append_of_le _ _ _ (by simpa using h), List.map_insertIdx]

theorem absoluteRows_eraseIdx (labels : List α) (newRows : List RowModifPtr) {row : Nat}
    (h : row < labels.length) :
    absoluteRows (labels.eraseIdx row) newRows =
      (absoluteRows labels newRows).eraseIdx row := by
  unfold absoluteRows
  rw [List.eraseIdx_append_of_lt_length (by simpa using h), List.eraseIdx_map]

namespace GdaDataProxy

/-- After the signal, each entry designates the row it designated before, and
those of a row which does not exist any more are gone. -/
def ChunksFollow [DecidableEq α] (p : GdaDataProxy D) (model : GdaDataModel D)
    (signal : ModelSignal) (labels : List α) (x : α) : Prop :=
  ∃ q, p.onModelSignal model signal = .ok q ∧
    (∀ mapping, p.chunk = some mapping → ∃ after, q.chunk = some after ∧
      designated (absoluteRows (rowsAfter labels x signal) q.modifs.newRows) after =
        stillIn (absoluteRows (rowsAfter labels x signal) q.modifs.newRows)
          (designated (absoluteRows labels p.modifs.newRows) mapping)) ∧
    (∀ mapping, p.chunkTo = some (some mapping) → ∃ after, q.chunkTo = some (some after) ∧
      designated (absoluteRows (rowsAfter labels x signal) q.modifs.newRows) after =
        stillIn (absoluteRows (rowsAfter labels x signal) q.modifs.newRows)
          (designated (absoluteRows labels p.modifs.newRows) mapping)) ∧
    q.EntriesInRange

/-- A mapping in `chunk_to` lists no row from an inserted row on, and a removed row at most once, as
does `chunk`. -/
def ChunkToMapped (p : GdaDataProxy D) : ModelSignal → Prop
  | .rowInserted row =>
    ∀ chunkTo, p.chunkTo = some chunkTo → ∃ mapping, chunkTo = some mapping ∧ ∀ v ∈ mapping, v < row
  | .rowUpdated _ => True
  | .rowRemoved row =>
    (∀ mapping, p.chunk = some mapping → mapping.count (row : Int) ≤ 1) ∧
      ∀ chunkTo, p.chunkTo = some chunkTo → ∃ mapping, chunkTo = some mapping ∧ mapping.count (row : Int) ≤ 1

theorem chunkToRowInserted_of_mapped {p : GdaDataProxy D} {row : Nat} (hchunk : p.chunk.isSome)
    (h : p.ChunkToMapped (.rowInserted row)) : p.chunkToRowInserted row = .ok p.chunkTo := by
  obtain ⟨mapping, hmapping⟩ := Option.isSome_iff_exists.1 hchunk
  cases hto : p.chunkTo with
  | none => simp [chunkToRowInserted, hto]
  | some chunkTo =>
    obtain ⟨entries, rfl, hlt⟩ := h chunkTo hto
    have hmap : entries.map (fun v => if (row : Int) ≤ v then v - 1 else v) = entries := by
      refine (List.map_congr_left fun v hv => ?_).trans (List.map_id entries)
      have := hlt v hv
      exact if_neg (by omega)
    simp [chunkToRowInserted, hto, hmapping, hmap]

theorem map_afterInsert_of_lt {mapping : List Int} {row : Int} (h : ∀ v ∈ mapping, v < row) :
    mapping.map (afterInsert row) = mapping := by
  refine (List.map_congr_left fun v hv => ?_).trans (List.map_id mapping)
  have := h v hv
  exact if_neg (by omega)

section Inserted

variable [DecidableEq α] {p : GdaDataProxy D} {labels : List α} {x : α} {row : Nat}

theorem stillIn_inserted (hlen : p.modelNbRows = labels.length) (hv : row ≤ labels.length)
    {mapping : List Int}
    (hm : ∀ v ∈ mapping, 0 ≤ v ∧ v < p.modelNbRows + p.modifs.newRows.length) :
    stillIn (absoluteRows (labels.insertIdx row x) p.modifs.newRows)
      (designated (absoluteRows labels p.modifs.newRows) mapping) =
        designated (absoluteRows labels p.modifs.newRows) mapping := by
  refine stillIn_designated_of_subset (fun y hy => ?_) fun v hv => ?_
  · rw [absoluteRows_insertIdx labels _ x hv, List.mem_insertIdx (by simp [absoluteRows]; omega)]
    exact Or.inr hy
  · have := hm v hv
    simp only [absoluteRows, List.length_append, List.length_map]
    omega

omit [DecidableEq α] in
theorem designated_inserted (hv : row ≤ labels.length) {mapping : List Int}
    (h0 : ∀ v ∈ mapping, 0 ≤ v) :
    designated (absoluteRows (labels.insertIdx row x) p.modifs.newRows)
      (mapping.map (afterInsert row)) =
        designated (absoluteRows labels p.modifs.newRows) mapping := by
  rw [absoluteRows_insertIdx labels _ x hv]
  exact designated_afterInsert _ h0

theorem chunkToMapped_of_chunksFollow_inserted {model : GdaDataModel D}
    (hlen : p.modelNbRows = labels.length) (hv : row ≤ labels.length) (hrange : p.EntriesInRange)
    (hn : (absoluteRows (labels.insertIdx row x) p.modifs.newRows).Nodup)
    (hchunk : p.chunk.isSome) (h : p.ChunksFollow model (.rowInserted row) labels x) :
    p.ChunkToMapped (.rowInserted row) := by
  obtain ⟨mapping, hmapping⟩ := Option.isSome_iff_exists.1 hchunk
  obtain ⟨q, hq, -, hto, -⟩ := h
  obtain ⟨chunkTo', catched, emitted, he, rfl⟩ := proxiedModelRowInsertedCb_ok hq
  intro chunkTo hc
  cases chunkTo with
  | none => simp [chunkToRowInserted, hc, hmapping] at he
  | some entries =>
    refine ⟨entries, rfl, fun v hm => ?_⟩
    by_contra hlt
    have hle : (row : Int) ≤ v := by omega
    have hr := hrange entries (Or.inr hc)
    have hvm := hr v hm
    obtain ⟨after, ha, hd⟩ := hto entries hc
    simp only [chunkToRowInserted, hc, hmapping, Except.ok.injEq] at he
    simp only [← he, Option.some.injEq] at ha
    simp only [rowsAfter, RowModifs.renumber_newRows] at hd
    rw [stillIn_inserted hlen hv hr, ← designated_inserted hv fun w hw => (hr w hw).1, ← ha] at hd
    simp only [designated, List.map_map] at hd
    have hat := List.map_inj_left.1 hd v hm
    simp only [Function.comp, afterInsert, hle, if_true] at hat
    have hl : (absoluteRows (labels.insertIdx row x) p.modifs.newRows).length =
        labels.length + 1 + p.modifs.newRows.length := by
      simp [absoluteRows, List.length_insertIdx_of_le_length hv]
    have := rowAt_inj hn (a := v + 1) (b := v - 1) (by omega) (by omega) hat.symm
    omega

theorem chunksFollow_inserted (model : GdaDataModel D)
    (hlen : p.modelNbRows = labels.length) (hv : row ≤ labels.length) (hrange : p.EntriesInRange)
    (hchunk : p.chunk.isSome) (h : p.ChunkToMapped (.rowInserted row)) :
    p.ChunksFollow model (.rowInserted row) labels x := by
  have hto := chunkToRowInserted_of_mapped hchunk h
  obtain ⟨q, hq⟩ := proxiedModelRowInsertedCb_isOk (p := { p with model := model }) hto
  refine ⟨q, hq, ?_⟩
  obtain ⟨chunkTo, catched, emitted, he, rfl⟩ := proxiedModelRowInsertedCb_ok hq
  obtain rfl : p.chunkTo = chunkTo := Except.ok.inj (hto.symm.trans he)
  simp only [rowsAfter, RowModifs.renumber_newRows]
  refine ⟨fun mapping hm => ⟨mapping.map (afterInsert row), by simp [hm], ?_⟩,
    fun mapping hm => ⟨mapping, hm, ?_⟩, fun mapping hm v hvm => ?_⟩
  · have hr := hrange mapping (Or.inl hm)
    rw [stillIn_inserted hlen hv hr, designated_inserted hv fun w hw => (hr w hw).1]
  · have hr := hrange mapping (Or.inr hm)
    obtain ⟨entries, he, hlt⟩ := h (some mapping) hm
    obtain rfl := Option.some.inj he
    rw [stillIn_inserted hlen hv hr, ← designated_inserted hv fun w hw => (hr w hw).1,
      map_afterInsert_of_lt hlt]
  · simp only [RowModifs.renumber_newRows]
    rcases hm with hm | hm
    · obtain ⟨m, hm', rfl⟩ := Option.map_eq_some_iff.1 hm
      obtain ⟨w, hw, rfl⟩ := List.mem_map.1 hvm
      have hr := hrange m (Or.inl hm') w hw
      simp only [afterInsert]
      split <;> omega
    · have hr := hrange mapping (Or.inr hm) v hvm
      omega

end Inserted

theorem modelRowToAbsoluteRow_of_lt {p : GdaDataProxy D} {row : Nat}
    (h : (row : Int) < p.modelNbRows) : p.modelRowToAbsoluteRow row = row := by
  have h0 : ¬ (row : Int) < 0 := by omega
  have h1 : ¬ (p.modelNbRows ≤ (row : Int) ∧ 0 ≤ p.modelNbRows) := by omega
  rw [modelRowToAbsoluteRow, if_neg h0, if_neg h1]

theorem chunkToRowRemoved_eq {p : GdaDataProxy D} {absRow : Int} (hchunk : p.chunk.isSome) :
    p.chunkToRowRemoved absRow =
      match p.chunkTo with
      | none => .ok none
      | some none => .error .nullMapping
      | some (some mapping) =>
        if mapping.count absRow ≤ 1 then .ok (some (some (withoutRow absRow mapping)))
        else .error .removeIndexSet := by
  obtain ⟨mapping, hmapping⟩ := Option.isSome_iff_exists.1 hchunk
  cases hto : p.chunkTo with
  | none => simp [chunkToRowRemoved, hto]
  | some chunkTo =>
    cases chunkTo with
    | none => simp [chunkToRowRemoved, hto, hmapping]
    | some entries =>
      simp only [chunkToRowRemoved, hto, hmapping, mappingRowRemoved_eq]
      split <;> rfl

theorem chunkRowRemoved_eq {p : GdaDataProxy D} {absRow : Int} {mapping : List Int}
    (hchunk : p.chunk = some mapping) :
    p.chunkRowRemoved absRow =
      if mapping.count absRow ≤ 1 then .ok (some (withoutRow absRow mapping))
      else .error .removeIndexSet := by
  simp only [chunkRowRemoved, hchunk, mappingRowRemoved_eq]
  split <;> rfl

@[simp] theorem destroyAt_newRows (rs : RowModifs D) (row : Int) :
    (rs.destroyAt row).newRows = rs.newRows := by
  unfold RowModifs.destroyAt
  split <;> rfl

section Removed

variable [DecidableEq α] {p : GdaDataProxy D} {labels : List α} {x : α} {row : Nat}

theorem designated_removed (hlen : p.modelNbRows = labels.length) (hv : row < labels.length)
    (hn : (absoluteRows labels p.modifs.newRows).Nodup) {mapping : List Int}
    (hm : ∀ v ∈ mapping, 0 ≤ v ∧ v < p.modelNbRows + p.modifs.newRows.length) :
    designated (absoluteRows (labels.eraseIdx row) p.modifs.newRows) (withoutRow row mapping) =
      stillIn (absoluteRows (labels.eraseIdx row) p.modifs.newRows)
        (designated (absoluteRows labels p.modifs.newRows) mapping) := by
  have hl : (absoluteRows labels p.modifs.newRows).length =
      labels.length + p.modifs.newRows.length := by simp [absoluteRows]
  rw [absoluteRows_eraseIdx labels _ hv,
    stillIn_designated_eraseIdx hn (fun v hvm => ?_), designated_afterErase fun v hvm => (hm v hvm).1]
  have := hm v hvm
  omega

theorem chunkToMapped_of_chunksFollow_removed {model : GdaDataModel D}
    (hlen : p.modelNbRows = labels.length) (hv : row < labels.length) (hchunk : p.chunk.isSome)
    (h : p.ChunksFollow model (.rowRemoved row) labels x) : p.ChunkToMapped (.rowRemoved row) := by
  obtain ⟨q, hq, -⟩ := h
  obtain ⟨chunk, chunkSep, chunkTo, emitted, hc, hto, -⟩ := proxiedModelRowRemovedCb_ok hq
  have habs : p.modelRowToAbsoluteRow row = row := modelRowToAbsoluteRow_of_lt (by omega)
  replace hc : p.chunkRowRemoved (p.modelRowToAbsoluteRow row) = .ok chunk := hc
  replace hto : p.chunkToRowRemoved (p.modelRowToAbsoluteRow row) = .ok chunkTo := hto
  rw [habs] at hc hto
  refine ⟨fun mapping hm => ?_, fun to' hto' => ?_⟩
  · rw [chunkRowRemoved_eq hm] at hc
    by_contra hcount
    simp [hcount] at hc
  · rw [chunkToRowRemoved_eq hchunk] at hto
    simp only [hto'] at hto
    cases to' with
    | none => cases hto
    | some mapping =>
      refine ⟨mapping, rfl, ?_⟩
      by_contra hcount
      simp [hcount] at hto

theorem withoutRow_range {mapping : List Int} {nb : Int}
    (hm : ∀ v ∈ mapping, 0 ≤ v ∧ v < nb) (hr : (row : Int) < nb) :
    ∀ v ∈ withoutRow row mapping, 0 ≤ v ∧ v < nb - 1 := by
  intro v hv
  obtain ⟨w, hw, rfl⟩ := List.mem_map.1 hv
  obtain ⟨hw, hne⟩ := List.mem_filter.1 hw
  have hne : w ≠ row := by simpa using hne
  have := hm w hw
  unfold afterErase
  split <;> omega

theorem chunksFollow_removed (model : GdaDataModel D) (hlen : p.modelNbRows = labels.length)
    (hv : row < labels.length) (hrange : p.EntriesInRange)
    (hn : (absoluteRows labels p.modifs.newRows).Nodup) (hchunk : p.chunk.isSome)
    (h : p.ChunkToMapped (.rowRemoved row)) : p.ChunksFollow model (.rowRemoved row) labels x := by
  obtain ⟨mapping, hmapping⟩ := Option.isSome_iff_exists.1 hchunk
  obtain ⟨hcount, hto⟩ := h
  have habs : p.modelRowToAbsoluteRow row = row := modelRowToAbsoluteRow_of_lt (by omega)
  have hc : p.chunkRowRemoved row = .ok (some (withoutRow row mapping)) := by
    rw [chunkRowRemoved_eq hmapping, if_pos (hcount mapping hmapping)]
  have hct : ∃ chunkTo, p.chunkToRowRemoved row = .ok chunkTo ∧
      (chunkTo = p.chunkTo.map (Option.map (withoutRow row))) := by
    rw [chunkToRowRemoved_eq hchunk]
    cases hto' : p.chunkTo with
    | none => exact ⟨none, rfl, rfl⟩
    | some entries =>
      obtain ⟨entries, rfl, hle⟩ := hto _ hto'
      exact ⟨_, if_pos hle, rfl⟩
  obtain ⟨chunkTo, hct, hmap⟩ := hct
  obtain ⟨q, hq⟩ : ∃ q, p.onModelSignal model (.rowRemoved row) = .ok q :=
    proxiedModelRowRemovedCb_isOk (Or.inl hchunk) (habs.symm ▸ hc) (habs.symm ▸ hct)
  refine ⟨q, hq, ?_⟩
  obtain ⟨chunk', chunkSep, chunkTo', emitted, hc', hct', rfl⟩ := proxiedModelRowRemovedCb_ok hq
  obtain rfl := Except.ok.inj (hc.symm.trans (habs ▸ hc'))
  obtain rfl := Except.ok.inj (hct.symm.trans (habs ▸ hct'))
  simp only [rowsAfter, RowModifs.renumber_newRows, destroyAt_newRows]
  refine ⟨fun m hm => ⟨withoutRow row mapping, rfl, ?_⟩,
    fun m hm => ⟨withoutRow row m, by simp [hmap, hm], ?_⟩, fun m hm v hvm => ?_⟩
  · obtain rfl := Option.some.inj (hmapping.symm.trans hm)
    exact designated_removed hlen hv hn (hrange mapping (Or.inl hm))
  · exact designated_removed hlen hv hn (hrange m (Or.inr hm))
  · simp only [RowModifs.renumber_newRows, destroyAt_newRows]
    have hin : ∀ v ∈ m, 0 ≤ v ∧ v < p.modelNbRows + p.modifs.newRows.length - 1 := by
      rcases hm with hm | hm
      · obtain rfl := Option.some.inj hm
        exact withoutRow_range (hrange mapping (Or.inl hmapping)) (by omega)
      · rw [hmap] at hm
        cases hto' : p.chunkTo with
        | none => simp [hto'] at hm
        | some entries =>
          obtain ⟨entries, rfl, -⟩ := hto _ hto'
          simp only [hto', Option.map_some, Option.some.injEq] at hm
          subst hm
          exact withoutRow_range (hrange entries (Or.inr hto')) (by omega)
    have := hin v hvm
    omega

end Removed

theorem chunksFollow_updated [DecidableEq α] {p : GdaDataProxy D} (model : GdaDataModel D)
    {labels : List α} {x : α} {row : Nat} (hlen : p.modelNbRows = labels.length)
    (hrange : p.EntriesInRange) (hchunk : p.chunk.isSome) :
    p.ChunksFollow model (.rowUpdated row) labels x := by
  obtain ⟨q, hq⟩ : ∃ q, p.onModelSignal model (.rowUpdated row) = .ok q :=
    proxiedModelRowUpdatedCb_isOk (Or.inl hchunk)
  refine ⟨q, hq, ?_⟩
  obtain ⟨emitted, rfl⟩ := proxiedModelRowUpdatedCb_ok hq
  have hsame : ∀ mapping, (p.chunk = some mapping ∨ p.chunkTo = some (some mapping)) →
      designated (absoluteRows labels p.modifs.newRows) mapping =
        stillIn (absoluteRows labels p.modifs.newRows)
          (designated (absoluteRows labels p.modifs.newRows) mapping) := by
    intro mapping hm
    refine (stillIn_designated_of_subset (fun _ h => h) fun v hv => ?_).symm
    have := hrange mapping hm v hv
    simp only [absoluteRows, List.length_append, List.length_map]
    omega
  simp only [rowsAfter, destroyAt_newRows]
  refine ⟨fun m hm => ⟨m, hm, hsame m (Or.inl hm)⟩, fun m hm => ⟨m, hm, hsame m (Or.inr hm)⟩, ?_⟩
  simpa only [EntriesInRange, destroyAt_newRows] using hrange

theorem chunksFollow_iff [DecidableEq α] (p : GdaDataProxy D) (model : GdaDataModel D)
    (signal : ModelSignal) (labels : List α) (x : α) (hlen : p.modelNbRows = labels.length)
    (hn : (absoluteRows (x :: labels) p.modifs.newRows).Nodup) (hchunk : p.chunk.isSome)
    (hrange : p.EntriesInRange) (hvalid : signal.Valid p.modelNbRows) :
    p.ChunksFollow model signal labels x ↔ p.ChunkToMapped signal := by
  cases signal with
  | rowInserted row =>
    have hv : row ≤ labels.length := by
      have hle : (row : Int) ≤ p.modelNbRows := hvalid
      omega
    have hn' : (absoluteRows (labels.insertIdx row x) p.modifs.newRows).Nodup := by
      refine (List.Perm.nodup_iff ?_).1 hn
      exact ((List.perm_insertIdx x labels hv).symm.map _).append_right _
    exact ⟨chunkToMapped_of_chunksFollow_inserted hlen hv hrange hn' hchunk,
      chunksFollow_inserted model hlen hv hrange hchunk⟩
  | rowUpdated row => exact ⟨fun _ => trivial, fun _ => chunksFollow_updated model hlen hrange hchunk⟩
  | rowRemoved row =>
    have hv : row < labels.length := by
      have hlt : (row : Int) < p.modelNbRows := hvalid
      omega
    have hn' : (absoluteRows labels p.modifs.newRows).Nodup := (List.nodup_cons.1 hn).2
    exact ⟨chunkToMapped_of_chunksFollow_removed hlen hv hchunk,
      chunksFollow_removed model hlen hv hrange hn' hchunk⟩

def movingSample : GdaDataProxy Nat where
  model := { columns := [{ gType := some 0 }], rows := [] }
  modelNbRows := 3
  sampleSize := 2
  sampleFirstRow := 1
  sampleLastRow := 2
  chunkSyncIdleId := true
  chunk := some [0, 1]
  chunkTo := some (some [1, 2])

theorem movingSample_entriesInRange : movingSample.EntriesInRange := by
  intro mapping hm
  have he : mapping = [0, 1] ∨ mapping = [1, 2] := by
    rcases hm with hm | hm
    · exact Or.inl (Option.some.inj hm).symm
    · exact Or.inr (Option.some.inj (Option.some.inj hm)).symm
  rcases he with rfl | rfl <;> decide

theorem movingSample_follows_removal :
    movingSample.ChunksFollow movingSample.model (.rowRemoved 1) ['a', 'b', 'c'] 'd' :=
  (chunksFollow_iff movingSample movingSample.model (.rowRemoved 1) ['a', 'b', 'c'] 'd' rfl
    (by decide) rfl movingSample_entriesInRange (by decide)).2
    ⟨fun mapping hm => by
      obtain rfl := Option.some.inj hm
      decide,
    fun chunkTo hto => by
      obtain rfl := Option.some.inj hto
      exact ⟨[1, 2], rfl, by decide⟩⟩

/-- The entries of `chunk_to` designate `b` and `c`, then `d` and `a`. -/
theorem movingSample_not_follows_insertion :
    movingSample.EntriesInRange ∧ (ModelSignal.rowInserted 0).Valid movingSample.modelNbRows ∧
      ¬ movingSample.ChunksFollow movingSample.model (.rowInserted 0) ['a', 'b', 'c'] 'd' := by
  refine ⟨movingSample_entriesInRange, by decide, fun h => ?_⟩
  have hmapped := chunkToMapped_of_chunksFollow_inserted rfl (by decide)
    movingSample_entriesInRange (by decide) rfl h
  obtain ⟨mapping, hm, hlt⟩ := hmapped (some [1, 2]) rfl
  obtain rfl := Option.some.inj hm
  exact absurd (hlt 1 (by decide)) (by decide)

end GdaDataProxy

end LibGda
