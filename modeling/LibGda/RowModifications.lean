import LibGda.ShownRows
import Mathlib.Data.List.InsertIdx

/-! Each modification of a random access `GdaDataSelect` does to the rows it shows what
is done to the plain list, and so does every sequence of calls. -/

namespace LibGda

open RunInvariant SurvivingRows

variable {V : Type}

namespace GdaDataSelect

variable {c : GdaDataSelectClass V} {m : ModifStatements V} {s : GdaDataSelect V} {l : PlainRows V}

namespace Agrees

theorem getValueAt_outside (h : Agrees c s l) (col : Int) {row : Int}
    (hrow : row < 0 ∨ (l.rows.length : Int) ≤ row) :
    (∃ error, (s.getValueAt c col row).1 = .error error) ∧ Agrees c (s.getValueAt c col row).2 l := by
  by_cases hcol : (s.nColumns : Int) ≤ col ∨ col < 0
  · simp only [GdaDataSelect.getValueAt, h.random, Bool.true_eq_false, if_false, hcol, if_true]
    exact ⟨⟨_, rfl⟩, h⟩
  · obtain ⟨herr, hag, -⟩ := h.externalToInternalRow_outside hrow
    simp only [GdaDataSelect.getValueAt, h.random, Bool.true_eq_false, if_false, hcol]
    generalize s.externalToInternalRow c row = result at herr hag ⊢
    obtain ⟨found, s'⟩ := result
    obtain rfl : found = _ := herr
    exact ⟨⟨_, rfl⟩, hag.getNRows⟩

theorem getValueAt_any (h : Agrees c s l) (col : Int) {row : Int} (hkeep : ReadKeepsCount c s row) :
    Agrees c (s.getValueAt c col row).2 l := by
  by_cases hrow : row < 0 ∨ (l.rows.length : Int) ≤ row
  · exact (h.getValueAt_outside col hrow).2
  · obtain ⟨pos, rfl⟩ := Int.eq_ofNat_of_zero_le (show 0 ≤ row by omega)
    obtain ⟨r, hr, hp⟩ := h.exists_survivor (show pos < l.rows.length by omega)
    have hk := hkeep r (by rw [h.externalToInternalRow_of_survivor hr])
    exact (h.getValueAt col hr hp hk).1

theorem readOldValues (h : Agrees c s l) {pos r : Nat} {prow : List V} (cols : List Nat)
    (hr : (survivors s.delRows (l.internal c))[pos]? = some r) (hp : s.table r = some prow)
    (hkeep : KeepsCount c s r) :
    Agrees c (GdaDataSelect.readOldValues c pos cols s).2 l ∧
      (GdaDataSelect.readOldValues c pos cols s).2.delRows = s.delRows := by
  induction cols generalizing s with
  | nil => exact ⟨h, rfl⟩
  | cons col cols ih =>
    obtain ⟨hag, hdel, hk⟩ := h.getValueAt col hr hp hkeep
    simp only [GdaDataSelect.readOldValues]
    generalize s.getValueAt c col pos = result at hag hdel hk ⊢
    obtain ⟨value, s'⟩ := result
    have hr' : (survivors s'.delRows (l.internal c))[pos]? = some r := by rwa [hdel]
    have hp' : s'.table r = some prow := by rw [hag.table_at hr', ← h.table_at hr, hp]
    cases value with
    | error error => exact ⟨hag, hdel⟩
    | ok value =>
      obtain ⟨hag', hdel'⟩ := ih hag hr' hp' hk
      exact ⟨hag', hdel'.trans hdel⟩

theorem oldValues (h : Agrees c s l) {pos : Nat} (cols : List Nat) (hpos : pos < l.rows.length)
    (hkeep : ReadKeepsCount c s pos) :
    ∃ r : Nat, s.externalToInternalRow c pos = (.ok (r : Int), (s.getNRows c).2) ∧
      Agrees c (GdaDataSelect.readOldValues c pos cols (s.getNRows c).2).2 l ∧
      (survivors (GdaDataSelect.readOldValues c pos cols (s.getNRows c).2).2.delRows
        (l.internal c))[pos]? = some r := by
  obtain ⟨r, hr, hp⟩ := h.exists_survivor hpos
  have he := h.externalToInternalRow_of_survivor hr
  have hk : KeepsCount c s r := hkeep r (by rw [he])
  have hr' : (survivors (s.getNRows c).2.delRows (l.internal c))[pos]? = some r := by
    rwa [delRows_getNRows]
  have hp' := (h.getNRows.table_at hr').trans ((h.table_at hr).symm.trans hp)
  obtain ⟨hag, hdel⟩ := h.getNRows.readOldValues cols hr' hp' hk.getNRows
  exact ⟨r, he, hag, by rwa [hdel]⟩

theorem update (h : Agrees c s l) {pos r : Nat} (f : List V → List V)
    (hr : (survivors s.delRows (l.internal c))[pos]? = some r) :
    Agrees c ((s.putTable r ((s.table r).map f)).markModified true r)
      { l with rows := l.rows.modify pos f } := by
  have hrow := h.table_at hr
  have hlen := h.length_rows
  refine ⟨h.random, h.increasing, h.deletedLt, ?_, ?_, ?_, ?_, h.stored⟩
  · rcases h.count with hc | ⟨hc, ha, hs⟩
    · exact .inl hc
    · refine .inr ⟨hc, ha, ?_⟩
      rw [List.length_modify]
      exact hs
  · apply List.ext_getElem?
    intro i
    have hi := congrArg (·[i]?) h.table
    simp only [List.getElem?_map] at hi
    simp only [List.getElem?_map, List.getElem?_modify]
    show ((survivors s.delRows (l.internal c))[i]?).map
      (fun a : Nat => if (a : Int) = r then (s.table r).map f else s.table a) = _
    cases ha : (survivors s.delRows (l.internal c))[i]? with
    | none =>
      rw [ha] at hi
      cases hli : l.rows[i]? with
      | none => simp
      | some row => simp [hli] at hi
    | some a =>
      rw [ha, Option.map_some] at hi
      by_cases hei : pos = i
      · subst hei
        obtain rfl : a = r := Option.some.inj (ha.symm.trans hr)
        cases hli : l.rows[pos]? with
        | none => simp [hli] at hi
        | some row =>
          rw [hli, Option.map_some] at hi
          simp [Option.some.inj hi]
      · have hne : a ≠ r := by
          intro har
          subst har
          exact hei ((List.getElem?_inj (List.getElem?_eq_some_iff.1 hr).1
            (nodup_survivors _ _)).1 (hr.trans ha.symm))
        have hne' : ¬ (a : Int) = r := by exact_mod_cast hne
        simp only [Option.map_some, hne', if_false, hei, hi]
        cases l.rows[i]? <;> rfl
  · intro a ha dstmt hupd
    simp only [GdaDataSelect.markModified, GdaDataSelect.putUpdRow, GdaDataSelect.putTable] at hupd ⊢
    split at hupd
    next har =>
      obtain rfl := Option.some.inj hupd
      exact ⟨rfl, rfl, fun _ hrow => by cases hrow⟩
    next hne =>
      simp only [hne, if_false]
      exact h.updated a ha dstmt hupd
  · intro a ha hupd
    simp only [GdaDataSelect.markModified, GdaDataSelect.putUpdRow, GdaDataSelect.putTable] at hupd ⊢
    split at hupd
    · cases hupd
    next hne =>
      simp only [hne, if_false]
      exact h.initial a ha hupd

theorem setValues (h : Agrees c s l) (row : Int) (values : List (Option V))
    (hcond : values.any Option.isSome = true →
      ReadKeepsCount c s row ∧ m.hasOneRowSelect = true) :
    Agrees c (s.setValues c m row values).2
      (if succeeds (s.setValues c m row values).1 then l.apply m (.setValues row values) else l) := by
  unfold GdaDataSelect.setValues
  by_cases hlock : s.safelyLocked = true
  · simp only [hlock, if_true]
    exact h
  simp only [hlock, h.random, Bool.true_eq_false, if_false]
  cases hm : m.update with
  | none => exact h
  | some update =>
    by_cases hmany : s.nColumns < values.length
    · simp only [hmany, if_true]
      exact h
    by_cases hmods : values.any Option.isSome = true
    · obtain ⟨hkeep, hsel⟩ := hcond hmods
      simp only [hmany, hmods, Bool.true_eq_false, if_false, vectorSetValueAt]
      by_cases hrow : row < 0 ∨ (l.rows.length : Int) ≤ row
      · obtain ⟨herr, hag, -⟩ := h.externalToInternalRow_outside hrow
        generalize s.externalToInternalRow c row = result at herr hag ⊢
        obtain ⟨found, s'⟩ := result
        obtain rfl : found = _ := herr
        exact hag
      · obtain ⟨pos, rfl⟩ := Int.eq_ofNat_of_zero_le (show 0 ≤ row by omega)
        obtain ⟨r, he, hag, hr⟩ := h.oldValues m.updateOldParams (by omega) hkeep
        simp only [he]
        generalize GdaDataSelect.readOldValues c pos m.updateOldParams (s.getNRows c).2 = result
          at hag hr ⊢
        obtain ⟨read, s'⟩ := result
        cases read with
        | error error => exact hag
        | ok _ =>
          simp only [succeeds, if_true, PlainRows.apply, hm, hmods, hsel]
          exact hag.update (update · values) hr
    · have hmods' : values.any Option.isSome = false := by simpa using hmods
      simp only [hmany, hmods', if_true, if_false, succeeds, PlainRows.apply, hm, Bool.false_eq_true]
      exact h

theorem advertizedNrows_getNRows (h : Agrees c s l) (hcount : CountStored c s) :
    (s.getNRows c).2.advertizedNrows = l.internal c := by
  rcases h.count with hc | ⟨hc, ha, -⟩
  · have hn : ¬ (s.advertizedNrows < 0 ∧ s.accessRandom = true) := by omega
    simp only [GdaDataSelect.getNRows, hn, if_false]
    exact hc
  · have hn : s.advertizedNrows < 0 ∧ s.accessRandom = true := ⟨by omega, h.random⟩
    simp only [GdaDataSelect.getNRows, hn, and_self, if_true]
    show c.advertizes .nbRows s.advertizedNrows = l.internal c
    rw [PlainRows.internal, ha]
    rcases hcount with hpos | hpos
    · omega
    · rcases c.advertizesRows .nbRows s.advertizedNrows with ho | ho
      · omega
      · exact ho

theorem skipDeleted_append (h : Agrees c s l) :
    skipDeleted s.delRows l.rows.length 0 l.rows.length = l.internal c := by
  have hnot : l.internal c ∉ s.delRows := fun hd => Nat.lt_irrefl _ (h.deletedLt _ hd)
  have hs := survivors_succ hnot
  have hget : (survivors s.delRows (l.internal c + 1))[l.rows.length]? = some (l.internal c) := by
    rw [hs, h.length_rows, List.getElem?_concat_length]
  obtain ⟨hlt, -⟩ := List.getElem?_eq_some_iff.1 hget
  have hdel : ∀ d ∈ s.delRows, d < l.internal c + 1 :=
    fun d hd => Nat.lt_succ_of_lt (h.deletedLt d hd)
  have hskip := getElem_skip h.increasing ((skip_lt_iff h.increasing hdel).2 hlt)
  rw [hget] at hskip
  have he := skipDeleted_eq s.delRows l.rows.length 0
  rw [Nat.add_zero] at he
  rw [show (0 : Int) = (0 : Nat) from rfl, he, ← Option.some.inj hskip]

theorem insert (h : Agrees c s l) (hcount : s.advertizedNrows = l.internal c) (row : List V) :
    Agrees c { (s.putTable (l.internal c : Nat) (some row)).markModified true (l.internal c : Nat)
        with advertizedNrows := s.advertizedNrows + 1 }
      { rows := l.rows ++ [row], appended := l.appended + 1 } := by
  have hinternal : PlainRows.internal c { rows := l.rows ++ [row], appended := l.appended + 1 } =
      l.internal c + 1 := by
    simp only [PlainRows.internal]
    omega
  have hnot : l.internal c ∉ s.delRows := fun hd => Nat.lt_irrefl _ (h.deletedLt _ hd)
  have hold : ∀ a ∈ survivors s.delRows (l.internal c), ¬ (a : Int) = (l.internal c : Nat) := by
    intro a ha
    have := (mem_survivors.1 ha).1
    omega
  refine ⟨h.random, h.increasing, ?_, ?_, ?_, ?_, ?_, h.stored⟩
  · rw [hinternal]
    exact fun d hd => Nat.lt_succ_of_lt (h.deletedLt d hd)
  · left
    rw [hinternal]
    show s.advertizedNrows + 1 = _
    rw [hcount]
    push_cast
    rfl
  · rw [hinternal]
    show (survivors s.delRows (l.internal c + 1)).map (fun a : Nat =>
      if (a : Int) = (l.internal c : Nat) then some row else s.table a) = _
    rw [survivors_succ hnot, List.map_append, List.map_append, ← h.table]
    congr 1
    · apply List.map_congr_left
      intro a ha
      simp only [hold a ha, if_false]
    · simp
  · rw [hinternal]
    intro a ha dstmt hupd
    simp only [GdaDataSelect.markModified, GdaDataSelect.putUpdRow, GdaDataSelect.putTable]
      at ha hupd ⊢
    rw [survivors_succ hnot] at ha
    split at hupd
    next hal =>
      obtain rfl := Option.some.inj hupd
      exact ⟨rfl, rfl, fun _ hrow => by cases hrow⟩
    next hne =>
      simp only [hne, if_false]
      rcases List.mem_append.1 ha with ha | ha
      · exact h.updated a ha dstmt hupd
      · obtain rfl := List.mem_singleton.1 ha
        exact absurd rfl hne
  · rw [hinternal]
    intro a ha hupd
    simp only [GdaDataSelect.markModified, GdaDataSelect.putUpdRow, GdaDataSelect.putTable]
      at ha hupd ⊢
    rw [survivors_succ hnot] at ha
    split at hupd
    · cases hupd
    next hne =>
      simp only [hne, if_false]
      rcases List.mem_append.1 ha with ha | ha
      · exact h.initial a ha hupd
      · obtain rfl := List.mem_singleton.1 ha
        exact absurd rfl hne

end Agrees

theorem externalToInternalRow_counted (c : GdaDataSelectClass V) {s : GdaDataSelect V}
    (hcount : 0 ≤ s.advertizedNrows) (pos : Int) :
    s.externalToInternalRow c pos =
      (if pos < 0 ∨ s.advertizedNrows ≤ skipDeleted s.delRows pos 0 pos then
        .error (rowError pos (s.withoutDeleted s.advertizedNrows))
      else .ok (skipDeleted s.delRows pos 0 pos), s) := by
  have hneg : ¬ s.advertizedNrows < 0 := by omega
  have hn : ¬ (s.advertizedNrows < 0 ∧ s.accessRandom = true) := fun hn => hneg hn.1
  have hrows : s.getNRows c = (s.withoutDeleted s.advertizedNrows, s) := by
    simp only [GdaDataSelect.getNRows, hn, if_false]
  simp only [GdaDataSelect.externalToInternalRow, hneg, if_false, hcount, true_and, hrows]
  split <;> rfl

/-! A number of rows which is known stays known. -/

theorem call_known {fetch : Fetch} (hcount : 0 ≤ s.advertizedNrows) :
    0 ≤ (s.call c fetch).advertizedNrows := by
  show 0 ≤ c.advertizes fetch s.advertizedNrows
  rcases c.advertizesRows fetch s.advertizedNrows with ho | ho <;> omega

theorem internalRow_known (r : Int) (hcount : 0 ≤ s.advertizedNrows) :
    0 ≤ (s.internalRow c r).2.advertizedNrows := by
  unfold internalRow delayedRow
  repeat' split
  all_goals first
    | exact hcount
    | exact call_known hcount

theorem getValueAt_known (c : GdaDataSelectClass V) {s : GdaDataSelect V} (col row : Int)
    (hcount : 0 ≤ s.advertizedNrows) : 0 ≤ (s.getValueAt c col row).2.advertizedNrows := by
  have hn : ¬ (s.advertizedNrows < 0 ∧ s.accessRandom = true) := by omega
  unfold getValueAt
  rw [externalToInternalRow_counted c hcount row]
  by_cases hout : row < 0 ∨ s.advertizedNrows ≤ skipDeleted s.delRows row 0 row
  · simp only [hout, if_true, getNRows, hn, if_false]
    split
    · exact hcount
    · split <;> exact hcount
  · simp only [hout, if_false]
    have hrow := internalRow_known (c := c) (skipDeleted s.delRows row 0 row) hcount
    generalize s.internalRow c (skipDeleted s.delRows row 0 row) = result at hrow ⊢
    obtain ⟨prow, s'⟩ := result
    split
    · exact hcount
    · split
      · exact hcount
      · cases prow <;> exact hrow

theorem readOldValues_known (c : GdaDataSelectClass V) {s : GdaDataSelect V} (row : Int)
    (cols : List Nat) (hcount : 0 ≤ s.advertizedNrows) :
    0 ≤ (readOldValues c row cols s).2.advertizedNrows := by
  induction cols generalizing s with
  | nil => exact hcount
  | cons col cols ih =>
    have hcol := getValueAt_known c col row hcount
    simp only [readOldValues]
    generalize s.getValueAt c col row = result at hcol ⊢
    obtain ⟨value, s'⟩ := result
    cases value with
    | error error => exact hcol
    | ok value => exact ih hcol

namespace Agrees

theorem advertizedNrows_ge (h : Agrees c s l) : -1 ≤ s.advertizedNrows := by
  rcases h.count with hc | ⟨hc, -⟩ <;> omega

theorem appendValues (h : Agrees c s l) (values : List (Option V))
    (hcond : values.any Option.isSome = true →
      CountStored c s ∧ m.hasLastInsert = true ∧ m.hasOneRowSelect = true) :
    Agrees c (s.appendValues c m values).2
      (if succeeds (s.appendValues c m values).1 then l.apply m (.appendValues values) else l) := by
  unfold GdaDataSelect.appendValues
  by_cases hlock : s.safelyLocked = true
  · simp only [hlock, if_true]
    exact h
  simp only [hlock, h.random, Bool.true_eq_false, if_false]
  cases hm : m.insert with
  | none => exact h
  | some insert =>
    have hn : ¬ (s.getNRows c).1 < 0 := by
      rw [h.nRows]
      omega
    have hge := h.getNRows.advertizedNrows_ge
    have hcounted := fun pos => externalToInternalRow_counted c
      (s := { (s.getNRows c).2 with advertizedNrows := (s.getNRows c).2.advertizedNrows + 1 })
      (show 0 ≤ (s.getNRows c).2.advertizedNrows + 1 by omega) pos
    by_cases hmods : values.any Option.isSome = true
    · obtain ⟨hstored, hlast, hsel⟩ := hcond hmods
      have hadv := h.advertizedNrows_getNRows hstored
      have hlen := h.getNRows.length_add
      have hrow : (s.getNRows c).2.advertizedNrows - ((s.getNRows c).2.delRows.length : Int) =
          l.rows.length := by omega
      have hskip := h.getNRows.skipDeleted_append
      have hin : ¬ ((l.rows.length : Int) < 0 ∨
          (s.getNRows c).2.advertizedNrows + 1 ≤ (l.internal c : Nat)) := by omega
      simp only [hn, if_false, hmods, Bool.true_eq_false, hrow, hcounted, hskip, hin, hlast, hsel,
        Bool.and_self, succeeds, PlainRows.apply, hm, Int.add_sub_cancel]
      exact h.getNRows.insert hadv (insert values)
    · have hmods' : values.any Option.isSome = false := by simpa using hmods
      simp only [hn, if_false, hmods', if_true, hcounted, succeeds, Bool.false_eq_true,
        Int.add_sub_cancel]
      exact h.getNRows

theorem delete (h : Agrees c s l) {pos r : Nat}
    (hr : (survivors s.delRows (l.internal c))[pos]? = some r)
    (hlast : 0 ≤ s.advertizedNrows ∨ pos + 1 = l.rows.length) :
    Agrees c { s.putTable r none with
        delRows := s.delRows.insertIdx (s.delRows.findIdx (r ≤ ·)) r }
      { l with rows := l.rows.eraseIdx pos } := by
  obtain ⟨hlt, hnot⟩ := mem_survivors.1 (List.mem_of_getElem? hr)
  have hmem : ∀ a, a ∈ s.delRows.orderedInsert (· ≤ ·) r ↔ a = r ∨ a ∈ s.delRows :=
    fun a => List.mem_orderedInsert (· ≤ ·)
  have herase := survivors_insert hmem hr
  have hold : ∀ a ∈ survivors (s.delRows.orderedInsert (· ≤ ·) r) (l.internal c),
      a ∈ survivors s.delRows (l.internal c) ∧ ¬ (a : Int) = r := by
    intro a ha
    rw [mem_survivors, hmem] at ha
    exact ⟨mem_survivors.2 ⟨ha.1, fun hd => ha.2 (.inr hd)⟩, fun hra => ha.2 (.inl (by omega))⟩
  rw [insertIdx_findIdx]
  refine ⟨h.random, orderedInsert_pairwise h.increasing hnot, ?_, ?_, ?_, ?_, ?_, h.stored⟩
  · intro d hd
    rcases (hmem d).1 hd with rfl | hd
    · exact hlt
    · exact h.deletedLt d hd
  · rcases h.count with hc | ⟨hc, ha, hs⟩
    · exact .inl hc
    · refine .inr ⟨hc, ha, ?_⟩
      have hext : pos + 1 = l.rows.length := by omega
      show survivors (s.delRows.orderedInsert (· ≤ ·) r) (l.internal c) =
        List.range (l.rows.eraseIdx pos).length
      rw [herase, hs, List.length_eraseIdx_of_lt (by omega), ← hext, Nat.add_sub_cancel,
        List.range_succ]
      simp [List.eraseIdx_append]
  · show (survivors (s.delRows.orderedInsert (· ≤ ·) r) (l.internal c)).map
      (fun a : Nat => if (a : Int) = r then none else s.table a) = (l.rows.eraseIdx pos).map some
    have hkept : (survivors (s.delRows.orderedInsert (· ≤ ·) r) (l.internal c)).map
        (fun a : Nat => if (a : Int) = r then none else s.table a) =
        (survivors (s.delRows.orderedInsert (· ≤ ·) r) (l.internal c)).map
          (fun a : Nat => s.table a) := by
      apply List.map_congr_left
      intro a ha
      simp only [(hold a ha).2, if_false]
    rw [hkept, herase, ← List.eraseIdx_map, h.table, List.eraseIdx_map]
  · intro a ha dstmt hupd
    obtain ⟨ha', hne⟩ := hold a ha
    simp only [GdaDataSelect.putTable, hne, if_false]
    exact h.updated a ha' dstmt hupd
  · intro a ha hupd
    obtain ⟨ha', hne⟩ := hold a ha
    simp only [GdaDataSelect.putTable, hne, if_false]
    exact h.initial a ha' hupd

theorem removeRow (h : Agrees c s l) (row : Int) (hkeep : ReadKeepsCount c s row)
    (hcond : CountStored c s ∨ row + 1 = (s.getNRows c).1) :
    Agrees c (s.removeRow c m row).2
      (if succeeds (s.removeRow c m row).1 then l.apply m (.removeRow row) else l) := by
  unfold GdaDataSelect.removeRow
  by_cases hlock : s.safelyLocked = true
  · simp only [hlock, if_true]
    exact h
  simp only [hlock, h.random, Bool.true_eq_false, if_false]
  by_cases hdelete : m.hasDelete = false
  · simp only [hdelete, if_true]
    exact h
  simp only [hdelete]
  by_cases hrow : row < 0 ∨ (l.rows.length : Int) ≤ row
  · obtain ⟨herr, hag, -⟩ := h.externalToInternalRow_outside hrow
    generalize s.externalToInternalRow c row = result at herr hag ⊢
    obtain ⟨found, s'⟩ := result
    obtain rfl : found = _ := herr
    exact hag
  · obtain ⟨pos, rfl⟩ := Int.eq_ofNat_of_zero_le (show 0 ≤ row by omega)
    obtain ⟨r, he, hag, hr⟩ := h.oldValues m.deleteOldParams (by omega) hkeep
    have hlast : 0 ≤ (GdaDataSelect.readOldValues c pos m.deleteOldParams
        (s.getNRows c).2).2.advertizedNrows ∨ pos + 1 = l.rows.length := by
      rcases hcond with hstored | hlast
      · have hadv := h.advertizedNrows_getNRows hstored
        exact .inl (readOldValues_known c pos m.deleteOldParams (by omega))
      · rw [h.nRows] at hlast
        exact .inr (by omega)
    simp only [he]
    generalize GdaDataSelect.readOldValues c pos m.deleteOldParams (s.getNRows c).2 = result
      at hag hr hlast ⊢
    obtain ⟨read, s'⟩ := result
    cases read with
    | error error => exact hag
    | ok _ =>
      simp only [succeeds, PlainRows.apply]
      exact hag.delete hr hlast

theorem execute (h : Agrees c s l) (call : SelectCall V) (hcond : CallCounts c m (s, l) call) :
    Agrees c (s.execute c m call).2 (if (s.execute c m call).1 then l.apply m call else l) := by
  cases call with
  | removeRow row => exact h.removeRow row hcond.1 hcond.2
  | appendValues values => exact h.appendValues values hcond
  | setValues row values => exact h.setValues row values hcond
  | getValueAt col row =>
    have hag := h.getValueAt_any col hcond
    show Agrees c _ (if _ then l else l)
    rw [ite_self]
    exact hag
  | getNRows => exact h.getNRows

theorem new (c : GdaDataSelectClass V) (nColumns : Nat) :
    Agrees c (GdaDataSelect.new c true nColumns) { rows := c.rows } := by
  have hsurvivors : survivors [] (PlainRows.internal c { rows := c.rows }) =
      List.range c.rows.length := survivors_nil _
  refine
    { random := rfl, increasing := .nil, deletedLt := ?_, count := .inr ⟨rfl, rfl, hsurvivors⟩
      table := ?_, updated := ?_, initial := fun _ _ _ => rfl, stored := ?_ }
  · intro d hd
    cases hd
  · show (survivors [] _).map _ = _
    rw [hsurvivors]
    apply List.ext_getElem?
    intro i
    simp only [List.getElem?_map]
    cases hi : c.rows[i]? with
    | none => simp [List.getElem?_eq_none_iff.1 hi]
    | some row =>
      have hlt := (List.getElem?_eq_some_iff.1 hi).1
      simp [GdaDataSelect.new, GdaDataSelectClass.fetched, hlt, ← (List.getElem?_eq_some_iff.1 hi).2]
  · intro r _ dstmt hupd
    cases hupd
  · intro r prow hr
    cases hr

theorem showsRows (h : Agrees c s l) : ShowsRows c s l := by
  refine ⟨h.increasing, h.nRows, ?_, ?_, ?_⟩
  · rw [h.length_rows]
    refine ⟨_, survivors_strictMonoOn _ _, survivors_bijOn _ _, ?_⟩
    intro pos hext
    have hget := List.getElem?_eq_getElem hext
    rw [h.externalToInternalRow_of_survivor hget]
    simp only [List.getD_eq_getElem _ _ hext]
  · intro pos hext
    exact (h.externalToInternalRow_outside hext).1
  · intro pos hext col hcol
    obtain ⟨r, hr, hp⟩ := h.exists_survivor hext
    exact h.getValueAt_value hr hp (by omega) (by omega)

end Agrees

/-- Along calls which keep the count of the rows, the model shows the plain list. -/
theorem showsRows_run (c : GdaDataSelectClass V) (m : ModifStatements V) (nColumns : Nat)
    (calls : List (SelectCall V)) (s : GdaDataSelect V) (l : PlainRows V)
    (hcalls : StepsMeet (stepWithList c m) (CallCounts c m)
      (new c true nColumns, { rows := c.rows }) calls)
    (hrun : run (stepWithList c m) (new c true nColumns, { rows := c.rows }) calls = .ok (s, l)) :
    ShowsRows c s l := by
  have hstep : ∀ p call q, Agrees c p.1 p.2 → CallCounts c m p call →
      stepWithList c m p call = .ok q → Agrees c q.1 q.2 := by
    intro p call q hag hcond hq
    obtain rfl := Except.ok.inj hq
    exact hag.execute call hcond
  have hag := run_invariant (I := fun p => Agrees c p.1 p.2) hstep (Agrees.new c nColumns) hcalls hrun
  exact hag.showsRows

/-- Three rows of one column; `fetch_nb_rows` stores their number or not. -/
def threeRows (stores : Bool) : GdaDataSelectClass Nat where
  rows := [[10], [11], [12]]
  advertizes fetch old := if stores = true ∧ fetch = .nbRows then 3 else old
  takes _ := []
  rowsFit := by decide
  advertizesRows fetch old := by
    by_cases h : stores = true ∧ fetch = .nbRows
    · exact .inr (if_pos h)
    · exact .inl (if_neg h)

def plainStatements : ModifStatements Nat where
  update := some fun row values => List.zipWith (fun old value => value.getD old) row values
  insert := some fun values => values.map (·.getD 0)
  hasDelete := true
  updateOldParams := [0]
  deleteOldParams := [0]
  hasOneRowSelect := true
  hasLastInsert := true

theorem storedCount_showsRows :
    ∃ s, ShowsRows (threeRows true) s { rows := [[11], [21]], appended := 1 } := by
  refine ⟨_, showsRows_run (threeRows true) plainStatements 1
    [.removeRow 0, .appendValues [some 20], .setValues 2 [some 21], .removeRow 1] _ _ ?_ rfl⟩
  have hkeep : ∀ s row, ReadKeepsCount (threeRows true) s row := by
    intro s row r _ _ _ _
    simp [threeRows]
  have hstored : ∀ s, CountStored (threeRows true) s := fun s => .inr (by simp [threeRows])
  refine ⟨⟨hkeep _ _, .inl (hstored _)⟩, fun t ht => ?_⟩
  obtain rfl := Except.ok.inj ht
  refine ⟨fun _ => ⟨hstored _, rfl, rfl⟩, fun t ht => ?_⟩
  obtain rfl := Except.ok.inj ht
  refine ⟨fun _ => ⟨hkeep _ _, rfl⟩, fun t ht => ?_⟩
  obtain rfl := Except.ok.inj ht
  exact ⟨⟨hkeep _ _, .inl (hstored _)⟩, fun _ _ => trivial⟩

/-- The first row is removed from a model of three rows: the row advertized at
position 1 is not found. -/
theorem remainingRow_not_shown :
    ¬ ∀ s l, run (stepWithList (threeRows false) plainStatements)
        (new (threeRows false) true 1, { rows := (threeRows false).rows }) [.removeRow 0] =
          .ok (s, l) → ShowsRows (threeRows false) s l := by
  intro h
  obtain ⟨f, -, -, hf⟩ := (h _ _ rfl).bijection
  have hfound := hf 1 (by decide)
  have hlost : ((execute (threeRows false) plainStatements (new (threeRows false) true 1)
      (.removeRow 0)).2.externalToInternalRow (threeRows false) 1).1 =
        .error (.rowOutOfRange 1 1) := by rfl
  cases hlost.symm.trans hfound

end GdaDataSelect

end LibGda
