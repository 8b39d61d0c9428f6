import LibGda.DataSelect
import LibGda.RunInvariant

/-! Removals, appends and updates of a random access `GdaDataSelect`, followed on a
plain list of rows. -/

namespace LibGda

open RunInvariant SurvivingRows

variable {V : Type}

structure PlainRows (V : Type) where
  rows : List (List V)
  appended : Nat := 0

inductive SelectCall (V : Type) where
  | removeRow (row : Int)
  | appendValues (values : List (Option V))
  | setValues (row : Int) (values : List (Option V))
  | getValueAt (col row : Int)
  | getNRows

namespace PlainRows

def apply (m : ModifStatements V) (l : PlainRows V) : SelectCall V → PlainRows V
  | .removeRow row => { l with rows := l.rows.eraseIdx row.toNat }
  | .appendValues values =>
    match m.insert with
    | some insert => { rows := l.rows ++ [insert values], appended := l.appended + 1 }
    | none => l
  | .setValues row values =>
    match m.update with
    | some update =>
      if values.any Option.isSome = true then
        { l with rows := l.rows.modify row.toNat (update · values) }
      else l
    | none => l
  | .getValueAt _ _ => l
  | .getNRows => l

def internal (c : GdaDataSelectClass V) (l : PlainRows V) : Nat :=
  c.rows.length + l.appended

end PlainRows

def succeeds {E A : Type} : Except E A → Bool
  | .ok _ => true
  | .error _ => false

namespace GdaDataSelect

def execute (c : GdaDataSelectClass V) (m : ModifStatements V) (s : GdaDataSelect V) :
    SelectCall V → Bool × GdaDataSelect V
  | .removeRow row => (succeeds (s.removeRow c m row).1, (s.removeRow c m row).2)
  | .appendValues values => (succeeds (s.appendValues c m values).1, (s.appendValues c m values).2)
  | .setValues row values => (succeeds (s.setValues c m row values).1, (s.setValues c m row values).2)
  | .getValueAt col row => (succeeds (s.getValueAt c col row).1, (s.getValueAt c col row).2)
  | .getNRows => (true, (s.getNRows c).2)

def stepWithList (c : GdaDataSelectClass V) (m : ModifStatements V)
    (p : GdaDataSelect V × PlainRows V) (call : SelectCall V) :
    Except Empty (GdaDataSelect V × PlainRows V) :=
  .ok ((p.1.execute c m call).2, if (p.1.execute c m call).1 then p.2.apply m call else p.2)

structure ShowsRows (c : GdaDataSelectClass V) (s : GdaDataSelect V) (l : PlainRows V) : Prop where
  increasing : s.delRows.Pairwise (· < ·)
  nRows : (s.getNRows c).1 = l.rows.length
  bijection : ∃ f : Nat → Nat, StrictMonoOn f (Set.Iio l.rows.length) ∧
    Set.BijOn f (Set.Iio l.rows.length) {r | r < l.internal c ∧ r ∉ s.delRows} ∧
    ∀ pos < l.rows.length, (s.externalToInternalRow c pos).1 = .ok (f pos : Int)
  outside : ∀ pos : Int, pos < 0 ∨ (l.rows.length : Int) ≤ pos →
    (s.externalToInternalRow c pos).1 = .error (rowError pos l.rows.length)
  shown : ∀ pos (h : pos < l.rows.length) (col : Nat), col < s.nColumns →
    (s.getValueAt c col pos).1 = rowValue l.rows[pos] col

/-- `advertized_nrows` is known, or `fetch_nb_rows` stores it. -/
def CountStored (c : GdaDataSelectClass V) (s : GdaDataSelect V) : Prop :=
  0 ≤ s.advertizedNrows ∨ 0 ≤ c.advertizes .nbRows s.advertizedNrows

/-- Where reading an internal row needs `fetch_random`, the rows appended since the
start are still counted after it. -/
def KeepsCount (c : GdaDataSelectClass V) (s : GdaDataSelect V) (r : Int) : Prop :=
  s.updRows r = none → s.storedRow r = none → (c.rows.length : Int) < s.advertizedNrows →
    c.advertizes (.random r) s.advertizedNrows = s.advertizedNrows

def ReadKeepsCount (c : GdaDataSelectClass V) (s : GdaDataSelect V) (row : Int) : Prop :=
  ∀ r, (s.externalToInternalRow c row).1 = .ok r → KeepsCount c s r

def CallCounts (c : GdaDataSelectClass V) (m : ModifStatements V)
    (p : GdaDataSelect V × PlainRows V) : SelectCall V → Prop
  | .removeRow row =>
    ReadKeepsCount c p.1 row ∧ (CountStored c p.1 ∨ row + 1 = (p.1.getNRows c).1)
  | .appendValues values => values.any Option.isSome = true →
    CountStored c p.1 ∧ m.hasLastInsert = true ∧ m.hasOneRowSelect = true
  | .setValues row values => values.any Option.isSome = true →
    ReadKeepsCount c p.1 row ∧ m.hasOneRowSelect = true
  | .getValueAt _ row => ReadKeepsCount c p.1 row
  | .getNRows => True

structure Agrees (c : GdaDataSelectClass V) (s : GdaDataSelect V) (l : PlainRows V) : Prop where
  random : s.accessRandom = true
  increasing : s.delRows.Pairwise (· < ·)
  deletedLt : ∀ d ∈ s.delRows, d < l.internal c
  count : s.advertizedNrows = l.internal c ∨
    (s.advertizedNrows = -1 ∧ l.appended = 0 ∧
      survivors s.delRows (l.internal c) = List.range l.rows.length)
  table : (survivors s.delRows (l.internal c)).map (fun r : Nat => s.table (r : Int)) =
    l.rows.map some
  updated : ∀ r ∈ survivors s.delRows (l.internal c), ∀ dstmt, s.updRows r = some dstmt →
    dstmt.hasSelect = true ∧ dstmt.execError = none ∧
      ∀ prow, dstmt.row = some prow → s.table r = some prow
  initial : ∀ r ∈ survivors s.delRows (l.internal c), s.updRows r = none →
    c.fetched r = s.table r
  stored : ∀ r prow, s.storedRow r = some prow → c.fetched r = some prow

variable {c : GdaDataSelectClass V} {m : ModifStatements V} {s : GdaDataSelect V} {l : PlainRows V}

theorem skipDeleted_eq (delRows : List Nat) (pos i : Nat) :
    skipDeleted delRows pos i ((pos + i : Nat) : Int) = (skip delRows (pos + i) : Nat) := by
  induction delRows generalizing i with
  | nil => rfl
  | cons d delRows ih =>
    by_cases hle : d ≤ pos + i
    · have hle' : (d : Int) ≤ pos + i := by exact_mod_cast hle
      simp only [skipDeleted, skip, hle, hle', if_true]
      have h := ih (i + 1)
      push_cast at h ⊢
      rw [Int.add_assoc]
      exact h
    · have hle' : ¬ (d : Int) ≤ pos + i := by exact_mod_cast hle
      simp only [skipDeleted, skip, hle, hle', if_false]

namespace Agrees

theorem nodup (h : Agrees c s l) : s.delRows.Nodup :=
  h.increasing.imp Nat.ne_of_lt

theorem length_rows (h : Agrees c s l) :
    l.rows.length = (survivors s.delRows (l.internal c)).length := by
  have hl := congrArg List.length h.table
  simpa using hl.symm

theorem length_add (h : Agrees c s l) : l.rows.length + s.delRows.length = l.internal c := by
  rw [h.length_rows]
  exact length_survivors h.nodup h.deletedLt

theorem table_at (h : Agrees c s l) {i r : Nat}
    (hr : (survivors s.delRows (l.internal c))[i]? = some r) : s.table r = l.rows[i]? := by
  have hi := congrArg (·[i]?) h.table
  simp only [List.getElem?_map, hr, Option.map_some] at hi
  cases hrow : l.rows[i]? with
  | none => simp [hrow] at hi
  | some row => simpa [hrow] using hi

theorem withoutDeleted (h : Agrees c s l) : s.withoutDeleted (l.internal c) = l.rows.length := by
  have hl := h.length_add
  unfold GdaDataSelect.withoutDeleted
  split <;> omega

theorem nRows (h : Agrees c s l) : (s.getNRows c).1 = l.rows.length := by
  have hw := h.withoutDeleted
  rcases h.count with hc | ⟨hc, ha, -⟩
  · have hn : ¬ (s.advertizedNrows < 0 ∧ s.accessRandom = true) := by omega
    simp only [getNRows, hn, if_false]
    rw [hc, hw]
  · have hn : s.advertizedNrows < 0 ∧ s.accessRandom = true := ⟨by omega, h.random⟩
    simp only [getNRows, hn, and_self, if_true]
    rw [PlainRows.internal, ha] at hw
    exact hw

theorem call (h : Agrees c s l) (fetch : Fetch)
    (hkeep : (c.rows.length : Int) < s.advertizedNrows →
      c.advertizes fetch s.advertizedNrows = s.advertizedNrows) :
    Agrees c (s.call c fetch) l := by
  refine { h with count := ?_, stored := ?_ }
  · show c.advertizes fetch s.advertizedNrows = l.internal c ∨
      (c.advertizes fetch s.advertizedNrows = -1 ∧ _)
    rcases h.count with hc | ⟨hc, ha, hs⟩
    · left
      by_cases hlt : (c.rows.length : Int) < s.advertizedNrows
      · rw [hkeep hlt, hc]
      · have hn : s.advertizedNrows = c.rows.length := by
          rw [hc, PlainRows.internal] at hlt ⊢
          omega
        rcases c.advertizesRows fetch s.advertizedNrows with ho | ho
        · rw [ho, hc]
        · rw [ho, ← hn, hc]
    · rcases c.advertizesRows fetch s.advertizedNrows with ho | ho
      · right
        exact ⟨ho.trans hc, ha, hs⟩
      · left
        rw [ho, PlainRows.internal, ha, Nat.add_zero]
  · intro r prow hr
    simp only [GdaDataSelect.call] at hr
    split at hr
    · exact hr
    · exact h.stored r prow hr

theorem getNRows (h : Agrees c s l) : Agrees c (s.getNRows c).2 l := by
  unfold GdaDataSelect.getNRows
  split
  next hn => exact h.call .nbRows (by omega)
  · exact h

@[simp] theorem delRows_getNRows (c : GdaDataSelectClass V) (s : GdaDataSelect V) :
    (s.getNRows c).2.delRows = s.delRows := by
  unfold GdaDataSelect.getNRows
  split <;> rfl

theorem skipDeleted_of_survivor (h : Agrees c s l) {pos r : Nat}
    (hr : (survivors s.delRows (l.internal c))[pos]? = some r) :
    skipDeleted s.delRows pos 0 pos = r := by
  obtain ⟨hlt, -⟩ := List.getElem?_eq_some_iff.1 hr
  have hskip := getElem_skip h.increasing ((skip_lt_iff h.increasing h.deletedLt).2 hlt)
  rw [hr] at hskip
  have he := skipDeleted_eq s.delRows pos 0
  rw [Nat.add_zero] at he
  rw [show (0 : Int) = (0 : Nat) from rfl, he, ← Option.some.inj hskip]

theorem le_skipDeleted (h : Agrees c s l) {pos : Nat} (hext : l.rows.length ≤ pos) :
    (l.internal c : Int) ≤ skipDeleted s.delRows pos 0 pos := by
  have hskip := skip_lt_iff (i := pos) h.increasing h.deletedLt
  rw [← h.length_rows] at hskip
  have he := skipDeleted_eq s.delRows pos 0
  rw [Nat.add_zero] at he
  rw [show (0 : Int) = (0 : Nat) from rfl, he]
  omega

theorem internal_of_survivor (h : Agrees c s l) (hc : s.advertizedNrows < 0) {pos r : Nat}
    (hr : (survivors s.delRows (l.internal c))[pos]? = some r) : r < l.rows.length := by
  rcases h.count with hn | ⟨-, -, hs⟩
  · omega
  · rw [hs] at hr
    obtain ⟨hlt, hget⟩ := List.getElem?_eq_some_iff.1 hr
    simp only [List.length_range] at hlt
    simp only [List.getElem_range] at hget
    omega

theorem externalToInternalRow_of_survivor (h : Agrees c s l) {pos r : Nat}
    (hr : (survivors s.delRows (l.internal c))[pos]? = some r) :
    s.externalToInternalRow c pos = (.ok (r : Int), (s.getNRows c).2) := by
  have hskip := h.skipDeleted_of_survivor hr
  have hmem := mem_survivors.1 (List.mem_of_getElem? hr)
  by_cases hc : s.advertizedNrows < 0
  · have hlt := h.internal_of_survivor hc hr
    have hn := h.nRows
    have hin : ¬ ((pos : Int) < 0 ∨ (0 ≤ (s.getNRows c).1 ∧ (s.getNRows c).1 ≤ r)) := by omega
    simp only [GdaDataSelect.externalToInternalRow, hc, if_true, hskip, hin, if_false]
  · have hcount : s.advertizedNrows = l.internal c := by
      rcases h.count with hn | ⟨hn, -⟩
      · exact hn
      · omega
    have hin : ¬ ((pos : Int) < 0 ∨ (0 ≤ s.advertizedNrows ∧ s.advertizedNrows ≤ r)) := by omega
    have hn : ¬ (s.advertizedNrows < 0 ∧ s.accessRandom = true) := fun hn => hc hn.1
    have hs : (s.getNRows c).2 = s := by simp only [GdaDataSelect.getNRows, hn, if_false]
    rw [hs]
    simp only [GdaDataSelect.externalToInternalRow, hc, if_false, hskip, hin]

theorem externalToInternalRow_outside (h : Agrees c s l) {pos : Int}
    (hext : pos < 0 ∨ (l.rows.length : Int) ≤ pos) :
    (s.externalToInternalRow c pos).1 = .error (rowError pos l.rows.length) ∧
      Agrees c (s.externalToInternalRow c pos).2 l ∧
      (s.externalToInternalRow c pos).2.delRows = s.delRows := by
  have hle : pos < 0 ∨ (l.internal c : Int) ≤ skipDeleted s.delRows pos 0 pos := by
    rcases hext with hneg | hlen
    · exact .inl hneg
    · obtain ⟨e, rfl⟩ := Int.eq_ofNat_of_zero_le (show 0 ≤ pos by omega)
      exact .inr (h.le_skipDeleted (by omega))
  have hl := h.length_add
  have hn := h.nRows
  by_cases hc : s.advertizedNrows < 0
  · have hout : pos < 0 ∨
        (0 ≤ (s.getNRows c).1 ∧ (s.getNRows c).1 ≤ skipDeleted s.delRows pos 0 pos) := by omega
    simp only [GdaDataSelect.externalToInternalRow, hc, if_true, hout]
    exact ⟨by rw [h.getNRows.nRows], h.getNRows.getNRows, by simp⟩
  · have hcount : s.advertizedNrows = l.internal c := by
      rcases h.count with hn | ⟨hn, -⟩
      · exact hn
      · omega
    have hout : pos < 0 ∨
        (0 ≤ s.advertizedNrows ∧ s.advertizedNrows ≤ skipDeleted s.delRows pos 0 pos) := by omega
    simp only [GdaDataSelect.externalToInternalRow, hc, if_false, hout, if_true]
    exact ⟨by rw [hn], h.getNRows, by simp⟩

theorem exists_survivor (h : Agrees c s l) {pos : Nat} (hext : pos < l.rows.length) :
    ∃ r, (survivors s.delRows (l.internal c))[pos]? = some r ∧ s.table r = some l.rows[pos] := by
  have hlt : pos < (survivors s.delRows (l.internal c)).length := by rwa [← h.length_rows]
  have hr := List.getElem?_eq_getElem hlt
  refine ⟨_, hr, ?_⟩
  rw [h.table_at hr, List.getElem?_eq_getElem hext]

theorem putUpdRow (h : Agrees c s l) {r : Nat} {dstmt : DelayedSelectStmt V} {prow : List V}
    (hd : dstmt.hasSelect = true ∧ dstmt.execError = none) (hp : s.table r = some prow) :
    Agrees c (s.putUpdRow r { dstmt with row := some prow }) l := by
  refine { h with updated := ?_, initial := ?_ }
  · intro a ha d hupd
    simp only [GdaDataSelect.putUpdRow] at hupd
    split at hupd
    next har =>
      obtain rfl := Option.some.inj hupd
      refine ⟨hd.1, hd.2, fun p hrow => ?_⟩
      rw [← Option.some.inj hrow, har]
      exact hp
    · exact h.updated a ha d hupd
  · intro a ha hupd
    simp only [GdaDataSelect.putUpdRow] at hupd
    split at hupd
    · cases hupd
    · exact h.initial a ha hupd

theorem internalRow_value (h : Agrees c s l) {r : Nat} {prow : List V}
    (hr : r ∈ survivors s.delRows (l.internal c)) (hp : s.table r = some prow) :
    (s.internalRow c r).1 = .ok prow := by
  cases hupd : s.updRows r with
  | some dstmt =>
    obtain ⟨hsel, herr, hrow⟩ := h.updated r hr dstmt hupd
    cases hd : dstmt.row with
    | some p =>
      have hpp : p = prow := Option.some.inj ((hrow p hd).symm.trans hp)
      simp only [GdaDataSelect.internalRow, hupd, delayedRow, hd, hpp]
    | none =>
      simp only [GdaDataSelect.internalRow, hupd, delayedRow, hd, herr, hsel, Bool.true_eq_false,
        if_false, hp]
  | none =>
    have hf : c.fetched r = some prow := by rw [h.initial r hr hupd, hp]
    cases hst : s.storedRow r with
    | some p =>
      have hpp : p = prow := Option.some.inj ((h.stored r p hst).symm.trans hf)
      simp only [GdaDataSelect.internalRow, hupd, hst, hpp]
    | none => simp only [GdaDataSelect.internalRow, hupd, hst, hf]

theorem internalRow (h : Agrees c s l) {r : Nat} {prow : List V}
    (hr : r ∈ survivors s.delRows (l.internal c)) (hp : s.table r = some prow)
    (hkeep : KeepsCount c s r) :
    Agrees c (s.internalRow c r).2 l ∧ (s.internalRow c r).2.delRows = s.delRows ∧
      KeepsCount c (s.internalRow c r).2 r := by
  cases hupd : s.updRows r with
  | some dstmt =>
    obtain ⟨hsel, herr, -⟩ := h.updated r hr dstmt hupd
    cases hd : dstmt.row with
    | some p =>
      simp only [GdaDataSelect.internalRow, hupd, delayedRow, hd]
      exact ⟨h, trivial, hkeep⟩
    | none =>
      have hput := h.putUpdRow ⟨hsel, herr⟩ hp
      simp only [GdaDataSelect.internalRow, hupd, delayedRow, hd, herr, hsel, Bool.true_eq_false,
        if_false, hp] at hput ⊢
      refine ⟨hput, rfl, fun hnone => ?_⟩
      simp [GdaDataSelect.putUpdRow] at hnone
  | none =>
    have hf : c.fetched r = some prow := by rw [h.initial r hr hupd, hp]
    cases hst : s.storedRow r with
    | some p =>
      simp only [GdaDataSelect.internalRow, hupd, hst]
      exact ⟨h, trivial, hkeep⟩
    | none =>
      simp only [GdaDataSelect.internalRow, hupd, hst, hf]
      refine ⟨h.call _ (hkeep hupd hst), rfl, fun _ _ hlt => ?_⟩
      show c.advertizes (.random r) (c.advertizes (.random r) s.advertizedNrows) =
        c.advertizes (.random r) s.advertizedNrows
      have hlt' : (c.rows.length : Int) < c.advertizes (.random r) s.advertizedNrows := hlt
      rcases c.advertizesRows (.random r) s.advertizedNrows with ho | ho
      · rw [ho]
        exact ho
      · omega

end Agrees

theorem KeepsCount.getNRows {r : Int} (hkeep : KeepsCount c s r) :
    KeepsCount c (s.getNRows c).2 r := by
  unfold GdaDataSelect.getNRows
  split
  next hn =>
    intro _ _ hlt
    have hlt' : (c.rows.length : Int) < c.advertizes .nbRows s.advertizedNrows := hlt
    rcases c.advertizesRows .nbRows s.advertizedNrows with ho | ho
    · omega
    · omega
  · exact hkeep

theorem table_getNRows (c : GdaDataSelectClass V) (s : GdaDataSelect V) :
    (s.getNRows c).2.table = s.table := by
  unfold GdaDataSelect.getNRows
  split <;> rfl

namespace Agrees

theorem getValueAt_value (h : Agrees c s l) {pos r : Nat} {prow : List V} {col : Int}
    (hr : (survivors s.delRows (l.internal c))[pos]? = some r) (hp : s.table r = some prow)
    (hpos : 0 ≤ col) (hlt : col < s.nColumns) :
    (s.getValueAt c col pos).1 = rowValue prow col.toNat := by
  have hcol : ¬ ((s.nColumns : Int) ≤ col ∨ col < 0) := by omega
  have hmem := List.mem_of_getElem? hr
  rw [← delRows_getNRows c s] at hmem
  have hrow := h.getNRows.internalRow_value hmem ((congrFun (table_getNRows c s) r).trans hp)
  simp only [GdaDataSelect.getValueAt, h.random, Bool.true_eq_false, if_false, hcol,
    h.externalToInternalRow_of_survivor hr]
  generalize (s.getNRows c).2.internalRow c r = result at hrow ⊢
  obtain ⟨value, s'⟩ := result
  obtain rfl : value = .ok prow := hrow
  rfl

theorem getValueAt (h : Agrees c s l) {pos r : Nat} {prow : List V} (col : Int)
    (hr : (survivors s.delRows (l.internal c))[pos]? = some r) (hp : s.table r = some prow)
    (hkeep : KeepsCount c s r) :
    Agrees c (s.getValueAt c col pos).2 l ∧ (s.getValueAt c col pos).2.delRows = s.delRows ∧
      KeepsCount c (s.getValueAt c col pos).2 r := by
  by_cases hcol : (s.nColumns : Int) ≤ col ∨ col < 0
  · simp only [GdaDataSelect.getValueAt, h.random, Bool.true_eq_false, if_false, hcol, if_true]
    exact ⟨h, trivial, hkeep⟩
  · have hmem := List.mem_of_getElem? hr
    rw [← delRows_getNRows c s] at hmem
    have hrow := h.getNRows.internalRow hmem ((congrFun (table_getNRows c s) r).trans hp)
      hkeep.getNRows
    rw [delRows_getNRows] at hrow
    simp only [GdaDataSelect.getValueAt, h.random, Bool.true_eq_false, if_false, hcol,
      h.externalToInternalRow_of_survivor hr]
    generalize (s.getNRows c).2.internalRow c r = result at hrow ⊢
    obtain ⟨value, s'⟩ := result
    cases value <;> exact hrow

end Agrees

end GdaDataSelect

end LibGda
