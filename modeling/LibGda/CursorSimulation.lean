import LibGda.DataSelect
import LibGda.RunInvariant

/-! The iterator of a `GdaDataSelect` with cursor based access moves like a cursor over
the positions before the first row, at a row and after the last row. -/

namespace LibGda

open RunInvariant

variable {V : Type}

inductive Cursor where
  | before
  | at (row : Nat)
  | after
  deriving DecidableEq

namespace Cursor

def isAt : Cursor → Bool
  | .at _ => true
  | _ => false

def next (n : Nat) : Cursor → Cursor
  | .before => if 0 < n then .at 0 else .after
  | .at row => if row + 1 < n then .at (row + 1) else .after
  | .after => .after

def prev (n : Nat) : Cursor → Cursor
  | .before => .before
  | .at 0 => .before
  | .at (row + 1) => .at row
  | .after => if 0 < n then .at (n - 1) else .before

/-- What a call gives over `n` rows: a move succeeds when its target is a row. -/
def Moves (n : Nat) (cursor : Cursor) : CursorCall → Bool → Cursor → Prop
  | .iterNext, ok, cursor' => cursor' = cursor.next n ∧ ok = cursor'.isAt
  | .iterPrev, ok, cursor' => cursor' = cursor.prev n ∧ ok = cursor'.isAt
  | .iterAtRow row, ok, cursor' =>
    if 0 ≤ row ∧ row < n then ok = true ∧ cursor' = .at row.toNat
    else ok = false ∧ cursor'.isAt = false

end Cursor

namespace GdaDataSelect

def ShowsCursor (c : GdaDataSelectClass V) (s : GdaDataSelect V) : Cursor → Prop
  | .at row => s.iter.row = row ∧ s.iter.contents = c.rows[row]? ∧ row < c.rows.length
  | _ => s.iter.row = -1 ∧ s.iter.contents = none

def AtPosition (c : GdaDataSelectClass V) (s : GdaDataSelect V) : Cursor → Prop
  | .before => s.iterRow = gMinInt ∨ s.iterRow = -1
  | .at row => s.iterRow = row ∧ s.currentProw.isSome = true ∧ s.currentProwRow = row
  | .after => s.iterRow = gMaxInt ∧ s.advertizedNrows = c.rows.length

structure FollowsCursor (c : GdaDataSelectClass V) (s : GdaDataSelect V) (cursor : Cursor) :
    Prop where
  notRandom : s.accessRandom = false
  noDeleted : s.delRows = []
  count : s.advertizedNrows = -1 ∨ s.advertizedNrows = c.rows.length
  stored : ∀ r prow, s.storedRow r = some prow → c.fetched r = some prow
  lastShown : ∀ prow, s.currentProw = some prow → c.fetched s.currentProwRow = some prow
  shows : ShowsCursor c s cursor
  position : AtPosition c s cursor

variable {c : GdaDataSelectClass V} {s : GdaDataSelect V} {cursor : Cursor}

theorem fetched_eq_some {r : Int} {prow : List V} (h : c.fetched r = some prow) :
    ∃ k : Nat, r = k ∧ k < c.rows.length ∧ c.rows[k]? = some prow := by
  unfold GdaDataSelectClass.fetched at h
  split at h
  · cases h
  · obtain ⟨hlt, -⟩ := List.getElem?_eq_some_iff.1 h
    exact ⟨r.toNat, by omega, hlt, h⟩

theorem fetched_eq_none_iff {r : Int} :
    c.fetched r = none ↔ r < 0 ∨ (c.rows.length : Int) ≤ r := by
  unfold GdaDataSelectClass.fetched
  split
  next hneg => simp [hneg]
  next hneg =>
    rw [List.getElem?_eq_none_iff]
    omega

theorem fetched_getElem {k : Nat} (hlt : k < c.rows.length) : c.fetched k = some c.rows[k] := by
  have hpos : ¬ (k : Int) < 0 := by omega
  simp [GdaDataSelectClass.fetched, hpos, hlt]

namespace FollowsCursor

theorem externalToInternalRow (h : FollowsCursor c s cursor) (row : Int) :
    (s.externalToInternalRow c row).2 = s ∧
      (intRowOf (s.externalToInternalRow c row).1 = row ∨
        (intRowOf (s.externalToInternalRow c row).1 = -1 ∧ c.fetched row = none ∧
          (row < 0 ∨ s.advertizedNrows = c.rows.length))) := by
  have hn : ¬ (s.advertizedNrows < 0 ∧ s.accessRandom = true) := by simp [h.notRandom]
  have hrows : s.getNRows c = (s.withoutDeleted s.advertizedNrows, s) := by
    simp only [getNRows, hn, if_false]
  have hw : s.withoutDeleted s.advertizedNrows = s.advertizedNrows := by
    simp [withoutDeleted, h.noDeleted]
  have he : s.externalToInternalRow c row =
      (if row < 0 ∨ (0 ≤ s.advertizedNrows ∧ s.advertizedNrows ≤ row) then
        .error (rowError row s.advertizedNrows) else .ok row, s) := by
    simp only [GdaDataSelect.externalToInternalRow, hrows, hw, h.noDeleted, skipDeleted, ite_self]
    split <;> rfl
  rw [he]
  refine ⟨rfl, ?_⟩
  by_cases hout : row < 0 ∨ (0 ≤ s.advertizedNrows ∧ s.advertizedNrows ≤ row)
  · right
    simp only [hout, if_true, intRowOf, true_and]
    rw [fetched_eq_none_iff]
    rcases h.count with hc | hc
    · omega
    · omega
  · left
    simp only [hout, if_false, intRowOf]

theorem fetched_intRow (h : FollowsCursor c s cursor) (row : Int) :
    c.fetched (intRowOf (s.externalToInternalRow c row).1) = c.fetched row := by
  rcases (h.externalToInternalRow row).2 with hr | ⟨hr, hnone, -⟩
  · rw [hr]
  · rw [hr, hnone]
    exact fetched_eq_none_iff.2 (.inl (by decide))

structure KeepsRows (c : GdaDataSelectClass V) (s s' : GdaDataSelect V) : Prop where
  notRandom : s'.accessRandom = s.accessRandom
  noDeleted : s'.delRows = s.delRows
  count : s'.advertizedNrows = s.advertizedNrows ∨ s'.advertizedNrows = c.rows.length
  stored : ∀ r prow, s'.storedRow r = some prow → c.fetched r = some prow
  lastShown : s'.currentProw = s.currentProw ∧ s'.currentProwRow = s.currentProwRow

theorem keepsRows_self (h : FollowsCursor c s cursor) : KeepsRows c s s :=
  ⟨rfl, rfl, .inl rfl, h.stored, rfl, rfl⟩

theorem keepsRows_call (h : FollowsCursor c s cursor) (fetch : Fetch) :
    KeepsRows c s (s.call c fetch) := by
  refine ⟨rfl, rfl, c.advertizesRows fetch s.advertizedNrows, ?_, rfl, rfl⟩
  intro r prow hr
  simp only [GdaDataSelect.call] at hr
  split at hr
  · exact hr
  · exact h.stored r prow hr

theorem storedOrFetched (h : FollowsCursor c s cursor) (fetch : Int → Fetch) (row : Int) :
    (s.storedOrFetched c fetch row).1 = c.fetched row ∧
      KeepsRows c s (s.storedOrFetched c fetch row).2 := by
  unfold GdaDataSelect.storedOrFetched
  cases hs : s.storedRow row with
  | some prow => exact ⟨(h.stored row prow hs).symm, h.keepsRows_self⟩
  | none => exact ⟨rfl, h.keepsRows_call _⟩

theorem count_of_keepsRows (h : FollowsCursor c s cursor) {s' : GdaDataSelect V}
    (hk : KeepsRows c s s') :
    s'.advertizedNrows = -1 ∨ s'.advertizedNrows = c.rows.length := by
  rcases hk.count with hc | hc
  · rw [hc]
    exact h.count
  · exact .inr hc

theorem updateIter (h : FollowsCursor c s cursor) {s' : GdaDataSelect V} (hk : KeepsRows c s s')
    {row : Int} {prow : List V} (hf : c.fetched row = some prow) :
    ∃ k : Nat, row = k ∧ k < c.rows.length ∧ FollowsCursor c (s'.updateIter row prow) (.at k) := by
  obtain ⟨k, rfl, hlt, hget⟩ := fetched_eq_some hf
  have hcount := h.count_of_keepsRows hk
  refine ⟨k, rfl, hlt, hk.notRandom.trans h.notRandom, hk.noDeleted.trans h.noDeleted, hcount,
    hk.stored, ?_, ⟨rfl, hget.symm, hlt⟩, rfl, rfl, rfl⟩
  intro p hp
  rw [← Option.some.inj hp]
  exact hf

theorem beforeFirst (h : FollowsCursor c s cursor) {s' : GdaDataSelect V} (hk : KeepsRows c s s') :
    FollowsCursor c s'.beforeFirst .before := by
  have hcount := h.count_of_keepsRows hk
  refine ⟨hk.notRandom.trans h.notRandom, hk.noDeleted.trans h.noDeleted, hcount, hk.stored, ?_,
    ⟨rfl, rfl⟩, .inl rfl⟩
  intro p hp
  have hp' := h.lastShown p (hk.lastShown.1.symm.trans hp)
  rw [← hk.lastShown.2] at hp'
  exact hp'

theorem afterLast (h : FollowsCursor c s cursor) {s' : GdaDataSelect V} (hk : KeepsRows c s s')
    (hcount : s'.advertizedNrows = c.rows.length) :
    FollowsCursor c { s'.invalidateContents.setCurrentRow (-1) with iterRow := gMaxInt } .after := by
  refine ⟨hk.notRandom.trans h.notRandom, hk.noDeleted.trans h.noDeleted, .inr hcount, hk.stored,
    ?_, ⟨rfl, rfl⟩, rfl, hcount⟩
  intro p hp
  have hp' := h.lastShown p (hk.lastShown.1.symm.trans hp)
  rw [← hk.lastShown.2] at hp'
  exact hp'

theorem iterNext_target (h : FollowsCursor c s cursor)
    (hend : ∀ old, c.advertizes (.next c.rows.length) old = c.rows.length)
    (hne : s.iterRow ≠ gMaxInt) {t : Nat}
    (ht : (if s.iterRow = gMinInt then 0 else s.iterRow + 1) = (t : Int))
    (hle : t ≤ c.rows.length) :
    (s.iterNext c).1 = Cursor.isAt (if t < c.rows.length then .at t else .after) ∧
      FollowsCursor c (s.iterNext c).2 (if t < c.rows.length then .at t else .after) := by
  have hfetched := h.fetched_intRow (t : Int)
  obtain ⟨hstate, hint⟩ := h.externalToInternalRow (t : Int)
  simp only [GdaDataSelect.iterNext, hne, if_false, ht]
  generalize s.externalToInternalRow c (t : Int) = result at hfetched hstate hint ⊢
  obtain ⟨found, s₀⟩ := result
  obtain rfl : s₀ = s := hstate
  obtain ⟨hprow, hkeep⟩ := h.storedOrFetched .next (intRowOf found)
  simp only at hfetched hint ⊢
  by_cases hlt : t < c.rows.length
  · have hsome := fetched_getElem hlt
    rw [hfetched, hsome] at hprow
    generalize s₀.storedOrFetched c .next (intRowOf found) = fetched at hprow hkeep ⊢
    obtain ⟨prow, s'⟩ := fetched
    obtain rfl : prow = some c.rows[t] := hprow
    obtain ⟨k, hk, -, hfollows⟩ := h.updateIter hkeep hsome
    obtain rfl : t = k := by omega
    simp only [hlt, if_true]
    exact ⟨rfl, hfollows⟩
  · have hnone : c.fetched t = none := fetched_eq_none_iff.2 (.inr (by omega))
    rw [hfetched, hnone] at hprow
    have hcount : (s₀.storedOrFetched c .next (intRowOf found)).2.advertizedNrows =
        c.rows.length := by
      unfold GdaDataSelect.storedOrFetched
      cases hs : s₀.storedRow (intRowOf found) with
      | some prow =>
        have := h.stored _ prow hs
        rw [hfetched, hnone] at this
        cases this
      | none =>
        show c.advertizes (.next (intRowOf found)) s₀.advertizedNrows = c.rows.length
        rcases hint with hrow | ⟨-, -, hrow⟩
        · have htn : intRowOf found = (c.rows.length : Int) := by omega
          rw [htn]
          exact hend _
        · rcases c.advertizesRows (.next (intRowOf found)) s₀.advertizedNrows with ho | ho
          · omega
          · exact ho
    generalize s₀.storedOrFetched c .next (intRowOf found) = fetched at hprow hkeep hcount ⊢
    obtain ⟨prow, s'⟩ := fetched
    obtain rfl : prow = none := hprow
    simp only [hlt, if_false]
    exact ⟨rfl, h.afterLast hkeep hcount⟩

theorem iterNext (h : FollowsCursor c s cursor)
    (hend : ∀ old, c.advertizes (.next c.rows.length) old = c.rows.length) :
    (s.iterNext c).1 = (cursor.next c.rows.length).isAt ∧
      FollowsCursor c (s.iterNext c).2 (cursor.next c.rows.length) := by
  have hfit := c.rowsFit
  cases cursor with
  | before =>
    have ht : (if s.iterRow = gMinInt then 0 else s.iterRow + 1) = ((0 : Nat) : Int) := by
      rcases h.position with hp | hp
      · simp [hp]
      · rw [hp]
        rfl
    have hne : s.iterRow ≠ gMaxInt := by
      rcases h.position with hp | hp <;> rw [hp] <;> decide
    exact h.iterNext_target hend hne ht (Nat.zero_le _)
  | «at» row =>
    have hrow := h.shows.2.2
    have hp := h.position.1
    have ht : (if s.iterRow = gMinInt then 0 else s.iterRow + 1) = ((row + 1 : Nat) : Int) := by
      have hmin : ¬ s.iterRow = gMinInt := by
        rw [hp, gMinInt]
        omega
      rw [if_neg hmin, hp]
      rfl
    have hne : s.iterRow ≠ gMaxInt := by
      rw [hp]
      omega
    exact h.iterNext_target hend hne ht hrow
  | after =>
    have hp := h.position.1
    simp only [GdaDataSelect.iterNext, hp, if_true]
    exact ⟨rfl, { h with shows := ⟨h.shows.1, rfl⟩ }⟩

theorem iterPrev_target (h : FollowsCursor c s cursor) (hfetch : c.hasFetchPrev = true)
    (hpos : ¬ s.iterRow ≤ 0) (hassert : ¬ (s.iterRow = gMaxInt ∧ s.advertizedNrows < 0)) {t : Int}
    (ht : (if s.iterRow = gMaxInt then s.advertizedNrows - 1 else s.iterRow - 1) = t)
    {cursor' : Cursor}
    (hcursor : if t < 0 then cursor' = .before else cursor' = .at t.toNat ∧ t < c.rows.length) :
    ∃ s', s.iterPrev c = .ok (cursor'.isAt, s') ∧ FollowsCursor c s' cursor' := by
  have hfetched := h.fetched_intRow t
  obtain ⟨hstate, -⟩ := h.externalToInternalRow t
  simp only [GdaDataSelect.iterPrev, hpos, if_false, hassert, ht, hfetch]
  generalize s.externalToInternalRow c t = result at hfetched hstate ⊢
  obtain ⟨found, s₀⟩ := result
  obtain rfl : s₀ = s := hstate
  obtain ⟨hprow, hkeep⟩ := h.storedOrFetched .prev (intRowOf found)
  simp only [Bool.true_eq_false, and_false, if_false] at hfetched ⊢
  rw [hfetched] at hprow
  generalize s₀.storedOrFetched c .prev (intRowOf found) = fetched at hprow hkeep ⊢
  obtain ⟨prow, s'⟩ := fetched
  by_cases hneg : t < 0
  · rw [fetched_eq_none_iff.2 (.inl hneg)] at hprow
    obtain rfl : prow = none := hprow
    rw [if_pos hneg] at hcursor
    rw [hcursor]
    exact ⟨_, rfl, h.beforeFirst hkeep⟩
  · rw [if_neg hneg] at hcursor
    obtain ⟨rfl, hlt⟩ := hcursor
    obtain ⟨k, rfl⟩ := Int.eq_ofNat_of_zero_le (show 0 ≤ t by omega)
    have hsome := fetched_getElem (show k < c.rows.length by omega)
    rw [hsome] at hprow
    obtain rfl : prow = some _ := hprow
    obtain ⟨k', hk, -, hfollows⟩ := h.updateIter hkeep hsome
    obtain rfl : k = k' := by omega
    exact ⟨_, rfl, hfollows⟩

theorem iterPrev (h : FollowsCursor c s cursor) (hfetch : c.hasFetchPrev = true) :
    ∃ s', s.iterPrev c = .ok ((cursor.prev c.rows.length).isAt, s') ∧
      FollowsCursor c s' (cursor.prev c.rows.length) := by
  have hfit := c.rowsFit
  cases cursor with
  | before =>
    have hle : s.iterRow ≤ 0 := by
      rcases h.position with hp | hp <;> rw [hp] <;> decide
    simp only [GdaDataSelect.iterPrev, hle, if_true]
    exact ⟨_, rfl, h.beforeFirst h.keepsRows_self⟩
  | «at» row =>
    have hrow := h.shows.2.2
    have hp := h.position.1
    cases row with
    | zero =>
      have hle : s.iterRow ≤ 0 := by omega
      simp only [GdaDataSelect.iterPrev, hle, if_true]
      exact ⟨_, rfl, h.beforeFirst h.keepsRows_self⟩
    | succ row =>
      have hmax : ¬ s.iterRow = gMaxInt := by omega
      refine h.iterPrev_target hfetch (by omega) (fun hm => hmax hm.1) (t := row) ?_ ?_
      · rw [if_neg hmax, hp]
        omega
      · rw [if_neg (by omega)]
        exact ⟨rfl, by omega⟩
  | after =>
    obtain ⟨hp, hcount⟩ := h.position
    have hpos : ¬ s.iterRow ≤ 0 := by
      rw [hp]
      decide
    refine h.iterPrev_target hfetch hpos (fun hm => by omega)
      (t := (c.rows.length : Int) - 1) ?_ ?_
    · rw [if_pos hp, hcount]
    · by_cases hn : 0 < c.rows.length
      · rw [if_neg (by omega)]
        simp only [Cursor.prev, hn, if_true, Cursor.at.injEq]
        omega
      · rw [if_pos (by omega)]
        simp only [Cursor.prev, hn, if_false]

theorem validates (h : FollowsCursor c s cursor) : s.validates = true := by
  cases cursor with
  | «at» row =>
    obtain ⟨-, hcontents, hlt⟩ := h.shows
    simp [GdaDataSelect.validates, hcontents, hlt]
  | before => simp [GdaDataSelect.validates, h.shows.1]
  | after => simp [GdaDataSelect.validates, h.shows.1]

theorem next_cases (h : FollowsCursor c s cursor) (hcursor : cursor ≠ .after) :
    (∃ t : Nat, cursor.next c.rows.length = .at t ∧ (t : Int) = s.iter.row + 1 ∧
      t < c.rows.length) ∨
    (cursor.next c.rows.length = .after ∧ (c.rows.length : Int) ≤ s.iter.row + 1) := by
  cases cursor with
  | before =>
    have hrow := h.shows.1
    by_cases hn : 0 < c.rows.length
    · exact .inl ⟨0, by simp [Cursor.next, hn], by omega, hn⟩
    · exact .inr ⟨by simp [Cursor.next, hn], by omega⟩
  | «at» row =>
    have hrow := h.shows.1
    by_cases hn : row + 1 < c.rows.length
    · exact .inl ⟨row + 1, by simp [Cursor.next, hn], by omega, hn⟩
    · exact .inr ⟨by simp [Cursor.next, hn], by omega⟩
  | after => exact absurd rfl hcursor

theorem row_lt (h : FollowsCursor c s cursor) : s.iter.row < c.rows.length := by
  cases cursor with
  | «at» row =>
    obtain ⟨hrow, -, hlt⟩ := h.shows
    omega
  | before =>
    have := h.shows.1
    omega
  | after =>
    have := h.shows.1
    omega

theorem eq_at (h : FollowsCursor c s cursor) {row : Int} (hpos : 0 ≤ row)
    (hrow : s.iter.row = row) : cursor = .at row.toNat ∧ row < c.rows.length := by
  have hlt := h.row_lt
  cases cursor with
  | «at» k =>
    have hk := h.shows.1
    refine ⟨?_, by omega⟩
    congr 1
    omega
  | before =>
    have := h.shows.1
    omega
  | after =>
    have := h.shows.1
    omega

theorem seekNext (h : FollowsCursor c s cursor)
    (hend : ∀ old, c.advertizes (.next c.rows.length) old = c.rows.length)
    (hcursor : cursor ≠ .after) {row : Int} (hpos : 0 ≤ row) (hle : s.iter.row ≤ row)
    (fuel : Nat) (hfuel : (c.rows.length : Int) - s.iter.row ≤ fuel) :
    ∃ ok s' cursor', GdaDataSelect.seekNext c row fuel s = .ok (ok, s') ∧
      FollowsCursor c s' cursor' ∧
      Cursor.Moves c.rows.length cursor (.iterAtRow row) ok cursor' := by
  induction fuel generalizing s cursor with
  | zero =>
    have := h.row_lt
    omega
  | succ fuel ih =>
    simp only [GdaDataSelect.seekNext, moveNext, h.validates, if_true]
    by_cases hlt : s.iter.row < row
    · obtain ⟨hok, hfollows⟩ := h.iterNext hend
      simp only [hlt, if_true]
      generalize s.iterNext c = result at hok hfollows ⊢
      obtain ⟨ok, s'⟩ := result
      rcases h.next_cases hcursor with ⟨t, ht, hrow, -⟩ | ⟨ht, hrow⟩
      · rw [ht] at hok hfollows
        obtain rfl : ok = true := hok
        have hrow' := hfollows.shows.1
        obtain ⟨ok', s'', cursor', heq, hfollows', hmoves⟩ := ih hfollows nofun (by omega) (by omega)
        exact ⟨ok', s'', cursor', heq, hfollows', hmoves⟩
      · rw [ht] at hok hfollows
        obtain rfl : ok = false := hok
        refine ⟨_, _, _, rfl, hfollows, ?_⟩
        rw [Cursor.Moves, if_neg (by omega)]
        exact ⟨rfl, rfl⟩
    · have hrow : s.iter.row = row := by omega
      rw [if_neg hlt, decide_eq_true hrow]
      refine ⟨_, _, _, rfl, h, ?_⟩
      obtain ⟨hat, hn⟩ := h.eq_at hpos hrow
      rw [Cursor.Moves, if_pos ⟨hpos, hn⟩]
      exact ⟨rfl, hat⟩

def seekTurns (n : Nat) : Cursor → Nat
  | .before => 1
  | .at row => row + 1
  | .after => n + 1

theorem seekTurns_prev {n : Nat} (cursor : Cursor) (h : (cursor.prev n).isAt = true) :
    seekTurns n (cursor.prev n) + 1 = seekTurns n cursor := by
  match cursor with
  | .before => cases h
  | .at 0 => cases h
  | .at (row + 1) => rfl
  | .after =>
    by_cases hn : 0 < n
    · simp only [Cursor.prev, hn, if_true, seekTurns]
      omega
    · simp [Cursor.prev, hn, Cursor.isAt] at h

theorem prev_cases (h : FollowsCursor c s cursor) :
    ((cursor.prev c.rows.length).isAt = true → ∃ t : Nat, cursor.prev c.rows.length = .at t ∧
      (0 ≤ s.iter.row → (t : Int) + 1 = s.iter.row)) ∧
    ((cursor.prev c.rows.length).isAt = false → s.iter.row ≤ 0) := by
  match cursor, h with
  | .before, h =>
    have hrow := h.shows.1
    exact ⟨nofun, fun _ => by omega⟩
  | .at 0, h =>
    have hrow := h.shows.1
    exact ⟨nofun, fun _ => by omega⟩
  | .at (row + 1), h =>
    have hrow := h.shows.1
    exact ⟨fun _ => ⟨row, rfl, fun _ => by omega⟩, nofun⟩
  | .after, h =>
    have hrow := h.shows.1
    refine ⟨fun hat => ?_, fun _ => by omega⟩
    by_cases hn : 0 < c.rows.length
    · exact ⟨_, if_pos hn, fun hpos => by omega⟩
    · simp [Cursor.prev, hn, Cursor.isAt] at hat

theorem seekPrev (h : FollowsCursor c s cursor) (hfetch : c.hasFetchPrev = true) {row : Int}
    (hrow : (0 ≤ row ∧ row ≤ s.iter.row) ∨ (row < 0 ∧ row < s.iter.row)) (fuel : Nat)
    (hfuel : seekTurns c.rows.length cursor ≤ fuel) :
    ∃ ok s' cursor', GdaDataSelect.seekPrev c row fuel s = .ok (ok, s') ∧
      FollowsCursor c s' cursor' ∧
      Cursor.Moves c.rows.length cursor (.iterAtRow row) ok cursor' := by
  induction fuel generalizing s cursor with
  | zero =>
    cases cursor <;> simp only [seekTurns] at hfuel <;> omega
  | succ fuel ih =>
    simp only [GdaDataSelect.seekPrev, movePrev, h.validates, if_true]
    by_cases hlt : row < s.iter.row
    · obtain ⟨s', heq, hfollows⟩ := h.iterPrev hfetch
      simp only [hlt, if_true, heq]
      cases hat : (cursor.prev c.rows.length).isAt with
      | true =>
        have hturns := seekTurns_prev cursor hat
        obtain ⟨t, ht, hprev⟩ := h.prev_cases.1 hat
        have hrow' := hfollows.shows
        rw [ht] at hrow'
        have hrow'' := hrow'.1
        obtain ⟨ok', s'', cursor', heq', hfollows', hmoves⟩ := ih hfollows (by omega) (by omega)
        exact ⟨ok', s'', cursor', heq', hfollows', hmoves⟩
      | false =>
        refine ⟨_, _, _, rfl, hfollows, ?_⟩
        rw [Cursor.Moves, if_neg ?_]
        · exact ⟨rfl, hat⟩
        · have := h.prev_cases.2 hat
          omega
    · have hrow' : s.iter.row = row ∧ 0 ≤ row := by omega
      rw [if_neg hlt, decide_eq_true hrow'.1]
      refine ⟨_, _, _, rfl, h, ?_⟩
      obtain ⟨hat, hn⟩ := h.eq_at hrow'.2 hrow'.1
      rw [Cursor.Moves, if_pos ⟨hrow'.2, hn⟩]
      exact ⟨rfl, hat⟩

end FollowsCursor

/-- Where `fetch_at` is missing and the row is neither stored nor the last one shown,
the sentinels of `iter_row` do not stand in the way of the search. -/
def SearchesRow (c : GdaDataSelectClass V) (s : GdaDataSelect V) (row : Int) : Prop :=
  c.hasFetchAt = true ∨ (s.currentProw.isSome = true ∧ s.currentProwRow = row) ∨
    (s.storedRow row).isSome = true ∨
    ((s.iterRow = gMaxInt → row < -1 ∨ ((c.rows.length : Int) ≤ row ∧ row < gMaxInt)) ∧
      (s.iterRow = gMinInt → row ≠ -1 ∧ row ≠ gMinInt) ∧ (s.iterRow = -1 → row ≠ -1))

namespace FollowsCursor

theorem search (h : FollowsCursor c s cursor) (hfetch : c.hasFetchPrev = true)
    (hend : ∀ old, c.advertizes (.next c.rows.length) old = c.rows.length) {row : Int}
    (hshown : ¬ (s.currentProw.isSome = true ∧ s.currentProwRow = row))
    (hmax : s.iterRow = gMaxInt → row < -1 ∨ ((c.rows.length : Int) ≤ row ∧ row < gMaxInt))
    (hmin : s.iterRow = gMinInt → row ≠ -1 ∧ row ≠ gMinInt) (hnew : s.iterRow = -1 → row ≠ -1)
    {fuel : Nat} (hfuel : c.rows.length < fuel) :
    ∃ ok s' cursor', (if s.iterRow < row then GdaDataSelect.seekNext c row fuel s
        else if row < s.iterRow then GdaDataSelect.seekPrev c row fuel s else .ok (true, s)) =
          .ok (ok, s') ∧ FollowsCursor c s' cursor' ∧
      Cursor.Moves c.rows.length cursor (.iterAtRow row) ok cursor' := by
  obtain ⟨fuel, rfl⟩ : ∃ k, fuel = k + 1 := ⟨fuel - 1, by omega⟩
  -- the loop is not entered when the iterator already shows no row
  have hstay : s.iter.row ≠ row → cursor.isAt = false → ¬ (0 ≤ row ∧ row < c.rows.length) →
      Cursor.Moves c.rows.length cursor (.iterAtRow row) (decide (s.iter.row = row)) cursor := by
    intro hne hat hout
    rw [Cursor.Moves, if_neg hout, decide_eq_false hne]
    exact ⟨rfl, hat⟩
  cases cursor with
  | before =>
    have hrow := h.shows.1
    by_cases hforward : s.iterRow < row
    · rw [if_pos hforward]
      by_cases hpos : 0 ≤ row
      · exact h.seekNext hend nofun hpos (by omega) _ (by omega)
      · rcases h.position with hp | hp
        · have hne := (hmin hp).1
          refine ⟨_, s, .before, if_neg (by omega), h, hstay (by omega) rfl (by omega)⟩
        · omega
    · rw [if_neg hforward]
      have hback : row < s.iterRow := by
        rcases h.position with hp | hp
        · have := (hmin hp).2
          omega
        · have := hnew hp
          omega
      rw [if_pos hback]
      have hneg : row < -1 := by
        rcases h.position with hp | hp
        · rw [hp] at hback
          exact Int.lt_trans hback (by decide)
        · omega
      exact h.seekPrev hfetch (.inr (by omega)) _ (by simp [seekTurns])
  | «at» k =>
    obtain ⟨hp, hsome, hshownRow⟩ := h.position
    obtain ⟨hrow, -, hlt⟩ := h.shows
    have hne : row ≠ k := fun he => hshown ⟨hsome, by omega⟩
    by_cases hforward : s.iterRow < row
    · rw [if_pos hforward]
      exact h.seekNext hend nofun (by omega) (by omega) _ (by omega)
    · rw [if_neg hforward, if_pos (by omega)]
      refine h.seekPrev hfetch (by omega) _ ?_
      simp only [seekTurns]
      omega
  | after =>
    have hp := h.position.1
    have hrow := h.shows.1
    have hcases := hmax hp
    have hback : row < s.iterRow := by
      rw [hp]
      rcases hcases with hneg | hout
      · exact Int.lt_trans hneg (by decide)
      · exact hout.2
    rw [if_neg (by omega), if_pos hback]
    rcases hcases with hneg | hout
    · exact h.seekPrev hfetch (.inr (by omega)) _ (by simp only [seekTurns]; omega)
    · refine ⟨_, s, .after, if_neg (by omega), h, hstay (by omega) rfl (by omega)⟩

theorem iterAtRow (h : FollowsCursor c s cursor) (hfetch : c.hasFetchPrev = true)
    (hend : ∀ old, c.advertizes (.next c.rows.length) old = c.rows.length) {row : Int}
    (hcond : SearchesRow c s row) {fuel : Nat} (hfuel : c.rows.length < fuel) :
    ∃ ok s' cursor', s.iterAtRow c fuel row = .ok (ok, s') ∧ FollowsCursor c s' cursor' ∧
      Cursor.Moves c.rows.length cursor (.iterAtRow row) ok cursor' := by
  have hfetched := h.fetched_intRow row
  obtain ⟨hstate, hint⟩ := h.externalToInternalRow row
  simp only [GdaDataSelect.iterAtRow]
  generalize s.externalToInternalRow c row = result at hfetched hstate hint ⊢
  obtain ⟨found, s₀⟩ := result
  obtain rfl : s₀ = s := hstate
  simp only at hfetched hint ⊢
  have hreached : ∀ s' prow, KeepsRows c s₀ s' → c.fetched row = some prow →
      ∃ ok s'' cursor', (.ok (true, s'.updateIter row prow) : Except CursorFault _) =
        .ok (ok, s'') ∧ FollowsCursor c s'' cursor' ∧
        Cursor.Moves c.rows.length cursor (.iterAtRow row) ok cursor' := by
    intro s' prow hkeep hf
    obtain ⟨k, rfl, hlt, hfollows⟩ := h.updateIter hkeep hf
    refine ⟨_, _, _, rfl, hfollows, ?_⟩
    rw [Cursor.Moves, if_pos (by omega)]
    exact ⟨rfl, rfl⟩
  by_cases hshown : s₀.currentProw.isSome = true ∧ s₀.currentProwRow = row
  · obtain ⟨prow, hprow⟩ := Option.isSome_iff_exists.1 hshown.1
    rw [if_pos hshown, hprow]
    have hf := h.lastShown prow hprow
    rw [hshown.2] at hf
    exact hreached _ _ h.keepsRows_self hf
  · rw [if_neg hshown]
    cases hs : s₀.storedRow (intRowOf found) with
    | some prow =>
      have hf := h.stored _ prow hs
      rw [hfetched] at hf
      exact hreached _ _ h.keepsRows_self hf
    | none =>
      by_cases hat : c.hasFetchAt = true
      · simp only [hat, if_true]
        cases hf : c.fetched row with
        | some prow =>
          rw [hfetched, hf]
          exact hreached _ _ (h.keepsRows_call _) hf
        | none =>
          rw [hfetched, hf]
          refine ⟨_, _, _, rfl, h.beforeFirst (h.keepsRows_call _), ?_⟩
          rw [fetched_eq_none_iff] at hf
          rw [Cursor.Moves, if_neg (by omega)]
          exact ⟨rfl, rfl⟩
      · simp only [hat]
        rcases hcond with hc | hc | hc | ⟨hmax, hmin, hnew⟩
        · exact absurd hc hat
        · exact absurd hc hshown
        · obtain ⟨prow, hprow⟩ := Option.isSome_iff_exists.1 hc
          rcases hint with hrow | ⟨-, hnone, -⟩
          · rw [hrow, hprow] at hs
            cases hs
          · rw [h.stored _ prow hprow] at hnone
            cases hnone
        · exact h.search hfetch hend hshown hmax hmin hnew hfuel

end FollowsCursor

def MeetsRow (c : GdaDataSelectClass V) (s : GdaDataSelect V) : CursorCall → Prop
  | .iterAtRow row => SearchesRow c s row
  | _ => True

theorem FollowsCursor.moveCursor (h : FollowsCursor c s cursor) (hfetch : c.hasFetchPrev = true)
    (hend : ∀ old, c.advertizes (.next c.rows.length) old = c.rows.length) {call : CursorCall}
    (hcond : MeetsRow c s call) {fuel : Nat} (hfuel : c.rows.length < fuel) :
    ∃ ok s' cursor', s.moveCursor c fuel call = .ok (ok, s') ∧ FollowsCursor c s' cursor' ∧
      Cursor.Moves c.rows.length cursor call ok cursor' := by
  cases call with
  | iterNext =>
    obtain ⟨hok, hfollows⟩ := h.iterNext hend
    exact ⟨_, _, _, rfl, hfollows, rfl, hok⟩
  | iterPrev =>
    obtain ⟨s', heq, hfollows⟩ := h.iterPrev hfetch
    exact ⟨_, s', _, heq, hfollows, rfl, rfl⟩
  | iterAtRow row => exact h.iterAtRow hfetch hend hcond hfuel

def Simulates (c : GdaDataSelectClass V) (fuel : Nat) :
    GdaDataSelect V → Cursor → List CursorCall → Prop
  | s, cursor, [] => ShowsCursor c s cursor
  | s, cursor, call :: calls => ShowsCursor c s cursor ∧
    ∃ ok s' cursor', s.moveCursor c fuel call = .ok (ok, s') ∧
      Cursor.Moves c.rows.length cursor call ok cursor' ∧ Simulates c fuel s' cursor' calls

def cursorStep (c : GdaDataSelectClass V) (fuel : Nat) (s : GdaDataSelect V) (call : CursorCall) :
    Except CursorFault (GdaDataSelect V) :=
  (s.moveCursor c fuel call).map Prod.snd

theorem FollowsCursor.simulates (h : FollowsCursor c s cursor) (hfetch : c.hasFetchPrev = true)
    (hend : ∀ old, c.advertizes (.next c.rows.length) old = c.rows.length) {fuel : Nat}
    (hfuel : c.rows.length < fuel) {calls : List CursorCall}
    (hcalls : StepsMeet (cursorStep c fuel) (MeetsRow c) s calls) :
    Simulates c fuel s cursor calls := by
  induction calls generalizing s cursor with
  | nil => exact h.shows
  | cons call calls ih =>
    obtain ⟨ok, s', cursor', heq, hfollows, hmoves⟩ := h.moveCursor hfetch hend hcalls.1 hfuel
    have hstep : cursorStep c fuel s call = .ok s' := by
      rw [cursorStep, heq]
      rfl
    exact ⟨h.shows, ok, s', cursor', heq, hmoves, ih hfollows (hcalls.2 s' hstep)⟩

/-- An iterator on a new model follows the cursor along every sequence of calls whose
searches do not meet a sentinel. -/
theorem cursor_simulated (c : GdaDataSelectClass V) (nColumns fuel : Nat)
    (calls : List CursorCall) (hfetch : c.hasFetchPrev = true)
    (hend : ∀ old, c.advertizes (.next c.rows.length) old = c.rows.length)
    (hfuel : c.rows.length < fuel)
    (hcalls : StepsMeet (cursorStep c fuel) (MeetsRow c) (new c false nColumns) calls) :
    Simulates c fuel (new c false nColumns) .before calls := by
  have hnew : FollowsCursor c (new c false nColumns) .before :=
    { notRandom := rfl, noDeleted := rfl, count := .inl rfl, stored := nofun, lastShown := nofun
      shows := ⟨rfl, rfl⟩, position := .inr rfl }
  exact hnew.simulates hfetch hend hfuel hcalls

def twoRows : GdaDataSelectClass Nat where
  rows := [[10], [11]]
  advertizes fetch old := if fetch = .next 2 then 2 else old
  takes _ := []
  hasFetchAt := false
  rowsFit := by decide
  advertizesRows fetch old := by
    by_cases h : fetch = .next 2
    · exact .inr (if_pos h)
    · exact .inl (if_neg h)

theorem twoRows_simulated :
    Simulates twoRows 3 (new twoRows false 1) .before
      [.iterNext, .iterNext, .iterNext, .iterPrev, .iterAtRow 0, .iterPrev, .iterNext] := by
  refine cursor_simulated twoRows 1 3 _ rfl (fun _ => rfl) (by decide) ?_
  refine ⟨trivial, fun t ht => ?_⟩
  obtain rfl := Except.ok.inj ht
  refine ⟨trivial, fun t ht => ?_⟩
  obtain rfl := Except.ok.inj ht
  refine ⟨trivial, fun t ht => ?_⟩
  obtain rfl := Except.ok.inj ht
  refine ⟨trivial, fun t ht => ?_⟩
  obtain rfl := Except.ok.inj ht
  refine ⟨.inr (.inr (.inr ⟨by decide, by decide, by decide⟩)), fun t ht => ?_⟩
  obtain rfl := Except.ok.inj ht
  refine ⟨trivial, fun t ht => ?_⟩
  obtain rfl := Except.ok.inj ht
  exact ⟨trivial, fun _ _ => trivial⟩

theorem firstRow_not_reached_after_end :
    ¬ Simulates twoRows 3 (new twoRows false 1) .before
      [.iterNext, .iterNext, .iterNext, .iterAtRow 0] := by
  rintro ⟨-, _, s₁, _, h₁, -, -, _, s₂, _, h₂, -, -, _, s₃, _, h₃, -, -, ok, s₄, _, h₄, hmoves, -⟩
  obtain ⟨-, rfl⟩ := pair_ok h₁
  obtain ⟨-, rfl⟩ := pair_ok h₂
  obtain ⟨-, rfl⟩ := pair_ok h₃
  obtain ⟨hok, -⟩ := pair_ok h₄
  have htrue : ok = true := by
    rw [Cursor.Moves, if_pos (by decide)] at hmoves
    exact hmoves.1
  rw [htrue] at hok
  exact absurd hok (by decide)

end GdaDataSelect

end LibGda
