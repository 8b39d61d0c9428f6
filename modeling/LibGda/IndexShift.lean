import Mathlib.Data.List.Nodup

/-! Where the elements of a sequence go when one of them is inserted or erased. -/

namespace IndexShift

variable {α : Type}

def rowAt (rows : List α) (row : Int) : Option α :=
  if 0 ≤ row then rows[row.toNat]? else none

/-- Where `v` goes when an element is inserted at `row`. -/
def afterInsert (row v : Int) : Int :=
  if row ≤ v then v + 1 else v

/-- Where `v` goes when the element at `row` is erased. -/
def afterErase (row v : Int) : Int :=
  if row < v then v - 1 else v

theorem rowAt_isSome_iff {rows : List α} {row : Int} :
    (rowAt rows row).isSome ↔ 0 ≤ row ∧ row < rows.length := by
  by_cases hr : 0 ≤ row
  · simp only [rowAt, hr, if_true, isSome_getElem?, true_and]
    omega
  · simp [rowAt, hr]

theorem rowAt_mem {rows : List α} {row : Int} {x : α} (h : rowAt rows row = some x) :
    x ∈ rows := by
  by_cases hr : 0 ≤ row
  · exact List.mem_of_getElem? (by simpa [rowAt, hr] using h)
  · simp [rowAt, hr] at h

theorem rowAt_inj {rows : List α} (hn : rows.Nodup) {a b : Int} (ha : 0 ≤ a)
    (hl : a < rows.length) (h : rowAt rows a = rowAt rows b) : a = b := by
  have hs : (rowAt rows b).isSome := by
    rw [← h]
    exact rowAt_isSome_iff.2 ⟨ha, hl⟩
  obtain ⟨hb, hlb⟩ := rowAt_isSome_iff.1 hs
  simp only [rowAt, ha, hb, if_true] at h
  have he : a.toNat = b.toNat := (List.getElem?_inj (by omega) hn).1 h
  omega

theorem rowAt_insertIdx {rows : List α} (x : α) {row v : Int} (h0 : 0 ≤ row) (hv : 0 ≤ v) :
    rowAt (rows.insertIdx row.toNat x) (afterInsert row v) = rowAt rows v := by
  by_cases hr : row ≤ v
  · have hs : (v + 1).toNat = v.toNat + 1 := by omega
    have hpos : (0 : Int) ≤ v + 1 := by omega
    simp only [rowAt, afterInsert, hr, if_true, hpos, hv, hs]
    rw [List.getElem?_insertIdx_of_gt (by omega : row.toNat < v.toNat + 1), Nat.add_sub_cancel]
  · simp only [rowAt, afterInsert, hr, if_false, hv, if_true]
    rw [List.getElem?_insertIdx_of_lt (by omega : v.toNat < row.toNat)]

theorem rowAt_eraseIdx {rows : List α} {row v : Int} (h0 : 0 ≤ row) (hv : 0 ≤ v)
    (hne : v ≠ row) : rowAt (rows.eraseIdx row.toNat) (afterErase row v) = rowAt rows v := by
  by_cases hr : row < v
  · have hpos : (0 : Int) ≤ v - 1 := by omega
    have hs : (v - 1).toNat + 1 = v.toNat := by omega
    simp only [rowAt, afterErase, hr, if_true, hpos, hv]
    rw [List.getElem?_eraseIdx_of_ge (by omega : row.toNat ≤ (v - 1).toNat), hs]
  · simp only [rowAt, afterErase, hr, if_false, hv, if_true]
    rw [List.getElem?_eraseIdx_of_lt (by omega : v.toNat < row.toNat)]

theorem insertIdx_append_of_le (xs ys : List α) (x : α) {i : Nat} (h : i ≤ xs.length) :
    (xs ++ ys).insertIdx i x = xs.insertIdx i x ++ ys := by
  induction xs generalizing i with
  | nil =>
    obtain rfl : i = 0 := by simpa using h
    rfl
  | cons y xs ih =>
    cases i with
    | zero => rfl
    | succ i => simp [ih (by simpa using h)]

end IndexShift
