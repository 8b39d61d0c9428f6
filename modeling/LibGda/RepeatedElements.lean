import Mathlib.Data.List.Basic
import Mathlib.Data.Nat.Basic

/-! Lists some elements of which are repeated where they stand. -/

namespace RepeatedElements

variable {α : Type} {s z : List α}

/-- `z` is `s` with some elements repeated. -/
inductive Repeats : List α → List α → Prop
  | nil : Repeats [] []
  | cons (c : α) {s z : List α} : Repeats s z → Repeats (c :: s) (c :: z)
  | again {c : α} {s z : List α} : Repeats (c :: s) z → Repeats (c :: s) (c :: z)

namespace Repeats

theorem refl : ∀ s : List α, Repeats s s
  | [] => .nil
  | c :: s => .cons c (refl s)

theorem head_eq (h : Repeats s z) : z.head? = s.head? := by
  cases h <;> rfl

theorem mem_iff (h : Repeats s z) (c : α) : c ∈ z ↔ c ∈ s := by
  induction h with
  | nil => exact Iff.rfl
  | cons d _ ih => rw [List.mem_cons, List.mem_cons, ih]
  | again _ ih =>
    rw [List.mem_cons, ih]
    exact or_iff_right_of_imp fun h => h ▸ List.mem_cons_self

theorem length_le (h : Repeats s z) : s.length ≤ z.length := by
  induction h with
  | nil => exact le_rfl
  | cons _ _ ih => exact Nat.succ_le_succ ih
  | again _ ih => exact Nat.le_trans ih (Nat.le_succ _)

theorem eq_of_length (h : Repeats s z) (hlen : z.length = s.length) : z = s := by
  induction h with
  | nil => rfl
  | cons c _ ih => rw [ih (Nat.succ.inj hlen)]
  | again h _ =>
    have := h.length_le
    rw [List.length_cons] at hlen
    omega

theorem countP_le (h : Repeats s z) (p : α → Bool) : s.countP p ≤ z.countP p := by
  induction h with
  | nil => exact le_rfl
  | cons c _ ih =>
    rw [List.countP_cons, List.countP_cons]
    exact Nat.add_le_add_right ih _
  | again _ ih =>
    exact Nat.le_trans ih (List.Sublist.countP_le (List.sublist_cons_self _ _))

theorem append_left (start : List α) (h : Repeats s z) : Repeats (start ++ s) (start ++ z) := by
  induction start with
  | nil => exact h
  | cons c start ih => exact .cons c ih

theorem again_head {c : α} (h : Repeats s (c :: z)) : Repeats s (c :: c :: z) := by
  cases h with
  | cons _ h => exact .again (.cons c h)
  | again h => exact .again (.again h)

end Repeats

/-- The number of elements of kind `p` which stand before one of another kind. -/
def runEnds (p : α → Bool) : List α → Nat
  | c :: d :: s => (if p c && !p d then 1 else 0) + runEnds p (d :: s)
  | _ => 0

theorem runEnds_le_cons (p : α → Bool) (c : α) (s : List α) : runEnds p s ≤ runEnds p (c :: s) := by
  cases s with
  | nil => exact le_rfl
  | cons d s => exact Nat.le_add_left _ _

theorem runEnds_cons_of_not {p : α → Bool} {c : α} (hc : p c = false) (s : List α) :
    runEnds p (c :: s) = runEnds p s := by
  cases s with
  | nil => rfl
  | cons d s =>
    rw [runEnds, hc]
    exact Nat.zero_add _

theorem runEnds_append_of_not {p : α → Bool} {s : List α} (hs : ∀ c ∈ s, p c = false)
    (z : List α) : runEnds p (s ++ z) = runEnds p z := by
  induction s with
  | nil => rfl
  | cons c s ih =>
    rw [List.cons_append, runEnds_cons_of_not (hs c List.mem_cons_self),
      ih fun d hd => hs d (List.mem_cons_of_mem c hd)]

theorem runEnds_le_succ (p : α → Bool) (c : α) (s : List α) :
    runEnds p (c :: s) ≤ runEnds p s + 1 := by
  cases s with
  | nil => exact Nat.zero_le _
  | cons d s =>
    rw [runEnds, Nat.add_comm]
    apply Nat.add_le_add_left
    split <;> omega

theorem Repeats.runEnds_eq (h : Repeats s z) (p : α → Bool) : runEnds p z = runEnds p s := by
  induction h with
  | nil => rfl
  | cons c h ih =>
    have hhead := h.head_eq
    rename_i s z
    match s, z with
    | [], [] => rfl
    | [], _ :: _ => cases hhead
    | _ :: _, [] => cases hhead
    | d :: s, e :: z =>
      obtain rfl : e = d := Option.some.inj hhead
      rw [runEnds, runEnds, ih]
  | again h ih =>
    have hhead := h.head_eq
    rename_i c s z
    match z with
    | [] => cases hhead
    | e :: z =>
      obtain rfl : e = c := Option.some.inj hhead
      rw [runEnds, ih]
      simp

end RepeatedElements
