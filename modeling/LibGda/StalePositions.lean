import Mathlib.Algebra.BigOperators.Group.List.Basic
import Mathlib.Algebra.Order.Ring.Int

/-! Elements which are removed from an ordered list one after another, each at the position which it
had in the list or in an earlier state of it. A position which is out of date leads to a later
element, so that the right ones are removed only if no position is out of date. -/

namespace StalePositions

variable {ρ : Type} {key : ρ → Nat}

structure Removal where
  target : Nat
  ago : Nat

section Run

variable (key : ρ → Nat)

def position (rows : List ρ) (target : Nat) : Nat := rows.findIdx fun r => key r = target

def removeStep (history : List (List ρ)) (c : Removal) : Option (List (List ρ)) :=
  match history.head?, history[c.ago]? with
  | some current, some seen =>
    if position key seen c.target < current.length then
      some (current.eraseIdx (position key seen c.target) :: history)
    else none
  | _, _ => none

end Run

def Ordered (key : ρ → Nat) (history : List (List ρ)) (current : List ρ) : Prop :=
  history.head? = some current ∧
    ∀ seen ∈ history, current.Sublist seen ∧ (seen.map key).Pairwise (· < ·)

section Positions

variable {rows current seen : List ρ} {target i : Nat} {r : ρ}

theorem ne_of_ordered (hordered : ((r :: rows).map key).Pairwise (· < ·)) :
    ∀ x ∈ rows, key x ≠ key r := by
  rw [List.map_cons, List.pairwise_cons] at hordered
  intro x hx heq
  have hless := hordered.1 (key x) (List.mem_map_of_mem hx)
  omega

theorem eraseIdx_eq_filter (hordered : (rows.map key).Pairwise (· < ·)) (hr : rows[i]? = some r) :
    rows.eraseIdx i = rows.filter fun x => key x ≠ key r := by
  induction rows generalizing i with
  | nil => cases hr
  | cons x rows ih =>
    have hne := ne_of_ordered hordered
    rw [List.map_cons, List.pairwise_cons] at hordered
    cases i with
    | zero =>
      obtain rfl := Option.some.inj hr
      have hall : rows.filter (fun y => decide (key y ≠ key x)) = rows := by
        apply List.filter_eq_self.2
        intro y hy
        exact decide_eq_true (hne y hy)
      rw [List.eraseIdx_cons_zero, List.filter_cons_of_neg (by simp), hall]
    | succ i =>
      rw [List.getElem?_cons_succ] at hr
      have hx : key x ≠ key r := (hne r (List.mem_of_getElem? hr)).symm
      rw [List.eraseIdx_cons_succ, List.filter_cons_of_pos (by simpa using hx), ih hordered.2 hr]

theorem pairwise_filter (hordered : (rows.map key).Pairwise (· < ·)) (p : ρ → Bool) :
    ((rows.filter p).map key).Pairwise (· < ·) :=
  hordered.sublist (List.filter_sublist.map key)

end Positions

section Steps

variable {history history' : List (List ρ)} {current : List ρ} {c : Removal} {cs : List Removal}

theorem Ordered.push {i : Nat} {r : ρ} (hordered : Ordered key history current)
    (hr : current[i]? = some r) :
    Ordered key (current.eraseIdx i :: history) (current.filter fun x => key x ≠ key r) := by
  obtain ⟨hhead, hall⟩ := hordered
  have hcurrentOrdered := (hall current (List.mem_of_mem_head? hhead)).2
  have herase := eraseIdx_eq_filter hcurrentOrdered hr
  constructor
  · rw [List.head?_cons, herase]
  · intro other hother
    rcases List.mem_cons.1 hother with rfl | hother
    · rw [herase]
      exact ⟨List.Sublist.refl _, pairwise_filter hcurrentOrdered _⟩
    · have hold := hall other hother
      exact ⟨List.filter_sublist.trans hold.1, hold.2⟩

end Steps

end StalePositions
