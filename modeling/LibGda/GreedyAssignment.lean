import Mathlib.Data.List.Nodup
import Mathlib.Data.Set.Function

/-! Items wait in line for rows, and each row takes the first item which fits it.
When what fits a row is a class of items, no item is left which could have a row. -/

namespace GreedyAssignment

variable {R I : Type} [DecidableEq I] {fits : R → I → Bool} {rows : List R} {waiting : List I}

def taken (fits : R → I → Bool) : List R → List I → List (R × I)
  | [], _ => []
  | r :: rows, waiting =>
    match waiting.find? (fits r) with
    | none => taken fits rows waiting
    | some i => (r, i) :: taken fits rows (waiting.erase i)

def left (fits : R → I → Bool) : List R → List I → List I
  | [], waiting => waiting
  | r :: rows, waiting =>
    match waiting.find? (fits r) with
    | none => left fits rows waiting
    | some i => left fits rows (waiting.erase i)

theorem taken_none {r : R} (h : waiting.find? (fits r) = none) :
    taken fits (r :: rows) waiting = taken fits rows waiting ∧
      left fits (r :: rows) waiting = left fits rows waiting := by
  rw [taken, left, h]
  exact ⟨rfl, rfl⟩

theorem taken_some {r : R} {i : I} (h : waiting.find? (fits r) = some i) :
    taken fits (r :: rows) waiting = (r, i) :: taken fits rows (waiting.erase i) ∧
      left fits (r :: rows) waiting = left fits rows (waiting.erase i) := by
  rw [taken, left, h]
  exact ⟨rfl, rfl⟩

theorem find?_split {p : I → Bool} {i : I} (h : waiting.find? p = some i) :
    ∃ before behind, waiting = before ++ i :: behind ∧ waiting.erase i = before ++ behind ∧
      p i = true ∧ ∀ j ∈ before, ¬ p j = true := by
  obtain ⟨hi, before, behind, heq, hbefore⟩ := List.find?_eq_some_iff_append.1 h
  have hno : ∀ j ∈ before, ¬ p j = true := fun j hj => by simpa using hbefore j hj
  have hnot : i ∉ before := fun hmem => hno i hmem hi
  refine ⟨before, behind, heq, ?_, hi, hno⟩
  rw [heq, List.erase_append_right _ hnot, List.erase_cons_head]

theorem taken_perm : ((taken fits rows waiting).map Prod.snd ++ left fits rows waiting).Perm waiting := by
  induction rows generalizing waiting with
  | nil => exact List.Perm.refl _
  | cons r rows ih =>
    cases hfind : waiting.find? (fits r) with
    | none =>
      rw [(taken_none hfind).1, (taken_none hfind).2]
      exact ih
    | some i =>
      rw [(taken_some hfind).1, (taken_some hfind).2]
      have hi := List.mem_of_find?_eq_some hfind
      exact (ih.cons i).trans (List.perm_cons_erase hi).symm

section Classes

variable {alike : I → I → Prop} {wanted : Set I}

/-- Of the items which are alike the wanted ones come first. -/
def Ahead (alike : I → I → Prop) (wanted : Set I) (waiting : List I) : Prop :=
  waiting.Pairwise fun i j => alike i j → j ∈ wanted → i ∈ wanted

theorem Ahead.taken (hclass : ∀ r i j, fits r i = true → (fits r j = true ↔ alike i j))
    (h : Ahead alike wanted waiting) :
    Ahead alike wanted ((taken fits rows waiting).map Prod.snd ++ left fits rows waiting) := by
  induction rows generalizing waiting with
  | nil => exact h
  | cons r rows ih =>
    cases hfind : waiting.find? (fits r) with
    | none =>
      rw [(taken_none hfind).1, (taken_none hfind).2]
      exact ih h
    | some i =>
      rw [(taken_some hfind).1, (taken_some hfind).2]
      obtain ⟨before, behind, heq, herase, hi, hno⟩ := find?_split hfind
      have hrest : Ahead alike wanted (waiting.erase i) := h.sublist List.erase_sublist
      refine List.pairwise_cons.2 ⟨fun j hj halike => ?_, ih hrest⟩
      have hmem : j ∈ before ++ behind := herase ▸ taken_perm.mem_iff.1 hj
      rcases List.mem_append.1 hmem with hbefore | hbehind
      · exact absurd ((hclass r i j hi).2 halike) (hno j hbefore)
      · rw [heq] at h
        have htail := (List.pairwise_append.1 h).2.1
        exact (List.pairwise_cons.1 htail).1 j hbehind halike

end Classes

end GreedyAssignment
