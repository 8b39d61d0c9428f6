import Mathlib.Data.Finset.Card

/-! A list sorted by its dependencies: each pass takes the objects whose dependencies
have been taken before. What depends on a cycle is never taken. -/

namespace PassSort

open Relation

variable {α : Type} [DecidableEq α] (deps : α → List α) (objects : List α)

def pass (ordered : List α) : List α :=
  (objects.filter fun o => decide (o ∉ ordered) && (deps o).all (· ∈ ordered)).reverse

def missing (ordered : List α) : List α := objects.filter (· ∉ ordered)

variable {deps objects}

theorem mem_pass {ordered : List α} {o : α} :
    o ∈ pass deps objects ordered ↔ o ∈ objects ∧ o ∉ ordered ∧ ∀ d ∈ deps o, d ∈ ordered := by
  simp [pass]

theorem missing_lt {ordered : List α} (h : pass deps objects ordered ≠ []) :
    (missing objects (ordered ++ pass deps objects ordered)).length <
      (missing objects ordered).length := by
  obtain ⟨o, ho⟩ := List.exists_mem_of_ne_nil _ h
  obtain ⟨hobj, hnot, -⟩ := mem_pass.1 ho
  have hsub : missing objects (ordered ++ pass deps objects ordered) =
      (missing objects ordered).filter (· ∉ pass deps objects ordered) := by
    rw [missing, missing, List.filter_filter]
    refine List.filter_congr fun a _ => ?_
    simp [Bool.and_comm]
  rw [hsub]
  refine List.length_filter_lt_length_iff_exists.2 ⟨o, ?_, by simpa using ho⟩
  exact List.mem_filter.2 ⟨hobj, by simpa using hnot⟩

variable (deps objects)

def sortFrom (ordered : List α) : List α :=
  if pass deps objects ordered = [] then ordered
  else sortFrom (ordered ++ pass deps objects ordered)
termination_by (missing objects ordered).length
decreasing_by exact missing_lt ‹_›

/-- The objects which have all their dependencies, and these theirs. -/
inductive Placeable : α → Prop
  | mk {o : α} (hobj : o ∈ objects) (hdeps : ∀ d ∈ deps o, Placeable d) : Placeable o

variable {deps objects}

/-- What holds of a list to which passes have been appended. -/
structure Passed (deps : α → List α) (objects ordered : List α) : Prop where
  placeable : ∀ o ∈ ordered, Placeable deps objects o
  counts : ∀ o ∈ ordered, ordered.count o = objects.count o
  after : ∀ before o behind, ordered = before ++ o :: behind → ∀ d ∈ deps o, d ∈ before

theorem passed_nil : Passed deps objects [] where
  placeable := by simp
  counts := by simp
  after := by simp

theorem Passed.append_pass {ordered : List α} (h : Passed deps objects ordered) :
    Passed deps objects (ordered ++ pass deps objects ordered) where
  placeable o ho := by
    rcases List.mem_append.1 ho with ho | ho
    · exact h.placeable o ho
    · obtain ⟨hobj, -, hdeps⟩ := mem_pass.1 ho
      exact .mk hobj fun d hd => h.placeable d (hdeps d hd)
  counts o ho := by
    rw [List.count_append]
    rcases List.mem_append.1 ho with ho | ho
    · have hnot : o ∉ pass deps objects ordered := fun hp => (mem_pass.1 hp).2.1 ho
      rw [h.counts o ho, List.count_eq_zero.2 hnot, Nat.add_zero]
    · obtain ⟨-, hnot, hdeps⟩ := mem_pass.1 ho
      have htaken : (decide (o ∉ ordered) && (deps o).all (· ∈ ordered)) = true := by
        simpa using ⟨hnot, hdeps⟩
      rw [List.count_eq_zero.2 hnot, Nat.zero_add, pass, List.count_reverse]
      exact List.count_filter htaken
  after before o behind heq d hd := by
    rcases List.append_eq_append_iff.1 heq with ⟨mid, hbefore, hpass⟩ | ⟨mid, hordered, htail⟩
    · -- the object is one of the pass
      have ho : o ∈ pass deps objects ordered := by
        rw [hpass]
        exact List.mem_append_right _ List.mem_cons_self
      rw [hbefore]
      exact List.mem_append_left _ ((mem_pass.1 ho).2.2 d hd)
    · cases mid with
      | nil =>
        have ho : o ∈ pass deps objects ordered := by
          rw [← List.nil_append (pass deps objects ordered), ← htail]
          exact List.mem_cons_self
        rw [List.append_nil] at hordered
        rw [← hordered]
        exact (mem_pass.1 ho).2.2 d hd
      | cons a mid =>
        obtain ⟨rfl, -⟩ := List.cons.inj htail
        exact h.after before o mid hordered d hd

theorem Passed.sorted {ordered : List α} (h : Passed deps objects ordered) :
    Passed deps objects (sortFrom deps objects ordered) := by
  induction ordered using sortFrom.induct deps objects with
  | case1 ordered hempty =>
    rw [sortFrom, if_pos hempty]
    exact h
  | case2 ordered hnext ih =>
    rw [sortFrom, if_neg hnext]
    exact ih h.append_pass

theorem pass_sortFrom (ordered : List α) : pass deps objects (sortFrom deps objects ordered) = [] := by
  induction ordered using sortFrom.induct deps objects with
  | case1 ordered hempty =>
    rw [sortFrom, if_pos hempty]
    exact hempty
  | case2 ordered hnext ih =>
    rw [sortFrom, if_neg hnext]
    exact ih

theorem mem_sort_iff {o : α} : o ∈ sortFrom deps objects [] ↔ Placeable deps objects o := by
  have hempty : Passed deps objects [] := passed_nil
  have hpassed := hempty.sorted
  constructor
  · exact hpassed.placeable o
  · intro h
    induction h with
    | @mk o hobj _ ih =>
      by_contra hnot
      have hin := mem_pass.2 ⟨hobj, hnot, ih⟩
      rw [pass_sortFrom] at hin
      exact List.not_mem_nil hin

theorem count_sort (o : α) [Decidable (Placeable deps objects o)] :
    (sortFrom deps objects []).count o =
      if Placeable deps objects o then objects.count o else 0 := by
  split
  · rename_i h
    exact passed_nil.sorted.counts o (mem_sort_iff.2 h)
  · rename_i h
    exact List.count_eq_zero.2 fun ho => h (mem_sort_iff.1 ho)

theorem sort_perm_iff : (sortFrom deps objects []).Perm objects ↔
    ∀ o ∈ objects, Placeable deps objects o := by
  classical
  constructor
  · intro h o ho
    exact mem_sort_iff.1 (h.mem_iff.2 ho)
  · intro h
    rw [List.perm_iff_count]
    intro o
    rw [count_sort]
    by_cases ho : o ∈ objects
    · rw [if_pos (h o ho)]
    · rw [List.count_eq_zero.2 ho, ite_self]

theorem sort_after {before behind : List α} {o : α}
    (h : sortFrom deps objects [] = before ++ o :: behind) : ∀ d ∈ deps o, d ∈ before :=
  passed_nil.sorted.after before o behind h

section Cycles

variable (deps)

/-- `b` is one of the dependencies of `a`. -/
def DependsOn (a b : α) : Prop := b ∈ deps a

/-- Some object from which `o` depends, directly or not, or `o` itself, depends on itself. -/
def OnCycle (o : α) : Prop := ∃ a, ReflTransGen (DependsOn deps) o a ∧ TransGen (DependsOn deps) a a

variable {deps}

omit [DecidableEq α] in
theorem Placeable.reach {a b : α} (h : Placeable deps objects a)
    (hr : ReflTransGen (DependsOn deps) a b) : Placeable deps objects b := by
  induction hr with
  | refl => exact h
  | tail _ hstep ih =>
    cases ih with
    | mk _ hdeps => exact hdeps _ hstep

omit [DecidableEq α] in
theorem Placeable.acyclic {a : α} (h : Placeable deps objects a) :
    ¬ TransGen (DependsOn deps) a a := by
  induction h with
  | @mk a _ _ ih =>
    intro hcycle
    obtain ⟨b, hab, hba⟩ := TransGen.head'_iff.1 hcycle
    exact ih b hab (TransGen.tail' hba hab)

theorem placeable_iff {o : α} : Placeable deps objects o ↔
    (∀ a, ReflTransGen (DependsOn deps) o a → a ∈ objects) ∧ ¬ OnCycle deps o := by
  classical
  constructor
  · intro h
    refine ⟨fun a ha => ?_, ?_⟩
    · cases h.reach ha with
      | mk hobj _ => exact hobj
    · rintro ⟨a, ha, hcycle⟩
      exact (h.reach ha).acyclic hcycle
  · -- by induction on the number of objects which can be reached
    rintro ⟨hobj, hcycle⟩
    generalize hn : (objects.toFinset.filter (ReflTransGen (DependsOn deps) o)).card = n
    induction n using Nat.strong_induction_on generalizing o with
    | _ n ih =>
      refine .mk (hobj o .refl) fun d hd => ?_
      have hstep : DependsOn deps o d := hd
      refine ih _ ?_ (fun a ha => hobj a (.head hstep ha))
        (fun ⟨a, ha, hself⟩ => hcycle ⟨a, .head hstep ha, hself⟩) rfl
      rw [← hn]
      refine Finset.card_lt_card (Finset.ssubset_iff_subset_ne.2 ⟨?_, fun heq => ?_⟩)
      · intro a ha
        obtain ⟨hmem, hreach⟩ := Finset.mem_filter.1 ha
        exact Finset.mem_filter.2 ⟨hmem, .head hstep hreach⟩
      · have ho : o ∈ objects.toFinset.filter (ReflTransGen (DependsOn deps) o) :=
          Finset.mem_filter.2 ⟨List.mem_toFinset.2 (hobj o .refl), .refl⟩
        rw [← heq] at ho
        exact hcycle ⟨o, .refl, TransGen.head' hstep (Finset.mem_filter.1 ho).2⟩

end Cycles

end PassSort
