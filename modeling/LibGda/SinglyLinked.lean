import Mathlib.Data.List.Perm.Subperm

/-! Singly linked lists in a store of cells, and the reversal which moves their links. -/

namespace SinglyLinked

structure Cell (α : Type) where
  data : α
  next : Option Nat

variable {α : Type}

def Chain (cells : List (Cell α)) : Option Nat → List (Nat × α) → Prop
  | list, [] => list = none
  | list, (a, d) :: rest => list = some a ∧ ∃ next, cells[a]? = some ⟨d, next⟩ ∧ Chain cells next rest

/-- The data of a list; `fuel` bounds its length. -/
def contents (cells : List (Cell α)) : Nat → Option Nat → List α
  | fuel + 1, some a =>
    match cells[a]? with
    | some c => c.data :: contents cells fuel c.next
    | none => []
  | _, _ => []

def reverseLoop : Nat → List (Cell α) → Option Nat → Option Nat → List (Cell α) × Option Nat
  | fuel + 1, cells, prev, some a =>
    match cells[a]? with
    | some c => reverseLoop fuel (cells.set a ⟨c.data, prev⟩) (some a) c.next
    | none => (cells, prev)
  | _, cells, prev, _ => (cells, prev)

def reverse (cells : List (Cell α)) (list : Option Nat) : List (Cell α) × Option Nat :=
  reverseLoop cells.length cells none list

variable {cells : List (Cell α)} {list : Option Nat} {chain : List (Nat × α)}

theorem Chain.contents (h : Chain cells list chain) {fuel : Nat} (hfuel : chain.length ≤ fuel) :
    contents cells fuel list = chain.map Prod.snd := by
  induction chain generalizing list fuel with
  | nil =>
    obtain rfl : list = none := h
    cases fuel <;> rfl
  | cons x chain ih =>
    obtain ⟨rfl, next, hcell, hrest⟩ := h
    cases fuel with
    | zero => simp at hfuel
    | succ fuel =>
      have hlen : chain.length ≤ fuel := by simpa using hfuel
      simp [SinglyLinked.contents, hcell, ih hrest hlen]

theorem Chain.of_same {cells' : List (Cell α)} (h : Chain cells list chain)
    (hsame : ∀ x ∈ chain, cells'[x.1]? = cells[x.1]?) : Chain cells' list chain := by
  induction chain generalizing list with
  | nil => exact h
  | cons x chain ih =>
    obtain ⟨hlist, next, hcell, hrest⟩ := h
    refine ⟨hlist, next, ?_, ih hrest fun y hy => hsame y (List.mem_cons_of_mem x hy)⟩
    rw [hsame x List.mem_cons_self]
    exact hcell

theorem Chain.lt (h : Chain cells list chain) : ∀ x ∈ chain, x.1 < cells.length := by
  induction chain generalizing list with
  | nil => simp
  | cons x chain ih =>
    obtain ⟨-, next, hcell, hrest⟩ := h
    intro y hy
    rcases List.mem_cons.mp hy with rfl | hy
    · exact (List.getElem?_eq_some_iff.mp hcell).1
    · exact ih hrest y hy

theorem Chain.set (h : Chain cells list chain) {a : Nat} (ha : a ∉ chain.map Prod.fst)
    (c : Cell α) : Chain (cells.set a c) list chain := by
  apply h.of_same
  intro x hx
  have hne : a ≠ x.1 := fun he => ha (he ▸ List.mem_map_of_mem hx)
  rw [List.getElem?_set_ne hne]

theorem Chain.prepend (h : Chain cells list chain) (d : α) :
    Chain (cells ++ [⟨d, list⟩]) (some cells.length) ((cells.length, d) :: chain) := by
  refine ⟨rfl, list, by simp, h.of_same fun x hx => ?_⟩
  rw [List.getElem?_append_left (h.lt x hx)]

theorem Chain.last {a : Nat} {d : α} {pre : List (Nat × α)}
    (h : Chain cells list (pre ++ [(a, d)])) : Chain cells (some a) [(a, d)] := by
  induction pre generalizing list with
  | nil =>
    obtain ⟨rfl, hrest⟩ := h
    exact ⟨rfl, hrest⟩
  | cons x pre ih =>
    obtain ⟨-, next, -, hrest⟩ := h
    exact ih hrest

theorem Chain.reverseLoop {before : List (Nat × α)} {prev : Option Nat} {fuel : Nat}
    (h : Chain cells list chain) (hprev : Chain cells prev before)
    (hnodup : ((chain ++ before).map Prod.fst).Nodup) (hfuel : chain.length ≤ fuel) :
    Chain (reverseLoop fuel cells prev list).1 (reverseLoop fuel cells prev list).2
        (chain.reverse ++ before) := by
  induction chain generalizing cells list prev before fuel with
  | nil =>
    obtain rfl : list = none := h
    cases fuel <;> exact hprev
  | cons x chain ih =>
    obtain ⟨a, d⟩ := x
    obtain ⟨rfl, next, hcell, hrest⟩ := h
    cases fuel with
    | zero => simp at hfuel
    | succ fuel =>
      have hlen : chain.length ≤ fuel := by simpa using hfuel
      have hlt : a < cells.length := (List.getElem?_eq_some_iff.mp hcell).1
      simp only [List.cons_append, List.map_cons, List.nodup_cons, List.map_append,
        List.mem_append, not_or] at hnodup
      have hcell' : (cells.set a ⟨d, prev⟩)[a]? = some ⟨d, prev⟩ := List.getElem?_set_self hlt
      have hbefore : Chain (cells.set a ⟨d, prev⟩) (some a) ((a, d) :: before) :=
        ⟨rfl, prev, hcell', hprev.set hnodup.1.2 _⟩
      have hdone := ih (hrest.set hnodup.1.1 ⟨d, prev⟩) hbefore (by grind) hlen
      simp only [SinglyLinked.reverseLoop, hcell]
      simpa using hdone

theorem Chain.length_le (h : Chain cells list chain) (hnodup : (chain.map Prod.fst).Nodup) :
    chain.length ≤ cells.length := by
  have hsub : chain.map Prod.fst ⊆ List.range cells.length := by
    intro a ha
    obtain ⟨x, hx, rfl⟩ := List.mem_map.mp ha
    exact List.mem_range.mpr (h.lt x hx)
  simpa using (hnodup.subperm hsub).length_le

theorem Chain.reverse (h : Chain cells list chain) (hnodup : (chain.map Prod.fst).Nodup) :
    Chain (reverse cells list).1 (reverse cells list).2 chain.reverse := by
  have hnone : Chain cells none ([] : List (Nat × α)) := rfl
  have hrev := h.reverseLoop hnone (by simpa using hnodup) (h.length_le hnodup)
  simpa [SinglyLinked.reverse] using hrev

theorem Chain.reverse_old {a : Nat} {d : α} (h : Chain cells list ((a, d) :: chain))
    (hnodup : (((a, d) :: chain).map Prod.fst).Nodup) :
    Chain (SinglyLinked.reverse cells list).1 list [(a, d)] := by
  have hrev := h.reverse hnodup
  rw [List.reverse_cons] at hrev
  obtain ⟨rfl, -⟩ := h
  exact hrev.last

@[simp] theorem length_reverseLoop (fuel : Nat) (cells : List (Cell α)) (prev list : Option Nat) :
    (reverseLoop fuel cells prev list).1.length = cells.length := by
  induction fuel generalizing cells prev list with
  | zero => rfl
  | succ fuel ih =>
    cases list with
    | none => rfl
    | some a =>
      simp only [reverseLoop]
      split
      · rw [ih, List.length_set]
      · rfl

end SinglyLinked
