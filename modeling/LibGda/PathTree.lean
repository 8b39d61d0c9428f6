import Mathlib.Data.List.Induction
import Mathlib.Data.List.InsertIdx
import Mathlib.Tactic.Cases

/-! Trees given by the children of each node, and what stands at each path of them. -/

namespace PathTree

variable {N : Type}

def nodeAt (kids : N → List N) : N → List Nat → Option N
  | n, [] => some n
  | n, i :: path =>
    match (kids n)[i]? with
    | some c => nodeAt kids c path
    | none => none

def insertAt : List Nat → (List Nat → Option N) → (List Nat → Option N) → List Nat → Option N
  | [], sub, _ => sub
  | i :: path, sub, tree => fun p =>
    match p with
    | [] => tree []
    | j :: r =>
      if path = [] then
        if j < i then tree (j :: r) else if j = i then sub r else tree ((j - 1) :: r)
      else if j = i then insertAt path sub (fun r => tree (i :: r)) r else tree (j :: r)

def deleteAt : List Nat → (List Nat → Option N) → List Nat → Option N
  | [], _ => fun _ => none
  | i :: path, tree => fun p =>
    match p with
    | [] => tree []
    | j :: r =>
      if path = [] then
        if j < i then tree (j :: r) else tree ((j + 1) :: r)
      else if j = i then deleteAt path (fun r => tree (i :: r)) r else tree (j :: r)

structure Linked (root : N) (kids : N → List N) (parent : N → Option N) : Prop where
  root_parent : parent root = none
  parent_of : ∀ {n c}, c ∈ kids n → parent c = some n
  nodup : ∀ n, (kids n).Nodup

section Paths

variable {kids kids' : N → List N} {root node n c : N} {q p r : List Nat} {i : Nat}

theorem nodeAt_nil : nodeAt kids n [] = some n := by
  simp only [nodeAt]

theorem nodeAt_cons (h : (kids n)[i]? = some c) : nodeAt kids n (i :: p) = nodeAt kids c p := by
  simp only [nodeAt, h]

theorem nodeAt_below (h : (kids n)[i]? = some c) :
    (fun p => nodeAt kids n (i :: p)) = nodeAt kids c := by
  funext p
  exact nodeAt_cons h

theorem nodeAt_cons_none (h : (kids n)[i]? = none) : nodeAt kids n (i :: p) = none := by
  simp only [nodeAt, h]

theorem nodeAt_cons_some (h : nodeAt kids n (i :: p) = some c) :
    ∃ d, (kids n)[i]? = some d ∧ nodeAt kids d p = some c := by
  cases hd : (kids n)[i]? with
  | none =>
    rw [nodeAt_cons_none hd] at h
    cases h
  | some d =>
    rw [nodeAt_cons hd] at h
    exact ⟨d, rfl, h⟩

theorem nodeAt_append (h : nodeAt kids n q = some c) :
    nodeAt kids n (q ++ p) = nodeAt kids c p := by
  induction q generalizing n with
  | nil =>
    rw [nodeAt_nil] at h
    cases h
    rfl
  | cons i q ih =>
    obtain ⟨d, hd, hc⟩ := nodeAt_cons_some h
    rw [List.cons_append, nodeAt_cons hd]
    exact ih hc

theorem nodeAt_append_some (h : nodeAt kids n (q ++ p) = some c) :
    ∃ d, nodeAt kids n q = some d ∧ nodeAt kids d p = some c := by
  induction q generalizing n with
  | nil => exact ⟨n, nodeAt_nil, h⟩
  | cons i q ih =>
    obtain ⟨d, hd, hc⟩ := nodeAt_cons_some h
    obtain ⟨e, he, hc⟩ := ih hc
    exact ⟨e, (nodeAt_cons hd).trans he, hc⟩

theorem nodeAt_concat_some (h : nodeAt kids n (q ++ [i]) = some c) :
    ∃ d, nodeAt kids n q = some d ∧ (kids d)[i]? = some c := by
  obtain ⟨d, hd, hc⟩ := nodeAt_append_some h
  obtain ⟨e, he, hc⟩ := nodeAt_cons_some hc
  rw [nodeAt_nil] at hc
  cases hc
  exact ⟨d, hd, he⟩

theorem nodeAt_concat (h : nodeAt kids n q = some c) (hi : (kids c)[i]? = some node) :
    nodeAt kids n (q ++ [i]) = some node := by
  rw [nodeAt_append h, nodeAt_cons hi, nodeAt_nil]

theorem nodeAt_cons_eq :
    nodeAt kids n (i :: p) = (kids n)[i]?.bind fun c => nodeAt kids c p := by
  cases hc : (kids n)[i]? with
  | none => rw [nodeAt_cons_none hc, Option.bind_none]
  | some c => rw [nodeAt_cons hc, Option.bind_some]

theorem nodeAt_congr (hoff : ∀ m, m ≠ node → kids m = kids' m)
    (hn : ∀ p, nodeAt kids n p ≠ some node) : nodeAt kids n = nodeAt kids' n := by
  funext p
  induction p generalizing n with
  | nil => rfl
  | cons i p ih =>
    have hne : n ≠ node := by
      intro h
      apply hn []
      rw [nodeAt_nil, h]
    have hkids := hoff n hne
    cases hc : (kids n)[i]? with
    | none => rw [nodeAt_cons_none hc, nodeAt_cons_none (hkids ▸ hc)]
    | some c =>
      rw [nodeAt_cons hc, nodeAt_cons (hkids ▸ hc)]
      apply ih
      intro r hr
      apply hn (i :: r)
      rw [nodeAt_cons hc]
      exact hr

structure Edited (root node : N) (q : List Nat) (kids kids' : N → List N) : Prop where
  off : ∀ m, m ≠ node → kids m = kids' m
  stands : nodeAt kids root q = some node
  only : ∀ p, nodeAt kids root p = some node → p = q

theorem Edited.below (h : Edited node node [] kids kids') (hc : c ∈ kids node) :
    nodeAt kids c = nodeAt kids' c := by
  obtain ⟨j, hj⟩ := List.getElem?_of_mem hc
  apply nodeAt_congr h.off
  intro r hr
  have hpath := h.only (j :: r) (by rw [nodeAt_cons hj, hr])
  cases hpath

theorem Edited.step (h : Edited root node (i :: q) kids kids') :
    root ≠ node ∧ ∃ c, (kids root)[i]? = some c ∧ Edited c node q kids kids' := by
  obtain ⟨c, hc, hstands⟩ := nodeAt_cons_some h.stands
  constructor
  · intro hroot
    have hpath := h.only [] (by rw [nodeAt_nil, hroot])
    cases hpath
  · refine ⟨c, hc, ?_, ?_, ?_⟩
    · exact h.off
    · exact hstands
    · intro p hp
      have hpath := h.only (i :: p) (by rw [nodeAt_cons hc, hp])
      exact (List.cons.inj hpath).2

theorem Edited.beside {j : Nat} (h : Edited root node (i :: q) kids kids') (hj : j ≠ i) :
    nodeAt kids root (j :: r) = nodeAt kids' root (j :: r) := by
  have hkids := h.off root h.step.1
  rw [nodeAt_cons_eq, nodeAt_cons_eq, ← hkids]
  cases hd : (kids root)[j]? with
  | none => rfl
  | some d =>
    rw [Option.bind_some, Option.bind_some, nodeAt_congr h.off]
    intro r hr
    have hpath := h.only (j :: r) (by rw [nodeAt_cons hd, hr])
    exact hj (List.cons.inj hpath).1

theorem Edited.stands' (h : Edited root node q kids kids') : nodeAt kids' root q = some node := by
  induction q generalizing root with
  | nil =>
    have hroot := h.stands
    rw [nodeAt_nil] at hroot ⊢
    exact hroot
  | cons i q ih =>
    obtain ⟨hne, c, hc, hstep⟩ := h.step
    rw [nodeAt_cons (h.off root hne ▸ hc)]
    exact ih hstep

theorem Edited.deleteAt (h : Edited root node q kids kids')
    (herase : kids' node = (kids node).eraseIdx i) :
    deleteAt (q ++ [i]) (nodeAt kids root) = nodeAt kids' root := by
  induction q generalizing root with
  | nil =>
    have hroot := h.stands
    rw [nodeAt_nil] at hroot
    cases hroot
    funext p
    cases p with
    | nil => rfl
    | cons j r =>
      simp only [List.nil_append, PathTree.deleteAt, if_true]
      have hlist : (kids' node)[j]? = if j < i then (kids node)[j]? else (kids node)[j + 1]? := by
        rw [herase, List.getElem?_eraseIdx]
      rw [@nodeAt_cons_eq _ kids' node r j, hlist]
      have hbelow : ∀ k, nodeAt kids node (k :: r) = (kids node)[k]?.bind fun c => nodeAt kids' c r := by
        intro k
        rw [nodeAt_cons_eq]
        cases hc : (kids node)[k]? with
        | none => rfl
        | some c => rw [Option.bind_some, Option.bind_some, h.below (List.mem_of_getElem? hc)]
      by_cases hj : j < i
      · rw [if_pos hj, if_pos hj, hbelow]
      · rw [if_neg hj, if_neg hj, hbelow]
  | cons k q ih =>
    obtain ⟨hne, c, hc, hstep⟩ := h.step
    have hkids := h.off root hne
    funext p
    cases p with
    | nil => rfl
    | cons j r =>
      have hlast : q ++ [i] ≠ [] := by simp
      simp only [List.cons_append, PathTree.deleteAt, if_neg hlast]
      by_cases hj : j = k
      · subst hj
        rw [if_pos rfl, nodeAt_below hc, ih hstep, nodeAt_cons (hkids ▸ hc)]
      · rw [if_neg hj]
        exact h.beside hj

theorem Edited.insertAt (h : Edited root node q kids' kids)
    (hinsert : kids' node = (kids node).insertIdx i c) (hi : i ≤ (kids node).length) :
    insertAt (q ++ [i]) (nodeAt kids' c) (nodeAt kids root) = nodeAt kids' root := by
  induction q generalizing root with
  | nil =>
    have hroot := h.stands
    rw [nodeAt_nil] at hroot
    cases hroot
    funext p
    cases p with
    | nil => rfl
    | cons j r =>
      simp only [List.nil_append, PathTree.insertAt, if_true]
      have hmem : ∀ d ∈ kids node, d ∈ kids' node := by
        intro d hd
        rw [hinsert, List.mem_insertIdx hi]
        exact .inr hd
      have hbelow : ∀ k, nodeAt kids node (k :: r) = (kids node)[k]?.bind fun d => nodeAt kids' d r := by
        intro k
        rw [nodeAt_cons_eq]
        cases hd : (kids node)[k]? with
        | none => rfl
        | some d =>
          rw [Option.bind_some, Option.bind_some, h.below (hmem d (List.mem_of_getElem? hd))]
      rw [@nodeAt_cons_eq _ kids' node r j, hinsert, List.getElem?_insertIdx]
      by_cases hj : j < i
      · rw [if_pos hj, if_pos hj, hbelow]
      · rw [if_neg hj, if_neg hj]
        by_cases hji : j = i
        · rw [if_pos hji, if_pos hji, if_pos (by omega), Option.bind_some]
        · rw [if_neg hji, if_neg hji, hbelow]
  | cons k q ih =>
    obtain ⟨hne, d, hd, hstep⟩ := h.step
    have hkids := h.off root hne
    funext p
    cases p with
    | nil => rfl
    | cons j r =>
      have hlast : q ++ [i] ≠ [] := by simp
      simp only [List.cons_append, PathTree.insertAt, if_neg hlast]
      by_cases hj : j = k
      · subst hj
        rw [if_pos rfl, nodeAt_below (hkids ▸ hd), ih hstep, nodeAt_cons hd]
      · rw [if_neg hj]
        exact (h.beside hj).symm

end Paths

section Linked

variable {kids kids' : N → List N} {parent : N → Option N} {root node n c x : N}
  {q p r : List Nat} {i : Nat}

theorem Linked.parent_nodeAt (h : Linked root kids parent) (hc : nodeAt kids n (q ++ [i]) = some c) :
    ∃ d, parent c = some d ∧ nodeAt kids n q = some d ∧ (kids d)[i]? = some c := by
  obtain ⟨d, hd, hi⟩ := nodeAt_concat_some hc
  exact ⟨d, h.parent_of (List.mem_of_getElem? hi), hd, hi⟩

theorem Linked.index_unique (h : Linked root kids parent) {j : Nat} (hi : (kids n)[i]? = some c)
    (hj : (kids n)[j]? = some c) : i = j := by
  obtain ⟨hilt, -⟩ := List.getElem?_eq_some_iff.1 hi
  apply (List.getElem?_inj hilt (h.nodup n)).1
  exact hi.trans hj.symm

theorem Linked.path_unique (h : Linked root kids parent) (hq : nodeAt kids root q = some n)
    (hp : nodeAt kids root p = some n) : p = q := by
  induction q using List.reverseRecOn generalizing n p with
  | nil =>
    rw [nodeAt_nil] at hq
    cases hq
    rcases List.eq_nil_or_concat p with hp' | ⟨p', i, hp'⟩
    · exact hp'
    · rw [hp', List.concat_eq_append] at hp
      obtain ⟨d, hd, -⟩ := h.parent_nodeAt hp
      rw [h.root_parent] at hd
      cases hd
  | append_singleton q i ih =>
    obtain ⟨d, hd, hdq, hi⟩ := h.parent_nodeAt hq
    rcases List.eq_nil_or_concat p with hp' | ⟨p', j, hp'⟩
    · rw [hp', nodeAt_nil] at hp
      cases hp
      rw [h.root_parent] at hd
      cases hd
    · rw [hp', List.concat_eq_append] at hp ⊢
      obtain ⟨e, he, hep, hj⟩ := h.parent_nodeAt hp
      have hde : d = e := Option.some.inj (hd.symm.trans he)
      subst hde
      rw [ih hdq hep, h.index_unique hi hj]

end Linked

end PathTree
