import Mathlib.Data.List.Induction
import Mathlib.Data.List.Nodup
import Mathlib.Data.Nat.Basic

/-! Values inserted into an array one after the other: where each of them has come to stand, as the
later ones shift those behind. -/

namespace InsertPositions

variable {α : Type} (zero : α)

def insertVal (array : List α) (index : Nat) (data : α) : List α :=
  if array.length ≤ index then array ++ List.replicate (index - array.length) zero ++ [data]
  else array.insertIdx index data

def insertAll (entries : List (Nat × α)) : List α :=
  entries.foldl (fun array e => insertVal zero array e.1 e.2) []

variable {zero}

def place (places : List (Nat × α)) (e : Nat × α) : List (Nat × α) :=
  places.map (fun p => (if e.1 ≤ p.1 then p.1 + 1 else p.1, p.2)) ++ [e]

def places (entries : List (Nat × α)) : List (Nat × α) := entries.foldl place []

variable {array : List α} {index : Nat} {data : α} {entries ps : List (Nat × α)} {e : Nat × α}

theorem length_insertVal (array : List α) (index : Nat) (data : α) :
    (insertVal zero array index data).length = max (array.length + 1) (index + 1) := by
  rw [insertVal]
  split
  · simp only [List.length_append, List.length_replicate, List.length_singleton]
    omega
  · rw [List.length_insertIdx_of_le_length (by omega)]
    omega

theorem getElem?_insertVal (t : Nat) : (insertVal zero array index data)[t]? =
    if t = index then some data
    else if index < t then array[t - 1]?
    else if t < array.length then array[t]? else some zero := by
  rw [insertVal]
  split
  · next hle =>
    by_cases ht : t < array.length
    · rw [List.append_assoc, List.getElem?_append_left ht, if_neg (by omega), if_neg (by omega),
        if_pos ht]
    · rw [List.append_assoc, List.getElem?_append_right (by omega)]
      by_cases hindex : t < index
      · rw [List.getElem?_append_left (by rw [List.length_replicate]; omega),
          List.getElem?_replicate, if_pos (by omega), if_neg (by omega), if_neg (by omega),
            if_neg ht]
      · rw [List.getElem?_append_right (by rw [List.length_replicate]; omega),
          List.length_replicate]
        by_cases heq : t = index
        · rw [if_pos heq]
          have hzero : t - array.length - (index - array.length) = 0 := by omega
          rw [hzero]
          rfl
        · rw [if_neg heq, if_pos (by omega), List.getElem?_eq_none (by simp; omega),
            List.getElem?_eq_none (by omega)]
  · next hlt =>
    rw [List.getElem?_insertIdx]
    by_cases heq : t = index
    · rw [if_neg (by omega), if_pos heq, if_pos heq, if_pos (by omega)]
    · rw [if_neg heq]
      by_cases hindex : index < t
      · rw [if_neg (by omega), if_neg heq, if_pos hindex]
      · rw [if_pos (show t < index by omega), if_neg heq, if_neg hindex,
          if_pos (show t < array.length by omega)]

structure Placed (zero : α) (array : List α) (ps : List (Nat × α)) : Prop where
  value : ∀ p ∈ ps, array[p.1]? = some p.2
  filled : ∀ t < array.length, (∀ p ∈ ps, p.1 ≠ t) → array[t]? = some zero

theorem Placed.lt (h : Placed zero array ps) {p : Nat × α} (hp : p ∈ ps) : p.1 < array.length := by
  by_contra hno
  have hvalue := h.value p hp
  rw [List.getElem?_eq_none (by omega)] at hvalue
  cases hvalue

theorem Placed.insertVal (h : Placed zero array ps) (e : Nat × α) :
    Placed zero (insertVal zero array e.1 e.2) (place ps e) := by
  constructor
  · intro p hp
    rw [getElem?_insertVal]
    rcases List.mem_append.1 hp with hp | hp
    · obtain ⟨q, hq, rfl⟩ := List.mem_map.1 hp
      have hvalue := h.value q hq
      have hlt := h.lt hq
      by_cases hle : e.1 ≤ q.1
      · simp only [if_pos hle]
        rw [if_neg (by omega), if_pos (by omega)]
        exact hvalue
      · simp only [if_neg hle]
        rw [if_neg (by omega), if_neg (by omega), if_pos hlt]
        exact hvalue
    · rw [List.mem_singleton.1 hp, if_pos rfl]
  · intro t ht hfree
    rw [length_insertVal] at ht
    have hne : e.1 ≠ t := hfree e (List.mem_append_right _ (List.mem_singleton.2 rfl))
    have hother (q : Nat × α) (hq : q ∈ ps) : (if e.1 ≤ q.1 then q.1 + 1 else q.1) ≠ t :=
      hfree _ (List.mem_append_left _ (List.mem_map.2 ⟨q, hq, rfl⟩))
    rw [getElem?_insertVal, if_neg hne.symm]
    split
    · next hlt =>
      apply h.filled (t - 1) (by omega)
      intro q hq heq
      apply hother q hq
      rw [if_pos (by omega)]
      omega
    · next hge =>
      split
      · next hlt =>
        apply h.filled t hlt
        intro q hq heq
        apply hother q hq
        rw [if_neg (by omega)]
        exact heq
      · rfl

theorem insertAll_concat (entries : List (Nat × α)) (e : Nat × α) :
    insertAll zero (entries ++ [e]) = insertVal zero (insertAll zero entries) e.1 e.2 := by
  rw [insertAll, insertAll, List.foldl_append]
  rfl

theorem places_concat (entries : List (Nat × α)) (e : Nat × α) :
    places (entries ++ [e]) = place (places entries) e := by
  rw [places, places, List.foldl_append]
  rfl

theorem placed_all (zero : α) (entries : List (Nat × α)) :
    Placed zero (insertAll zero entries) (places entries) := by
  induction entries using List.reverseRecOn with
  | nil =>
    constructor
    · intro p hp
      cases hp
    · intro t ht
      cases ht
  | append_singleton es e ih =>
    rw [insertAll_concat, places_concat]
    exact ih.insertVal e

theorem lt_length_insertAll (zero : α) (he : e ∈ entries) : e.1 < (insertAll zero entries).length := by
  induction entries using List.reverseRecOn with
  | nil => cases he
  | append_singleton es e' ih =>
    rw [insertAll_concat, length_insertVal]
    rcases List.mem_append.1 he with he | he
    · have hlt := ih he
      omega
    · rw [List.mem_singleton.1 he]
      omega

def Lands (zero : α) (ps : List (Nat × α)) (index : Nat) (data : α) : Prop :=
  (index, data) ∈ ps ∨ (∀ p ∈ ps, p.1 ≠ index) ∧ data = zero

theorem getElem?_insertAll (hindex : index < (insertAll zero entries).length) :
    (insertAll zero entries)[index]? = some data ↔ Lands zero (places entries) index data := by
  have hplaced := placed_all zero entries
  by_cases hfree : ∀ p ∈ places entries, p.1 ≠ index
  · rw [hplaced.filled index hindex hfree, Lands, Option.some.injEq]
    constructor
    · intro h
      exact .inr ⟨hfree, h.symm⟩
    · intro h
      rcases h with h | h
      · exact absurd rfl (hfree _ h)
      · exact h.2.symm
  · push Not at hfree
    obtain ⟨p, hp, rfl⟩ := hfree
    rw [hplaced.value p hp, Lands, Option.some.injEq]
    constructor
    · intro h
      left
      rw [← h]
      exact hp
    · intro h
      rcases h with h | h
      · have hvalue := hplaced.value _ h
        rw [hplaced.value p hp] at hvalue
        exact Option.some.inj hvalue
      · exact absurd rfl (h.1 p hp)

theorem places_of_increasing (h : entries.Pairwise fun a b => a.1 < b.1) : places entries =
    entries := by
  induction entries using List.reverseRecOn with
  | nil => rfl
  | append_singleton es e ih =>
    rw [List.pairwise_append] at h
    obtain ⟨hes, -, hlast⟩ := h
    rw [places_concat, ih hes, place]
    congr 1
    conv_rhs => rw [← List.map_id es]
    apply List.map_congr_left
    intro p hp
    rw [if_neg (Nat.not_le.2 (hlast p hp e (List.mem_singleton.2 rfl)))]
    rfl

theorem place_ge {p : Nat × α} (hp : p ∈ places entries) :
    ∃ q ∈ entries, q.2 = p.2 ∧ q.1 ≤ p.1 := by
  induction entries using List.reverseRecOn generalizing p with
  | nil => cases hp
  | append_singleton es e ih =>
    rw [places_concat, place] at hp
    rcases List.mem_append.1 hp with hp | hp
    · obtain ⟨r, hr, rfl⟩ := List.mem_map.1 hp
      obtain ⟨q, hq, hdata, hle⟩ := ih hr
      refine ⟨q, List.mem_append_left _ hq, hdata, ?_⟩
      simp only
      split <;> omega
    · rw [List.mem_singleton.1 hp]
      exact ⟨e, List.mem_append_right _ (List.mem_singleton.2 rfl), rfl, Nat.le_refl _⟩

theorem increasing_of_places (hdata : (entries.map Prod.snd).Nodup)
    (h : ∀ e ∈ entries, e ∈ places entries) : entries.Pairwise fun a b => a.1 < b.1 := by
  induction entries using List.reverseRecOn with
  | nil => exact List.Pairwise.nil
  | append_singleton es e ih =>
    rw [List.map_append, List.nodup_append] at hdata
    obtain ⟨hnodup, -, hapart⟩ := hdata
    have hback : ∀ q ∈ es, q ∈ places es ∧ q.1 < e.1 := by
      intro q hq
      have hplace := h q (List.mem_append_left _ hq)
      rw [places_concat, place] at hplace
      rcases List.mem_append.1 hplace with hplace | hplace
      · obtain ⟨p, hp, heq⟩ := List.mem_map.1 hplace
        obtain ⟨r, hr, hrdata, hrle⟩ := place_ge hp
        have hqp : q.2 = p.2 := (congrArg Prod.snd heq).symm
        have hrq : r = q := List.inj_on_of_nodup_map hnodup hr hq (hrdata.trans hqp.symm)
        have hindex : (if e.1 ≤ p.1 then p.1 + 1 else p.1) = q.1 := congrArg Prod.fst heq
        rw [hrq] at hrle
        by_cases hle : e.1 ≤ p.1
        · rw [if_pos hle] at hindex
          omega
        · rw [if_neg hle] at hindex
          have hsame : p = q := Prod.ext hindex hqp.symm
          rw [← hsame]
          exact ⟨hp, Nat.not_le.1 hle⟩
      · rw [List.mem_singleton.1 hplace] at hq
        exact absurd rfl (hapart e.2 (List.mem_map.2 ⟨e, hq, rfl⟩) e.2 (List.mem_singleton.2 rfl))
    rw [List.pairwise_append]
    refine ⟨ih hnodup fun q hq => (hback q hq).1, List.pairwise_singleton _ _, ?_⟩
    intro q hq r hr
    rw [List.mem_singleton.1 hr]
    exact (hback q hq).2

end InsertPositions
