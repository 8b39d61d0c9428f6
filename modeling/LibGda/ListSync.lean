import Mathlib.Data.List.Basic
import Mathlib.Data.List.TakeWhile

/-! Turning one list into another by edits at one place that moves to the right.
The elements that are not live end both lists. -/

namespace ListSync

variable {α : Type}

inductive Edit (α : Type) where
  | insert (i : Nat) (a : α)
  | update (i : Nat) (a : α)
  | remove (i : Nat)
  deriving DecidableEq

namespace Edit

def apply : Edit α → List α → List α
  | insert i a, l => l.take i ++ a :: l.drop i
  | update i a, l => l.set i a
  | remove i, l => l.eraseIdx i

/-- The same edit behind `n` elements. -/
def shift (n : Nat) : Edit α → Edit α
  | insert i a => insert (i + n) a
  | update i a => update (i + n) a
  | remove i => remove (i + n)

theorem apply_shift (e : Edit α) (before l : List α) :
    (e.shift before.length).apply (before ++ l) = before ++ e.apply l := by
  induction before with
  | nil => cases e <;> rfl
  | cons a before ih =>
    have hcons : (e.shift (a :: before).length).apply (a :: (before ++ l)) =
        a :: (e.shift before.length).apply (before ++ l) := by
      cases e with
      | insert i b => simp [shift, apply, ← Nat.add_assoc]
      | update i b => simp [shift, apply, ← Nat.add_assoc]
      | remove i => simp [shift, apply, ← Nat.add_assoc]
    rw [List.cons_append, hcons, ih, List.cons_append]

end Edit

def replay (edits : List (Edit α)) (l : List α) : List α :=
  edits.foldl (fun l e => e.apply l) l

theorem replay_append (edits edits' : List (Edit α)) (l : List α) :
    replay (edits ++ edits') l = replay edits' (replay edits l) :=
  List.foldl_append

variable {live : α → Bool}

/-- The element at `i`, if there is one which is live. -/
def liveAt (live : α → Bool) (l : List α) (i : Nat) : Option α :=
  (l[i]?).filter live

theorem liveAt_eq_some {l : List α} {i : Nat} {a : α} :
    liveAt live l i = some a ↔ l[i]? = some a ∧ live a = true := by
  simp [liveAt, Option.filter_eq_some_iff]

/-- Up to `sep` the list is the target; what cannot be removed is as in the old list. -/
structure Sync (live : α → Bool) (old target l : List α) (sep : Nat) : Prop where
  done : l.take sep = target.take sep
  sep_le : sep ≤ l.length
  sep_le_target : sep ≤ target.length
  live_done : ∀ a ∈ target.take sep, live a = true
  rest : (l.drop sep).dropWhile live = old.dropWhile live

theorem dropWhile_drop_of_liveAt {l : List α} {i : Nat} {a : α} (h : liveAt live l i = some a) :
    (l.drop i).dropWhile live = (l.drop (i + 1)).dropWhile live := by
  obtain ⟨hget, hlive⟩ := liveAt_eq_some.1 h
  obtain ⟨hlt, hval⟩ := List.getElem?_eq_some_iff.1 hget
  rw [List.drop_eq_getElem_cons hlt, hval, List.dropWhile_cons_of_pos hlive]

theorem takeWhile_drop_of_liveAt {l : List α} {i : Nat} {a : α} (h : liveAt live l i = some a) :
    (l.drop i).takeWhile live = a :: (l.drop (i + 1)).takeWhile live := by
  obtain ⟨hget, hlive⟩ := liveAt_eq_some.1 h
  obtain ⟨hlt, hval⟩ := List.getElem?_eq_some_iff.1 hget
  rw [List.drop_eq_getElem_cons hlt, hval, List.takeWhile_cons_of_pos hlive]

theorem drop_of_not_liveAt {l : List α} {i : Nat} (h : liveAt live l i = none) :
    (l.drop i).dropWhile live = l.drop i ∧ (l.drop i).takeWhile live = [] := by
  by_cases hi : i < l.length
  · have hget : l[i]? = some l[i] := List.getElem?_eq_getElem hi
    have hlive : ¬ live l[i] = true := by
      intro hl
      rw [liveAt_eq_some.2 ⟨hget, hl⟩] at h
      cases h
    rw [List.drop_eq_getElem_cons hi]
    exact ⟨List.dropWhile_cons_of_neg hlive, List.takeWhile_cons_of_neg hlive⟩
  · rw [List.drop_eq_nil_of_le (Nat.le_of_not_lt hi)]
    exact ⟨rfl, rfl⟩

theorem lt_of_liveAt {l : List α} {i : Nat} {a : α} (h : liveAt live l i = some a) :
    i < l.length :=
  (List.getElem?_eq_some_iff.1 (liveAt_eq_some.1 h).1).1

namespace Sync

variable {old target l : List α} {sep : Nat}

theorem start (live : α → Bool) (old target : List α) : Sync live old target old 0 where
  done := rfl
  sep_le := Nat.zero_le _
  sep_le_target := Nat.zero_le _
  live_done := by simp
  rest := rfl

theorem grow {b : α} (h : Sync live old target l sep) (hb : liveAt live target sep = some b) :
    target.take (sep + 1) = l.take sep ++ [b] ∧ ∀ a ∈ target.take (sep + 1), live a = true := by
  obtain ⟨hget, hlive⟩ := liveAt_eq_some.1 hb
  have htake : target.take (sep + 1) = l.take sep ++ [b] := by
    rw [List.take_add_one, hget, h.done]
    rfl
  refine ⟨htake, ?_⟩
  rw [htake, h.done]
  intro a ha
  rcases List.mem_append.1 ha with ha | ha
  · exact h.live_done a ha
  · rw [List.mem_singleton.1 ha]
    exact hlive

theorem update {a b : α} (h : Sync live old target l sep) (ha : liveAt live l sep = some a)
    (hb : liveAt live target sep = some b) : Sync live old target (l.set sep b) (sep + 1) := by
  obtain ⟨htake, hlive⟩ := h.grow hb
  have hlt := lt_of_liveAt ha
  refine ⟨?_, ?_, lt_of_liveAt hb, hlive, ?_⟩
  · rw [htake, List.take_add_one, List.take_set_of_le (Nat.le_refl sep)]
    simp [hlt]
  · rw [List.length_set]
    exact hlt
  · rw [List.drop_set_of_lt (Nat.lt_succ_self sep), ← dropWhile_drop_of_liveAt ha, h.rest]

theorem remove {a : α} (h : Sync live old target l sep) (ha : liveAt live l sep = some a) :
    Sync live old target (l.eraseIdx sep) sep := by
  have hlt := lt_of_liveAt ha
  refine ⟨?_, ?_, h.sep_le_target, h.live_done, ?_⟩
  · rw [List.eraseIdx_eq_take_drop_succ, List.take_append_of_le_length (by simp [h.sep_le])]
    rw [List.take_take, Nat.min_self, h.done]
  · rw [List.length_eraseIdx_of_lt hlt]
    omega
  · rw [List.eraseIdx_eq_take_drop_succ, List.drop_append_of_le_length (by simp [h.sep_le])]
    simp [← dropWhile_drop_of_liveAt ha, h.rest]

theorem insert {b : α} (h : Sync live old target l sep) (hb : liveAt live target sep = some b) :
    Sync live old target (l.take sep ++ b :: l.drop sep) (sep + 1) := by
  obtain ⟨htake, hlive⟩ := h.grow hb
  have hl : l.take sep ++ b :: l.drop sep = (l.take sep ++ [b]) ++ l.drop sep := by simp
  have hlength : (l.take sep ++ [b]).length = sep + 1 := by simp [h.sep_le]
  refine ⟨?_, ?_, lt_of_liveAt hb, hlive, ?_⟩
  · rw [hl, htake, ← hlength, List.take_left]
  · rw [hl, List.length_append, hlength]
    exact Nat.le_add_right _ _
  · rw [hl, ← hlength, List.drop_left, h.rest]

theorem finish (h : Sync live old target l sep) (hl : liveAt live l sep = none)
    (ht : liveAt live target sep = none) :
    l = target.takeWhile live ++ old.dropWhile live := by
  have hsplit : target.takeWhile live = target.take sep := by
    have hall : ∀ a ∈ target.take sep, live a = true := h.live_done
    calc target.takeWhile live
        = (target.take sep ++ target.drop sep).takeWhile live := by rw [List.take_append_drop]
      _ = target.take sep ++ (target.drop sep).takeWhile live :=
          List.takeWhile_append_of_pos hall
      _ = target.take sep := by rw [(drop_of_not_liveAt ht).2, List.append_nil]
  rw [hsplit, ← h.done, ← h.rest, (drop_of_not_liveAt hl).1, List.take_append_drop]

end Sync

/-- The edits that are left to do at `sep`. -/
def todo (live : α → Bool) (target l : List α) (sep : Nat) : Nat :=
  max ((l.drop sep).takeWhile live).length ((target.drop sep).takeWhile live).length

section Todo

variable {target l : List α} {sep : Nat} {a b : α}

theorem todo_update (ha : liveAt live l sep = some a) (hb : liveAt live target sep = some b) :
    todo live target (l.set sep b) (sep + 1) + 1 = todo live target l sep := by
  have hdrop : (l.set sep b).drop (sep + 1) = l.drop (sep + 1) :=
    List.drop_set_of_lt (Nat.lt_succ_self sep)
  simp only [todo, hdrop, takeWhile_drop_of_liveAt ha,
    takeWhile_drop_of_liveAt hb, List.length_cons]
  omega

theorem todo_remove (ha : liveAt live l sep = some a) (ht : liveAt live target sep = none) :
    todo live target (l.eraseIdx sep) sep + 1 = todo live target l sep := by
  have hle := Nat.le_of_lt (lt_of_liveAt ha)
  have hdrop : (l.eraseIdx sep).drop sep = l.drop (sep + 1) := by
    rw [List.eraseIdx_eq_take_drop_succ, List.drop_append_of_le_length (by simp [hle])]
    simp
  simp only [todo, hdrop, takeWhile_drop_of_liveAt ha, (drop_of_not_liveAt ht).2, List.length_cons,
    List.length_nil]
  omega

theorem todo_insert (hl : liveAt live l sep = none) (hb : liveAt live target sep = some b)
    (hle : sep ≤ l.length) :
    todo live target (l.take sep ++ b :: l.drop sep) (sep + 1) + 1 = todo live target l sep := by
  have hlength : (l.take sep ++ [b]).length = sep + 1 := by simp [hle]
  have hdrop : (l.take sep ++ b :: l.drop sep).drop (sep + 1) = l.drop sep := by
    have hsplit : l.take sep ++ b :: l.drop sep = (l.take sep ++ [b]) ++ l.drop sep := by simp
    rw [hsplit, ← hlength, List.drop_left]
  simp only [todo, hdrop, takeWhile_drop_of_liveAt hb, (drop_of_not_liveAt hl).2, List.length_cons,
    List.length_nil]
  omega

end Todo

end ListSync
