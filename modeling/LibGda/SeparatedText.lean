import Mathlib.Data.List.Basic
import Mathlib.Data.List.TakeWhile

/-! Texts made of entries with a separator between them, and the places where an entry starts with
a given word. -/

namespace SeparatedText

variable {α : Type} (sep : α)

def joined (entries : List (List α)) : List α := [sep].intercalate entries

def closedText (entries : List (List α)) : List α := entries.flatMap (· ++ [sep])

def openedText (entries : List (List α)) : List α := entries.flatMap (sep :: ·)

variable {sep} {entry name text : List α} {entries before after : List (List α)} {pos : Nat}

@[simp] theorem joined_nil : joined sep [] = [] := List.intercalate_nil

@[simp] theorem joined_singleton (entry : List α) : joined sep [entry] = entry :=
  List.intercalate_singleton

theorem joined_cons_cons (entry other : List α) (entries : List (List α)) :
    joined sep (entry :: other :: entries) = entry ++ sep :: joined sep (other :: entries) := by
  rw [joined, List.intercalate_cons_cons, List.append_assoc]
  rfl

theorem joined_cons (entry : List α) (entries : List (List α)) :
    joined sep (entry :: entries) = entry ++ openedText sep entries := by
  induction entries generalizing entry with
  | nil => simp [openedText]
  | cons other entries ih =>
    rw [joined_cons_cons, ih]
    rfl

theorem closedText_cons (entry : List α) (entries : List (List α)) :
    closedText sep (entry :: entries) = entry ++ sep :: closedText sep entries := by
  rw [closedText, List.flatMap_cons, List.append_assoc]
  rfl

theorem joined_append (hne : after ≠ []) :
    joined sep (before ++ after) = closedText sep before ++ joined sep after := by
  induction before with
  | nil => rfl
  | cons entry before ih =>
    have hcons : before ++ after ≠ [] := List.append_ne_nil_of_right_ne_nil _ hne
    obtain ⟨other, entries, heq⟩ := List.exists_cons_of_ne_nil hcons
    have hsplit : joined sep (entry :: (before ++ after)) =
        entry ++ sep :: joined sep (before ++ after) := by
      rw [heq, joined_cons_cons]
    rw [List.cons_append, hsplit, ih, closedText_cons, List.append_assoc]
    rfl

theorem tail_openedText (entries : List (List α)) :
    (openedText sep entries).tail = joined sep entries := by
  cases entries with
  | nil => rfl
  | cons entry entries => exact (joined_cons entry entries).symm

theorem joined_eq_nil (hentries : ∀ entry ∈ entries, entry ≠ []) :
    joined sep entries = [] ↔ entries = [] := by
  cases entries with
  | nil => simp
  | cons entry entries =>
    rw [joined_cons]
    have hentry := hentries entry (List.mem_cons_self ..)
    simp [hentry]

theorem closedText_eq (hne : before ≠ []) : closedText sep before = joined sep before ++ [sep] := by
  induction before with
  | nil => exact absurd rfl hne
  | cons entry before ih =>
    cases before with
    | nil => simp [closedText]
    | cons other before =>
      rw [closedText_cons, ih (List.cons_ne_nil _ _), joined_cons_cons, List.append_assoc]
      rfl

theorem getLast?_joined (hentries : ∀ entry ∈ entries, entry ≠ [] ∧ sep ∉ entry) :
    (joined sep entries).getLast? ≠ some sep := by
  induction entries with
  | nil => exact nofun
  | cons entry entries ih =>
    cases entries with
    | nil =>
      rw [joined_singleton]
      intro h
      exact (hentries entry (List.mem_cons_self ..)).2 (List.mem_of_getLast? h)
    | cons other entries =>
      have hrest : joined sep (other :: entries) ≠ [] := by
        intro h
        rw [joined_eq_nil (fun e he => (hentries e (List.mem_cons_of_mem _ he)).1)] at h
        cases h
      rw [joined_cons_cons, List.getLast?_append_of_ne_nil _ (List.cons_ne_nil _ _),
        List.getLast?_cons_of_ne_nil hrest]
      exact ih fun e he => hentries e (List.mem_cons_of_mem _ he)

/-- `name` is at `pos`, at the start of an entry. -/
def StartsAt (sep : α) (name text : List α) (pos : Nat) : Prop :=
  name <+: text.drop pos ∧ (pos = 0 ∨ text[pos - 1]? = some sep)

theorem prefix_entry (hname : sep ∉ name) (rest : List α) :
    name <+: entry ++ sep :: rest ↔ name <+: entry := by
  constructor
  · intro h
    by_cases hlen : name.length ≤ entry.length
    · exact List.prefix_of_prefix_length_le h (List.prefix_append _ _) hlen
    · have hlong : entry ++ [sep] <+: name := by
        refine List.prefix_of_prefix_length_le ⟨rest, by simp⟩ h ?_
        rw [List.length_append, List.length_singleton]
        omega
      exact absurd (hlong.subset (List.mem_append_right _ (List.mem_singleton_self _))) hname
  · intro h
    exact h.trans (List.prefix_append _ _)

theorem not_startsAt_inside (hentry : sep ∉ entry) (h0 : 0 < pos) (hpos : pos ≤ entry.length) :
    ¬ StartsAt sep name (entry ++ text) pos := by
  rintro ⟨-, h | h⟩
  · omega
  · have hlt : pos - 1 < entry.length := by omega
    rw [List.getElem?_append_left hlt] at h
    exact hentry (List.mem_of_getElem? h)

theorem startsAt_shift (entry : List α) (n : Nat) :
    StartsAt sep name (entry ++ sep :: text) (entry.length + 1 + n) ↔ StartsAt sep name text n := by
  have hdrop : (entry ++ sep :: text).drop (entry.length + 1 + n) = text.drop n := by
    have hsplit : entry ++ sep :: text = (entry ++ [sep]) ++ text := by simp
    have hlen : entry.length + 1 = (entry ++ [sep]).length := by simp
    rw [hsplit, hlen, ← List.drop_drop, List.drop_left]
  rw [StartsAt, StartsAt, hdrop]
  cases n with
  | zero => simp
  | succ n =>
    have hget : (entry ++ sep :: text)[entry.length + 1 + (n + 1) - 1]? = text[n]? := by
      rw [List.getElem?_append_right (by omega)]
      have hsub : entry.length + 1 + (n + 1) - 1 - entry.length = n + 1 := by omega
      rw [hsub, List.getElem?_cons_succ]
    rw [hget]
    simp

theorem not_startsAt_entry (hname : sep ∉ name) (hentry : sep ∉ entry ∧ ¬ name <+: entry)
    (hrest : ∀ n, pos = entry.length + 1 + n → ¬ StartsAt sep name text n) :
    ¬ StartsAt sep name (entry ++ sep :: text) pos := by
  obtain ⟨hsep, hno⟩ := hentry
  rcases Nat.eq_zero_or_pos pos with rfl | h0
  · rintro ⟨h, -⟩
    exact hno ((prefix_entry hname _).1 h)
  · by_cases hle : pos ≤ entry.length
    · exact not_startsAt_inside hsep h0 hle
    · obtain ⟨n, rfl⟩ : ∃ n, pos = entry.length + 1 + n := ⟨pos - (entry.length + 1), by omega⟩
      rw [startsAt_shift]
      exact hrest n rfl

theorem not_startsAt_closed (hname : sep ∉ name)
    (hentries : ∀ entry ∈ before, sep ∉ entry ∧ ¬ name <+: entry)
    (hpos : pos < (closedText sep before).length) :
    ¬ StartsAt sep name (closedText sep before ++ text) pos := by
  induction before generalizing pos with
  | nil => exact absurd hpos (Nat.not_lt_zero _)
  | cons entry before ih =>
    have hsplit : closedText sep (entry :: before) ++ text =
        entry ++ sep :: (closedText sep before ++ text) := by
      rw [closedText_cons, List.append_assoc]
      rfl
    have hlen : (closedText sep (entry :: before)).length =
        entry.length + 1 + (closedText sep before).length := by
      rw [closedText_cons, List.length_append, List.length_cons]
      omega
    rw [hsplit]
    refine not_startsAt_entry hname (hentries entry (List.mem_cons_self ..)) fun n hn => ?_
    refine ih (fun e he => hentries e (List.mem_cons_of_mem _ he)) ?_
    rw [hlen] at hpos
    omega

theorem not_startsAt_joined (hname : sep ∉ name) (hne : name ≠ [])
    (hentries : ∀ entry ∈ entries, sep ∉ entry ∧ ¬ name <+: entry) :
    ¬ StartsAt sep name (joined sep entries) pos := by
  have hend : ∀ {t : List α} {p : Nat}, t.length ≤ p → ¬ StartsAt sep name t p := by
    rintro t p hle ⟨h, -⟩
    rw [List.drop_eq_nil_of_le hle] at h
    exact hne (List.prefix_nil.1 h)
  induction entries generalizing pos with
  | nil => exact hend (Nat.zero_le _)
  | cons entry entries ih =>
    obtain ⟨hsep, hno⟩ := hentries entry (List.mem_cons_self ..)
    cases entries with
    | nil =>
      rw [joined_singleton]
      rcases Nat.eq_zero_or_pos pos with rfl | h0
      · rintro ⟨h, -⟩
        exact hno h
      · by_cases hle : pos ≤ entry.length
        · have hinside := @not_startsAt_inside α sep entry name [] pos hsep h0 hle
          rwa [List.append_nil] at hinside
        · exact hend (Nat.le_of_not_le hle)
    | cons other entries =>
      rw [joined_cons_cons]
      exact not_startsAt_entry hname (hentries entry (List.mem_cons_self ..)) fun n _ =>
        ih fun e he => hentries e (List.mem_cons_of_mem _ he)

end SeparatedText
