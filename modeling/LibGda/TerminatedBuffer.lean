import Mathlib.Data.List.GetD
import Mathlib.Data.List.TakeWhile

/-! Reading a buffer which ends at its terminator: what is behind the terminator
cannot be read. -/

namespace TerminatedBuffer

inductive ScanFault where
  | beyondEnd
  | outOfFuel
  deriving DecidableEq

variable {α : Type} {nul : α} {p : α → Bool} {z : List α} {i j : Nat}

/-- `z[i]`, where `z` is terminated by `nul`. -/
def peek (nul : α) (z : List α) (i : Nat) : Except ScanFault α :=
  if i ≤ z.length then .ok (z.getD i nul) else .error .beyondEnd

def scanFrom (nul : α) (p : α → Bool) : List α → Nat → Except ScanFault Nat
  | [], i => if p nul then .error .beyondEnd else .ok i
  | c :: cs, i => if p c then scanFrom nul p cs (i + 1) else .ok i

/-- `for (; p (z[i]); i++)` -/
def scan (nul : α) (p : α → Bool) (z : List α) (i : Nat) : Except ScanFault Nat :=
  if i ≤ z.length then scanFrom nul p (z.drop i) i else .error .beyondEnd

theorem peek_of_le (h : i ≤ z.length) : peek nul z i = .ok (z.getD i nul) := if_pos h

@[simp] theorem peek_zero_nil : peek nul [] 0 = .ok nul := rfl

@[simp] theorem peek_zero_cons {c : α} : peek nul (c :: z) 0 = .ok c := rfl

@[simp] theorem peek_one_nil {c : α} : peek nul [c] 1 = .ok nul := rfl

@[simp] theorem peek_one_cons {c d : α} : peek nul (c :: d :: z) 1 = .ok d := by
  simp [peek]

theorem scanFrom_of_stops (hp : p nul = false) (cs : List α) (i : Nat) :
    scanFrom nul p cs i = .ok (i + (cs.takeWhile p).length) := by
  induction cs generalizing i with
  | nil => simp [scanFrom, hp]
  | cons c cs ih =>
    by_cases hc : p c
    · rw [scanFrom, if_pos hc, ih, List.takeWhile_cons_of_pos hc, List.length_cons]
      congr 1
      omega
    · simp [scanFrom, hc]

theorem scan_of_stops (hp : p nul = false) (hi : i ≤ z.length) :
    scan nul p z i = .ok (i + ((z.drop i).takeWhile p).length) := by
  rw [scan, if_pos hi, scanFrom_of_stops hp]

theorem length_takeWhile_drop_le (hi : i ≤ z.length) :
    i + ((z.drop i).takeWhile p).length ≤ z.length := by
  have h := (List.takeWhile_prefix (l := z.drop i) p).length_le
  rw [List.length_drop] at h
  omega

theorem takeWhile_boundary {body rest : List α} (hb : ∀ c ∈ body, p c = true)
    (hr : ∀ c, rest.head? = some c → p c = false) : (body ++ rest).takeWhile p = body := by
  rw [List.takeWhile_append_of_pos hb]
  cases rest with
  | nil => simp
  | cons c rest => simp [hr c rfl]

theorem head_dropWhile (l : List α) : ∀ c, (l.dropWhile p).head? = some c → p c = false := by
  intro c hc
  have h := List.head?_dropWhile_not p l
  rw [hc] at h
  simpa using h

theorem scan_boundary (before : List α) {body rest : List α} (hp : p nul = false) (hb : ∀ c ∈ body, p c = true)
    (hr : ∀ c, rest.head? = some c → p c = false) :
    scan nul p (before ++ (body ++ rest)) before.length = .ok (before.length + body.length) := by
  rw [scan_of_stops hp (by simp), List.drop_left, takeWhile_boundary hb hr]

theorem scan_within (hp : p nul = false) (hi : i ≤ z.length) :
    ∃ j, scan nul p z i = .ok j ∧ i ≤ j ∧ j ≤ z.length :=
  ⟨_, scan_of_stops hp hi, Nat.le_add_right _ _, length_takeWhile_drop_le hi⟩

theorem lt_of_peek {c : α} (h : peek nul z i = .ok c) (hc : c ≠ nul) : i < z.length := by
  by_cases hi : i < z.length
  · exact hi
  · by_cases he : i ≤ z.length
    · rw [peek_of_le he, List.getD_eq_default _ _ (Nat.not_lt.1 hi)] at h
      exact absurd (Except.ok.inj h).symm hc
    · rw [peek, if_neg he] at h
      cases h

variable {β : Type} {cut cut' : Prop} {post : α → Prop} {post' : β → Prop}
  {x : Except ScanFault α} {f : α → Except ScanFault β}

/-- The computation reads behind the end exactly when `cut`, and meets `post` otherwise. -/
def Reads (cut : Prop) (post : α → Prop) (x : Except ScanFault α) : Prop :=
  (cut ∧ x = .error .beyondEnd) ∨ (¬ cut ∧ ∃ a, x = .ok a ∧ post a)

namespace Reads

theorem ok {a : α} (hc : ¬ cut) (ha : post a) : Reads cut post (.ok a) :=
  Or.inr ⟨hc, a, rfl, ha⟩

theorem error (hc : cut) : Reads cut post (.error .beyondEnd) :=
  Or.inl ⟨hc, rfl⟩

theorem congr (h : Reads cut post x) (hc : cut ↔ cut') : Reads cut' post x := by
  rcases h with ⟨hcut, hx⟩ | ⟨hcut, hx⟩
  · exact Or.inl ⟨hc.1 hcut, hx⟩
  · exact Or.inr ⟨fun h => hcut (hc.2 h), hx⟩

theorem imp {post₂ : α → Prop} (h : Reads cut post x) (hp : ∀ a, post a → post₂ a) :
    Reads cut post₂ x := by
  rcases h with h | ⟨hcut, a, hx, ha⟩
  · exact Or.inl h
  · exact Or.inr ⟨hcut, a, hx, hp a ha⟩

theorem bind (hx : Reads cut post x) (hf : ∀ a, post a → Reads cut' post' (f a)) :
    Reads (cut ∨ cut') post' (x >>= f) := by
  rcases hx with ⟨hcut, rfl⟩ | ⟨hcut, a, rfl, ha⟩
  · exact Or.inl ⟨Or.inl hcut, rfl⟩
  · rcases hf a ha with ⟨hcut', hb⟩ | ⟨hcut', b, hb, hpost⟩
    · exact Or.inl ⟨Or.inr hcut', hb⟩
    · exact Or.inr ⟨not_or.2 ⟨hcut, hcut'⟩, b, hb, hpost⟩

theorem bind_within (hx : Reads cut post x) (hf : ∀ a, post a → Reads False post' (f a)) :
    Reads cut post' (x >>= f) :=
  (hx.bind hf).congr (or_iff_left id)

theorem of_within (h : Reads False post x) (hc : ¬ cut) : Reads cut post x :=
  h.congr (iff_of_false id hc)

theorem bind_safe (hx : Reads False post x) (hf : ∀ a, post a → Reads cut' post' (f a)) :
    Reads cut' post' (x >>= f) :=
  (hx.bind hf).congr (by simp)

theorem bind_ok (hx : Reads cut post x) (hf : ¬ cut → ∀ a, post a → ∃ b, f a = .ok b ∧ post' b) :
    Reads cut post' (x >>= f) := by
  rcases hx with ⟨hcut, rfl⟩ | ⟨hcut, a, rfl, ha⟩
  · exact error hcut
  · exact Or.inr ⟨hcut, hf hcut a ha⟩

theorem map {g : α → β} (hx : Reads cut post x) (hg : ∀ a, post a → post' (g a)) :
    Reads cut post' (x.map g) := by
  rcases hx with ⟨hcut, rfl⟩ | ⟨hcut, a, rfl, ha⟩
  · exact error hcut
  · exact ok hcut (hg a ha)

theorem exists_ok (h : Reads cut post x) (hc : ¬ cut) : ∃ a, x = .ok a ∧ post a := by
  rcases h with ⟨hcut, -⟩ | ⟨-, hx⟩
  · exact absurd hcut hc
  · exact hx

theorem eq_error (h : Reads cut post x) (hc : cut) : x = .error .beyondEnd := by
  rcases h with ⟨-, hx⟩ | ⟨hcut, -⟩
  · exact hx
  · exact absurd hc hcut

end Reads

theorem reads_peek (hi : i ≤ z.length) : Reads False (fun c => c ≠ nul → i < z.length) (peek nul z i) := by
  rw [peek_of_le hi]
  exact .ok id (lt_of_peek (peek_of_le hi))

theorem reads_scan (hp : p nul = false) (hi : i ≤ z.length) :
    Reads False (fun j => i ≤ j ∧ j ≤ z.length) (scan nul p z i) := by
  obtain ⟨j, hj, hle⟩ := scan_within hp hi
  rw [hj]
  exact .ok id hle

end TerminatedBuffer
