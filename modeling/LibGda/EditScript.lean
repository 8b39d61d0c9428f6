import Mathlib.Algebra.BigOperators.Group.List.Basic
import Mathlib.Data.Finset.Card
import Mathlib.Data.List.ReduceOption

/-! Scripts which edit the positions of a list: additions, modifications and removals.
The script of a matching of new positions to old ones gives the new rows exactly when no
old position is matched twice. -/

namespace EditScript

variable {R : Type}

inductive Edit (R : Type) where
  | add (row : R)
  | modify (position : Nat) (row : R)
  | remove (position : Nat)
  deriving DecidableEq

def Edit.position : Edit R → Option Nat
  | .add _ => none
  | .modify p _ => some p
  | .remove p => some p

/-- Removed rows keep their position as `none`, and new ones come last. -/
def apply (rows : List (Option R)) : Edit R → List (Option R)
  | .add row => rows ++ [some row]
  | .modify p row => rows.set p (some row)
  | .remove p => rows.set p none

def result (rows : List R) (edits : List (Edit R)) : List R :=
  (edits.foldl apply (rows.map some)).reduceOption

theorem set_map_range {α : Type} (f : Nat → α) (n p : Nat) (a : α) :
    ((List.range n).map f).set p a = (List.range n).map (Function.update f p a) := by
  apply List.ext_getElem (by simp)
  intro i hi hi'
  by_cases hp : p = i
  · subst hp
    simp
  · have hne : i ≠ p := Ne.symm hp
    simp [hp, Function.update_of_ne hne]

theorem foldl_remove (f : Nat → Option R) (tail : List (Option R)) (n : Nat) (ps : List Nat)
    (hps : ∀ p ∈ ps, p < n) :
    (ps.map Edit.remove).foldl apply ((List.range n).map f ++ tail) =
      (List.range n).map (fun p => if p ∈ ps then none else f p) ++ tail := by
  induction ps generalizing f with
  | nil => simp
  | cons p ps ih =>
    have hp : p < n := hps p (by simp)
    have hset : apply ((List.range n).map f ++ tail) (.remove p) =
        (List.range n).map (Function.update f p none) ++ tail := by
      rw [apply, List.set_append_left _ _ (by simpa using hp), set_map_range]
    rw [List.map_cons, List.foldl_cons, hset, ih _ (fun q hq => hps q (by simp [hq]))]
    congr 1
    apply List.map_congr_left
    intro q _
    by_cases hq : q = p
    · simp [hq]
    · simp [hq]

theorem reduceOption_map_some {α : Type} (f : α → R) (as : List α) :
    (as.map (some ∘ f)).reduceOption = as.map f := by
  induction as with
  | nil => rfl
  | cons a as ih => simp [ih]

theorem reduceOption_map_if {α : Type} (f : α → R) (q : α → Bool) (as : List α) :
    (as.map fun a => if q a then some (f a) else none).reduceOption = (as.filter q).map f := by
  induction as with
  | nil => rfl
  | cons a as ih => cases hq : q a <;> simp [hq, ih]

section Matching

variable (nOld nNew : Nat) (old new : Nat → R) (matching : Nat → Option Nat) (changed : Nat → Bool)

def scanEdit (i : Nat) : Option (Edit R) :=
  match matching i with
  | none => some (.add (new i))
  | some p => if changed i then some (.modify p (new i)) else none

def unmatched (p : Nat) : Bool :=
  (List.range nNew).all fun i => matching i != some p

def script : List (Edit R) :=
  (List.range nNew).filterMap (scanEdit new matching changed) ++
    ((List.range nOld).filter (unmatched nNew matching)).map .remove

def scanned : Nat → Nat → R
  | 0 => old
  | n + 1 =>
    match matching n with
    | none => scanned n
    | some p => if changed n then Function.update (scanned n) p (new n) else scanned n

def added (n : Nat) : List Nat :=
  (List.range n).filter fun i => (matching i).isNone

variable {nOld matching}

theorem foldl_scan (hm : ∀ i < nNew, ∀ p, matching i = some p → p < nOld) :
    ((List.range nNew).filterMap (scanEdit new matching changed)).foldl apply
        ((List.range nOld).map (some ∘ old)) =
      (List.range nOld).map (some ∘ scanned old new matching changed nNew) ++
        (added matching nNew).map (some ∘ new) := by
  induction nNew with
  | zero => simp [scanned, added]
  | succ n ih =>
    have ih := ih (fun i hi p hp => hm i (by omega) p hp)
    rw [List.range_succ, List.filterMap_append, List.foldl_append, ih]
    cases hn : matching n with
    | none =>
      simp [scanEdit, hn, apply, scanned, added, List.range_succ]
    | some p =>
      have hp : p < nOld := hm n (by omega) p hn
      cases hc : changed n with
      | false => simp [scanEdit, hn, hc, scanned, added, List.range_succ]
      | true =>
        have hupdate : Function.update (some ∘ scanned old new matching changed n) p
            (some (new n)) = some ∘ Function.update (scanned old new matching changed n) p
              (new n) :=
          (Function.comp_update some _ p (new n)).symm
        have hedit : [n].filterMap (scanEdit new matching changed) = [.modify p (new n)] := by
          simp [scanEdit, hn, hc]
        have hadded : added matching (n + 1) = added matching n := by
          simp [added, List.range_succ, hn]
        have hscanned : scanned old new matching changed (n + 1) =
            Function.update (scanned old new matching changed n) p (new n) := by
          simp [scanned, hn, hc]
        rw [hedit, hadded, hscanned, List.foldl_cons, List.foldl_nil, apply,
          List.set_append_left _ _ (by simpa using hp), set_map_range, hupdate]

theorem result_script (hm : ∀ i < nNew, ∀ p, matching i = some p → p < nOld) :
    result ((List.range nOld).map old) (script nOld nNew new matching changed) =
      ((List.range nOld).filter fun p => !unmatched nNew matching p).map
          (scanned old new matching changed nNew) ++
        (added matching nNew).map new := by
  have hremove := foldl_remove (some ∘ scanned old new matching changed nNew)
    ((added matching nNew).map (some ∘ new)) nOld
    ((List.range nOld).filter (unmatched nNew matching))
    (fun p hp => List.mem_range.mp (List.mem_of_mem_filter hp))
  rw [result, script, List.foldl_append, List.map_map, foldl_scan nNew old new changed hm, hremove,
    List.reduceOption_append, reduceOption_map_some]
  congr 1
  rw [← reduceOption_map_if]
  congr 1
  apply List.map_congr_left
  intro p hp
  have hmem : p ∈ (List.range nOld).filter (unmatched nNew matching) ↔
      unmatched nNew matching p = true := by
    simp [List.mem_range.mp hp]
  by_cases hu : unmatched nNew matching p = true
  · simp [hmem, hu]
  · simp [hmem, hu]

/-- No old position is matched twice. -/
def Unshared (nNew : Nat) (matching : Nat → Option Nat) : Prop :=
  ∀ i < nNew, ∀ j < nNew, ∀ p, matching i = some p → matching j = some p → i = j

theorem scanned_eq {n : Nat} (hu : Unshared nNew matching) (hn : n ≤ nNew) {i p : Nat}
    (hi : i < nNew) (hp : matching i = some p) : scanned old new matching changed n p =
      if i < n ∧ changed i = true then new i else old p := by
  induction n with
  | zero => simp [scanned]
  | succ n ih =>
    have ih := ih (by omega)
    simp only [scanned]
    cases hq : matching n with
    | none =>
      have hne : i ≠ n := by
        rintro rfl
        rw [hp] at hq
        cases hq
      have hlt : i < n + 1 ↔ i < n := by omega
      simp only [ih, hlt]
    | some q =>
      by_cases hin : i = n
      · subst hin
        obtain rfl : p = q := Option.some.inj (hp.symm.trans hq)
        by_cases hc : changed i = true
        · simp [hc]
        · simp [hc, ih]
      · have hne : p ≠ q := by
          rintro rfl
          exact hin (hu i hi n (by omega) p hp hq)
        have hlt : i < n + 1 ↔ i < n := by omega
        by_cases hc : changed n = true
        · simp [hc, Function.update_of_ne hne, ih, hlt]
        · simp [hc, ih, hlt]

def matchedNew (nNew : Nat) (matching : Nat → Option Nat) : List Nat :=
  (List.range nNew).filter fun i => (matching i).isSome

def matchedOld (nOld nNew : Nat) (matching : Nat → Option Nat) : List Nat :=
  (List.range nOld).filter fun p => !unmatched nNew matching p

theorem mem_matchedNew {i : Nat} :
    i ∈ matchedNew nNew matching ↔ i < nNew ∧ ∃ p, matching i = some p := by
  simp [matchedNew, Option.isSome_iff_exists]

theorem mem_matchedOld (hm : ∀ i < nNew, ∀ p, matching i = some p → p < nOld) {p : Nat} :
    p ∈ matchedOld nOld nNew matching ↔ ∃ i < nNew, matching i = some p := by
  simp only [matchedOld, unmatched, List.mem_filter, List.mem_range, Bool.not_eq_true',
    List.all_eq_false]
  constructor
  · rintro ⟨-, i, hi, hp⟩
    exact ⟨i, hi, by simpa using hp⟩
  · rintro ⟨i, hi, hp⟩
    exact ⟨hm i hi p hp, i, hi, by simpa using hp⟩

def partner (matching : Nat → Option Nat) (i : Nat) : Nat :=
  (matching i).getD 0

theorem partner_of_matching {i p : Nat} (hp : matching i = some p) : partner matching i = p := by
  simp [partner, hp]

theorem toFinset_matchedOld (hm : ∀ i < nNew, ∀ p, matching i = some p → p < nOld) :
    (matchedOld nOld nNew matching).toFinset =
      (matchedNew nNew matching).toFinset.image (partner matching) := by
  ext p
  simp only [List.mem_toFinset, mem_matchedOld nNew hm, Finset.mem_image, mem_matchedNew]
  constructor
  · rintro ⟨i, hi, hp⟩
    exact ⟨i, ⟨hi, p, hp⟩, partner_of_matching hp⟩
  · rintro ⟨i, ⟨hi, q, hq⟩, rfl⟩
    exact ⟨i, hi, by rw [partner_of_matching hq, hq]⟩

theorem nodup_matchedNew : (matchedNew nNew matching).Nodup :=
  List.nodup_range.filter _

theorem nodup_matchedOld : (matchedOld nOld nNew matching).Nodup :=
  List.nodup_range.filter _

theorem length_matchedOld_iff (hm : ∀ i < nNew, ∀ p, matching i = some p → p < nOld) :
    (matchedOld nOld nNew matching).length = (matchedNew nNew matching).length ↔
      Unshared nNew matching := by
  rw [← List.toFinset_card_of_nodup (nodup_matchedOld nNew),
    ← List.toFinset_card_of_nodup (nodup_matchedNew nNew), toFinset_matchedOld nNew hm,
    Finset.card_image_iff]
  constructor
  · intro hinj i hi j hj p hp hq
    apply hinj
    · exact List.mem_toFinset.mpr ((mem_matchedNew nNew).mpr ⟨hi, p, hp⟩)
    · exact List.mem_toFinset.mpr ((mem_matchedNew nNew).mpr ⟨hj, p, hq⟩)
    · rw [partner_of_matching hp, partner_of_matching hq]
  · intro hu i hi j hj hij
    obtain ⟨hin, p, hp⟩ := (mem_matchedNew nNew).mp (List.mem_toFinset.mp hi)
    obtain ⟨hjn, q, hq⟩ := (mem_matchedNew nNew).mp (List.mem_toFinset.mp hj)
    rw [partner_of_matching hp, partner_of_matching hq] at hij
    subst hij
    exact hu i hin j hjn p hp hq

theorem matchedOld_perm (hm : ∀ i < nNew, ∀ p, matching i = some p → p < nOld)
    (hu : Unshared nNew matching) :
    (matchedOld nOld nNew matching).Perm ((matchedNew nNew matching).map (partner matching)) := by
  have hnodup : ((matchedNew nNew matching).map (partner matching)).Nodup := by
    apply (nodup_matchedNew nNew).map_on
    intro i hi j hj hij
    obtain ⟨hin, p, hp⟩ := (mem_matchedNew nNew).mp hi
    obtain ⟨hjn, q, hq⟩ := (mem_matchedNew nNew).mp hj
    rw [partner_of_matching hp, partner_of_matching hq] at hij
    subst hij
    exact hu i hin j hjn p hp hq
  apply (List.perm_ext_iff_of_nodup (nodup_matchedOld nNew) hnodup).mpr
  intro p
  have h := Finset.ext_iff.mp (toFinset_matchedOld nNew hm) p
  simpa using h

theorem rel_result_script_iff {r : R → R → Prop} (hrefl : ∀ a, r a a)
    (hm : ∀ i < nNew, ∀ p, matching i = some p → p < nOld)
    (hsame : ∀ i < nNew, ∀ p, matching i = some p → changed i = false → r (old p) (new i)) :
    Multiset.Rel r
        (result ((List.range nOld).map old) (script nOld nNew new matching changed))
        ((List.range nNew).map new) ↔
      Unshared nNew matching := by
  have hnew : ((List.range nNew).map new).Perm
      ((matchedNew nNew matching).map new ++ (added matching nNew).map new) := by
    rw [← List.map_append]
    apply List.Perm.map
    have hnone : (fun i => (matching i).isNone) = fun i => !(matching i).isSome := by
      funext i
      cases matching i <;> rfl
    rw [matchedNew, added, hnone]
    exact (List.filter_append_perm _ _).symm
  rw [result_script nNew old new changed hm, Multiset.coe_eq_coe.mpr hnew]
  constructor
  · intro h
    have hcard := Multiset.card_eq_card_of_rel h
    simp only [Multiset.coe_card, List.length_append, List.length_map] at hcard
    apply (length_matchedOld_iff nNew hm).mp
    simp only [matchedOld]
    omega
  · intro hu
    have hperm := (matchedOld_perm nNew hm hu).map (scanned old new matching changed nNew)
    rw [← Multiset.coe_add, ← Multiset.coe_add, ← matchedOld, Multiset.coe_eq_coe.mpr hperm,
      List.map_map]
    apply Multiset.Rel.add
    · rw [← Multiset.map_coe, ← Multiset.map_coe]
      apply Multiset.rel_map.mpr
      apply Multiset.rel_refl_of_refl_on
      intro i hi
      obtain ⟨hin, p, hp⟩ := (mem_matchedNew nNew).mp hi
      simp only [Function.comp_apply, partner_of_matching hp,
        scanned_eq nNew old new changed hu le_rfl hin hp]
      cases hc : changed i with
      | true => simpa [hin] using hrefl (new i)
      | false => simpa using hsame i hin p hp hc
    · exact Multiset.rel_refl_of_refl_on fun a _ => hrefl a

omit nOld in
theorem position_scanEdit {i p : Nat} {e : Edit R} (he : scanEdit new matching changed i = some e)
    (hp : e.position = some p) : matching i = some p := by
  cases hq : matching i with
  | none =>
    obtain rfl : Edit.add (new i) = e := by simpa [scanEdit, hq] using he
    cases hp
  | some q =>
    cases hc : changed i with
    | false => simp [scanEdit, hq, hc] at he
    | true =>
      obtain rfl : Edit.modify q (new i) = e := by simpa [scanEdit, hq, hc] using he
      exact hp

theorem nodup_position_script (hu : Unshared nNew matching) :
    ((script nOld nNew new matching changed).filterMap Edit.position).Nodup := by
  have hremoved : (((List.range nOld).filter (unmatched nNew matching)).map
      (Edit.remove (R := R))).filterMap Edit.position =
      (List.range nOld).filter (unmatched nNew matching) := by
    rw [List.filterMap_map]
    exact List.filterMap_some
  rw [script, List.filterMap_append, hremoved]
  apply List.Nodup.append
  · rw [List.filterMap_filterMap, List.Nodup, List.pairwise_filterMap]
    have hrange := List.pairwise_lt_range (n := nNew)
    apply hrange.imp_of_mem
    intro i j hi hj hlt p hp q hq heq
    subst heq
    obtain ⟨e, he, hp⟩ := Option.bind_eq_some_iff.mp hp
    obtain ⟨e', he', hq⟩ := Option.bind_eq_some_iff.mp hq
    have := hu i (List.mem_range.mp hi) j (List.mem_range.mp hj) p
      (position_scanEdit new changed he hp) (position_scanEdit new changed he' hq)
    omega
  · exact List.nodup_range.filter _
  · intro p hp hremoved
    obtain ⟨e, he, hp⟩ := List.mem_filterMap.mp hp
    obtain ⟨i, hi, he⟩ := List.mem_filterMap.mp he
    have hunmatched := List.of_mem_filter hremoved
    have hne := List.all_eq_true.mp hunmatched i hi
    simp [position_scanEdit new changed he hp] at hne

end Matching

end EditScript
