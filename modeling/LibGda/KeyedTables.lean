import Mathlib.Data.List.Sort

/-! Values which know their key, and a table from keys to values. A loop gives new
keys to some values, one value after the other: an entry which is written over a
neighbour's key that has not been processed yet is lost. -/

namespace KeyTable

variable {K V : Type} [DecidableEq K] [DecidableEq V]

def put (table : K → Option V) (k : K) (v : V) : K → Option V :=
  fun l => if l = k then some v else table l

def drop (table : K → Option V) (k : K) : K → Option V :=
  fun l => if l = k then none else table l

omit [DecidableEq V] in
@[simp] theorem put_self (table : K → Option V) (k : K) (v : V) : put table k v k = some v := by
  simp [put]

omit [DecidableEq V] in
theorem put_of_ne (table : K → Option V) {k l : K} (v : V) (h : l ≠ k) :
    put table k v l = table l := by
  simp [put, h]

omit [DecidableEq V] in
@[simp] theorem drop_self (table : K → Option V) (k : K) : drop table k k = none := by
  simp [drop]

omit [DecidableEq V] in
theorem drop_of_ne (table : K → Option V) {k l : K} (h : l ≠ k) : drop table k l = table l := by
  simp [drop, h]

structure Keyed (K V : Type) where
  table : K → Option V
  key : V → K

/-- One turn of the loop. -/
def rekey (selected : K → Prop) [DecidablePred selected] (move : K → K) (s : Keyed K V) (v : V) :
    Keyed K V :=
  if selected (s.key v) then
    { table := put (drop s.table (s.key v)) (move (s.key v)) v
      key := fun w => if w = v then move (s.key v) else s.key w }
  else s

def Sound (valid : K → Prop) (s : Keyed K V) (vs : List V) : Prop :=
  ∀ k v, s.table k = some v → v ∈ vs ∧ s.key v = k ∧ valid k

/-- The table has every value of the list whose key is valid, under its key. -/
def Represents (valid : K → Prop) (s : Keyed K V) (vs : List V) : Prop :=
  ∀ k v, s.table k = some v ↔ v ∈ vs ∧ s.key v = k ∧ valid k

omit [DecidableEq K] [DecidableEq V] in
theorem Represents.key_inj {valid : K → Prop} {s : Keyed K V} {vs : List V}
    (hr : Represents valid s vs) {v w : V} (hv : v ∈ vs) (hw : w ∈ vs)
    (hk : s.key v = s.key w) (hvalid : valid (s.key w)) : v = w := by
  have h1 := (hr (s.key w) v).2 ⟨hv, hk, hvalid⟩
  have h2 := (hr (s.key w) w).2 ⟨hw, rfl, hvalid⟩
  exact Option.some.inj (h1.symm.trans h2)

section Loop

variable {selected : K → Prop} [DecidablePred selected] {move : K → K}

theorem rekey_key_of_ne (s : Keyed K V) {v w : V} (h : w ≠ v) :
    (rekey selected move s v).key w = s.key w := by
  by_cases hs : selected (s.key v) <;> simp [rekey, hs, h]

theorem rekey_key_self (s : Keyed K V) (v : V) :
    (rekey selected move s v).key v =
      if selected (s.key v) then move (s.key v) else s.key v := by
  by_cases hs : selected (s.key v) <;> simp [rekey, hs]

theorem foldl_rekey_key (s : Keyed K V) {vs : List V} (hn : vs.Nodup) (w : V) :
    (vs.foldl (rekey selected move) s).key w =
      if w ∈ vs ∧ selected (s.key w) then move (s.key w) else s.key w := by
  induction vs generalizing s with
  | nil => simp
  | cons v vs ih =>
    obtain ⟨hv, hn⟩ := List.nodup_cons.1 hn
    rw [List.foldl_cons, ih _ hn]
    by_cases hw : w = v
    · subst hw
      simp only [hv, false_and, if_false, List.mem_cons, true_or, true_and]
      exact rekey_key_self s w
    · rw [rekey_key_of_ne s hw]
      simp only [List.mem_cons, hw, false_or]

theorem Sound.rekey {valid : K → Prop} {s : Keyed K V} {vs : List V} (hs : Sound valid s vs)
    (hvalid : ∀ k, selected k → valid (move k)) {v : V} (hv : v ∈ vs) :
    Sound valid (rekey selected move s v) vs := by
  intro k w hw
  by_cases hsel : selected (s.key v)
  · simp only [KeyTable.rekey, hsel, if_true] at hw ⊢
    by_cases hk : k = move (s.key v)
    · subst hk
      obtain rfl : v = w := by simpa using hw
      exact ⟨hv, by simp, hvalid _ hsel⟩
    · rw [put_of_ne _ _ hk] at hw
      by_cases hk' : k = s.key v
      · simp [hk'] at hw
      · rw [drop_of_ne _ hk'] at hw
        obtain ⟨hm, he, hval⟩ := hs k w hw
        have hne : w ≠ v := by
          rintro rfl
          exact hk' he.symm
        exact ⟨hm, by simp [hne, he], hval⟩
  · simp only [KeyTable.rekey, hsel, if_false] at hw ⊢
    exact hs k w hw

theorem Sound.foldl_rekey {valid : K → Prop} {s : Keyed K V} {vs ws : List V}
    (hs : Sound valid s vs) (hvalid : ∀ k, selected k → valid (move k)) (hw : ∀ w ∈ ws, w ∈ vs) :
    Sound valid (ws.foldl (KeyTable.rekey selected move) s) vs := by
  induction ws generalizing s with
  | nil => exact hs
  | cons w ws ih =>
    exact ih (hs.rekey hvalid (hw w List.mem_cons_self)) fun x hx =>
      hw x (List.mem_cons_of_mem _ hx)

theorem Represents.rekey {valid : K → Prop} {s : Keyed K V} {vs : List V}
    (hr : Represents valid s vs) {v : V} (hv : v ∈ vs)
    (hvalid : selected (s.key v) → valid (s.key v) ∧ valid (move (s.key v)))
    (hfree : selected (s.key v) → ∀ w ∈ vs, s.key w ≠ move (s.key v)) :
    Represents valid (rekey selected move s v) vs := by
  intro k w
  by_cases hsel : selected (s.key v)
  · obtain ⟨hvk, hvm⟩ := hvalid hsel
    simp only [KeyTable.rekey, hsel, if_true]
    by_cases hk : k = move (s.key v)
    · subst hk
      rw [put_self]
      by_cases hw : w = v
      · subst hw
        simp [hv, hvm]
      · rw [if_neg hw]
        exact ⟨fun h => absurd (Option.some.inj h).symm hw, fun h => absurd h.2.1 (hfree hsel w h.1)⟩
    · rw [put_of_ne _ _ hk]
      by_cases hk' : k = s.key v
      · subst hk'
        rw [drop_self]
        refine ⟨fun h => by simp at h, fun ⟨hm, he, _⟩ => ?_⟩
        by_cases hw : w = v
        · rw [if_pos hw] at he
          exact absurd he.symm hk
        · rw [if_neg hw] at he
          exact absurd (hr.key_inj hm hv he hvk) hw
      · rw [drop_of_ne _ hk']
        by_cases hw : w = v
        · subst hw
          rw [if_pos rfl]
          exact ⟨fun h => absurd ((hr k w).1 h).2.1.symm hk', fun h => absurd h.2.1.symm hk⟩
        · rw [if_neg hw]
          exact hr k w
  · simp only [KeyTable.rekey, hsel, if_false]
    exact hr k w

theorem Represents.foldl_rekey {valid : K → Prop} {s : Keyed K V} {vs ws : List V}
    (hr : Represents valid s vs) (hmove : ∀ a b, move a = move b → a = b)
    (hvalid : ∀ k, selected k → valid k ∧ valid (move k)) (hne : ∀ k, move k ≠ k)
    (hws : ∀ w ∈ ws, w ∈ vs) (hn : ws.Nodup)
    (hp : ws.Pairwise fun a b => selected (s.key a) → s.key b ≠ move (s.key a))
    (hfree : ∀ v ∈ ws, selected (s.key v) →
      ∀ w ∈ vs, s.key w = move (s.key v) → w ∈ ws ∧ selected (s.key w)) :
    Represents valid (ws.foldl (KeyTable.rekey selected move) s) vs := by
  induction ws generalizing s with
  | nil => exact hr
  | cons v ws ih =>
    obtain ⟨hv, hn⟩ := List.nodup_cons.1 hn
    obtain ⟨hpv, hp⟩ := List.pairwise_cons.1 hp
    have hstep : Represents valid (KeyTable.rekey selected move s v) vs := by
      refine hr.rekey (hws v List.mem_cons_self) (fun h => hvalid _ h) fun h w hw he => ?_
      rcases List.mem_cons.1 (hfree v List.mem_cons_self h w hw he).1 with rfl | hm
      · exact hne _ he.symm
      · exact hpv w hm h he
    have hkey : ∀ w ∈ ws, (KeyTable.rekey selected move s v).key w = s.key w := by
      intro w hw
      exact rekey_key_of_ne s fun h => hv (h ▸ hw)
    refine ih hstep (fun w hw => hws w (List.mem_cons_of_mem _ hw)) hn ?_ ?_
    · refine hp.imp_of_mem fun {a b} ha hb hab h => ?_
      rw [hkey a ha] at h ⊢
      rw [hkey b hb]
      exact hab h
    · intro u hu hsel w hw he
      rw [hkey u hu] at hsel he
      by_cases hwv : w = v
      · subst hwv
        rw [rekey_key_self] at he
        by_cases hs : selected (s.key w)
        · rw [if_pos hs] at he
          have hk := hmove _ _ he
          exact absurd (hr.key_inj hw (hws u (List.mem_cons_of_mem _ hu)) hk (hvalid _ hsel).1)
            fun h => hv (h ▸ hu)
        · rw [if_neg hs] at he
          exact absurd (hfree u (List.mem_cons_of_mem _ hu) hsel w hw he).2 hs
      · rw [rekey_key_of_ne s hwv] at he ⊢
        obtain ⟨hm, hs⟩ := hfree u (List.mem_cons_of_mem _ hu) hsel w hw he
        rcases List.mem_cons.1 hm with rfl | hm
        · exact absurd rfl hwv
        · exact ⟨hm, hs⟩

end Loop

end KeyTable

/-! Lists of values which have a key, as finite maps: a value replaces the first one of its key, or
is inserted at the place which an order gives it. -/

namespace KeyedList

variable {α κ : Type} [DecidableEq κ] (key : α → κ) {x y : α} {k l : κ} {xs : List α}

def lookup (k : κ) (xs : List α) : Option α := xs.find? fun x => key x = k

def replace (x : α) : List α → List α
  | [] => []
  | y :: ys => if key y = key x then x :: ys else y :: replace x ys

def remove (k : κ) (xs : List α) : List α := xs.eraseP fun x => key x = k

variable {key}

@[simp] theorem lookup_nil : lookup key k [] = none := rfl

theorem lookup_cons : lookup key k (x :: xs) = if key x = k then some x else lookup key k xs := by
  rw [lookup, List.find?_cons]
  by_cases h : key x = k
  · simp [h]
  · simp [h, lookup]

theorem key_of_lookup (h : lookup key k xs = some x) : key x = k := by
  have hkey := List.find?_some h
  exact of_decide_eq_true hkey

theorem mem_of_lookup (h : lookup key k xs = some x) : x ∈ xs := List.mem_of_find?_eq_some h

theorem lookup_eq_none : lookup key k xs = none ↔ ∀ x ∈ xs, key x ≠ k := by
  simp [lookup]

theorem lookup_of_mem (hnodup : (xs.map key).Nodup) (h : x ∈ xs) :
    lookup key (key x) xs = some x := by
  induction xs with
  | nil => cases h
  | cons y ys ih =>
    rw [List.map_cons, List.nodup_cons] at hnodup
    rw [lookup_cons]
    rcases List.mem_cons.1 h with rfl | hmem
    · rw [if_pos rfl]
    · have hne : key y ≠ key x := by
        intro heq
        exact hnodup.1 (heq ▸ List.mem_map_of_mem hmem)
      rw [if_neg hne, ih hnodup.2 hmem]

theorem keys_replace : (replace key x xs).map key = xs.map key := by
  induction xs with
  | nil => rfl
  | cons y ys ih =>
    rw [replace]
    split
    · next heq => rw [List.map_cons, List.map_cons, heq]
    · rw [List.map_cons, List.map_cons, ih]

theorem lookup_replace (h : lookup key (key x) xs ≠ none) :
    lookup key l (replace key x xs) = if l = key x then some x else lookup key l xs := by
  induction xs with
  | nil => exact absurd rfl h
  | cons y ys ih =>
    rw [lookup_cons] at h
    rw [replace]
    by_cases hy : key y = key x
    · rw [if_pos hy, lookup_cons, lookup_cons, hy]
      by_cases hl : l = key x
      · rw [if_pos hl, if_pos hl.symm]
      · rw [if_neg hl, if_neg (Ne.symm hl), if_neg (Ne.symm hl)]
    · rw [if_neg hy] at h
      rw [if_neg hy, lookup_cons, lookup_cons, ih h]
      by_cases hl : key y = l
      · have hne : l ≠ key x := hl ▸ hy
        rw [if_pos hl, if_neg hne, if_pos hl]
      · rw [if_neg hl, if_neg hl]

theorem mem_replace (h : y ∈ replace key x xs) : y = x ∨ y ∈ xs := by
  induction xs with
  | nil => cases h
  | cons z zs ih =>
    rw [replace] at h
    split at h
    · rcases List.mem_cons.1 h with hx | hmem
      · exact .inl hx
      · exact .inr (List.mem_cons_of_mem z hmem)
    · rcases List.mem_cons.1 h with hz | hmem
      · exact .inr (hz ▸ List.mem_cons_self ..)
      · exact (ih hmem).imp_right (List.mem_cons_of_mem z)

section Insert

variable (r : α → α → Prop) [DecidableRel r]

theorem lookup_orderedInsert (h : lookup key (key x) xs = none) :
    lookup key l (xs.orderedInsert r x) = if l = key x then some x else lookup key l xs := by
  induction xs with
  | nil =>
    rw [List.orderedInsert_nil, lookup_cons]
    by_cases hl : l = key x
    · rw [if_pos hl, if_pos hl.symm]
    · rw [if_neg hl, if_neg (Ne.symm hl)]
  | cons y ys ih =>
    have hy : key y ≠ key x := lookup_eq_none.1 h y (List.mem_cons_self ..)
    rw [lookup_cons, if_neg hy] at h
    rw [List.orderedInsert_cons]
    split
    · rw [lookup_cons]
      by_cases hl : l = key x
      · rw [if_pos hl, if_pos hl.symm]
      · rw [if_neg hl, if_neg (Ne.symm hl)]
    · rw [lookup_cons, lookup_cons, ih h]
      by_cases hl : key y = l
      · have hne : l ≠ key x := hl ▸ hy
        rw [if_pos hl, if_neg hne, if_pos hl]
      · rw [if_neg hl, if_neg hl]

theorem nodup_orderedInsert (hnodup : (xs.map key).Nodup) (h : lookup key (key x) xs = none) :
    ((xs.orderedInsert r x).map key).Nodup := by
  have hperm := (List.perm_orderedInsert r x xs).map key
  rw [List.map_cons] at hperm
  apply hperm.nodup_iff.2
  apply List.nodup_cons.2
  refine ⟨fun hmem => ?_, hnodup⟩
  obtain ⟨y, hy, heq⟩ := List.mem_map.1 hmem
  exact lookup_eq_none.1 h y hy heq

end Insert

theorem lookup_remove (hnodup : (xs.map key).Nodup) :
    lookup key l (remove key k xs) = if l = k then none else lookup key l xs := by
  induction xs with
  | nil => simp [remove]
  | cons y ys ih =>
    rw [List.map_cons, List.nodup_cons] at hnodup
    by_cases hy : key y = k
    · have hremove : remove key k (y :: ys) = ys := by simp [remove, hy]
      rw [hremove, lookup_cons]
      by_cases hl : l = k
      · rw [if_pos hl]
        apply lookup_eq_none.2
        intro x hx heq
        apply hnodup.1
        rw [hy, ← hl, ← heq]
        exact List.mem_map_of_mem hx
      · have hne : key y ≠ l := by
          rw [hy]
          exact Ne.symm hl
        rw [if_neg hl, if_neg hne]
    · have hremove : remove key k (y :: ys) = y :: remove key k ys := by simp [remove, hy]
      rw [hremove, lookup_cons, lookup_cons, ih hnodup.2]
      by_cases hl : key y = l
      · have hne : l ≠ k := hl ▸ hy
        rw [if_pos hl, if_neg hne, if_pos hl]
      · rw [if_neg hl, if_neg hl]

theorem remove_sublist : (remove key k xs).Sublist xs := List.eraseP_sublist

theorem nodup_remove (hnodup : (xs.map key).Nodup) : ((remove key k xs).map key).Nodup :=
  (remove_sublist.map key).nodup hnodup

theorem lookup_filter (hnodup : (xs.map key).Nodup) (p : α → Bool) :
    lookup key k (xs.filter p) = (lookup key k xs).filter p := by
  induction xs with
  | nil => rfl
  | cons y ys ih =>
    rw [List.map_cons, List.nodup_cons] at hnodup
    have hys := ih hnodup.2
    by_cases hy : key y = k
    · have hnone : lookup key k ys = none := by
        apply lookup_eq_none.2
        intro x hx heq
        apply hnodup.1
        rw [hy, ← heq]
        exact List.mem_map_of_mem hx
      rw [hnone] at hys
      rw [lookup_cons, if_pos hy]
      cases hp : p y with
      | true => simp [hp, lookup_cons, hy, Option.filter]
      | false => simp [hp, hys, Option.filter]
    · rw [lookup_cons, if_neg hy, ← hys]
      cases hp : p y with
      | true => simp [hp, lookup_cons, hy]
      | false => simp [hp]

end KeyedList
