import LibGda.AttributesManager

/-! The managers give what was set, as long as no object which has attributes is cleared. -/

namespace LibGda

open RunInvariant

variable {μ ρ V : Type}

namespace AttributesManagers

variable {s t : AttributesManagers μ ρ V} {refs : ρ → List AttrsPtr} {m m' : μ} {x y : ρ}
  {p q : AttrsPtr} {a b : ObjAttrs μ ρ V} {name name' : String} {value : Option V}

theorem lookup_filter_ne (values : List (String × V)) (name name' : String) :
    (values.filter (·.1 ≠ name)).lookup name' =
      if name' = name then none else values.lookup name' := by
  induction values with
  | nil => simp
  | cons v values ih =>
    by_cases hv : v.1 = name
    · rw [List.filter_cons_of_neg (by simp [hv]), ih]
      by_cases hn : name' = name
      · rw [if_pos hn, if_pos hn]
      · have hne : (name' == v.1) = false := by simpa [hv] using hn
        rw [if_neg hn, if_neg hn, List.lookup_cons, hne]
    · rw [List.filter_cons_of_pos (by simp [hv]), List.lookup_cons, ih]
      by_cases hn : name' = name
      · subst hn
        have hne : (name' == v.1) = false := by simpa using Ne.symm hv
        rw [hne, if_pos rfl, if_pos rfl]
      · rw [if_neg hn, if_neg hn, List.lookup_cons]

theorem lookup_or_of_not_mem {v : String × V} {values : List (String × V)}
    (hv : v.1 ∉ values.map Prod.fst) (name : String) (other : Option V) :
    (values.lookup name).or (if name = v.1 then some v.2 else other) =
      ((v :: values).lookup name).or other := by
  rw [List.lookup_cons]
  by_cases hn : name = v.1
  · subst hn
    have hnone : values.lookup v.1 = none := by
      rw [List.lookup_eq_none_iff]
      intro w hw
      have hne : w.1 ≠ v.1 := fun hc => hv (hc ▸ List.mem_map_of_mem hw)
      simpa using Ne.symm hne
    simp [hnone]
  · have hne : (name == v.1) = false := by simpa using hn
    rw [hne, if_neg hn]

theorem lookup_put (a : ObjAttrs μ ρ V) (name name' : String) (value : Option V) :
    (a.put name value).values.lookup name' =
      if name' = name then value else a.values.lookup name' := by
  cases value with
  | none => exact lookup_filter_ne a.values name name'
  | some v =>
    simp only [ObjAttrs.put, List.lookup_cons, lookup_filter_ne]
    by_cases hn : name' = name
    · simp [hn]
    · have hne : (name' == name) = false := by simpa using hn
      rw [hne, if_neg hn, if_neg hn]

theorem names_put (h : (a.values.map Prod.fst).Nodup) (name : String) (value : Option V) :
    ((a.put name value).values.map Prod.fst).Nodup := by
  have hfilter : ((a.values.filter (·.1 ≠ name)).map Prod.fst).Nodup :=
    (List.filter_sublist.map Prod.fst).nodup h
  cases value with
  | none => exact hfilter
  | some v =>
    simp only [ObjAttrs.put, List.map_cons]
    refine List.nodup_cons.mpr ⟨?_, hfilter⟩
    intro hm
    obtain ⟨w, hw, hname⟩ := List.mem_map.mp hm
    simp [hname] at hw

@[simp] theorem mgr_put (a : ObjAttrs μ ρ V) (name : String) (value : Option V) :
    (a.put name value).mgr = a.mgr := by
  cases value <;> rfl

@[simp] theorem objects_put (a : ObjAttrs μ ρ V) (name : String) (value : Option V) :
    (a.put name value).objects = a.objects := by
  cases value <;> rfl

theorem Consistent.setValues (h : s.Consistent refs) (ha : s.attrs p = some a) (hm : b.mgr = a.mgr)
    (hobjects : b.objects = a.objects) (hnames : (b.values.map Prod.fst).Nodup) :
    (s.setAttrs p (some b)).Consistent refs := by
  constructor
  · intro m' y q hy
    obtain ⟨c, hc, hcm, hcy⟩ := h.mapped m' y q hy
    rw [attrs_setAttrs]
    by_cases hq : q = p
    · subst hq
      obtain rfl := Option.some.inj (ha.symm.trans hc)
      exact ⟨b, if_pos rfl, hm.trans hcm, hobjects ▸ hcy⟩
    · exact ⟨c, by rw [if_neg hq, hc], hcm, hcy⟩
  · intro q c hc
    rw [attrs_setAttrs] at hc
    split at hc
    · next hq =>
      subst hq
      obtain rfl := Option.some.inj hc
      rw [hm, hobjects]
      exact h.owners q a ha
    · exact h.owners q c hc
  · intro q c hc
    rw [attrs_setAttrs] at hc
    split at hc
    · obtain rfl := Option.some.inj hc
      exact hnames
    · exact h.names q c hc
  · intro q c hc
    rw [attrs_setAttrs] at hc
    split at hc
    · next hq => exact hq ▸ h.made p a ha
    · exact h.made q c hc
  · exact h.refsNodup
  · exact h.refs

variable [DecidableEq μ] [DecidableEq ρ]

/-- A resource has an `ObjAttrs` of its own. -/
structure Owned (s : AttributesManagers μ ρ V) (m : μ) (x : ρ) (p : AttrsPtr)
    (a : ObjAttrs μ ρ V) : Prop where
  consistent : s.Consistent s.weakRefs
  mapped : s.objHash m x = some p
  attrs : s.attrs p = some a
  objects : a.objects = [x]

theorem Owned.addValue (h : s.Owned m x p a) (name : String) (value : Option V) :
    s.addValue p name value = .ok (s.setAttrs p (some (a.put name value))) ∧
      (s.setAttrs p (some (a.put name value))).Owned m x p (a.put name value) ∧
        ∀ m' y name', (s.setAttrs p (some (a.put name value))).valueOf m' y name' =
          if m' = m ∧ y = x ∧ name' = name then value else s.valueOf m' y name' := by
  refine ⟨?_, ?_, ?_⟩
  · rw [AttributesManagers.addValue, deref_eq h.attrs]
    rfl
  · refine ⟨?_, h.mapped, ?_, ?_⟩
    · exact h.consistent.setValues h.attrs (mgr_put a name value) (objects_put a name value)
        (names_put (h.consistent.names p a h.attrs) name value)
    · rw [attrs_setAttrs, if_pos rfl]
    · rw [objects_put, h.objects]
  · intro m' y name'
    have hmgr := h.consistent.mgr_eq h.mapped h.attrs
    have hhash : (s.setAttrs p (some (a.put name value))).objHash m' y = s.objHash m' y := rfl
    rw [valueOf, hhash]
    by_cases hxy : m' = m ∧ y = x
    · obtain ⟨rfl, rfl⟩ := hxy
      rw [valueOf, h.mapped]
      simp only [Option.bind_some]
      rw [attrs_setAttrs, if_pos rfl, h.attrs]
      simp only [Option.bind_some, lookup_put, true_and]
    · rw [if_neg (fun hc => hxy ⟨hc.1, hc.2.1⟩), valueOf]
      cases hy : s.objHash m' y with
      | none => rfl
      | some q =>
        have hq : q ≠ p := by
          rintro rfl
          obtain ⟨hm', hya⟩ := h.consistent.mgr_eq hy h.attrs
          rw [h.objects, List.mem_singleton] at hya
          exact hxy ⟨hm'.symm.trans hmgr.1, hya⟩
        simp only [Option.bind_some]
        rw [attrs_setAttrs, if_neg hq]

theorem Owned.addValues (h : s.Owned m x p a) {values : List (String × V)}
    (hnames : (values.map Prod.fst).Nodup) : ∃ t b,
      values.foldlM (fun s value => s.addValue p value.1 (some value.2)) s = .ok t ∧
        t.Owned m x p b ∧ t.forObjects = s.forObjects ∧ ∀ m' y name',
          t.valueOf m' y name' = if m' = m ∧ y = x then
            (values.lookup name').or (s.valueOf m' y name') else s.valueOf m' y name' := by
  induction values generalizing s a with
  | nil =>
    refine ⟨s, a, rfl, h, rfl, ?_⟩
    intro m' y name'
    simp
  | cons v values ih =>
    obtain ⟨hadd, howned, hvalues⟩ := h.addValue v.1 (some v.2)
    rw [List.map_cons, List.nodup_cons] at hnames
    obtain ⟨t, b, ht, hb, hfor, hall⟩ := ih howned hnames.2
    refine ⟨t, b, ?_, hb, hfor, ?_⟩
    · rw [List.foldlM_cons, hadd]
      exact ht
    · intro m' y name'
      rw [hall, hvalues]
      by_cases hxy : m' = m ∧ y = x
      · obtain ⟨rfl, rfl⟩ := hxy
        simp only [and_self, if_true, true_and]
        exact lookup_or_of_not_mem hnames.1 name' (s.valueOf m' y name')
      · rw [if_neg hxy, if_neg hxy, if_neg (fun hc => hxy ⟨hc.1, hc.2.1⟩)]

omit [DecidableEq μ] in
theorem weakRef_eq : s.weakRef m x p =
    { s with weakRefs := addRef s.forObjects m x p s.weakRefs } := by
  rw [weakRef, addRef]
  split <;> rfl

omit [DecidableEq μ] in
theorem weakUnref_eq : s.weakUnref m x p =
    { s with weakRefs := delRef s.forObjects m x p s.weakRefs } := by
  rw [weakUnref, delRef]
  split <;> rfl

theorem Consistent.attachNew (h : s.Consistent refs) (hx : s.objHash m x = none) :
    (s.attachNew m x).Consistent (addRef s.forObjects m x s.next refs) ∧
      ∀ m' y name', (s.attachNew m x).valueOf m' y name' = s.valueOf m' y name' := by
  have hnot : ∀ m' y, s.objHash m' y ≠ some s.next := by
    intro m' y hc
    obtain ⟨b, hb, -⟩ := h.mapped m' y s.next hc
    exact Nat.lt_irrefl _ (h.made _ b hb)
  have hnext : ({ s with next := s.next + 1 } : AttributesManagers μ ρ V).Consistent refs :=
    ⟨h.mapped, h.owners, h.names, fun p a ha => Nat.lt_succ_of_lt (h.made p a ha),
      h.refsNodup, h.refs⟩
  have heq : s.attachNew m x =
      ({ s with next := s.next + 1 } : AttributesManagers μ ρ V).attach m x s.next
        { mgr := m, objects := [] } := rfl
  rw [heq]
  constructor
  · refine hnext.attach hx rfl List.nodup_nil ?_ (Nat.lt_succ_self _) ?_ ?_
    · exact List.nodup_nil
    · intro y
      constructor
      · intro hy
        cases hy
      · exact fun hy => absurd hy (hnot m y)
    · exact fun m' y hy => absurd hy (hnot m' y)
  · intro m' y name'
    have hattach := @valueOf_attach _ _ _ _ _ { s with next := s.next + 1 } m m' x y s.next
      { mgr := m, objects := [] } name' fun m' y hy => absurd hy (hnot m' y)
    rw [hattach]
    split
    · next hxy => simp [valueOf, hxy, hx]
    · rfl

theorem findAttrs_spec (h : s.Consistent s.weakRefs) (m : μ) (x : ρ) : ∃ t p,
    s.findAttrs m x = (t, p) ∧ t.Consistent t.weakRefs ∧ t.objHash m x = some p ∧
      t.forObjects = s.forObjects ∧ ∀ m' y name', t.valueOf m' y name' = s.valueOf m' y name' := by
  cases hx : s.objHash m x with
  | some p =>
    refine ⟨s, p, ?_, h, hx, rfl, fun _ _ _ => rfl⟩
    rw [findAttrs, hx]
  | none =>
    obtain ⟨hc, hvalues⟩ := h.attachNew hx
    refine ⟨(s.attachNew m x).weakRef m x s.next, s.next, ?_, ?_, ?_, ?_, ?_⟩
    · rw [findAttrs, hx]
      rfl
    · rw [weakRef_eq]
      exact ⟨hc.mapped, hc.owners, hc.names, hc.made, hc.refsNodup, hc.refs⟩
    · rw [weakRef_eq]
      exact (objHash_setHash _).trans (if_pos ⟨rfl, rfl⟩)
    · rw [weakRef_eq]
      rfl
    · rw [weakRef_eq]
      exact hvalues

theorem detach_attachNew (hp : p ≠ s.next) :
    ((s.newAttrs m x).1.detach m x p a).setHash m x (some s.next) =
      (s.detach m x p a).attachNew m x := by
  simp [detach, attachNew, newAttrs, setHash, setAttrs, Function.update_comm hp]

theorem ownAttrs_spec (h : s.Consistent s.weakRefs) (hx : s.objHash m x = some p) : ∃ t q b,
    s.ownAttrs m x p = .ok (t, q) ∧ t.Owned m x q b ∧ t.forObjects = s.forObjects ∧
      ∀ m' y name', t.valueOf m' y name' = s.valueOf m' y name' := by
  obtain ⟨a, ha, hmgr, hxa⟩ := h.mapped m x p hx
  have hp : p ≠ s.next := Nat.ne_of_lt (h.made p a ha)
  rw [ownAttrs]
  obtain ⟨mgr, objects, values⟩ := a
  rcases objects with _ | ⟨y, _ | ⟨z, rest⟩⟩
  · cases hxa
  · obtain rfl := List.mem_singleton.mp hxa
    exact ⟨s, p, _, bind_of_ok (deref_eq ha) rfl, ⟨h, hx, ha, rfl⟩, rfl, fun _ _ _ => rfl⟩
  · have hdetach := h.detach hx ha
    have hgone : (s.detach m x p ⟨mgr, y :: z :: rest, values⟩).objHash m x = none := by
      rw [objHash_detach, if_pos ⟨rfl, rfl⟩]
    obtain ⟨hattach, hvalues⟩ := hdetach.attachNew hgone
    let a : ObjAttrs μ ρ V := ⟨mgr, y :: z :: rest, values⟩
    let t : AttributesManagers μ ρ V := { (s.detach m x p a).attachNew m x with
      weakRefs := addRef s.forObjects m x s.next (delRef s.forObjects m x p s.weakRefs) }
    have hremove : ((s.newAttrs m x).1.setAttrs p
        (some { a with objects := a.objects.erase x })).hashRemove m x =
          .ok ((s.newAttrs m x).1.detach m x p a) := hashRemove_eq hx
    have howned : t.Owned m x s.next { mgr := m, objects := [x] } := by
      refine ⟨?_, ?_, ?_, rfl⟩
      · exact ⟨hattach.mapped, hattach.owners, hattach.names, hattach.made, hattach.refsNodup,
          hattach.refs⟩
      · exact (objHash_setHash _).trans (if_pos ⟨rfl, rfl⟩)
      · exact (attrs_setAttrs _).trans (if_pos rfl)
    obtain ⟨t', b, ht', hb, hfor, hall⟩ := howned.addValues (h.names p a ha)
    refine ⟨t', s.next, b, ?_, hb, hfor, ?_⟩
    · have hstart : (((((s.newAttrs m x).1.detach m x p a).setHash m x (some s.next)).weakUnref m x
          p).weakRef m x s.next) = t := by
        rw [detach_attachNew hp, weakUnref_eq, weakRef_eq]
        rfl
      apply bind_of_ok (deref_eq ha)
      refine bind_of_ok hremove ?_
      simp only [hstart]
      exact bind_of_ok ht' rfl
    · intro m' y name'
      have hsame : t.valueOf m' y name' =
          if m' = m ∧ y = x then none else s.valueOf m' y name' := by
        rw [← h.valueOf_detach hx ha]
        exact hvalues m' y name'
      rw [hall, hsame]
      by_cases hxy : m' = m ∧ y = x
      · obtain ⟨rfl, rfl⟩ := hxy
        rw [if_pos ⟨rfl, rfl⟩, if_pos ⟨rfl, rfl⟩, Option.or_none, valueOf, hx,
          Option.bind_some, ha]
        rfl
      · rw [if_neg hxy, if_neg hxy]

omit [DecidableEq μ] [DecidableEq ρ] in
theorem Consistent.get (h : s.Consistent refs) (m : μ) (x : ρ) (name : String) :
    s.get m x name = .ok (s.valueOf m x name) := by
  rw [AttributesManagers.get, valueOf]
  cases hx : s.objHash m x with
  | none => rfl
  | some p =>
    obtain ⟨a, ha, -⟩ := h.mapped m x p hx
    simp only [Option.bind_some]
    rw [deref_eq ha, ha]
    rfl

structure Represents (s : AttributesManagers μ ρ V) (A : AttributesMap μ ρ V) : Prop where
  consistent : s.Consistent s.weakRefs
  get : ∀ m x name, s.get m x name = .ok (A m x name)

omit [DecidableEq μ] [DecidableEq ρ] in
theorem Represents.values {A : AttributesMap μ ρ V} (h : s.Represents A) (m : μ) (x : ρ)
    (name : String) : s.valueOf m x name = A m x name :=
  Except.ok.inj ((h.consistent.get m x name).symm.trans (h.get m x name))

omit [DecidableEq μ] [DecidableEq ρ] in
theorem represents_of_values {A : AttributesMap μ ρ V} (h : s.Consistent s.weakRefs)
    (hv : ∀ m x name, s.valueOf m x name = A m x name) : s.Represents A :=
  ⟨h, fun m x name => by rw [h.get, hv]⟩

theorem Represents.managerRealSet {A : AttributesMap μ ρ V} (h : s.Represents A) (m : μ) (x : ρ)
    (name : String) (value : Option V) : ∃ t, s.managerRealSet m x name value = .ok t ∧
      t.forObjects = s.forObjects ∧ t.Represents (A.step s.forObjects (.set m x name value)) := by
  obtain ⟨s₁, p, hfind, hc, hx, hfor, hvalues⟩ := findAttrs_spec h.consistent m x
  obtain ⟨s₂, q, b, hown, howned, hfor', hvalues'⟩ := ownAttrs_spec hc hx
  obtain ⟨hadd, hlast, hall⟩ := howned.addValue name value
  refine ⟨s₂.setAttrs q (some (b.put name value)), ?_, hfor'.trans hfor, represents_of_values
    hlast.consistent ?_⟩
  · rw [AttributesManagers.managerRealSet, hfind]
    exact bind_of_ok hown hadd
  · intro m' y name'
    rw [hall, hvalues', hvalues, h.values]
    rfl

theorem Represents.setValues {A : AttributesMap μ ρ V} (h : s.Represents A) (m : μ) (x : ρ)
    {values : List (String × V)} (hnames : (values.map Prod.fst).Nodup) : ∃ t,
      values.foldlM (fun s value => s.managerRealSet m x value.1 (some value.2)) s = .ok t ∧
        t.forObjects = s.forObjects ∧ t.Represents fun m' y name =>
          if m' = m ∧ y = x then (values.lookup name).or (A m' y name) else A m' y name := by
  induction values generalizing s A with
  | nil =>
    refine ⟨s, rfl, rfl, represents_of_values h.consistent ?_⟩
    intro m' y name
    rw [h.values]
    simp
  | cons v values ih =>
    obtain ⟨s₁, hset, hfor, hs₁⟩ := h.managerRealSet m x v.1 (some v.2)
    rw [List.map_cons, List.nodup_cons] at hnames
    obtain ⟨t, ht, hfor', hrep⟩ := ih hs₁ hnames.2
    refine ⟨t, ?_, hfor'.trans hfor, represents_of_values hrep.consistent ?_⟩
    · rw [List.foldlM_cons, hset]
      exact ht
    · intro m' y name
      rw [hrep.values]
      by_cases hxy : m' = m ∧ y = x
      · obtain ⟨rfl, rfl⟩ := hxy
        simp only [and_self, if_true, AttributesMap.step, true_and]
        exact lookup_or_of_not_mem hnames.1 name (A m' y name)
      · simp only [AttributesMap.step, if_neg hxy]
        rw [if_neg (fun hc => hxy ⟨hc.1, hc.2.1⟩)]

theorem Represents.copy {A : AttributesMap μ ρ V} (h : s.Represents A) (fromMgr : μ) (source : ρ)
    (toMgr : μ) (target : ρ) : ∃ t, s.copy fromMgr source toMgr target = .ok t ∧
      t.forObjects = s.forObjects ∧
        t.Represents (A.step s.forObjects (.copy fromMgr source toMgr target)) := by
  rw [AttributesManagers.copy]
  cases hx : s.objHash fromMgr source with
  | none =>
    refine ⟨s, rfl, rfl, represents_of_values h.consistent ?_⟩
    intro m y name
    have hnone : A fromMgr source name = none := by
      rw [← h.values, valueOf, hx]
      rfl
    simp only [AttributesMap.step, hnone, Option.none_or, h.values]
    split
    · next hy => rw [hy.1, hy.2]
    · rfl
  | some p =>
    obtain ⟨a, ha, hmgr, hxa⟩ := h.consistent.mapped fromMgr source p hx
    have hsource : ∀ name, A fromMgr source name = a.values.lookup name := by
      intro name
      rw [← h.values, valueOf, hx, Option.bind_some, ha, Option.bind_some]
    by_cases hshare : fromMgr = toMgr ∧ s.objHash toMgr target = none
    · obtain ⟨rfl, hnone⟩ := hshare
      have hattach := h.consistent.attach hnone hmgr (h.consistent.owners p a ha).2.1
        (h.consistent.names p a ha) (h.consistent.made p a ha)
        (fun y => by rw [h.consistent.mem_objects ha, hmgr])
        (fun m' y hy => h.consistent.mgr_unique hx hy)
      refine ⟨(s.attach fromMgr target p a).weakRef fromMgr target p, ?_, ?_,
        represents_of_values ?_ ?_⟩
      · apply bind_of_ok (deref_eq ha)
        rw [if_pos ⟨rfl, hnone⟩]
        rfl
      · rw [weakRef_eq]
        rfl
      · rw [weakRef_eq]
        exact ⟨hattach.mapped, hattach.owners, hattach.names, hattach.made, hattach.refsNodup,
          hattach.refs⟩
      · intro m y name
        have htarget : A fromMgr target name = none := by
          rw [← h.values, valueOf, hnone]
          rfl
        rw [weakRef_eq]
        have hvalue : (s.attach fromMgr target p a).valueOf m y name =
            if m = fromMgr ∧ y = target then a.values.lookup name else s.valueOf m y name :=
          valueOf_attach fun _ _ _ => ha
        refine hvalue.trans ?_
        simp only [AttributesMap.step, hsource, htarget, Option.or_none, h.values]
    · obtain ⟨t, ht, hfor, hrep⟩ := h.setValues toMgr target (h.consistent.names p a ha)
      refine ⟨t, ?_, hfor, represents_of_values hrep.consistent ?_⟩
      · apply bind_of_ok (deref_eq ha)
        rw [if_neg hshare]
        exact ht
      · intro m y name
        rw [hrep.values]
        simp only [AttributesMap.step, hsource]
        split
        · next hy => rw [hy.1, hy.2]
        · rfl

theorem Represents.clear {A : AttributesMap μ ρ V} (h : s.Represents A)
    (hm : s.forObjects m = false ∨ s.objHash m x = none) : ∃ t, s.clear m x = .ok t ∧
      t.forObjects = s.forObjects ∧ t.Represents (A.step s.forObjects (.clear m x)) := by
  rw [AttributesManagers.clear]
  cases hx : s.objHash m x with
  | none =>
    refine ⟨s, rfl, rfl, represents_of_values h.consistent ?_⟩
    intro m' y name
    simp only [AttributesMap.step, ← h.values]
    split
    · next hy => simp [valueOf, hy, hx]
    · rfl
  | some p =>
    have hplain : s.forObjects m = false := by
      rcases hm with hm | hm
      · exact hm
      · rw [hx] at hm
        cases hm
    obtain ⟨a, ha, -⟩ := h.consistent.mapped m x p hx
    have hdetach := h.consistent.detach hx ha
    rw [delRef, if_neg (by simp [hplain])] at hdetach
    refine ⟨s.detach m x p a, bind_of_ok (deref_eq ha) (hashRemove_eq hx), rfl,
      represents_of_values hdetach ?_⟩
    intro m' y name
    rw [h.consistent.valueOf_detach hx ha, h.values]
    rfl

theorem destroy_fold {rest : List AttrsPtr} (h : s.Consistent (Function.update s.weakRefs x rest))
    (hx : s.weakRefs x = []) : ∃ t,
      rest.foldlM (fun s p => s.objDestroyedCb x p) s = .ok t ∧ t.forObjects = s.forObjects ∧
        t.Consistent t.weakRefs ∧ (∀ m, s.forObjects m = true → t.objHash m x = none) ∧
          ∀ m y name, ¬ (s.forObjects m = true ∧ y = x) →
            t.valueOf m y name = s.valueOf m y name := by
  induction rest generalizing s with
  | nil =>
    rw [← hx, Function.update_eq_self] at h
    refine ⟨s, rfl, rfl, h, ?_, fun _ _ _ _ => rfl⟩
    intro m hm
    cases hmx : s.objHash m x with
    | none => rfl
    | some p =>
      have hp := (h.refs x p).mpr ⟨m, hm, hmx⟩
      rw [hx] at hp
      cases hp
  | cons p rest ih =>
    have hp : p ∈ Function.update s.weakRefs x (p :: rest) x := by simp
    obtain ⟨m, hm, hmx⟩ := (h.refs x p).mp hp
    obtain ⟨a, ha, rfl, -⟩ := h.mapped m x p hmx
    have hdetach := h.detach hmx ha
    rw [delRef, if_pos hm, Function.update_self, Function.update_idem, List.erase_cons_head]
      at hdetach
    obtain ⟨t, ht, hfor, hc, hgone, hvalues⟩ := @ih (s.detach a.mgr x p a) hdetach hx
    refine ⟨t, ?_, hfor, hc, hgone, ?_⟩
    · rw [List.foldlM_cons]
      exact bind_of_ok (bind_of_ok (deref_eq ha) (hashRemove_eq hmx)) ht
    · intro m' y name hother
      rw [hvalues m' y name hother, h.valueOf_detach hmx ha, if_neg]
      rintro ⟨rfl, rfl⟩
      exact hother ⟨hm, rfl⟩

theorem Represents.destroy {A : AttributesMap μ ρ V} (h : s.Represents A) (x : ρ) : ∃ t,
    s.destroy x = .ok t ∧ t.forObjects = s.forObjects ∧
      t.Represents (A.step s.forObjects (.destroy x)) := by
  let s₁ : AttributesManagers μ ρ V := { s with weakRefs := Function.update s.weakRefs x [] }
  have hstart : s₁.Consistent (Function.update s₁.weakRefs x (s.weakRefs x)) := by
    have hrefs : Function.update s₁.weakRefs x (s.weakRefs x) = s.weakRefs := by
      rw [Function.update_idem, Function.update_eq_self]
    rw [hrefs]
    have hc := h.consistent
    exact ⟨hc.mapped, hc.owners, hc.names, hc.made, hc.refsNodup, hc.refs⟩
  obtain ⟨t, ht, hfor, hc, hgone, hvalues⟩ := destroy_fold hstart (by simp [s₁])
  refine ⟨t, ht, hfor, represents_of_values hc ?_⟩
  intro m y name
  simp only [AttributesMap.step]
  split
  · next hy =>
    obtain ⟨hm, rfl⟩ := hy
    rw [valueOf, hgone m hm]
    rfl
  · next hy =>
    rw [hvalues m y name hy]
    exact h.values m y name

/-- The calls which leave the managers as they should be: no object which has attributes is
cleared. -/
def Meets (s : AttributesManagers μ ρ V) : AttributesCall μ ρ V → Prop
  | .clear m x => s.forObjects m = false ∨ s.objHash m x = none
  | _ => True

theorem Represents.step {A : AttributesMap μ ρ V} (h : s.Represents A)
    (c : AttributesCall μ ρ V) (hc : s.Meets c) : ∃ t, s.step c = .ok t ∧
      t.forObjects = s.forObjects ∧ t.Represents (A.step s.forObjects c) := by
  cases c with
  | set m x name value => exact h.managerRealSet m x name value
  | copy fromMgr source toMgr target => exact h.copy fromMgr source toMgr target
  | clear m x => exact h.clear hc
  | destroy x => exact h.destroy x

theorem not_represents_clear {A A' : AttributesMap μ ρ V} (h : s.Represents A)
    (hc : ¬ s.Meets (.clear m x)) (ht : s.clear m x = .ok t) : ¬ t.Represents A' := by
  simp only [Meets, not_or, Bool.not_eq_false] at hc
  obtain ⟨hm, hmapped⟩ := hc
  obtain ⟨p, hx⟩ := Option.ne_none_iff_exists'.mp hmapped
  obtain ⟨a, ha, -⟩ := h.consistent.mapped m x p hx
  have hclear : s.clear m x = .ok (s.detach m x p a) := by
    rw [AttributesManagers.clear, hx]
    exact bind_of_ok (deref_eq ha) (hashRemove_eq hx)
  obtain rfl := Except.ok.inj (ht.symm.trans hclear)
  intro hrep
  have hp : p ∈ s.weakRefs x := (h.consistent.refs x p).mpr ⟨m, hm, hx⟩
  obtain ⟨m', hm', hx'⟩ := (hrep.consistent.refs x p).mp hp
  rw [objHash_detach] at hx'
  split at hx'
  · cases hx'
  · next hne => exact hne ⟨h.consistent.mgr_unique hx hx', rfl⟩

def initial (forObjects : μ → Bool) : AttributesManagers μ ρ V := { forObjects := forObjects }

omit [DecidableEq μ] [DecidableEq ρ] in
theorem represents_initial (forObjects : μ → Bool) :
    (initial forObjects : AttributesManagers μ ρ V).Represents fun _ _ _ => none := by
  refine represents_of_values ⟨?_, ?_, ?_, ?_, ?_, ?_⟩ fun _ _ _ => rfl
  · exact fun m x p hp => by cases hp
  · exact fun p a ha => by cases ha
  · exact fun p a ha => by cases ha
  · exact fun p a ha => by cases ha
  · exact fun x => List.nodup_nil
  · intro x p
    constructor
    · exact fun hp => by cases hp
    · rintro ⟨m, -, hm⟩
      cases hm

def EveryRepresents (s : AttributesManagers μ ρ V) (A : AttributesMap μ ρ V)
    (calls : List (AttributesCall μ ρ V)) : Prop :=
  ∀ n, ∃ t, run AttributesManagers.step s (calls.take n) = .ok t ∧
    t.Represents ((calls.take n).foldl (AttributesMap.step s.forObjects) A)

theorem Represents.every_iff {A : AttributesMap μ ρ V} (h : s.Represents A)
    (calls : List (AttributesCall μ ρ V)) :
    EveryRepresents s A calls ↔ StepsMeet AttributesManagers.step Meets s calls := by
  induction calls generalizing s A with
  | nil =>
    constructor
    · exact fun _ => trivial
    · intro _ n
      rw [List.take_nil]
      exact ⟨s, rfl, h⟩
  | cons c calls ih =>
    constructor
    · intro hevery
      have hmeets : s.Meets c := by
        obtain ⟨t, ht, hrep⟩ := hevery 1
        obtain ⟨u, hu, hlast⟩ := bind_ok ht
        obtain rfl := Except.ok.inj hlast
        cases c with
        | clear m x =>
          by_contra hnot
          exact not_represents_clear h hnot hu hrep
        | set m x name value => trivial
        | copy fromMgr source toMgr target => trivial
        | destroy x => trivial
      refine ⟨hmeets, ?_⟩
      intro t ht
      obtain ⟨u, hu, hfor, hrep⟩ := h.step c hmeets
      obtain rfl := Except.ok.inj (hu.symm.trans ht)
      rw [← ih hrep]
      intro n
      obtain ⟨last, hlast, hrep'⟩ := hevery (n + 1)
      obtain ⟨v, hv, hlast⟩ := bind_ok hlast
      obtain rfl := Except.ok.inj (hu.symm.trans hv)
      refine ⟨last, hlast, ?_⟩
      rw [hfor]
      exact hrep'
    · rintro ⟨hmeets, hrest⟩ n
      obtain ⟨u, hu, hfor, hrep⟩ := h.step c hmeets
      cases n with
      | zero => exact ⟨s, rfl, h⟩
      | succ n =>
        obtain ⟨last, hlast, hrep'⟩ := (ih hrep).mpr (hrest u hu) n
        rw [hfor] at hrep'
        exact ⟨last, bind_of_ok hu hlast, hrep'⟩

/-- The managers represent the map of what was set, all along a run, exactly when no object which
has attributes is cleared. -/
theorem everyRepresents_iff (forObjects : μ → Bool) (calls : List (AttributesCall μ ρ V)) :
    EveryRepresents (initial forObjects : AttributesManagers μ ρ V) (fun _ _ _ => none) calls ↔
      StepsMeet AttributesManagers.step Meets (initial forObjects) calls :=
  (represents_initial forObjects).every_iff calls

/-- An object is given an attribute, cleared, then destroyed: its weak reference carries an
`ObjAttrs` which was freed. -/
theorem not_everyRepresents_clear_destroy : ¬ EveryRepresents
    (initial (fun _ => true) : AttributesManagers Unit Nat Int) (fun _ _ _ => none)
      [.set () 0 "name" (some 1), .clear () 0, .destroy 0] := by
  intro h
  obtain ⟨t, ht, -⟩ := h 3
  have hfails : run AttributesManagers.step
      (initial (fun _ => true) : AttributesManagers Unit Nat Int)
        [.set () 0 "name" (some 1), .clear () 0, .destroy 0] = .error .freedAttrs := by
    rfl
  cases hfails.symm.trans ht

end AttributesManagers

end LibGda
