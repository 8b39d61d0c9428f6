import LibGda.RunInvariant
import Mathlib.Data.List.Nodup

/-! The attributes of resources, which are shared between resources until one of them is changed.
Some managers are for objects, and are told when these are destroyed. -/

namespace LibGda

abbrev AttrsPtr := Nat

structure ObjAttrs (μ ρ V : Type) where
  mgr : μ
  objects : List ρ
  values : List (String × V) := []

inductive AttributesFault where
  | freedAttrs
  | noObjects
  deriving DecidableEq

/-- Some managers, the `ObjAttrs` in memory and the weak references of the objects, each of which
carries an `ObjAttrs`. -/
structure AttributesManagers (μ ρ V : Type) where
  forObjects : μ → Bool
  objHash : μ → ρ → Option AttrsPtr := fun _ _ => none
  attrs : AttrsPtr → Option (ObjAttrs μ ρ V) := fun _ => none
  next : AttrsPtr := 0
  weakRefs : ρ → List AttrsPtr := fun _ => []

namespace ObjAttrs

variable {μ ρ V : Type}

/-- `g_hash_table_insert` in the table of the values, or `g_hash_table_remove` if there is no
value -/
def put (a : ObjAttrs μ ρ V) (name : String) (value : Option V) : ObjAttrs μ ρ V :=
  match value with
  | some v => { a with values := (name, v) :: a.values.filter (·.1 ≠ name) }
  | none => { a with values := a.values.filter (·.1 ≠ name) }

end ObjAttrs

namespace AttributesManagers

variable {μ ρ V : Type} [DecidableEq μ] [DecidableEq ρ] (s : AttributesManagers μ ρ V)

def deref (p : AttrsPtr) : Except AttributesFault (ObjAttrs μ ρ V) :=
  match s.attrs p with
  | some a => .ok a
  | none => .error .freedAttrs

def setAttrs (p : AttrsPtr) (a : Option (ObjAttrs μ ρ V)) : AttributesManagers μ ρ V :=
  { s with attrs := Function.update s.attrs p a }

def setHash (m : μ) (x : ρ) (p : Option AttrsPtr) : AttributesManagers μ ρ V :=
  { s with objHash := Function.update s.objHash m (Function.update (s.objHash m) x p) }

def objattrsUnref (p : AttrsPtr) : Except AttributesFault (AttributesManagers μ ρ V) := do
  let a ← s.deref p
  return if a.objects.isEmpty then s.setAttrs p none else s

/-- `g_hash_table_remove` from the table of a manager, which drops the `ObjAttrs` -/
def hashRemove (m : μ) (x : ρ) : Except AttributesFault (AttributesManagers μ ρ V) :=
  match s.objHash m x with
  | none => .ok s
  | some p => (s.setHash m x none).objattrsUnref p

def newAttrs (m : μ) (x : ρ) : AttributesManagers μ ρ V × AttrsPtr :=
  ({ s.setAttrs s.next (some { mgr := m, objects := [x] }) with next := s.next + 1 }, s.next)

/-- `g_object_weak_ref`, if the manager is for objects -/
def weakRef (m : μ) (x : ρ) (p : AttrsPtr) : AttributesManagers μ ρ V :=
  if s.forObjects m then
    { s with weakRefs := Function.update s.weakRefs x (s.weakRefs x ++ [p]) }
  else s

/-- `g_object_weak_unref`, if the manager is for objects -/
def weakUnref (m : μ) (x : ρ) (p : AttrsPtr) : AttributesManagers μ ρ V :=
  if s.forObjects m then
    { s with weakRefs := Function.update s.weakRefs x ((s.weakRefs x).erase p) }
  else s

/-- The attribute is set or removed in the `ObjAttrs`. -/
def addValue (p : AttrsPtr) (name : String) (value : Option V) :
    Except AttributesFault (AttributesManagers μ ρ V) := do
  let a ← s.deref p
  return s.setAttrs p (some (a.put name value))

/-- The `ObjAttrs` of a resource, which is made if there is none. -/
def findAttrs (m : μ) (x : ρ) : AttributesManagers μ ρ V × AttrsPtr :=
  match s.objHash m x with
  | some p => (s, p)
  | none =>
    let (s, p) := s.newAttrs m x
    ((s.setHash m x (some p)).weakRef m x p, p)

/-- The `ObjAttrs` is made the one of the resource only, by a copy if others have it too. -/
def ownAttrs (m : μ) (x : ρ) (p : AttrsPtr) :
    Except AttributesFault (AttributesManagers μ ρ V × AttrsPtr) := do
  let a ← s.deref p
  match a.objects with
  | [] => .error .noObjects
  | [_] => return (s, p)
  | _ :: _ :: _ =>
    let (s, p₂) := s.newAttrs m x
    let s := s.setAttrs p (some { a with objects := a.objects.erase x })
    let s ← s.hashRemove m x
    let s := s.setHash m x (some p₂)
    let s := (s.weakUnref m x p).weakRef m x p₂
    -- `manager_real_set` is called again, for a resource whose `ObjAttrs` is its own
    let s ← a.values.foldlM (fun s value => s.addValue p₂ value.1 (some value.2)) s
    return (s, p₂)

def managerRealSet (m : μ) (x : ρ) (name : String) (value : Option V) :
    Except AttributesFault (AttributesManagers μ ρ V) := do
  let (s, p) := s.findAttrs m x
  let (s, p) ← s.ownAttrs m x p
  s.addValue p name value

def get (m : μ) (x : ρ) (name : String) : Except AttributesFault (Option V) :=
  match s.objHash m x with
  | none => .ok none
  | some p => do
    let a ← s.deref p
    return a.values.lookup name

def copy (fromMgr : μ) (source : ρ) (toMgr : μ) (target : ρ) :
    Except AttributesFault (AttributesManagers μ ρ V) :=
  match s.objHash fromMgr source with
  | none => .ok s
  | some p => do
    let a ← s.deref p
    if fromMgr = toMgr ∧ s.objHash toMgr target = none then
      let s := s.setAttrs p (some { a with objects := target :: a.objects })
      return (s.setHash fromMgr target (some p)).weakRef fromMgr target p
    else
      a.values.foldlM (fun s value => s.managerRealSet toMgr target value.1 (some value.2)) s

def clear (m : μ) (x : ρ) : Except AttributesFault (AttributesManagers μ ρ V) :=
  match s.objHash m x with
  | none => .ok s
  | some p => do
    let a ← s.deref p
    (s.setAttrs p (some { a with objects := a.objects.erase x })).hashRemove m x

def objDestroyedCb (x : ρ) (p : AttrsPtr) : Except AttributesFault (AttributesManagers μ ρ V) := do
  let a ← s.deref p
  (s.setAttrs p (some { a with objects := a.objects.erase x })).hashRemove a.mgr x

def destroy (x : ρ) : Except AttributesFault (AttributesManagers μ ρ V) :=
  (s.weakRefs x).foldlM (fun s p => s.objDestroyedCb x p)
    { s with weakRefs := Function.update s.weakRefs x [] }

end AttributesManagers

/-- What happens to the resources. A value which is set is NULL to remove the attribute. -/
inductive AttributesCall (μ ρ V : Type) where
  | set (m : μ) (x : ρ) (name : String) (value : Option V)
  | copy (fromMgr : μ) (source : ρ) (toMgr : μ) (target : ρ)
  | clear (m : μ) (x : ρ)
  | destroy (x : ρ)

namespace AttributesManagers

variable {μ ρ V : Type} [DecidableEq μ] [DecidableEq ρ]

def step (s : AttributesManagers μ ρ V) :
    AttributesCall μ ρ V → Except AttributesFault (AttributesManagers μ ρ V)
  | .set m x name value => s.managerRealSet m x name value
  | .copy fromMgr source toMgr target => s.copy fromMgr source toMgr target
  | .clear m x => s.clear m x
  | .destroy x => s.destroy x

end AttributesManagers

abbrev AttributesMap (μ ρ V : Type) := μ → ρ → String → Option V

namespace AttributesMap

variable {μ ρ V : Type} [DecidableEq μ] [DecidableEq ρ]

def step (forObjects : μ → Bool) (A : AttributesMap μ ρ V) :
    AttributesCall μ ρ V → AttributesMap μ ρ V
  | .set m x name value => fun m' x' name' =>
    if m' = m ∧ x' = x ∧ name' = name then value else A m' x' name'
  | .copy fromMgr source toMgr target => fun m' x' name' =>
    if m' = toMgr ∧ x' = target then (A fromMgr source name').or (A toMgr target name')
    else A m' x' name'
  | .clear m x => fun m' x' name' => if m' = m ∧ x' = x then none else A m' x' name'
  | .destroy x => fun m' x' name' => if forObjects m' ∧ x' = x then none else A m' x' name'

end AttributesMap

end LibGda

/-! What resources which share their attributes keep in common: the three records of who has which
attributes agree after each change. -/

namespace LibGda

open RunInvariant

variable {μ ρ V : Type} [DecidableEq μ] [DecidableEq ρ]

namespace AttributesManagers

/-- The records agree: the table, the resources of each `ObjAttrs` and the weak references. -/
structure Consistent (s : AttributesManagers μ ρ V) (refs : ρ → List AttrsPtr) : Prop where
  mapped : ∀ m x p, s.objHash m x = some p → ∃ a, s.attrs p = some a ∧ a.mgr = m ∧ x ∈ a.objects
  owners : ∀ p a, s.attrs p = some a → a.objects ≠ [] ∧ a.objects.Nodup ∧
    ∀ x ∈ a.objects, s.objHash a.mgr x = some p
  names : ∀ p a, s.attrs p = some a → (a.values.map Prod.fst).Nodup
  made : ∀ p a, s.attrs p = some a → p < s.next
  refsNodup : ∀ x, (refs x).Nodup
  refs : ∀ x p, p ∈ refs x ↔ ∃ m, s.forObjects m = true ∧ s.objHash m x = some p

def valueOf (s : AttributesManagers μ ρ V) (m : μ) (x : ρ) (name : String) : Option V :=
  (s.objHash m x).bind fun p => (s.attrs p).bind fun a => a.values.lookup name

def addRef (forObjects : μ → Bool) (m : μ) (x : ρ) (p : AttrsPtr) (refs : ρ → List AttrsPtr) :
    ρ → List AttrsPtr :=
  if forObjects m then Function.update refs x (refs x ++ [p]) else refs

def delRef (forObjects : μ → Bool) (m : μ) (x : ρ) (p : AttrsPtr) (refs : ρ → List AttrsPtr) :
    ρ → List AttrsPtr :=
  if forObjects m then Function.update refs x ((refs x).erase p) else refs

/-- A resource is taken away from an `ObjAttrs`, which is freed if it has no other one. -/
def detach (s : AttributesManagers μ ρ V) (m : μ) (x : ρ) (p : AttrsPtr) (a : ObjAttrs μ ρ V) :
    AttributesManagers μ ρ V :=
  (s.setHash m x none).setAttrs p
    (if (a.objects.erase x).isEmpty then none else some { a with objects := a.objects.erase x })

def attachNew (s : AttributesManagers μ ρ V) (m : μ) (x : ρ) : AttributesManagers μ ρ V :=
  (s.newAttrs m x).1.setHash m x (some s.next)

section Records

variable {s t : AttributesManagers μ ρ V} {refs : ρ → List AttrsPtr} {m m' : μ} {x y : ρ}
  {p q : AttrsPtr} {a b : ObjAttrs μ ρ V} {name : String} {value : Option V}

theorem objHash_setHash (r : Option AttrsPtr) :
    (s.setHash m x r).objHash m' y = if m' = m ∧ y = x then r else s.objHash m' y := by
  by_cases hm : m' = m
  · subst hm
    by_cases hy : y = x
    · subst hy
      simp [setHash]
    · simp [setHash, hy]
  · simp [setHash, hm]

omit [DecidableEq μ] [DecidableEq ρ] in
theorem attrs_setAttrs (r : Option (ObjAttrs μ ρ V)) :
    (s.setAttrs p r).attrs q = if q = p then r else s.attrs q := by
  by_cases hq : q = p
  · subst hq
    simp [setAttrs]
  · simp [setAttrs, hq]

omit [DecidableEq μ] [DecidableEq ρ] in
theorem deref_eq (h : s.attrs p = some a) : s.deref p = .ok a := by
  rw [deref, h]

theorem hashRemove_eq (hx : s.objHash m x = some p) :
    (s.setAttrs p (some { a with objects := a.objects.erase x })).hashRemove m x =
      .ok (s.detach m x p a) := by
  have hderef : ((s.setAttrs p (some { a with objects := a.objects.erase x })).setHash m x
      none).deref p = .ok { a with objects := a.objects.erase x } := by
    apply deref_eq
    simp [setHash, setAttrs]
  have hhash : (s.setAttrs p (some { a with objects := a.objects.erase x })).objHash m x =
      some p := hx
  rw [hashRemove, hhash]
  simp only [objattrsUnref]
  rw [hderef]
  by_cases hempty : (a.objects.erase x).isEmpty = true
  · simp only [bind, Except.bind, pure, Except.pure, hempty, if_true, detach]
    simp [setAttrs, setHash]
  · simp only [bind, Except.bind, pure, Except.pure, hempty, detach]
    simp [setAttrs, setHash]

theorem objHash_detach : (s.detach m x p a).objHash m' y =
    if m' = m ∧ y = x then none else s.objHash m' y :=
  objHash_setHash none

theorem attrs_detach_of_ne (hq : q ≠ p) : (s.detach m x p a).attrs q = s.attrs q := by
  rw [detach, attrs_setAttrs, if_neg hq]
  rfl

theorem attrs_detach : (s.detach m x p a).attrs p =
    if (a.objects.erase x).isEmpty then none else some { a with objects := a.objects.erase x } := by
  rw [detach, attrs_setAttrs, if_pos rfl]

theorem attrs_detach_eq_some (hb : (s.detach m x p a).attrs p = some b) :
    b = { a with objects := a.objects.erase x } ∧ a.objects.erase x ≠ [] := by
  rw [attrs_detach] at hb
  split at hb
  · cases hb
  · next hne => exact ⟨(Option.some.inj hb).symm, by simpa using hne⟩

omit [DecidableEq μ] [DecidableEq ρ] in
theorem Consistent.mgr_eq (h : s.Consistent refs) (hx : s.objHash m x = some p)
    (ha : s.attrs p = some a) : a.mgr = m ∧ x ∈ a.objects := by
  obtain ⟨b, hb, hm, hxb⟩ := h.mapped m x p hx
  obtain rfl := Option.some.inj (ha.symm.trans hb)
  exact ⟨hm, hxb⟩

omit [DecidableEq μ] [DecidableEq ρ] in
theorem Consistent.mem_objects (h : s.Consistent refs) (ha : s.attrs p = some a) :
    x ∈ a.objects ↔ s.objHash a.mgr x = some p := by
  constructor
  · exact (h.owners p a ha).2.2 x
  · exact fun hx => (h.mgr_eq hx ha).2

omit [DecidableEq μ] [DecidableEq ρ] in
theorem Consistent.mgr_unique (h : s.Consistent refs) (hx : s.objHash m x = some p)
    (hy : s.objHash m' y = some p) : m' = m := by
  obtain ⟨a, ha, hm, -⟩ := h.mapped m x p hx
  exact (h.mgr_eq hy ha).1.symm.trans hm

theorem Consistent.refs_delRef (h : s.Consistent refs) (hx : s.objHash m x = some p)
    (hash : μ → ρ → Option AttrsPtr)
    (hhash : ∀ m' y, hash m' y = if m' = m ∧ y = x then none else s.objHash m' y) (y : ρ)
    (q : AttrsPtr) : q ∈ delRef s.forObjects m x p refs y ↔
      ∃ m', s.forObjects m' = true ∧ hash m' y = some q := by
  by_cases hy : y = x
  · subst hy
    by_cases hm : s.forObjects m = true
    · rw [delRef, if_pos hm, Function.update_self, (h.refsNodup y).mem_erase_iff, h.refs]
      constructor
      · rintro ⟨hqp, m', hm', hq⟩
        refine ⟨m', hm', ?_⟩
        have hne : m' ≠ m := by
          rintro rfl
          exact hqp (Option.some.inj (hq.symm.trans hx))
        rw [hhash, if_neg (by simp [hne]), hq]
      · rintro ⟨m', hm', hq⟩
        rw [hhash] at hq
        split at hq
        · cases hq
        · next hne =>
          refine ⟨?_, m', hm', hq⟩
          rintro rfl
          exact hne ⟨h.mgr_unique hx hq, rfl⟩
    · rw [delRef, if_neg hm, h.refs]
      constructor
      · rintro ⟨m', hm', hq⟩
        refine ⟨m', hm', ?_⟩
        have hne : m' ≠ m := by
          rintro rfl
          exact hm hm'
        rw [hhash, if_neg (by simp [hne]), hq]
      · rintro ⟨m', hm', hq⟩
        refine ⟨m', hm', ?_⟩
        rw [hhash] at hq
        split at hq
        · cases hq
        · exact hq
  · have hsame : delRef s.forObjects m x p refs y = refs y := by
      rw [delRef]
      split
      · rw [Function.update_of_ne hy]
      · rfl
    rw [hsame, h.refs]
    simp only [hhash, hy, and_false, if_false]

omit [DecidableEq μ] in
theorem delRef_nodup (h : ∀ x, (refs x).Nodup) (forObjects : μ → Bool) :
    ((delRef forObjects m x p refs) y).Nodup := by
  rw [delRef]
  split
  · by_cases hy : y = x
    · subst hy
      rw [Function.update_self]
      exact (h y).erase p
    · rw [Function.update_of_ne hy]
      exact h y
  · exact h y

theorem Consistent.detach (h : s.Consistent refs) (hx : s.objHash m x = some p)
    (ha : s.attrs p = some a) :
    (s.detach m x p a).Consistent (delRef s.forObjects m x p refs) := by
  obtain ⟨hmgr, hxa⟩ := h.mgr_eq hx ha
  obtain ⟨-, hnodup, howners⟩ := h.owners p a ha
  constructor
  · intro m' y q hy
    rw [objHash_detach] at hy
    split at hy
    · cases hy
    · next hne =>
      by_cases hq : q = p
      · subst hq
        obtain ⟨hm', hya⟩ := h.mgr_eq hy ha
        have hyx : y ≠ x := fun hyx => hne ⟨hm'.symm.trans hmgr, hyx⟩
        have hmem : y ∈ a.objects.erase x := (List.mem_erase_of_ne hyx).mpr hya
        refine ⟨{ a with objects := a.objects.erase x }, ?_, hm', hmem⟩
        rw [attrs_detach, if_neg (by simp [List.ne_nil_of_mem hmem])]
      · rw [attrs_detach_of_ne hq]
        exact h.mapped m' y q hy
  · intro q b hb
    by_cases hq : q = p
    · subst hq
      obtain ⟨rfl, hne⟩ := attrs_detach_eq_some hb
      refine ⟨hne, hnodup.erase x, ?_⟩
      intro y hy
      have hy' := hnodup.mem_erase_iff.mp hy
      rw [objHash_detach, if_neg (by simp [hy'.1])]
      exact howners y hy'.2
    · rw [attrs_detach_of_ne hq] at hb
      obtain ⟨hne, hnd, hall⟩ := h.owners q b hb
      refine ⟨hne, hnd, ?_⟩
      intro y hy
      have hbq := hall y hy
      rw [objHash_detach, if_neg, hbq]
      rintro ⟨hbm, rfl⟩
      rw [hbm, hx] at hbq
      exact hq (Option.some.inj hbq).symm
  · intro q b hb
    by_cases hq : q = p
    · subst hq
      obtain ⟨rfl, -⟩ := attrs_detach_eq_some hb
      exact h.names q a ha
    · rw [attrs_detach_of_ne hq] at hb
      exact h.names q b hb
  · intro q b hb
    by_cases hq : q = p
    · subst hq
      exact h.made q a ha
    · rw [attrs_detach_of_ne hq] at hb
      exact h.made q b hb
  · exact fun y => delRef_nodup h.refsNodup s.forObjects
  · exact h.refs_delRef hx _ fun m' y => objHash_detach

theorem Consistent.valueOf_detach (h : s.Consistent refs) (hx : s.objHash m x = some p)
    (ha : s.attrs p = some a) : (s.detach m x p a).valueOf m' y name =
      if m' = m ∧ y = x then none else s.valueOf m' y name := by
  rw [valueOf, objHash_detach]
  split
  · rfl
  · next hne =>
    rw [valueOf]
    cases hy : s.objHash m' y with
    | none => rfl
    | some q =>
      by_cases hq : q = p
      · subst hq
        obtain ⟨hm', hya⟩ := h.mgr_eq hy ha
        have hyx : y ≠ x := fun hyx => hne ⟨hm'.symm.trans (h.mgr_eq hx ha).1, hyx⟩
        have hmem : y ∈ a.objects.erase x := (List.mem_erase_of_ne hyx).mpr hya
        simp only [Option.bind_some]
        rw [attrs_detach, if_neg (by simp [List.ne_nil_of_mem hmem]), ha]
        rfl
      · simp only [Option.bind_some]
        rw [attrs_detach_of_ne hq]

omit [DecidableEq μ] in
theorem addRef_nodup (h : ∀ x, (refs x).Nodup) (hp : p ∉ refs x) (forObjects : μ → Bool) :
    ((addRef forObjects m x p refs) y).Nodup := by
  rw [addRef]
  split
  · by_cases hy : y = x
    · subst hy
      rw [Function.update_self]
      exact List.nodup_append.mpr ⟨h y, List.nodup_singleton p, fun q hq r hr => by
        obtain rfl := List.mem_singleton.mp hr
        rintro rfl
        exact hp hq⟩
    · rw [Function.update_of_ne hy]
      exact h y
  · exact h y

theorem Consistent.refs_addRef (h : s.Consistent refs) (hx : s.objHash m x = none)
    (hash : μ → ρ → Option AttrsPtr)
    (hhash : ∀ m' y, hash m' y = if m' = m ∧ y = x then some p else s.objHash m' y) (y : ρ)
    (q : AttrsPtr) : q ∈ addRef s.forObjects m x p refs y ↔
      ∃ m', s.forObjects m' = true ∧ hash m' y = some q := by
  have hold : (∃ m', s.forObjects m' = true ∧ hash m' y = some q) ↔
      (∃ m', s.forObjects m' = true ∧ s.objHash m' y = some q) ∨
        (s.forObjects m = true ∧ y = x ∧ q = p) := by
    constructor
    · rintro ⟨m', hm', hq⟩
      rw [hhash] at hq
      split at hq
      · next heq => exact .inr ⟨heq.1 ▸ hm', heq.2, (Option.some.inj hq).symm⟩
      · exact .inl ⟨m', hm', hq⟩
    · rintro (⟨m', hm', hq⟩ | ⟨hm, rfl, rfl⟩)
      · refine ⟨m', hm', ?_⟩
        rw [hhash, if_neg, hq]
        rintro ⟨rfl, rfl⟩
        rw [hx] at hq
        cases hq
      · exact ⟨m, hm, by rw [hhash, if_pos ⟨rfl, rfl⟩]⟩
  rw [hold, ← h.refs]
  rw [addRef]
  by_cases hm : s.forObjects m = true
  · rw [if_pos hm]
    by_cases hy : y = x
    · subst hy
      simp [hm]
    · simp [hy]
  · simp [hm]

def attach (s : AttributesManagers μ ρ V) (m : μ) (x : ρ) (p : AttrsPtr) (a : ObjAttrs μ ρ V) :
    AttributesManagers μ ρ V :=
  (s.setAttrs p (some { a with objects := x :: a.objects })).setHash m x (some p)

theorem objHash_attach : (s.attach m x p a).objHash m' y =
    if m' = m ∧ y = x then some p else s.objHash m' y :=
  objHash_setHash (some p)

theorem attrs_attach : (s.attach m x p a).attrs q =
    if q = p then some { a with objects := x :: a.objects } else s.attrs q :=
  attrs_setAttrs _

theorem Consistent.attach (h : s.Consistent refs) (hx : s.objHash m x = none) (hm : a.mgr = m)
    (hnodup : a.objects.Nodup) (hnames : (a.values.map Prod.fst).Nodup) (hp : p < s.next)
    (hobjects : ∀ y, y ∈ a.objects ↔ s.objHash m y = some p)
    (hother : ∀ m' y, s.objHash m' y = some p → m' = m) :
    (s.attach m x p a).Consistent (addRef s.forObjects m x p refs) := by
  have hxa : x ∉ a.objects := by
    rw [hobjects, hx]
    exact fun hc => by cases hc
  constructor
  · intro m' y q hy
    rw [objHash_attach] at hy
    rw [attrs_attach]
    split at hy
    · next heq =>
      obtain rfl := Option.some.inj hy
      obtain ⟨rfl, rfl⟩ := heq
      exact ⟨_, if_pos rfl, hm, List.mem_cons_self ..⟩
    · by_cases hq : q = p
      · subst hq
        obtain rfl := hother m' y hy
        exact ⟨_, if_pos rfl, hm, List.mem_cons_of_mem _ ((hobjects y).mpr hy)⟩
      · rw [if_neg hq]
        exact h.mapped m' y q hy
  · intro q b hb
    rw [attrs_attach] at hb
    split at hb
    · next hq =>
      subst hq
      obtain rfl := Option.some.inj hb
      refine ⟨List.cons_ne_nil _ _, List.nodup_cons.mpr ⟨hxa, hnodup⟩, ?_⟩
      intro y hy
      rw [objHash_attach, hm]
      rcases List.mem_cons.mp hy with rfl | hy
      · exact if_pos ⟨rfl, rfl⟩
      · have hyx : y ≠ x := fun hyx => hxa (hyx ▸ hy)
        rw [if_neg (by simp [hyx]), (hobjects y).mp hy]
    · next hq =>
      obtain ⟨hne, hnd, hall⟩ := h.owners q b hb
      refine ⟨hne, hnd, ?_⟩
      intro y hy
      rw [objHash_attach, if_neg, hall y hy]
      rintro ⟨hbm, rfl⟩
      have hc := hall y hy
      rw [hbm, hx] at hc
      cases hc
  · intro q b hb
    rw [attrs_attach] at hb
    split at hb
    · obtain rfl := Option.some.inj hb
      exact hnames
    · exact h.names q b hb
  · intro q b hb
    rw [attrs_attach] at hb
    split at hb
    · next hq => exact hq ▸ hp
    · exact h.made q b hb
  · refine fun y => addRef_nodup h.refsNodup ?_ s.forObjects
    rw [h.refs]
    rintro ⟨m', -, hc⟩
    obtain rfl := hother m' x hc
    rw [hx] at hc
    cases hc
  · exact h.refs_addRef hx _ fun m' y => objHash_attach

theorem valueOf_attach (ha : ∀ m' y, s.objHash m' y = some p → s.attrs p = some a) :
    (s.attach m x p a).valueOf m' y name =
      if m' = m ∧ y = x then a.values.lookup name else s.valueOf m' y name := by
  rw [valueOf, objHash_attach]
  split
  · simp only [Option.bind_some]
    rw [attrs_attach, if_pos rfl]
    rfl
  · rw [valueOf]
    cases hy : s.objHash m' y with
    | none => rfl
    | some q =>
      simp only [Option.bind_some]
      rw [attrs_attach]
      by_cases hq : q = p
      · subst hq
        rw [if_pos rfl, ha m' y hy]
        rfl
      · rw [if_neg hq]

end Records

end AttributesManagers

end LibGda
