import LibGda.HolderBinding
import Mathlib.Data.Set.Card

/-! What is set when a change of one holder is passed on: the holders which are reached through
holders which are changed themselves. -/

namespace LibGda

open RunInvariant Relation

variable {ι D : Type} [ContentsCompare D]

namespace HolderValue

structure Regular (h : HolderValue D) (w : GValue D) : Prop where
  isValid : (h.setTo w).isValid = h.accepts (some w)
  shown : (h.setTo w).shown = if h.accepts (some w) then w else .null

omit [ContentsCompare D] in
structure Plain (h : HolderValue D) : Prop where
  isValid : h.isValid = h.valid
  accepts : h.valid = true → h.accepts (some h.shown) = true

@[simp] theorem gType_setTo (h : HolderValue D) (w : GValue D) : (h.setTo w).gType = h.gType := rfl

theorem Regular.plain {h : HolderValue D} {w : GValue D} (hr : h.Regular w) :
    (h.setTo w).Plain := by
  refine ⟨hr.isValid, ?_⟩
  intro hv
  have hacc : h.accepts (some w) = true := hv
  rw [hr.shown, if_pos hacc]
  exact hacc

theorem valueType_of_not_differ {v w : GValue D} (h : gdaValueDiffer v w = false) :
    v.valueType = w.valueType := by
  cases v with
  | null =>
    cases w with
    | null => rfl
    | data u b => cases h
  | data t a =>
    cases w with
    | null => cases h
    | data u b =>
      by_cases htu : t = u
      · rw [htu]
        rfl
      · simp [gdaValueDiffer, htu] at h

omit [ContentsCompare D] in
theorem accepts_of_valueType {h : HolderValue D} {v w : GValue D}
    (ht : v.valueType = w.valueType) : h.accepts (some v) = h.accepts (some w) := by
  simp only [accepts, holdsNull_some, gdaValueIsNull, ht, Option.map_some]

theorem differs_eq (h : HolderValue D) (w : GValue D) :
    h.differs (some w) false = gdaValueDiffer w h.shown := by
  simp only [differs, shown]
  cases h.getValue with
  | none => cases w <;> simp [gdaValueDiffer, holdsNull]
  | some c =>
    cases w with
    | null => cases c <;> simp [gdaValueIsNull, GValue.valueType, gdaValueDiffer]
    | data t a =>
      cases c with
      | null => simp [gdaValueIsNull, GValue.valueType, gdaValueDiffer]
      | data u b => by_cases htu : t = u <;>
          simp [gdaValueIsNull, GValue.valueType, gdaValueDiffer, htu]

theorem unchanged_iff {h a : HolderValue D} {w : GValue D} {c : Bool} :
    h.unchanged a w c = true ↔ (c = true ∨ gdaValueDiffer w h.shown = false) ∧
      a.accepts (some w) = true ∧ h.isValid = true := by
  simp only [unchanged, Bool.and_eq_true, Bool.not_eq_true', and_assoc]
  cases c with
  | true => simp [differs]
  | false => simp [differs_eq]

theorem Plain.unchanged {h a : HolderValue D} (hp : h.Plain) {w : GValue D} {c : Bool}
    (hu : h.unchanged a w c = true) (hc : c = true → w = h.shown) : h.unchanged h w c = true := by
  obtain ⟨hsame, -, hv⟩ := unchanged_iff.mp hu
  refine unchanged_iff.mpr ⟨hsame, ?_, hv⟩
  have hacc := hp.accepts (hp.isValid ▸ hv)
  rcases hsame with hcur | hdiff
  · rw [hc hcur]
    exact hacc
  · rw [accepts_of_valueType (valueType_of_not_differ hdiff)]
    exact hacc

end HolderValue

namespace HolderGraph

inductive AgreesAll (agrees : ι → GValue D → Bool) (g : HolderGraph ι D) : ι → GValue D → Prop where
  | own {x : ι} {w : GValue D} (h : g.fullBind x = none) (ha : agrees x w = true) :
      AgreesAll agrees g x w
  | follow {x m : ι} {w : GValue D} (h : g.fullBind x = some m) (ha : agrees x w = true)
      (hm : AgreesAll agrees g m w) : AgreesAll agrees g x w

structure Wired (g : HolderGraph ι D) : Prop where
  bound : ∀ y z, .bound y ∈ g.handlers z ↔ g.simpleBind y = some z
  fullBound : ∀ y z, .fullBound y ∈ g.handlers z ↔ g.fullBind y = some z
  boundType : ∀ y z, g.simpleBind y = some z → (g.holder y).gType = (g.holder z).gType
  fullType : ∀ y z, g.fullBind y = some z → (g.holder y).gType = (g.holder z).gType

structure SameWiring (g g' : HolderGraph ι D) : Prop where
  simpleBind : g'.simpleBind = g.simpleBind
  fullBind : g'.fullBind = g.fullBind
  handlers : g'.handlers = g.handlers
  gType : ∀ x, (g'.holder x).gType = (g.holder x).gType

section Push

variable (agrees : ι → GValue D → Bool) (g : HolderGraph ι D) (r : ι) (w : GValue D)

def Edge (p q : ι) : Prop :=
  ∃ y z, g.simpleBind y = some z ∧ g.MasterOf z p ∧ g.MasterOf y q ∧ AgreesAll agrees g y w

variable [DecidableEq ι]

def Pushes (p q : ι) : Prop :=
  Edge agrees g w p q ∧ (g.holder q).unchanged (g.holder q) w (decide (p = q)) = false

def Pushed (q : ι) : Prop :=
  TransGen (Pushes agrees g w) r q

def Repeats (p q : ι) : Prop :=
  ReflTransGen (Pushes agrees g w) r p ∧ Pushed agrees g r w q ∧ Edge agrees g w p q ∧
    ((g.holder q).setTo w).unchanged ((g.holder q).setTo w) w (decide (p = q)) = false

structure Passes : Prop where
  shown : (g.holder r).shown = w
  plain : ∀ q, g.fullBind q = none → (g.holder q).Plain
  regular : ∀ q, Pushed agrees g r w q → (g.holder q).Regular w
  accepts : ∀ q, Pushed agrees g r w q → (g.holder q).accepts (some w) = true ∨ w = .null
  stops : ∀ q, ¬ TransGen (Repeats agrees g r w) q q

end Push

section Marks

variable [DecidableEq ι] {agrees : ι → GValue D → Bool} {g g' g'' : HolderGraph ι D} {r : ι}
  {w : GValue D} {V W N : Set ι} {x y z p q : ι} {c : Bool}

omit [ContentsCompare D] [DecidableEq ι] in
theorem SameWiring.refl (g : HolderGraph ι D) : SameWiring g g :=
  ⟨rfl, rfl, rfl, fun _ => rfl⟩

omit [ContentsCompare D] [DecidableEq ι] in
theorem SameWiring.trans (h : SameWiring g g') (h' : SameWiring g' g'') : SameWiring g g'' :=
  ⟨h'.simpleBind.trans h.simpleBind, h'.fullBind.trans h.fullBind,
    h'.handlers.trans h.handlers, fun x => (h'.gType x).trans (h.gType x)⟩

omit [ContentsCompare D] [DecidableEq ι] in
theorem SameWiring.wired (hs : SameWiring g g') (hw : g.Wired) : g'.Wired := by
  constructor
  · intro y z
    rw [hs.handlers, hs.simpleBind]
    exact hw.bound y z
  · intro y z
    rw [hs.handlers, hs.fullBind]
    exact hw.fullBound y z
  · intro y z hy
    rw [hs.simpleBind] at hy
    rw [hs.gType, hs.gType]
    exact hw.boundType y z hy
  · intro y z hy
    rw [hs.fullBind] at hy
    rw [hs.gType, hs.gType]
    exact hw.fullType y z hy

omit [ContentsCompare D] [DecidableEq ι] in
theorem SameWiring.noAliasCycle (hs : SameWiring g g') (hn : g.NoAliasCycle) :
    g'.NoAliasCycle := by
  rw [NoAliasCycle, hs.fullBind]
  exact hn

omit [ContentsCompare D] in
@[simp] theorem holder_setHolder (g : HolderGraph ι D) (x : ι) (h : HolderValue D) :
    (g.setHolder x h).holder x = h := by
  simp [setHolder]

omit [ContentsCompare D] in
theorem holder_setHolder_of_ne (g : HolderGraph ι D) (h : HolderValue D) (hne : y ≠ x) :
    (g.setHolder x h).holder y = g.holder y := by
  simp [setHolder, hne]

omit [ContentsCompare D] in
theorem setHolder_wiring (g : HolderGraph ι D) {h : HolderValue D}
    (ht : h.gType = (g.holder x).gType) : SameWiring g (g.setHolder x h) := by
  refine ⟨rfl, rfl, rfl, ?_⟩
  intro y
  by_cases hy : y = x
  · subst hy
    rw [holder_setHolder, ht]
  · rw [holder_setHolder_of_ne g h hy]

structure Marked (g : HolderGraph ι D) (w : GValue D) (V : Set ι) (g' : HolderGraph ι D) : Prop
    where
  wiring : SameWiring g g'
  old : ∀ q ∉ V, g.fullBind q = none → g'.holder q = g.holder q
  set : ∀ q ∈ V, g.fullBind q = none → g'.holder q = (g.holder q).setTo w

end Marks

end HolderGraph

end LibGda
