import LibGda.HolderPropagation

/-! A change is passed on to exactly the masters which it reaches, and that ends. The measure is the
number of masters which are still to be reached, then the order of the ones which are changed by
the same value again. -/

namespace LibGda

open RunInvariant Relation

variable {ι D : Type} [ContentsCompare D] [DecidableEq ι] {agrees : ι → GValue D → Bool}

namespace HolderGraph

section Spread

variable {g g' g'' : HolderGraph ι D} {r : ι} {w : GValue D} {V W N N' : Set ι}
  {x y z p q : ι} {c : Bool}

def Closed (agrees : ι → GValue D → Bool) (g : HolderGraph ι D) (w : GValue D) (W : Set ι)
    (p : ι) : Prop :=
  ∀ q, Pushes agrees g w p q → q ∈ W

structure Spread (agrees : ι → GValue D → Bool) (g : HolderGraph ι D) (r : ι) (w : GValue D)
    (V : Set ι) (g' : HolderGraph ι D) (N : Set ι) : Prop where
  marked : Marked g w (V ∪ N) g'
  pushed : ∀ q ∈ N, Pushed agrees g r w q
  closed : ∀ q ∈ N, Closed agrees g w (V ∪ N) q

theorem Closed.mono (h : Closed agrees g w V p) (hsub : V ⊆ W) : Closed agrees g w W p :=
  fun q hq => hsub (h q hq)

theorem Spread.empty (h : Marked g w V g') : Spread agrees g r w V g' ∅ := by
  refine ⟨?_, fun q hq => absurd hq (Set.notMem_empty q), fun q hq =>
    absurd hq (Set.notMem_empty q)⟩
  rwa [Set.union_empty]

theorem Spread.trans (h : Spread agrees g r w V g' N) (h' : Spread agrees g r w (V ∪ N) g'' N') :
    Spread agrees g r w V g'' (N ∪ N') := by
  have hunion : V ∪ N ∪ N' = V ∪ (N ∪ N') := Set.union_assoc V N N'
  refine ⟨hunion ▸ h'.marked, ?_, ?_⟩
  · intro q hq
    rcases hq with hq | hq
    · exact h.pushed q hq
    · exact h'.pushed q hq
  · intro q hq
    rcases hq with hq | hq
    · exact (h.closed q hq).mono (Set.union_subset_union_right V Set.subset_union_left)
    · exact hunion ▸ h'.closed q hq

def FollowersIn (agrees : ι → GValue D → Bool) (g : HolderGraph ι D) (w : GValue D) (p z : ι)
    (W : Set ι) : Prop :=
  ∀ y z' q, ReflTransGen (fun y m => g.fullBind y = some m) z' z → g.simpleBind y = some z' →
    g.MasterOf y q → AgreesAll agrees g y w →
      (g.holder q).unchanged (g.holder q) w (decide (p = q)) = false → q ∈ W

def HandledIn (agrees : ι → GValue D → Bool) (g : HolderGraph ι D) (w : GValue D) (p : ι)
    (W : Set ι) : BoundHandler ι → Prop
  | .fullBound y => FollowersIn agrees g w p y W
  | .bound y => ∀ q, g.MasterOf y q → AgreesAll agrees g y w →
      (g.holder q).unchanged (g.holder q) w (decide (p = q)) = false → q ∈ W

theorem HandledIn.mono {handler : BoundHandler ι} (h : HandledIn agrees g w p V handler)
    (hsub : V ⊆ W) : HandledIn agrees g w p W handler := by
  cases handler with
  | fullBound y => exact fun y' z' q hz hb hm ha hc => hsub (h y' z' q hz hb hm ha hc)
  | bound y => exact fun q hm ha hc => hsub (h q hm ha hc)

def remaining (agrees : ι → GValue D → Bool) (g : HolderGraph ι D) (r : ι) (w : GValue D)
    (W : Set ι) : Set ι :=
  {q | Pushed agrees g r w q ∧ q ∉ W}

end Spread

end HolderGraph

end LibGda

/-! Whether the holders which follow a holder show what it shows after a call. -/

namespace LibGda

open RunInvariant Relation

variable {ι D : Type} [ContentsCompare D] [DecidableEq ι]

/-- A value is another one, as far as `gda_value_differ` tells. -/
def SameValue (v w : GValue D) : Prop :=
  v = w ∨ gdaValueDiffer v w = false

namespace HolderGraph

section Claims

variable (agrees : ι → GValue D → Bool) (g g' : HolderGraph ι D)

omit [ContentsCompare D] [DecidableEq ι] in
def BoundTo (y p : ι) : Prop :=
  ∃ z p', g.simpleBind y = some z ∧ g.MasterOf z p' ∧ ReflTransGen (fun p q =>
    ∃ y z, g.simpleBind y = some z ∧ g.MasterOf z p ∧ g.MasterOf y q) p p'

omit [ContentsCompare D] [DecidableEq ι] in
def ChangedAt (p : ι) : Prop :=
  (g'.holder p).shown ≠ (g.holder p).shown ∨ (g'.holder p).isValid ≠ (g.holder p).isValid

def LeftValid (g₁ : HolderGraph ι D) (r : ι) (w : GValue D) (p : ι) : Prop :=
  (Pushed agrees g₁ r w p ∧ (g₁.holder p).accepts (some w) = true) ∨
    (¬ Pushed agrees g₁ r w p ∧ (g₁.holder p).isValid = true)

structure PassedOn (g₁ : HolderGraph ι D) (r : ι) (w : GValue D) : Prop where
  regular : ∀ q, Pushed agrees g₁ r w q → (g₁.holder q).Regular w
  stops : ∀ q, ¬ TransGen (Repeats agrees g₁ r w) q q
  reached : ∀ p y q, p = r ∨ Pushed agrees g₁ r w p →
    ((g.holder p).shown = w → (g.holder p).isValid = false) →
      LeftValid agrees g₁ r w p → g.BoundTo y p → g.MasterOf y q → AgreesAll agrees g y w →
        (g₁.holder q).accepts (some w) = true →
          Pushed agrees g₁ r w q ∨ SameValue w (g₁.holder q).shown ∧ (g₁.holder q).isValid = true
  refused : ∀ p y q, p = r ∨ Pushed agrees g₁ r w p → (g.holder p).isValid = true →
    ¬ LeftValid agrees g₁ r w p → g.BoundTo y p → g.MasterOf y q → AgreesAll agrees g y w →
      ¬ LeftValid agrees g₁ r w q

end Claims

structure Coherent (g : HolderGraph ι D) : Prop where
  wired : g.Wired
  noAliasCycle : g.NoAliasCycle
  plain : ∀ q, g.fullBind q = none → (g.holder q).Plain

section Proofs

variable {agrees : ι → GValue D → Bool} {g g₁ g' : HolderGraph ι D} {r x y z p q : ι}
  {v w : GValue D} {h : HolderValue D} {V : Set ι}

omit [ContentsCompare D] in
theorem Coherent.setHolder (hg : g.Coherent) (ht : h.gType = (g.holder r).gType) (hh : h.Plain) :
    (g.setHolder r h).Coherent := by
  have hs := setHolder_wiring g ht
  refine ⟨hs.wired hg.wired, hs.noAliasCycle hg.noAliasCycle, ?_⟩
  intro q hq
  by_cases hqr : q = r
  · subst hqr
    rwa [holder_setHolder]
  · rw [holder_setHolder_of_ne g h hqr]
    exact hg.plain q hq

omit [DecidableEq ι] in
theorem Coherent.of_marked (hg : g.Coherent) (hm : Marked g w V g')
    (hV : ∀ q ∈ V, (g.holder q).Regular w) : g'.Coherent := by
  refine ⟨hm.wiring.wired hg.wired, hm.wiring.noAliasCycle hg.noAliasCycle, ?_⟩
  intro q hq
  rw [hm.wiring.fullBind] at hq
  by_cases hqV : q ∈ V
  · rw [hm.set q hqV hq]
    exact (hV q hqV).plain
  · rw [hm.old q hqV hq]
    exact hg.plain q hq

omit [ContentsCompare D] [DecidableEq ι] in
theorem Wired.gType_master (hw : g.Wired) (hm : g.MasterOf x p) :
    (g.holder x).gType = (g.holder p).gType := by
  induction hm with
  | own _ => rfl
  | follow h _ ih => exact (hw.fullType _ _ h).trans ih

theorem Wired.gType_pushed (hw : g.Wired) (h : Pushed agrees g r w q) :
    (g.holder q).gType = (g.holder r).gType := by
  have hedge : ∀ p q, Pushes agrees g w p q → (g.holder q).gType = (g.holder p).gType := by
    rintro p q ⟨⟨y, z, hbind, hz, hq, -⟩, -⟩
    rw [← hw.gType_master hq, hw.boundType y z hbind, hw.gType_master hz]
  induction h with
  | single h => exact hedge _ _ h
  | tail _ h ih => exact (hedge _ _ h).trans ih

theorem Wired.accepts_pushed (hw : g.Wired) (h : Pushed agrees g r w q)
    (ht : w.valueType = (g.holder r).gType ∨ w = .null) :
    (g.holder q).accepts (some w) = true ∨ w = .null := by
  rcases ht with ht | ht
  · cases w with
    | null => exact .inr rfl
    | data t a =>
      left
      rw [← hw.gType_pushed h] at ht
      simp [HolderValue.accepts, gdaValueIsNull, GValue.valueType] at ht ⊢
      exact ht
  · exact .inr ht

structure FirstChange (agrees : ι → GValue D → Bool) (g : HolderGraph ι D) (r : ι)
    (h : HolderValue D) (w : GValue D) : Prop where
  master : g.fullBind r = none
  gType : h.gType = (g.holder r).gType
  plain : h.Plain
  shown : h.shown = w
  type : w.valueType = h.gType ∨ w = .null
  passedOn : PassedOn agrees g (g.setHolder r h) r w

theorem FirstChange.passes (hf : FirstChange agrees g r h w) (hg : g.Coherent) :
    Passes agrees (g.setHolder r h) r w := by
  have hg₁ := hg.setHolder hf.gType hf.plain
  refine ⟨?_, hg₁.plain, hf.passedOn.regular, ?_, hf.passedOn.stops⟩
  · rw [holder_setHolder, hf.shown]
  · intro q hq
    apply hg₁.wired.accepts_pushed hq
    rw [holder_setHolder]
    exact hf.type

abbrev LastMarks (agrees : ι → GValue D → Bool) (g : HolderGraph ι D) (r : ι) (h : HolderValue D)
    (w : GValue D) (g' : HolderGraph ι D) : Prop :=
  Marked (g.setHolder r h) w {q | Pushed agrees (g.setHolder r h) r w q} g'

theorem LastMarks.changed (hm : LastMarks agrees g r h w g') (hp : g.fullBind p = none)
    (hc : g.ChangedAt g' p) : p = r ∨ Pushed agrees (g.setHolder r h) r w p := by
  by_contra hnot
  rw [not_or] at hnot
  have hsame : g'.holder p = g.holder p := by
    rw [hm.old p hnot.2 hp, holder_setHolder_of_ne g h hnot.1]
  rw [ChangedAt, hsame] at hc
  simp at hc

theorem FirstChange.coherent (hf : FirstChange agrees g r h w) (hg : g.Coherent)
    (hm : LastMarks agrees g r h w g') : g'.Coherent :=
  (hg.setHolder hf.gType hf.plain).of_marked hm hf.passedOn.regular

end Proofs

end HolderGraph

end LibGda
