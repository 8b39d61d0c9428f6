import LibGda.HolderSpread

/-! Sequences of calls on a graph of holders. -/

namespace LibGda

open RunInvariant Relation

variable {ι D : Type} [ContentsCompare D] [DecidableEq ι]

namespace HolderGraph

section Conditions

variable (agrees : ι → GValue D → Bool) (g : HolderGraph ι D)

end Conditions

variable {agrees : ι → GValue D → Bool} {g g' g'' : HolderGraph ι D} {x y z m p q : ι}
  {v w : GValue D} {h : HolderValue D}

theorem Marked.first (hm : Marked g v {p} g') :
    Marked (g.setHolder p ((g.holder p).setTo v)) w ∅ g' := by
  refine ⟨?_, ?_, fun q hq => absurd hq (Set.notMem_empty q)⟩
  · refine ⟨hm.wiring.simpleBind, hm.wiring.fullBind, hm.wiring.handlers, ?_⟩
    intro y
    rw [hm.wiring.gType]
    exact ((setHolder_wiring g (HolderValue.gType_setTo (g.holder p) v)).gType y).symm
  · intro q _ hq
    by_cases hqp : q = p
    · subst hqp
      rw [holder_setHolder]
      exact hm.set q rfl hq
    · rw [holder_setHolder_of_ne g _ hqp]
      exact hm.old q hqp hq

section Two

variable {agrees : Bool → GValue Int → Bool} {g : HolderGraph Bool Int} {w : GValue Int}
  {p q y : Bool}

end Two

end HolderGraph

end LibGda
