import LibGda.HolderValue
import LibGda.RunInvariant
import Mathlib.Data.Fintype.Card

/-! Holders which follow others: one which is bound to another takes its values, and one which is
fully bound is an alias of the other. A change is passed on by the handlers of "changed". -/

namespace LibGda

open RunInvariant

variable {ι D : Type}

namespace HolderValue

variable (h : HolderValue D)

def shown : GValue D :=
  h.getValue.getD .null

variable [ContentsCompare D]

/-- The holder does not have to be set: it shows the value, which `accepting` takes. -/
def unchanged (accepting : HolderValue D) (value : GValue D) (isCurrent : Bool) : Bool :=
  !h.differs (some value) isCurrent && accepting.accepts (some value) && h.isValid

def setTo (value : GValue D) : HolderValue D :=
  { h with
    invalidForced := false
    valid := h.accepts (some value)
    defaultForced := h.isDefault (some value)
    value := if h.accepts (some value) then some value else none }

end HolderValue

/-- A handler of "changed": `bound_holder_changed_cb` or `full_bound_holder_changed_cb`, with the
holder which follows. -/
inductive BoundHandler (ι : Type) where
  | bound (holder : ι)
  | fullBound (holder : ι)
  deriving DecidableEq

structure HolderGraph (ι D : Type) where
  holder : ι → HolderValue D
  simpleBind : ι → Option ι := fun _ => none
  fullBind : ι → Option ι := fun _ => none
  handlers : ι → List (BoundHandler ι) := fun _ => []

inductive HolderFault where
  | outOfFuel
  deriving DecidableEq

/-- A value is set, or the handlers of "changed" are run. `isCurrent` tells that the value is the
very pointer which the holder gives. -/
inductive HolderTask (ι D : Type) where
  | setValue (holder : ι) (value : GValue D) (isCurrent : Bool)
  | changed (holder : ι)

namespace HolderGraph

variable [DecidableEq ι]

def setHolder (g : HolderGraph ι D) (x : ι) (h : HolderValue D) : HolderGraph ι D :=
  { g with holder := Function.update g.holder x h }

def master (g : HolderGraph ι D) : Nat → ι → Except HolderFault ι
  | 0, _ => .error .outOfFuel
  | fuel + 1, x =>
    match g.fullBind x with
    | some m => master g fuel m
    | none => .ok x

/-- `gda_holder_get_value`, no value being NULL -/
def getValue (g : HolderGraph ι D) (fuel : Nat) (x : ι) : Except HolderFault (GValue D) :=
  (g.master fuel x).map fun m => (g.holder m).shown

def isValid (g : HolderGraph ι D) (fuel : Nat) (x : ι) : Except HolderFault Bool :=
  (g.master fuel x).map fun m => (g.holder m).isValid

section Calls

variable [ContentsCompare D] (agrees : ι → GValue D → Bool)

/-- `real_gda_holder_set_value`, and the emission of "changed". `agrees` is what the handlers of
"validate-change" of a holder say of a value. -/
def perform : Nat → HolderGraph ι D → HolderTask ι D →
    Except HolderFault (HolderGraph ι D × Bool)
  | 0, _, _ => .error .outOfFuel
  | fuel + 1, g, .setValue x value isCurrent => do
    let m ← g.master fuel x
    let h := g.holder x
    if (g.holder m).unchanged h value isCurrent then
      .ok (g.setHolder x { h with invalidForced := false, valid := true }, true)
    else if !agrees x value then .ok (g, false)
    else
      match g.fullBind x with
      | some aliasOf =>
        perform fuel (g.setHolder x { h.setTo value with value := h.value })
          (.setValue aliasOf value isCurrent)
      | none => do
        let (g, _) ← perform fuel (g.setHolder x (h.setTo value)) (.changed x)
        return (g, h.accepts (some value))
  | fuel + 1, g, .changed x => do
    let g ← (g.handlers x).foldlM (fun g handler => do
      match handler with
      | .fullBound y =>
        let (g, _) ← perform fuel g (.changed y)
        return g
      | .bound y =>
        let m ← g.master fuel x
        let n ← g.master fuel y
        let (g, _) ← perform fuel g (.setValue y (g.holder m).shown (decide (m = n)))
        return g) g
    return (g, true)

def forceInvalid : Nat → HolderGraph ι D → ι → Except HolderFault (HolderGraph ι D)
  | 0, _, _ => .error .outOfFuel
  | fuel + 1, g, x =>
    if (g.holder x).invalidForced then .ok g
    else
      let g := g.setHolder x (g.holder x).forceInvalid
      match g.fullBind x with
      | some aliasOf => forceInvalid fuel g aliasOf
      | none => do
        let (g, _) ← perform agrees fuel g (.changed x)
        return g

end Calls

end HolderGraph

inductive HolderGraphCall (ι D : Type) where
  | setValue (holder : ι) (value : GValue D)
  | forceInvalid (holder : ι)

namespace HolderGraph

variable [DecidableEq ι] [ContentsCompare D]

def call (agrees : ι → GValue D → Bool) (fuel : Nat) (g : HolderGraph ι D) :
    HolderGraphCall ι D → Except HolderFault (HolderGraph ι D)
  | .setValue x value => (g.perform agrees fuel (.setValue x value false)).map Prod.fst
  | .forceInvalid x => g.forceInvalid agrees fuel x

end HolderGraph

end LibGda

/-! The aliases of a graph of holders lead to holders which are an alias of no other one, and only
those hold a value. What the functions need to end is enough fuel, and more does not matter. -/

namespace LibGda

open RunInvariant Relation

variable {ι D : Type}

namespace HolderGraph

variable {g g' : HolderGraph ι D} {x y z m n p q : ι}

inductive MasterOf (g : HolderGraph ι D) : ι → ι → Prop where
  | own {x : ι} (h : g.fullBind x = none) : MasterOf g x x
  | follow {x m p : ι} (h : g.fullBind x = some m) (hm : MasterOf g m p) : MasterOf g x p

theorem MasterOf.unique (hp : g.MasterOf x p) (hq : g.MasterOf x q) : p = q := by
  induction hp with
  | own h =>
    cases hq with
    | own _ => rfl
    | follow h' _ => simp [h] at h'
  | follow h _ ih =>
    cases hq with
    | own h' => simp [h] at h'
    | follow h' hq =>
      obtain rfl := Option.some.inj (h.symm.trans h')
      exact ih hq

def NoAliasCycle (g : HolderGraph ι D) : Prop :=
  ∀ x, ¬ TransGen (fun y m => g.fullBind y = some m) x x

variable [DecidableEq ι] [ContentsCompare D] {agrees : ι → GValue D → Bool}

def handle (agrees : ι → GValue D → Bool) (fuel : Nat) (x : ι) (g : HolderGraph ι D)
    (handler : BoundHandler ι) : Except HolderFault (HolderGraph ι D) := do
  match handler with
  | .fullBound y =>
    let (g, _) ← perform agrees fuel g (.changed y)
    return g
  | .bound y =>
    let m ← g.master fuel x
    let n ← g.master fuel y
    let (g, _) ← perform agrees fuel g (.setValue y (g.holder m).shown (decide (m = n)))
    return g

end HolderGraph

end LibGda
