import LibGda.RunInvariant
import Mathlib.Data.List.Forall2

/-! `virtualBestIndex`: the constraints of an `sqlite3_index_info`, and the filter function of a
virtual table. -/

namespace LibGda

open RunInvariant

/-- The members of `GdaSqlOperatorType` which constraints have. -/
inductive ConstraintOperator where
  | eq
  | gt
  | leq
  | lt
  | geq
  | regexp
  | like
  | glob
  deriving DecidableEq

structure IndexConstraint where
  iColumn : Int
  op : Nat
  usable : Bool
  deriving DecidableEq

structure IndexOrderBy where
  iColumn : Int
  desc : Bool
  deriving DecidableEq

/-- `sqlite3_index_constraint_usage` and `GdaVirtualConstraintUsage` -/
structure ConstraintUsage where
  argvIndex : Int := 0
  /-- `omit` -/
  omitTest : Bool := false
  deriving DecidableEq

/-- `sqlite3_index_info`; `P` is the type of `idxStr`, and `K` the one of a cost. -/
structure IndexInfo (P K : Type) where
  aConstraint : List IndexConstraint
  aOrderBy : List IndexOrderBy
  aConstraintUsage : List ConstraintUsage
  idxNum : Int
  idxStr : Option P
  orderByConsumed : Bool
  estimatedCost : K
  usages_length : aConstraintUsage.length = aConstraint.length

structure VirtualConstraint where
  iColumn : Int
  op : ConstraintOperator
  deriving DecidableEq

structure VirtualFilter (P K : Type) where
  aConstraint : List VirtualConstraint
  aOrderBy : List IndexOrderBy
  aConstraintUsage : List ConstraintUsage
  idxNum : Int
  idxPointer : Option P
  orderByConsumed : Bool
  estimatedCost : K

/-- A `create_filter_func`, which leaves the inputs as they are. -/
structure CreateFilterFunc (P K : Type) where
  create : VirtualFilter P K → VirtualFilter P K
  constraints_create (f : VirtualFilter P K) : (create f).aConstraint = f.aConstraint
  fills_create (f : VirtualFilter P K) :
    (create f).aConstraintUsage.length = f.aConstraint.length

inductive BestIndexFault where
  /-- `g_assert_not_reached ()` -/
  | notReached
  /-- `g_assert (filter->nConstraint == info->nConstraint)` -/
  | counts
  deriving DecidableEq

section Functions

variable {P K : Type} (haveSqlite : Bool)

/-- The cases of the `switch`; the last two are there with `HAVE_SQLITE` only. -/
def constraintOperator : Nat → Option ConstraintOperator
  | 2 => some .eq
  | 4 => some .gt
  | 8 => some .leq
  | 16 => some .lt
  | 32 => some .geq
  | 64 => some .regexp
  | 65 => if haveSqlite then some .like else none
  | 66 => if haveSqlite then some .glob else none
  | _ => none

def mapConstraints : List IndexConstraint → Except BestIndexFault (List VirtualConstraint)
  | [] => .ok []
  | c :: rest =>
    if c.usable then
      match constraintOperator haveSqlite c.op with
      | some op => do
        let mapped ← mapConstraints rest
        .ok (⟨c.iColumn, op⟩ :: mapped)
      | none => .error .notReached
    else mapConstraints rest

def mapInfoToFilter (info : IndexInfo P K) : Except BestIndexFault (VirtualFilter P K) := do
  let aConstraint ← mapConstraints haveSqlite info.aConstraint
  .ok {
    aConstraint
    aOrderBy := info.aOrderBy
    aConstraintUsage := aConstraint.map fun _ => {}
    idxNum := 0
    idxPointer := none
    orderByConsumed := false
    estimatedCost := info.estimatedCost }

def copyUsages : List IndexConstraint → List ConstraintUsage → List ConstraintUsage →
    List ConstraintUsage
  | c :: cs, u :: us, filled =>
    if c.usable then filled.headD u :: copyUsages cs us filled.tail
    else u :: copyUsages cs us filled
  | _, us, _ => us

theorem length_copyUsages (cs : List IndexConstraint) (us filled : List ConstraintUsage) :
    (copyUsages cs us filled).length = us.length := by
  induction cs generalizing us filled with
  | nil => rfl
  | cons c cs ih =>
    cases us with
    | nil => rfl
    | cons u us =>
      rw [copyUsages]
      split <;> simp [ih]

def consumeFilter (filter : VirtualFilter P K) (info : IndexInfo P K) :
    Except BestIndexFault (IndexInfo P K) :=
  if filter.aConstraint.length = info.aConstraint.length then
    .ok { info with
      aConstraintUsage := copyUsages info.aConstraint info.aConstraintUsage filter.aConstraintUsage
      idxNum := filter.idxNum
      idxStr := filter.idxPointer
      orderByConsumed := filter.orderByConsumed
      estimatedCost := filter.estimatedCost
      usages_length := (length_copyUsages _ _ _).trans info.usages_length }
  else .error .counts

def virtualBestIndex (createFilterFunc : Option (CreateFilterFunc P K)) (info : IndexInfo P K) :
    Except BestIndexFault (IndexInfo P K) :=
  match createFilterFunc with
  | none => .ok info
  | some func => do
    let filter ← mapInfoToFilter haveSqlite info
    consumeFilter (func.create filter) info

end Functions

section Correctness

variable {P K : Type} {haveSqlite : Bool}

def Presents (haveSqlite : Bool) (cs : List IndexConstraint) (vs : List VirtualConstraint) : Prop :=
  List.Forall₂ (fun c v => v.iColumn = c.iColumn ∧ constraintOperator haveSqlite c.op = some v.op)
    (cs.filter (·.usable)) vs

def UsagesPlaced (cs : List IndexConstraint) (before filled after : List ConstraintUsage) : Prop :=
  ∀ (i : Nat) (c : IndexConstraint), cs[i]? = some c →
    after[i]? = if c.usable then filled[(cs.take i).countP (·.usable)]? else before[i]?

def ServesFilter (haveSqlite : Bool) (func : CreateFilterFunc P K) (info : IndexInfo P K) : Prop :=
  ∃ filter out, mapInfoToFilter haveSqlite info = .ok filter ∧
    Presents haveSqlite info.aConstraint filter.aConstraint ∧
    virtualBestIndex haveSqlite (some func) info = .ok out ∧
    UsagesPlaced info.aConstraint info.aConstraintUsage (func.create filter).aConstraintUsage
      out.aConstraintUsage

/-- No constraint is unusable, and none has an operator the `switch` does not know. -/
def AllMapped (haveSqlite : Bool) (cs : List IndexConstraint) : Prop :=
  ∀ c ∈ cs, c.usable = true ∧ (constraintOperator haveSqlite c.op).isSome = true

theorem mapConstraints_presents {cs : List IndexConstraint} {vs : List VirtualConstraint}
    (h : mapConstraints haveSqlite cs = .ok vs) : Presents haveSqlite cs vs := by
  induction cs generalizing vs with
  | nil =>
    obtain rfl := Except.ok.inj h
    exact .nil
  | cons c cs ih =>
    rw [mapConstraints] at h
    cases hc : c.usable with
    | false =>
      have hrest : Presents haveSqlite cs vs := ih (by simpa [hc] using h)
      simpa [Presents, List.filter_cons, hc] using hrest
    | true =>
      cases hop : constraintOperator haveSqlite c.op with
      | none => simp [hc, hop] at h
      | some op =>
        simp only [hc, hop, if_true] at h
        obtain ⟨mapped, hmapped, he⟩ := bind_ok h
        obtain rfl := Except.ok.inj he
        have hrest := ih hmapped
        simp only [Presents, List.filter_cons, hc, if_true]
        exact .cons ⟨rfl, hop⟩ hrest

theorem mapConstraints_ok {cs : List IndexConstraint} (h : AllMapped haveSqlite cs) :
    ∃ vs, mapConstraints haveSqlite cs = .ok vs := by
  induction cs with
  | nil => exact ⟨[], rfl⟩
  | cons c cs ih =>
    obtain ⟨vs, hvs⟩ := ih fun d hd => h d (List.mem_cons_of_mem c hd)
    obtain ⟨husable, hop⟩ := h c List.mem_cons_self
    obtain ⟨op, hop⟩ := Option.isSome_iff_exists.mp hop
    refine ⟨⟨c.iColumn, op⟩ :: vs, ?_⟩
    simp only [mapConstraints, husable, hop, hvs, if_true]
    rfl

theorem Presents.length {cs : List IndexConstraint} {vs : List VirtualConstraint}
    (h : Presents haveSqlite cs vs) : vs.length = cs.countP (·.usable) := by
  have hlen := List.Forall₂.length_eq h
  rw [List.countP_eq_length_filter]
  exact hlen.symm

theorem Presents.allMapped {cs : List IndexConstraint} {vs : List VirtualConstraint}
    (h : Presents haveSqlite cs vs) (hlen : vs.length = cs.length) : AllMapped haveSqlite cs := by
  have hall : ∀ c ∈ cs, c.usable = true := List.countP_eq_length.mp (h.length ▸ hlen)
  have hfilter : cs.filter (·.usable) = cs := List.filter_eq_self.mpr hall
  rw [Presents, hfilter] at h
  intro c hc
  refine ⟨hall c hc, ?_⟩
  obtain ⟨i, hi, rfl⟩ := List.getElem_of_mem hc
  have hi' : i < vs.length := hlen ▸ hi
  have hop := (List.forall₂_iff_get.mp h).2 i hi hi'
  simp only [List.get_eq_getElem] at hop
  rw [hop.2, Option.isSome_some]

theorem copyUsages_placed {cs : List IndexConstraint} {before filled : List ConstraintUsage}
    (hbefore : before.length = cs.length) (hfilled : filled.length = cs.countP (·.usable)) :
    UsagesPlaced cs before filled (copyUsages cs before filled) := by
  induction cs generalizing before filled with
  | nil =>
    intro i c hc
    simp at hc
  | cons d cs ih =>
    obtain ⟨u, before, rfl⟩ : ∃ u rest, before = u :: rest :=
      List.exists_cons_of_length_eq_add_one hbefore
    have hlen : before.length = cs.length := by simpa using hbefore
    intro i c hc
    rw [copyUsages]
    cases hd : d.usable with
    | true =>
      have hcount : filled.length = cs.countP (·.usable) + 1 := by simpa [hd] using hfilled
      obtain ⟨f, filled, rfl⟩ := List.exists_cons_of_length_eq_add_one hcount
      have hrest := ih hlen (by simpa using hcount)
      cases i with
      | zero =>
        obtain rfl : d = c := by simpa using hc
        simp [hd]
      | succ i =>
        have hplace := hrest i c (by simpa using hc)
        simpa [hd, List.take_succ_cons] using hplace
    | false =>
      have hrest := ih hlen (by simpa [hd] using hfilled)
      cases i with
      | zero =>
        obtain rfl : d = c := by simpa using hc
        simp [hd]
      | succ i =>
        have hplace := hrest i c (by simpa using hc)
        simpa [hd, List.take_succ_cons] using hplace

/-- A filter function is served as it should be exactly when the assertions hold. -/
theorem servesFilter_iff (haveSqlite : Bool) (func : CreateFilterFunc P K)
    (info : IndexInfo P K) :
    ServesFilter haveSqlite func info ↔ AllMapped haveSqlite info.aConstraint := by
  constructor
  · rintro ⟨filter, out, hfilter, hpresents, hout, -⟩
    rw [virtualBestIndex, hfilter] at hout
    have hcounts : (func.create filter).aConstraint.length = info.aConstraint.length := by
      by_contra hne
      simp [bind, Except.bind, consumeFilter, hne] at hout
    rw [func.constraints_create] at hcounts
    exact hpresents.allMapped hcounts
  · intro hall
    obtain ⟨vs, hvs⟩ := mapConstraints_ok hall
    have hpresents := mapConstraints_presents hvs
    have hcount : info.aConstraint.countP (·.usable) = info.aConstraint.length :=
      List.countP_eq_length.mpr fun c hc => (hall c hc).1
    have hfilter : mapInfoToFilter haveSqlite info = .ok _ :=
      bind_of_ok hvs rfl
    refine ⟨_, _, hfilter, hpresents, bind_of_ok hfilter (if_pos ?_), ?_⟩
    · rw [func.constraints_create]
      exact hpresents.length.trans hcount
    · exact copyUsages_placed info.usages_length
        ((func.fills_create _).trans hpresents.length)

/-- A table joined to another one: its only constraint is not usable, and the counts differ. -/
theorem unusableConstraint_fault :
    ¬ ServesFilter false ⟨fun f => { f with aConstraintUsage := f.aConstraint.map fun _ => {} },
        fun _ => rfl, fun _ => List.length_map ..⟩
      (⟨[⟨0, 2, false⟩], [], [{}], 0, none, false, 0, rfl⟩ : IndexInfo Unit Nat) := by
  rintro ⟨filter, out, -, -, hout, -⟩
  exact absurd hout (by simp [virtualBestIndex, mapInfoToFilter, mapConstraints, consumeFilter,
    bind, Except.bind])

end Correctness

end LibGda
