import LibGda.StatementInstall
import LibGda.ValueCalls

/-! A modification statement reduced to the columns which have a value, and the holders which are
made for a statement in use. -/

namespace LibGda

open ModifInternals

section Statements

variable {V : Type}

def ModStatement.Needs (stmt : ModStatement) (id : String) : Prop :=
  ∃ spec ∈ stmt.paramSpecs, spec.name = some id

/-- The statement is in use, with the holders which `compute_modif_set` makes for it. -/
structure InUse (s : ModifInternals) (mtype : ModType) (stmt : ModStatement)
    (modifSet : ParamSet) : Prop where
  installed : s.modifStmts mtype = some stmt
  set : s.modifSet = some modifSet
  params : ∀ id, (modifSet.generation, id) ∈ s.modifParams mtype ↔ stmt.Needs id
  holders : ∀ id, stmt.Needs id → (holderOf modifSet id).isSome = true

def Given (values : List (Option V)) (i : Nat) (v : V) : Prop := values[i]? = some (some v)

def givenColumns (values : List (Option V)) : List Bool := values.map Option.isSome

def HasNewParam (stmt : ModStatement) (i : Nat) : Prop :=
  ∃ id, stmt.Needs id ∧ paramNameToInt id = some ((i : Int), false)

def ParamForEach (stmt : ModStatement) (values : List (Option V)) : Prop :=
  ∀ i v, Given values i v → HasNewParam stmt i

def drives (bv : List Bool) (expr : FieldExpr) : Bool :=
  match expr.newValueColumn with
  | none => false
  | some num => bvectorHas bv num

def keeps (bv : List Bool) (expr : FieldExpr) : Bool := expr.newValueColumn.isNone || drives bv expr

def reducedPairs (bv : List Bool) (fields : List String) (exprs : List FieldExpr) :
    List (String × FieldExpr) :=
  (fields.zip exprs).filter fun pair => keeps bv pair.2

def reducedFields (bv : List Bool) (fields : List String) (exprs : List FieldExpr) : List String :=
  (reducedPairs bv fields exprs).map Prod.fst ++ fields.drop exprs.length

def reducedExprs (bv : List Bool) (fields : List String) (exprs : List FieldExpr) :
    List FieldExpr :=
  (reducedPairs bv fields exprs).map Prod.snd ++ exprs.drop fields.length

def Driven (bv : List Bool) (fields : List String) (exprs : List FieldExpr) : Prop :=
  ∃ pair ∈ fields.zip exprs, drives bv pair.2 = true

def ModStatement.reducedUpdate (upd : ModStatement) (bv : List Bool) : ModStatement :=
  { upd with
    fieldsList := reducedFields bv upd.fieldsList upd.exprList
    exprList := reducedExprs bv upd.fieldsList upd.exprList }

def ModStatement.reducedInsert (ins : ModStatement) (bv : List Bool) : ModStatement :=
  { ins with
    fieldsList := reducedFields bv ins.fieldsList (ins.valuesList.headD [])
    valuesList := reducedExprs bv ins.fieldsList (ins.valuesList.headD []) :: ins.valuesList.tail }

end Statements

section Reduction

variable {bv : List Bool} {fields : List String} {exprs : List FieldExpr} {stmt e : ModStatement}

theorem keepColumns_eq (bv : List Bool) (exprs : List FieldExpr) (fields : List String) :
    keepColumns bv exprs fields = (reducedExprs bv fields exprs, reducedFields bv fields exprs,
      (fields.zip exprs).any fun pair => drives bv pair.2) := by
  induction exprs generalizing fields with
  | nil =>
    cases fields with
    | nil => simp [keepColumns, reducedExprs, reducedFields, reducedPairs]
    | cons field fields => simp [keepColumns, reducedExprs, reducedFields, reducedPairs]
  | cons expr exprs ih =>
    cases fields with
    | nil => simp [keepColumns, reducedExprs, reducedFields, reducedPairs]
    | cons field fields =>
      rw [keepColumns, ih]
      cases hcolumn : expr.newValueColumn with
      | none => simp [reducedExprs, reducedFields, reducedPairs, keeps, drives, hcolumn]
      | some num =>
        by_cases hhas : bvectorHas bv num = true
        · simp [reducedExprs, reducedFields, reducedPairs, keeps, drives, hcolumn, hhas]
        · simp [reducedExprs, reducedFields, reducedPairs, keeps, drives, hcolumn, hhas]

theorem any_drives : ((fields.zip exprs).any fun pair => drives bv pair.2) = true ↔
    Driven bv fields exprs := by
  rw [List.any_eq_true]
  rfl

theorem computeSingleUpdateStmt_ok : computeSingleUpdateStmt stmt bv = .ok e ↔
    Driven bv stmt.fieldsList stmt.exprList ∧ e = stmt.reducedUpdate bv := by
  rw [computeSingleUpdateStmt, keepColumns_eq, ← any_drives]
  dsimp only
  by_cases hany : (stmt.fieldsList.zip stmt.exprList).any (fun pair => drives bv pair.2) = true
  · rw [if_pos hany]
    constructor
    · intro heq
      exact ⟨hany, (Except.ok.inj heq).symm⟩
    · intro hboth
      rw [hboth.2]
      rfl
  · rw [if_neg hany]
    constructor
    · intro heq
      cases heq
    · intro hboth
      exact absurd hboth.1 hany

theorem computeSingleInsertStmt_ok : computeSingleInsertStmt stmt bv = .ok e ↔
    Driven bv stmt.fieldsList (stmt.valuesList.headD []) ∧ e = stmt.reducedInsert bv := by
  rw [computeSingleInsertStmt, keepColumns_eq, ← any_drives]
  dsimp only
  by_cases hany : (stmt.fieldsList.zip (stmt.valuesList.headD [])).any (fun pair =>
    drives bv pair.2) = true
  · rw [if_pos hany]
    constructor
    · intro heq
      exact ⟨hany, (Except.ok.inj heq).symm⟩
    · intro hboth
      rw [hboth.2]
      rfl
  · rw [if_neg hany]
    constructor
    · intro heq
      cases heq
    · intro hboth
      exact absurd hboth.1 hany

theorem mem_reducedExprs {expr : FieldExpr} (hmem : expr ∈ exprs) (hkeeps : keeps bv expr = true) :
    expr ∈ reducedExprs bv fields exprs := by
  induction exprs generalizing fields with
  | nil => cases hmem
  | cons first exprs ih =>
    cases fields with
    | nil => simpa [reducedExprs, reducedPairs] using hmem
    | cons field fields =>
      obtain rfl | hmem := List.mem_cons.1 hmem
      · simp [reducedExprs, reducedPairs, hkeeps]
      · have hrest : expr ∈ reducedExprs bv fields exprs := ih hmem
        by_cases hfirst : keeps bv first = true
        · simp only [reducedExprs, reducedPairs] at hrest ⊢
          simp [hfirst] at hrest ⊢
          exact .inr hrest
        · simp only [reducedExprs, reducedPairs] at hrest ⊢
          simp [hfirst] at hrest ⊢
          exact hrest

end Reduction

section Holders

variable {stmt : ModStatement} {holders : List ParamHolder} {id : String}

theorem holderOf_isSome {modifSet : ParamSet} :
    (holderOf modifSet id).isSome = true ↔ id ∈ modifSet.holders.map ParamHolder.id := by
  unfold holderOf
  rw [List.mem_map]
  by_cases hany : modifSet.holders.any (·.id == id) = true
  · rw [if_pos hany]
    rw [List.any_eq_true] at hany
    obtain ⟨holder, hmem, heq⟩ := hany
    exact ⟨fun _ => ⟨holder, hmem, beq_iff_eq.1 heq⟩, fun _ => rfl⟩
  · rw [if_neg hany]
    constructor
    · intro h
      cases h
    · intro h
      obtain ⟨holder, hmem, heq⟩ := h
      refine absurd ?_ hany
      exact List.any_eq_true.2 ⟨holder, hmem, beq_iff_eq.2 heq⟩

theorem holderOf_some {modifSet : ParamSet} (h : (holderOf modifSet id).isSome = true) :
    holderOf modifSet id = some (modifSet.generation, id) := by
  unfold holderOf at h ⊢
  split at h
  · rename_i hany
    rw [if_pos hany]
  · cases h

end Holders

end LibGda
