import LibGda.ReducedStatements

/-! What a call of `gda_data_select_set_values` or `gda_data_select_append_values` which succeeds has
assigned: it succeeds as soon as one of the values has a parameter. -/

namespace LibGda

open ModifInternals

section Contract

variable {V : Type}

/-- The "-<num>" parameters have the value given for their column, or else the previous one. -/
def RereadsRow (env : Surroundings V) (ncols : Nat) (values : List (Option V))
    (params : List (String × V)) : Prop :=
  ∀ num x, num < ncols → (oldValueId num, x) ∈ params →
    (∀ v, Given values num v → x = v) ∧ ((∀ v, ¬ Given values num v) → env.rowValue num = some x)

def TakesAll (env : Surroundings V) (modifSet : ParamSet) : Prop :=
  (∀ id v, env.accepts id v = true) ∧ ∃ params, env.selectParams = some params ∧
    ∀ param ∈ params, (holderOf modifSet param.1).isSome = true ∧ ∀ v, param.2 v = true

/-- Wherever the statement is in use, a call with the values which succeeds has executed the reduced
statement, and the row is read again. -/
def UpdateContract (upd : ModStatement) (kept : Option ModStatement) (values : List (Option V)) :
    Prop :=
  ∀ (ctx : SelectContext) (s s' : ModifInternals) (modifSet : ParamSet) (env : Surroundings V)
    (vals : HolderValues V) (done : Updated V), ctx.nColumns < 2 ^ 31 →
    InUse s .updQuery upd modifSet → s.updStmts (givenColumns values) = kept →
    dataSelectSetValues env ctx s vals values = .ok (.ok (some done), s') →
      ParamForEach upd values ∧ done.stmt = upd.reducedUpdate (givenColumns values) ∧
        (∀ params, done.params = some params → RereadsRow env ctx.nColumns values params) ∧
        (TakesAll env modifSet → done.params ≠ none)

def InsertContract (ins : ModStatement) (kept : Option ModStatement) (values : List (Option V)) :
    Prop :=
  ∀ (ctx : SelectContext) (s s' : ModifInternals) (modifSet : ParamSet) (env : Surroundings V)
    (vals : HolderValues V) (stmt : ModStatement),
    InUse s .insQuery ins modifSet → s.insStmts (givenColumns values) = kept →
    dataSelectAppendValues env ctx s vals values = .ok (.ok stmt, s') →
      ParamForEach ins values ∧ stmt = ins.reducedInsert (givenColumns values)

def SuppliedByUpdate (upd : ModStatement) (values : List (Option V)) (id : String) : Prop :=
  (∃ i v, Given values i v ∧ id = newValueId i ∧ upd.Needs id) ∨
    (∃ i, i < 2 ^ 31 - 1 ∧ id = oldValueId i) ∨ paramNameToInt id = none

def SuppliedByInsert (ins : ModStatement) (values : List (Option V)) (id : String) : Prop :=
  ∀ i v, Given values i v → id = newValueId i → ins.Needs id

def ReducesCovered (supplied : String → Prop) (kept : Option ModStatement) (reduced : ModStatement)
    (driven covered : Prop) : Prop :=
  ∀ stmt, kept = some stmt ∨ kept = none ∧ driven ∧ stmt = reduced →
    (∀ spec ∈ stmt.paramSpecs, ∃ id, spec.name = some id ∧ supplied id) →
      stmt = reduced ∧ covered

def UpdateHolds (upd : ModStatement) (kept : Option ModStatement) (values : List (Option V)) :
    Prop :=
  values.length < 2 ^ 31 → (∃ i v, Given values i v) →
    ReducesCovered (SuppliedByUpdate upd values) kept (upd.reducedUpdate (givenColumns values))
      (Driven (givenColumns values) upd.fieldsList upd.exprList) (ParamForEach upd values)

def InsertHolds (ins : ModStatement) (kept : Option ModStatement) (values : List (Option V)) :
    Prop :=
  (∃ i v, Given values i v) →
    ReducesCovered (SuppliedByInsert ins values) kept (ins.reducedInsert (givenColumns values))
      (Driven (givenColumns values) ins.fieldsList (ins.valuesList.headD []))
        (ParamForEach ins values)

end Contract

section Outcomes

variable {V : Type} {env : Surroundings V} {ctx : SelectContext} {s s' : ModifInternals}
variable {modifSet : ParamSet} {vals : HolderValues V} {values : List (Option V)}
variable {upd ins stmt : ModStatement} {done : Updated V} {pid : String}

theorem cached_cases {cache cache' : List Bool → Option ModStatement}
    {compute : List Bool → Except ModError ModStatement} {bv : List Bool}
    (h : cached cache compute bv = .ok (stmt, cache')) :
    cache bv = some stmt ∨ cache bv = none ∧ compute bv = .ok stmt := by
  unfold cached at h
  split at h
  · rename_i found hfound
    have heq := (Prod.mk.inj (Except.ok.inj h)).1
    exact .inl (heq ▸ hfound)
  · rename_i hnone
    cases hcompute : compute bv with
    | error error =>
      rw [hcompute] at h
      cases h
    | ok computed =>
      rw [hcompute] at h
      have heq := (Prod.mk.inj (Except.ok.inj h)).1
      exact .inr ⟨hnone, congrArg Except.ok heq⟩

theorem given_of_any (h : ¬ (values.map Option.isSome).any id = false) :
    ∃ i v, Given values i v := by
  have hany := eq_true_of_ne_false h
  rw [List.any_eq_true] at hany
  obtain ⟨b, hmem, hb⟩ := hany
  obtain ⟨value, hvalue, rfl⟩ := List.mem_map.1 hmem
  obtain ⟨v, rfl⟩ := Option.isSome_iff_exists.1 hb
  obtain ⟨i, hi⟩ := List.getElem?_of_mem hvalue
  exact ⟨i, v, hi⟩

theorem any_of_given {i : Nat} {v : V} (h : Given values i v) :
    ¬ (values.map Option.isSome).any id = false := by
  intro hany
  rw [List.any_eq_false] at hany
  have hmem : true ∈ values.map Option.isSome :=
    List.mem_map.2 ⟨some v, List.mem_of_getElem? h, rfl⟩
  exact hany true hmem rfl

structure SetDone (env : Surroundings V) (ctx : SelectContext) (s : ModifInternals)
    (upd : ModStatement) (modifSet : ParamSet) (vals : HolderValues V) (values : List (Option V))
    (done : Updated V) (vals₁ vals₂ : HolderValues V) : Prop where
  few : values.length ≤ ctx.nColumns
  given : ∃ i v, Given values i v
  new : setNewValues env s .updQuery modifSet 0 values vals.invalidated = some vals₁
  old : setOldValues env modifSet (List.range ctx.nColumns) vals₁ = some vals₂
  executed : env.executes done.stmt (vals₂.of modifSet) = true
  params : done.params = selectParamsOf env modifSet vals₂
  stmt : s.updStmts (givenColumns values) = some done.stmt ∨
    s.updStmts (givenColumns values) = none ∧
      computeSingleUpdateStmt upd (givenColumns values) = .ok done.stmt

theorem dataSelectSetValues_done (hin : InUse s .updQuery upd modifSet)
    (h : dataSelectSetValues env ctx s vals values = .ok (.ok (some done), s')) :
    ∃ vals₁ vals₂, SetDone env ctx s upd modifSet vals values done vals₁ vals₂ := by
  unfold dataSelectSetValues at h
  split at h
  · cases h
  split at h
  · cases h
  rw [hin.installed] at h
  dsimp only at h
  split at h
  · cases h
  rename_i hfew
  split at h
  · cases h
  rename_i hsome
  rw [hin.set] at h
  dsimp only at h
  split at h
  · cases h
  rename_i vals₁ hnew
  have hvector := Except.ok.inj h
  unfold vectorSetValues at hvector
  split at hvector
  · cases hvector
  split at hvector
  · cases hvector
  rename_i stmt updStmts hcached
  dsimp only at hvector
  split at hvector
  · cases hvector
  rename_i vals₂ hold
  split at hvector
  · cases hvector
  rename_i hexecuted
  have hdone := Option.some.inj (Except.ok.inj (Prod.mk.inj hvector).1)
  subst hdone
  exact ⟨vals₁, vals₂, Nat.le_of_not_lt hfew, given_of_any hsome, hnew, hold,
    eq_true_of_ne_false hexecuted, rfl, cached_cases hcached⟩

theorem dataSelectSetValues_succeeds {vals₁ vals₂ : HolderValues V} {i : Nat} {v : V}
    {cache' : List Bool → Option ModStatement} (hlocked : s.safelyLocked = false)
    (haccess : ctx.accessRandom = true) (hin : InUse s .updQuery upd modifSet)
    (hfew : values.length ≤ ctx.nColumns) (hv : Given values i v)
    (hnew : setNewValues env s .updQuery modifSet 0 values vals.invalidated = some vals₁)
    (hrow : env.rowFound = true)
    (hcached : cached s.updStmts (computeSingleUpdateStmt upd) (givenColumns values) =
      .ok (stmt, cache'))
    (hold : setOldValues env modifSet (List.range ctx.nColumns) vals₁ = some vals₂)
    (hexecutes : env.executes stmt (vals₂.of modifSet) = true) :
    ∃ s', dataSelectSetValues env ctx s vals values =
      .ok (.ok (some ⟨stmt, selectParamsOf env modifSet vals₂⟩), s') := by
  have hvector : vectorSetValues env ctx s upd modifSet vals₁ (givenColumns values) =
      (.ok (some ⟨stmt, selectParamsOf env modifSet vals₂⟩), { s with updStmts := cache' }) := by
    simp [vectorSetValues, hrow, hcached, hold, hexecutes]
  have hlocked' : ¬ s.safelyLocked = true := by simp [hlocked]
  have haccess' : ¬ ctx.accessRandom = false := by simp [haccess]
  have hcall : dataSelectSetValues env ctx s vals values =
      .ok (vectorSetValues env ctx s upd modifSet vals₁ (givenColumns values)) := by
    unfold dataSelectSetValues
    rw [if_neg hlocked', if_neg haccess', hin.installed]
    dsimp only
    rw [if_neg (Nat.not_lt.2 hfew), if_neg (any_of_given hv), hin.set]
    dsimp only
    rw [hnew]
    rfl
  exact ⟨{ s with updStmts := cache' }, hcall.trans (congrArg Except.ok hvector)⟩

theorem SetDone.new_given {vals₁ vals₂ : HolderValues V} {i : Nat} {v : V}
    (h : SetDone env ctx s upd modifSet vals values done vals₁ vals₂)
    (hin : InUse s .updQuery upd modifSet) (hv : Given values i v)
    (hneeds : upd.Needs (newValueId i)) : vals₂ (newValueId i) = some v := by
  have hframe : vals₂ (newValueId i) = vals₁ (newValueId i) := by
    apply setOldValues_frame h.old
    intro j _
    exact newValueId_ne_minus i _
  have hholder : holderOf modifSet (newValueId (0 + i)) =
      some (modifSet.generation, newValueId i) := by
    rw [Nat.zero_add]
    exact holderOf_some (hin.holders _ hneeds)
  have hgiven := setNewValues_given h.new hv hholder
  rw [Nat.zero_add, if_pos ((hin.params _).2 hneeds)] at hgiven
  rw [hframe, hgiven]

theorem setNewValues_untouched {vals₁ : HolderValues V} {start : HolderValues V} {mtype : ModType}
    (h : setNewValues env s mtype modifSet 0 values start = some vals₁)
    (hid : ∀ i v, Given values i v → pid ≠ newValueId i) : vals₁ pid = start pid := by
  apply setNewValues_frame h
  intro j v hj
  rw [Nat.zero_add]
  exact hid j v hj

theorem of_some {x : V} (h : vals.of modifSet pid = some x) :
    (holderOf modifSet pid).isSome = true ∧ vals pid = some x := by
  unfold HolderValues.of at h
  split at h
  · exact ⟨‹_›, h⟩
  · cases h

theorem SetDone.valid_cases {vals₁ vals₂ : HolderValues V} {x : V}
    (h : SetDone env ctx s upd modifSet vals values done vals₁ vals₂)
    (hin : InUse s .updQuery upd modifSet) (hvalid : vals₂.of modifSet pid = some x) :
    paramNameToInt pid = none ∨ (∃ i, i < ctx.nColumns ∧ pid = oldValueId i) ∨
      ∃ i, Given values i x ∧ pid = newValueId i ∧ upd.Needs pid := by
  obtain ⟨hholder, hx⟩ := of_some hvalid
  by_cases hold : ∃ i, i < ctx.nColumns ∧ pid = oldValueId i
  · exact .inr (.inl hold)
  · have hframe : vals₂ pid = vals₁ pid := by
      apply setOldValues_frame h.old
      intro i hi heq
      exact hold ⟨i, List.mem_range.1 hi, heq⟩
    rw [hframe] at hx
    by_cases hnew : ∃ i v, Given values i v ∧ pid = newValueId i
    · obtain ⟨i, v, hv, rfl⟩ := hnew
      have hptr : holderOf modifSet (newValueId (0 + i)) =
          some (modifSet.generation, newValueId i) := by
        rw [Nat.zero_add]
        exact holderOf_some hholder
      have hgiven := setNewValues_given h.new hv hptr
      rw [Nat.zero_add, hx] at hgiven
      by_cases hmem : (modifSet.generation, newValueId i) ∈ s.modifParams .updQuery
      · rw [if_pos hmem] at hgiven
        obtain rfl := Option.some.inj hgiven
        exact .inr (.inr ⟨i, hv, rfl, (hin.params _).1 hmem⟩)
      · rw [if_neg hmem] at hgiven
        cases hgiven
    · rw [setNewValues_untouched h.new fun i v hv heq => hnew ⟨i, v, hv, heq⟩] at hx
      unfold HolderValues.invalidated at hx
      cases hnumber : paramNameToInt pid with
      | none => exact .inl rfl
      | some number => simp [hnumber] at hx

theorem given_lt {i : Nat} {v : V} (h : Given values i v) : i < values.length :=
  (List.getElem?_eq_some_iff.1 h).1

theorem bvectorHas_given {i : Nat} {v : V} (h : Given values i v) :
    bvectorHas (givenColumns values) (i : Int) = true := by
  have hvalue : values[i]? = some (some v) := h
  simp [bvectorHas, givenColumns, hvalue]

theorem reducedUpdate_needs {i : Nat} {v : V} (hneeds : upd.Needs pid)
    (hnumber : paramNameToInt pid = some ((i : Int), false)) (hv : Given values i v) :
    (upd.reducedUpdate (givenColumns values)).Needs pid := by
  obtain ⟨spec, hspec, hname⟩ := hneeds
  refine ⟨spec, ?_, hname⟩
  simp only [ModStatement.paramSpecs, List.mem_append] at hspec ⊢
  refine hspec.imp_left (Or.imp_left fun hexpr => ?_)
  obtain ⟨expr, hmem, hin⟩ := List.mem_flatMap.1 hexpr
  refine List.mem_flatMap.2 ⟨expr, mem_reducedExprs hmem ?_, hin⟩
  unfold keeps drives FieldExpr.newValueColumn
  unfold FieldExpr.paramSpecs at hin
  cases hparam : expr.paramSpec with
  | none => rfl
  | some spec' =>
    rw [hparam] at hin
    obtain rfl := List.mem_singleton.1 hin
    simp [hname, hnumber, bvectorHas_given hv]

theorem SetDone.overwrites {vals₁ vals₂ : HolderValues V} {num : Nat} {src : String} {w : V}
    (h : SetDone env ctx s upd modifSet vals values done vals₁ vals₂)
    (hin : InUse s .updQuery upd modifSet) (hsmall : ctx.nColumns < 2 ^ 31)
    (hsrc : src ∈ modifSet.holders.map ParamHolder.id)
    (hover : Overwrites vals₂ src (oldValueId num) w) : Given values num w := by
  obtain ⟨hvalue, res, hres, hid⟩ := hover
  have hvalid : vals₂.of modifSet src = some w := by
    rw [HolderValues.of, if_pos (holderOf_isSome.2 hsrc)]
    exact hvalue
  obtain hnone | ⟨i, -, hold⟩ | ⟨i, hv, rfl, -⟩ := h.valid_cases hin hvalid
  · rw [hnone] at hres
    cases hres
  · exact absurd hold (paramNameToInt_plus hres _)
  · have hi : i < 2 ^ 31 := Nat.lt_of_lt_of_le (given_lt hv)
      (Nat.le_of_lt (Nat.lt_of_le_of_lt h.few hsmall))
    rw [paramNameToInt_new hi] at hres
    have hnum : res = (i : Int) := (Prod.mk.inj (Option.some.inj hres)).1.symm
    rw [hnum] at hid
    have heq : num = i := oldValueId_inj hid
    rw [heq]
    exact hv

theorem SetDone.rereadsRow {vals₁ vals₂ : HolderValues V} {params : List (String × V)}
    (h : SetDone env ctx s upd modifSet vals values done vals₁ vals₂)
    (hin : InUse s .updQuery upd modifSet) (hsmall : ctx.nColumns < 2 ^ 31)
    (heach : ∀ i v, Given values i v → upd.Needs (newValueId i))
    (hparams : done.params = some params) : RereadsRow env ctx.nColumns values params := by
  rw [h.params] at hparams
  unfold selectParamsOf at hparams
  split at hparams
  · cases hparams
  rename_i selectParams hselect
  rw [Option.bind_eq_some_iff] at hparams
  obtain ⟨vals₃, hoverwrite, hselected⟩ := hparams
  intro num x hnum hentry
  obtain ⟨hholder, hx⟩ := selectValues_mem hselected _ hentry
  dsimp only at hholder hx
  constructor
  · intro v hv
    have hneeds := heach num v hv
    have hi : num < 2 ^ 31 := Nat.lt_trans hnum hsmall
    have hvals : vals₃ (oldValueId num) = some v := by
      apply overwriteOldValues_given hoverwrite
      · intro src hsrc w hover
        have hw := h.overwrites hin hsmall hsrc hover
        exact Option.some.inj (Option.some.inj (hw.symm.trans hv))
      · refine ⟨newValueId num, holderOf_isSome.1 (hin.holders _ hneeds), v, ?_⟩
        exact ⟨h.new_given hin hv hneeds, num, paramNameToInt_new hi, rfl⟩
      · exact hholder
    rw [hx, hvals]
    rfl
  · intro hnot
    have hframe : vals₃ (oldValueId num) = vals₂ (oldValueId num) := by
      apply overwriteOldValues_frame hoverwrite
      intro src hsrc w hover
      exact hnot w (h.overwrites hin hsmall hsrc hover)
    obtain ⟨v, hrow, hv⟩ := setOldValues_row h.old List.nodup_range (List.mem_range.2 hnum) hholder
    rw [hx, hframe, hv]
    exact hrow

theorem SetDone.params_kept {vals₁ vals₂ : HolderValues V}
    (h : SetDone env ctx s upd modifSet vals values done vals₁ vals₂)
    (htakes : TakesAll env modifSet) : done.params ≠ none := by
  obtain ⟨haccepts, params, hparams, htake⟩ := htakes
  obtain ⟨vals₃, hoverwrite⟩ := overwriteOldValues_accepted haccepts modifSet
    (modifSet.holders.map ParamHolder.id) vals₂
  obtain ⟨given, hgiven⟩ := selectValues_accepted env vals₃ htake
  rw [h.params, selectParamsOf, hparams]
  dsimp only
  rw [hoverwrite, Option.bind_some, hgiven]
  exact Option.some_ne_none _

theorem InUse.withInsStmts {mtype : ModType} (hin : InUse s mtype stmt modifSet)
    (cache : List Bool → Option ModStatement) :
    InUse { s with insStmts := cache } mtype stmt modifSet :=
  ⟨hin.installed, hin.set, hin.params, hin.holders⟩

theorem dataSelectAppendValues_done (hin : InUse s .insQuery ins modifSet)
    (h : dataSelectAppendValues env ctx s vals values = .ok (.ok stmt, s')) :
    ∃ s₁ vals₁, InUse s₁ .insQuery ins modifSet ∧ (∃ i v, Given values i v) ∧
      setNewValues env s₁ .insQuery modifSet 0 values vals = some vals₁ ∧
      env.executes stmt (vals₁.of modifSet) = true ∧
      (s.insStmts (givenColumns values) = some stmt ∨
        s.insStmts (givenColumns values) = none ∧
          computeSingleInsertStmt ins (givenColumns values) = .ok stmt) := by
  unfold dataSelectAppendValues at h
  split at h
  · cases h
  split at h
  · cases h
  rw [hin.installed] at h
  dsimp only at h
  split at h
  · cases h
  split at h
  · cases h
  rename_i hsome
  split at h
  · cases h
  rename_i stmt' insStmts hcached
  rw [hin.set] at h
  dsimp only at h
  split at h
  · cases h
  rename_i vals₁ hnew
  split at h
  · cases h
  rename_i hexecuted
  obtain rfl := Except.ok.inj (Prod.mk.inj (Except.ok.inj h)).1
  have hset := hin.set
  exact ⟨{ s with insStmts := insStmts }, vals₁, hin.withInsStmts insStmts, given_of_any hsome,
    by rw [← hnew, hset], eq_true_of_ne_false hexecuted, cached_cases hcached⟩

theorem dataSelectAppendValues_succeeds {vals₁ : HolderValues V} {i : Nat} {v : V}
    {cache' : List Bool → Option ModStatement} (hlocked : s.safelyLocked = false)
    (haccess : ctx.accessRandom = true) (hrows : env.nRowsKnown = true)
    (hin : InUse s .insQuery ins modifSet) (hv : Given values i v)
    (hcached : cached s.insStmts (computeSingleInsertStmt ins) (givenColumns values) =
      .ok (stmt, cache'))
    (hnew : setNewValues env { s with insStmts := cache' } .insQuery modifSet 0 values vals =
      some vals₁)
    (hexecutes : env.executes stmt (vals₁.of modifSet) = true) :
    ∃ s', dataSelectAppendValues env ctx s vals values = .ok (.ok stmt, s') := by
  have hlocked' : ¬ s.safelyLocked = true := by simp [hlocked]
  have haccess' : ¬ ctx.accessRandom = false := by simp [haccess]
  have hrows' : ¬ env.nRowsKnown = false := by simp [hrows]
  have hexecutes' : ¬ env.executes stmt (vals₁.of modifSet) = false := by simp [hexecutes]
  refine ⟨{ s with insStmts := cache' }, ?_⟩
  unfold dataSelectAppendValues
  rw [if_neg hlocked', if_neg haccess', hin.installed]
  dsimp only
  rw [if_neg hrows', if_neg (any_of_given hv)]
  have hcached' : cached s.insStmts (computeSingleInsertStmt ins) (values.map Option.isSome) =
    .ok (stmt, cache') := hcached
  rw [hcached']
  dsimp only
  rw [hin.set] at hnew ⊢
  dsimp only
  rw [hnew]
  dsimp only
  rw [if_neg hexecutes']

end Outcomes

section Holding

variable {V : Type} {values : List (Option V)} {upd ins stmt reduced : ModStatement}
variable {kept : Option ModStatement}

theorem updateContract_of_holds (h : UpdateHolds upd kept values) :
    UpdateContract upd kept values := by
  intro ctx s s' modifSet env vals done hsmall hin hkept hcall
  obtain ⟨vals₁, vals₂, hdone⟩ := dataSelectSetValues_done hin hcall
  have hexecuted : kept = some done.stmt ∨ kept = none ∧
      Driven (givenColumns values) upd.fieldsList upd.exprList ∧
      done.stmt = upd.reducedUpdate (givenColumns values) := by
    rw [← hkept]
    obtain hcache | ⟨hcache, hcompute⟩ := hdone.stmt
    · exact .inl hcache
    · exact .inr ⟨hcache, computeSingleUpdateStmt_ok.1 hcompute⟩
  have hvalid := env.executes_given _ _ hdone.executed
  have hsupplied : ∀ spec ∈ done.stmt.paramSpecs, ∃ id, spec.name = some id ∧
      SuppliedByUpdate upd values id := by
    intro spec hspec
    obtain ⟨id, x, hname, hx⟩ := hvalid spec hspec
    refine ⟨id, hname, ?_⟩
    obtain hnone | ⟨i, hi, hold⟩ | ⟨i, hv, hnew, hneeds⟩ := hdone.valid_cases hin hx
    · exact .inr (.inr hnone)
    · exact .inr (.inl ⟨i, by omega, hold⟩)
    · exact .inl ⟨i, x, hv, hnew, hneeds⟩
  have hfew : values.length < 2 ^ 31 := Nat.lt_of_le_of_lt hdone.few hsmall
  obtain ⟨hstmt, hcovered⟩ := h hfew hdone.given done.stmt hexecuted hsupplied
  have heach : ∀ i v, Given values i v → upd.Needs (newValueId i) := by
    intro i v hv
    obtain ⟨pid, hneeds, hnumber⟩ := hcovered i v hv
    obtain ⟨spec, hspec, hname⟩ := reducedUpdate_needs hneeds hnumber hv
    rw [← hstmt] at hspec
    obtain ⟨id, x, hid, hx⟩ := hvalid spec hspec
    obtain rfl : pid = id := Option.some.inj (hname.symm.trans hid)
    obtain hnone | ⟨j, hj, hold⟩ | ⟨j, hv', rfl, hneeds'⟩ := hdone.valid_cases hin hx
    · rw [hnone] at hnumber
      cases hnumber
    · exact absurd hold (paramNameToInt_plus hnumber _)
    · have hj : j < 2 ^ 31 := Nat.lt_trans (given_lt hv') hfew
      rw [paramNameToInt_new hj] at hnumber
      have hij : (j : Int) = i := (Prod.mk.inj (Option.some.inj hnumber)).1
      rw [← Int.ofNat_inj.1 hij]
      exact hneeds'
  refine ⟨hcovered, hstmt, ?_, hdone.params_kept⟩
  intro params hparams
  exact hdone.rereadsRow hin hsmall heach hparams

def ModStatement.names (stmt : ModStatement) : List String := stmt.paramSpecs.filterMap
    ParamSpec.name

theorem mem_names {id : String} : id ∈ stmt.names ↔ stmt.Needs id := List.mem_filterMap

def setFor (stmt e : ModStatement) : ParamSet :=
  ⟨0, (stmt.names ++ e.names).map fun id => ⟨id, none⟩⟩

def internalsFor (mtype : ModType) (stmt e : ModStatement) (kept : Option ModStatement) :
    ModifInternals where
  modifSet := some (setFor stmt e)
  modifParams := fun _ => stmt.names.map fun id => (0, id)
  modifStmts := fun t => if t = mtype then some stmt else none
  updStmts := fun _ => kept
  insStmts := fun _ => kept

theorem setFor_holder {e : ModStatement} {id : String} (h : stmt.Needs id ∨ e.Needs id) :
    (holderOf (setFor stmt e) id).isSome = true := by
  rw [holderOf_isSome]
  have hmem : id ∈ stmt.names ++ e.names := List.mem_append.2 (h.imp mem_names.2 mem_names.2)
  simpa [setFor] using hmem

theorem internalsFor_inUse (mtype : ModType) (stmt e : ModStatement) (kept : Option ModStatement) :
    InUse (internalsFor mtype stmt e kept) mtype stmt (setFor stmt e) where
  installed := if_pos rfl
  set := rfl
  params := by
    intro id
    rw [← mem_names]
    simp [internalsFor, setFor]
  holders := fun _ hneeds => setFor_holder (.inl hneeds)

def willingConnection (v : V) : Surroundings V where
  null := v
  accepts := fun _ _ => true
  rowFound := true
  rowValue := fun _ => some v
  nRowsKnown := true
  executes := fun stmt vals => stmt.paramSpecs.all fun spec =>
    match spec.name with
    | some name => (vals name).isSome
    | none => false
  executes_given := by
    intro stmt vals h spec hspec
    have hone := List.all_eq_true.1 h spec hspec
    cases hname : spec.name with
    | none =>
      rw [hname] at hone
      cases hone
    | some name =>
      rw [hname] at hone
      obtain ⟨v, hv⟩ := Option.isSome_iff_exists.1 hone
      exact ⟨name, v, rfl, hv⟩
  selectParams := none

theorem willingConnection_executes {v : V} {vals : HolderValues V}
    (h : ∀ spec ∈ stmt.paramSpecs, ∃ id x, spec.name = some id ∧ vals id = some x) :
    (willingConnection v).executes stmt vals = true := by
  refine List.all_eq_true.2 fun spec hspec => ?_
  obtain ⟨id, x, hname, hx⟩ := h spec hspec
  simp [hname, hx]

theorem cached_of {cache : List Bool → Option ModStatement}
    {compute : List Bool → Except ModError ModStatement} {bv : List Bool}
    (h : cache bv = some stmt ∨ cache bv = none ∧ compute bv = .ok stmt) :
    ∃ cache', cached cache compute bv = .ok (stmt, cache') := by
  unfold cached
  obtain hcache | ⟨hcache, hcompute⟩ := h
  · rw [hcache]
    exact ⟨_, rfl⟩
  · rw [hcache, hcompute]
    exact ⟨_, rfl⟩

theorem invalidated_plain {vals : HolderValues V} {id : String} (h : paramNameToInt id = none) :
    vals.invalidated id = vals id := by
  rw [HolderValues.invalidated, h]
  rfl

theorem updateHolds_of_contract (h : UpdateContract upd kept values) :
    UpdateHolds upd kept values := by
  intro hfew hgiven e hexecuted hsupplied
  obtain ⟨i₀, v₀, hv₀⟩ := hgiven
  obtain ⟨n, hlt, hmax, hle⟩ : ∃ n, n < 2 ^ 31 ∧ (∀ i, i < 2 ^ 31 - 1 → i < n) ∧
      ∀ i, i < 2 ^ 31 → i ≤ n := ⟨2 ^ 31 - 1, by omega, fun i hi => hi, fun i hi => by omega⟩
  have hin := internalsFor_inUse .updQuery upd e kept
  obtain ⟨vals₁, hnew⟩ := setNewValues_accepted (fun _ _ => rfl : ∀ id v,
      (willingConnection v₀).accepts id v = true) (internalsFor .updQuery upd e kept) .updQuery
    (setFor upd e) 0 values (HolderValues.invalidated fun _ => some v₀)
  obtain ⟨vals₂, hold⟩ := setOldValues_accepted (fun _ _ => rfl : ∀ id v,
      (willingConnection v₀).accepts id v = true) (fun _ => Option.some_ne_none v₀)
    (setFor upd e) (List.range n) vals₁
  obtain ⟨cache', hcached⟩ : ∃ cache', cached (fun _ => kept) (computeSingleUpdateStmt upd)
      (givenColumns values) = .ok (e, cache') := by
    apply cached_of
    obtain hkept | ⟨hkept, hdriven⟩ := hexecuted
    · exact .inl hkept
    · exact .inr ⟨hkept, computeSingleUpdateStmt_ok.2 hdriven⟩
  have hexecutes : (willingConnection v₀).executes e (vals₂.of (setFor upd e)) = true := by
    apply willingConnection_executes
    intro spec hspec
    obtain ⟨id, hname, hid⟩ := hsupplied spec hspec
    have hholder : (holderOf (setFor upd e) id).isSome = true :=
      setFor_holder (.inr ⟨spec, hspec, hname⟩)
    refine ⟨id, ?_⟩
    rw [HolderValues.of, if_pos hholder]
    by_cases hcolumn : ∃ i ∈ List.range n, id = oldValueId i
    · obtain ⟨i, hi, rfl⟩ := hcolumn
      obtain ⟨x, -, hx⟩ := setOldValues_row hold List.nodup_range hi hholder
      exact ⟨x, hname, hx⟩
    · rw [setOldValues_frame hold fun i hi heq => hcolumn ⟨i, hi, heq⟩]
      obtain ⟨i, v, hv, rfl, hneeds⟩ | ⟨i, hi, rfl⟩ | hplain := hid
      · have hptr : holderOf (setFor upd e) (newValueId (0 + i)) =
            some ((setFor upd e).generation, newValueId i) := by
          rw [Nat.zero_add]
          exact holderOf_some hholder
        have hvalue := setNewValues_given hnew hv hptr
        rw [Nat.zero_add, if_pos ((hin.params _).2 hneeds)] at hvalue
        exact ⟨v, hname, hvalue⟩
      · exact absurd ⟨i, List.mem_range.2 (hmax i hi), rfl⟩ hcolumn
      · refine ⟨v₀, hname, ?_⟩
        rw [setNewValues_untouched hnew, invalidated_plain hplain]
        intro i v hv heq
        have hi : i < 2 ^ 31 := Nat.lt_trans (given_lt hv) hfew
        rw [heq, paramNameToInt_new hi] at hplain
        cases hplain
  obtain ⟨s', hcall⟩ := @dataSelectSetValues_succeeds V (willingConnection v₀) { nColumns := n }
    (internalsFor .updQuery upd e kept) (setFor upd e) (fun _ => some v₀) values upd e vals₁ vals₂
    i₀ v₀ cache' rfl rfl hin (hle _ hfew) hv₀ hnew rfl hcached hold hexecutes
  obtain ⟨hcovered, hstmt, -⟩ := h { nColumns := n } (internalsFor .updQuery upd e kept) s'
    (setFor upd e) (willingConnection v₀) (fun _ => some v₀) ⟨e, none⟩ hlt hin rfl hcall
  exact ⟨hstmt, hcovered⟩

theorem insertContract_of_holds (h : InsertHolds ins kept values) :
    InsertContract ins kept values := by
  intro ctx s s' modifSet env vals stmt hin hkept hcall
  obtain ⟨s₁, vals₁, hin₁, hgiven, hnew, hexecuted, hstmt⟩ := dataSelectAppendValues_done hin hcall
  have hexecuted' : kept = some stmt ∨ kept = none ∧
      Driven (givenColumns values) ins.fieldsList (ins.valuesList.headD []) ∧
      stmt = ins.reducedInsert (givenColumns values) := by
    rw [← hkept]
    obtain hcache | ⟨hcache, hcompute⟩ := hstmt
    · exact .inl hcache
    · exact .inr ⟨hcache, computeSingleInsertStmt_ok.1 hcompute⟩
  have hsupplied : ∀ spec ∈ stmt.paramSpecs, ∃ id, spec.name = some id ∧
      SuppliedByInsert ins values id := by
    intro spec hspec
    obtain ⟨id, x, hname, hx⟩ := env.executes_given _ _ hexecuted spec hspec
    refine ⟨id, hname, ?_⟩
    intro i v hv hid
    subst hid
    obtain ⟨hholder, hx⟩ := of_some hx
    have hptr : holderOf modifSet (newValueId (0 + i)) =
        some (modifSet.generation, newValueId i) := by
      rw [Nat.zero_add]
      exact holderOf_some hholder
    have hvalue := setNewValues_given hnew hv hptr
    rw [Nat.zero_add, hx] at hvalue
    by_cases hmem : (modifSet.generation, newValueId i) ∈ s₁.modifParams .insQuery
    · exact (hin₁.params _).1 hmem
    · rw [if_neg hmem] at hvalue
      cases hvalue
  obtain ⟨hreduced, hcovered⟩ := h hgiven stmt hexecuted' hsupplied
  exact ⟨hcovered, hreduced⟩

theorem insertHolds_of_contract (h : InsertContract ins kept values) :
    InsertHolds ins kept values := by
  intro hgiven e hexecuted hsupplied
  obtain ⟨i₀, v₀, hv₀⟩ := hgiven
  have hin := internalsFor_inUse .insQuery ins e kept
  obtain ⟨cache', hcached⟩ : ∃ cache', cached (fun _ => kept) (computeSingleInsertStmt ins)
      (givenColumns values) = .ok (e, cache') := by
    apply cached_of
    obtain hkept | ⟨hkept, hdriven⟩ := hexecuted
    · exact .inl hkept
    · exact .inr ⟨hkept, computeSingleInsertStmt_ok.2 hdriven⟩
  obtain ⟨vals₁, hnew⟩ := setNewValues_accepted (fun _ _ => rfl : ∀ id v,
      (willingConnection v₀).accepts id v = true)
    { internalsFor .insQuery ins e kept with insStmts := cache' } .insQuery
    (setFor ins e) 0 values (fun _ => some v₀)
  have hexecutes : (willingConnection v₀).executes e (vals₁.of (setFor ins e)) = true := by
    apply willingConnection_executes
    intro spec hspec
    obtain ⟨id, hname, hid⟩ := hsupplied spec hspec
    have hholder : (holderOf (setFor ins e) id).isSome = true :=
      setFor_holder (.inr ⟨spec, hspec, hname⟩)
    refine ⟨id, ?_⟩
    rw [HolderValues.of, if_pos hholder]
    by_cases hcolumn : ∃ i v, Given values i v ∧ id = newValueId i
    · obtain ⟨i, v, hv, rfl⟩ := hcolumn
      have hptr : holderOf (setFor ins e) (newValueId (0 + i)) =
          some ((setFor ins e).generation, newValueId i) := by
        rw [Nat.zero_add]
        exact holderOf_some hholder
      have hvalue := setNewValues_given hnew hv hptr
      have hmem := ((hin.withInsStmts cache').params _).2 (hid i v hv rfl)
      rw [Nat.zero_add, if_pos hmem] at hvalue
      exact ⟨v, hname, hvalue⟩
    · refine ⟨v₀, hname, ?_⟩
      exact setNewValues_untouched hnew fun i v hv heq => hcolumn ⟨i, v, hv, heq⟩
  obtain ⟨s', hcall⟩ := @dataSelectAppendValues_succeeds V (willingConnection v₀) { nColumns := 0 }
    (internalsFor .insQuery ins e kept) (setFor ins e) (fun _ => some v₀) values ins e vals₁
    i₀ v₀ cache' rfl rfl rfl hin hv₀ hcached hnew hexecutes
  obtain ⟨hcovered, hstmt⟩ := h { nColumns := 0 } (internalsFor .insQuery ins e kept) s'
    (setFor ins e) (willingConnection v₀) (fun _ => some v₀) e hin rfl hcall
  exact ⟨hstmt, hcovered⟩

end Holding

/-- The contract of the two calls holds exactly where a statement which can be executed is the reduced
one, with a parameter for each value. -/
theorem singleStatement_contract {V : Type} (stmt : ModStatement) (kept : Option ModStatement)
    (values : List (Option V)) :
    (UpdateContract stmt kept values ↔ UpdateHolds stmt kept values) ∧
      (InsertContract stmt kept values ↔ InsertHolds stmt kept values) :=
  ⟨⟨updateHolds_of_contract, updateContract_of_holds⟩,
    ⟨insertHolds_of_contract, insertContract_of_holds⟩⟩

/-- `UPDATE t SET a=##+0, b=1 WHERE a=##-0`: only the first column can be given a value. -/
def updateFirst : ModStatement where
  stmtType := .update
  table := "t"
  fieldsList := ["a", "b"]
  exprList := [{ paramSpec := some ⟨some "+0", none⟩ }, { text := "1" }]
  cond := some ⟨"a=##-0", [⟨some "-0", none⟩], true⟩

/-- Its second value is not written, and the call succeeds. -/
theorem secondValue_lost : ¬ UpdateContract updateFirst none [some 1, some 2] := by
  intro h
  have hholds := updateHolds_of_contract h (by decide) ⟨0, 1, rfl⟩
  have hdriven : Driven (givenColumns [some 1, some 2]) updateFirst.fieldsList
      updateFirst.exprList :=
    ⟨("a", { paramSpec := some ⟨some "+0", none⟩ }), List.mem_cons_self .., by decide⟩
  have hneeds : updateFirst.Needs "+0" :=
    ⟨⟨some "+0", none⟩, List.mem_cons_self .., rfl⟩
  obtain ⟨-, hcovered⟩ := hholds _ (.inr ⟨rfl, hdriven, rfl⟩) (by
    intro spec hspec
    have hmem : spec ∈ [⟨some "+0", none⟩, ⟨some "-0", none⟩] := hspec
    simp only [List.mem_cons, List.not_mem_nil, or_false] at hmem
    obtain rfl | rfl := hmem
    · exact ⟨"+0", rfl, .inl ⟨0, 1, rfl, rfl, hneeds⟩⟩
    · exact ⟨"-0", rfl, .inr (.inl ⟨0, by decide, rfl⟩)⟩)
  obtain ⟨id, ⟨spec, hspec, hname⟩, hnumber⟩ := hcovered 1 2 rfl
  have hmem : spec ∈ [⟨some "+0", none⟩, ⟨some "-0", none⟩] := hspec
  simp only [List.mem_cons, List.not_mem_nil, or_false] at hmem
  obtain rfl | rfl := hmem
  · obtain rfl : "+0" = id := Option.some.inj hname
    exact absurd hnumber (by decide)
  · obtain rfl : "-0" = id := Option.some.inj hname
    exact absurd hnumber (by decide)

end LibGda
