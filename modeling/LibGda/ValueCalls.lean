import LibGda.InsertMapping

/-! The values which `gda_data_select_set_values` and `gda_data_select_append_values` give through
the holders of `modif_set`, and the parameters of the SELECT which reads the row again. -/

namespace LibGda

open ModifInternals

/-- The values of the holders of `modif_set`, by id; an invalid holder has none. -/
abbrev HolderValues (V : Type) := String → Option V

structure Surroundings (V : Type) where
  null : V
  /-- the values which the holders of `modif_set` take -/
  accepts : String → V → Bool
  rowFound : Bool
  rowValue : Nat → Option V
  nRowsKnown : Bool
  /-- `gda_connection_statement_execute_non_select` -/
  executes : ModStatement → HolderValues V → Bool
  /-- "Missing parameter '%s' to execute query", "Parameter '%s' is invalid" -/
  executes_given : ∀ stmt vals, executes stmt vals = true → ∀ spec ∈ stmt.paramSpecs,
    ∃ name v, spec.name = some name ∧ vals name = some v
  /-- the parameters of the one-row SELECT, if it has some, and the values they take -/
  selectParams : Option (List (String × (V → Bool)))

structure Updated (V : Type) where
  stmt : ModStatement
  params : Option (List (String × V))

section Model

variable {V : Type}

def HolderValues.of (vals : HolderValues V) (modifSet : ParamSet) : HolderValues V := fun id =>
  if (holderOf modifSet id).isSome then vals id else none

def HolderValues.invalidated (vals : HolderValues V) : HolderValues V := fun id =>
  if (paramNameToInt id).isSome then none else vals id

def HolderValues.forceInvalid (vals : HolderValues V) (id : String) : HolderValues V := fun id' =>
  if id' = id then none else vals id'

def HolderValues.set (vals : HolderValues V) (env : Surroundings V) (id : String) (v : V) :
    Option (HolderValues V) :=
  if env.accepts id v then some fun id' => if id' = id then some v else vals id' else none

variable (env : Surroundings V)

local instance lawfulBEq_holderPtr : LawfulBEq HolderPtr := inferInstance

def setNewValues (s : ModifInternals) (mtype : ModType) (modifSet : ParamSet) :
    Nat → List (Option V) → HolderValues V → Option (HolderValues V)
  | _, [], vals => some vals
  | i, none :: values, vals => setNewValues s mtype modifSet (i + 1) values vals
  | i, some v :: values, vals =>
    match holderOf modifSet (newValueId i) with
    | none => setNewValues s mtype modifSet (i + 1) values vals
    | some holder =>
      if holder ∈ s.modifParams mtype then
        (vals.set env (newValueId i) v).bind (setNewValues s mtype modifSet (i + 1) values)
      else setNewValues s mtype modifSet (i + 1) values (vals.forceInvalid (newValueId i))

def setOldValues (modifSet : ParamSet) : List Nat → HolderValues V → Option (HolderValues V)
  | [], vals => some vals
  | i :: columns, vals =>
    if (holderOf modifSet (oldValueId i)).isSome then
      match env.rowValue i with
      | none => none
      | some v => (vals.set env (oldValueId i) v).bind (setOldValues modifSet columns)
    else setOldValues modifSet columns vals

def overwriteOldValues (modifSet : ParamSet) :
    List String → HolderValues V → Option (HolderValues V)
  | [], vals => some vals
  | id :: ids, vals =>
    match vals id, paramNameToInt id with
    | some v, some (res, false) =>
      if (holderOf modifSet ("-" ++ toString res)).isSome then
        (vals.set env ("-" ++ toString res) v).bind (overwriteOldValues modifSet ids)
      else overwriteOldValues modifSet ids vals
    | _, _ => overwriteOldValues modifSet ids vals

/-- The values of the SELECT's parameters, taken from `modif_set`; an invalid holder gives NULL. -/
def selectValues (modifSet : ParamSet) (vals : HolderValues V) :
    List (String × (V → Bool)) → Option (List (String × V))
  | [] => some []
  | (id, takes) :: params =>
    if (holderOf modifSet id).isSome ∧ takes ((vals id).getD env.null) = true then
      (selectValues modifSet vals params).map ((id, (vals id).getD env.null) :: ·)
    else none

variable (ctx : SelectContext) (s : ModifInternals)

def selectParamsOf (modifSet : ParamSet) (vals : HolderValues V) : Option (List (String × V)) :=
  match env.selectParams with
  | none => none
  | some params =>
    (overwriteOldValues env modifSet (modifSet.holders.map ParamHolder.id) vals).bind fun vals =>
      selectValues env modifSet vals params

/-- `vector_set_value_at` without an iterator, behind its checks. The values which are left in
`modif_set` are not followed. -/
def vectorSetValues (upd : ModStatement) (modifSet : ParamSet) (vals : HolderValues V)
    (bv : List Bool) : Except ModError (Option (Updated V)) × ModifInternals :=
  if env.rowFound = false then (.error .notExecuted, s)
  else
    match cached s.updStmts (computeSingleUpdateStmt upd) bv with
    | .error error => (.error error, s)
    | .ok (stmt, updStmts) =>
      let s := { s with updStmts := updStmts }
      match setOldValues env modifSet (List.range ctx.nColumns) vals with
      | none => (.error .notExecuted, s)
      | some vals =>
        if env.executes stmt (vals.of modifSet) = false then (.error .notExecuted, s)
        else (.ok (some ⟨stmt, selectParamsOf env modifSet vals⟩), s)

def dataSelectSetValues (vals : HolderValues V) (values : List (Option V)) :
    Except ModFault (Except ModError (Option (Updated V)) × ModifInternals) :=
  if s.safelyLocked = true then .ok (.error .safetyLocked, s)
  else if ctx.accessRandom = false then .ok (.error .randomAccessOnly, s)
  else
    match s.modifStmts .updQuery with
    | none => .ok (.error .noUpdateStatement, s)
    | some upd =>
      if ctx.nColumns < values.length then .ok (.error (.tooManyValues ctx.nColumns), s)
      else if (values.map Option.isSome).any id = false then .ok (.ok none, s)
      else
        match s.modifSet with
        | none => .error .nullModifSet
        | some modifSet =>
          match setNewValues env s .updQuery modifSet 0 values vals.invalidated with
          | none => .ok (.error .notExecuted, s)
          | some vals =>
            .ok (vectorSetValues env ctx s upd modifSet vals (values.map Option.isSome))

/-- `gda_data_select_append_values`: the statement which inserts the row. -/
def dataSelectAppendValues (vals : HolderValues V) (values : List (Option V)) :
    Except ModFault (Except ModError ModStatement × ModifInternals) :=
  if s.safelyLocked = true then .ok (.error .safetyLocked, s)
  else if ctx.accessRandom = false then .ok (.error .randomAccessOnly, s)
  else
    match s.modifStmts .insQuery with
    | none => .ok (.error .noInsertStatement, s)
    | some ins =>
      if env.nRowsKnown = false then .ok (.error .unknownNbRows, s)
      else if (values.map Option.isSome).any id = false then .ok (.error .missingValues, s)
      else
        match cached s.insStmts (computeSingleInsertStmt ins) (values.map Option.isSome) with
        | .error error => .ok (.error error, s)
        | .ok (stmt, insStmts) =>
          let s := { s with insStmts := insStmts }
          match s.modifSet with
          | none => .error .nullModifSet
          | some modifSet =>
            match setNewValues env s .insQuery modifSet 0 values vals with
            | none => .ok (.error .notExecuted, s)
            | some vals =>
              if env.executes stmt (vals.of modifSet) = false then .ok (.error .notExecuted, s)
              else .ok (.ok stmt, s)

end Model

section Values

variable {V : Type} {env : Surroundings V} {s : ModifInternals} {mtype : ModType}
variable {modifSet : ParamSet} {i j : Nat} {v : V} {values : List (Option V)} {id : String}
variable {vals vals' : HolderValues V}

theorem newValueId_inj (h : newValueId i = newValueId j) : i = j := by
  have hi := paramNumber_digits (.inr rfl) (newValueId_toList i)
  rw [h, paramNumber_digits (.inr rfl) (newValueId_toList j)] at hi
  exact (Prod.mk.inj (Option.some.inj hi)).1.symm

theorem newValueId_ne_minus (i : Nat) (text : String) : newValueId i ≠ "-" ++ text := by
  intro h
  have hlist := congrArg String.toList h
  rw [newValueId_toList, String.toList_append] at hlist
  have hhead : '+' = '-' := (List.cons.inj hlist).1
  exact absurd hhead (by decide)

theorem paramNameToInt_plus {n : Int} (h : paramNameToInt id = some (n, false)) (text : String) :
    id ≠ "-" ++ text := by
  intro heq
  rw [paramNameToInt, Option.map_eq_some_iff] at h
  obtain ⟨⟨m, old⟩, hm, hpair⟩ := h
  have hold : old = false := (Prod.mk.inj hpair).2
  have hlist : id.toList = '-' :: text.toList := by
    rw [heq, String.toList_append]
    rfl
  rw [paramNumber, hlist] at hm
  dsimp only at hm
  split at hm
  · have hsign := (Prod.mk.inj (Option.some.inj hm)).2
    rw [hold] at hsign
    exact absurd hsign (by decide)
  · cases hm

theorem HolderValues.set_some {vals₁ : HolderValues V} (h : vals.set env id v = some vals₁) :
    env.accepts id v = true ∧ vals₁ = fun id' => if id' = id then some v else vals id' := by
  unfold HolderValues.set at h
  split at h
  · exact ⟨‹_›, (Option.some.inj h).symm⟩
  · cases h

theorem setNewValues_cons
    (h : setNewValues env s mtype modifSet i (some v :: values) vals = some vals') :
    ∃ vals₁, setNewValues env s mtype modifSet (i + 1) values vals₁ = some vals' ∧
      (∀ id, id ≠ newValueId i → vals₁ id = vals id) ∧
      (∀ holder, holderOf modifSet (newValueId i) = some holder →
        vals₁ (newValueId i) = if holder ∈ s.modifParams mtype then some v else none) := by
  rw [setNewValues] at h
  cases hholder : holderOf modifSet (newValueId i) with
  | none =>
    rw [hholder] at h
    exact ⟨vals, h, fun _ _ => rfl, fun _ hsome => nomatch hsome⟩
  | some holder =>
    rw [hholder] at h
    dsimp only at h
    by_cases hmem : holder ∈ s.modifParams mtype
    · rw [if_pos hmem, Option.bind_eq_some_iff] at h
      obtain ⟨vals₁, hset, h⟩ := h
      obtain ⟨-, rfl⟩ := HolderValues.set_some hset
      refine ⟨_, h, fun id hid => if_neg hid, fun holder' hsome => ?_⟩
      rw [← Option.some.inj hsome, if_pos hmem]
      exact if_pos rfl
    · rw [if_neg hmem] at h
      refine ⟨_, h, fun id hid => if_neg hid, fun holder' hsome => ?_⟩
      rw [← Option.some.inj hsome, if_neg hmem]
      exact if_pos rfl

theorem setNewValues_frame (h : setNewValues env s mtype modifSet i values vals = some vals')
    (hid : ∀ j v, values[j]? = some (some v) → id ≠ newValueId (i + j)) : vals' id = vals id := by
  induction values generalizing i vals with
  | nil =>
    cases h
    rfl
  | cons value values ih =>
    have hrest : ∀ j v, values[j]? = some (some v) → id ≠ newValueId (i + 1 + j) := by
      intro j v hj
      have hne := hid (j + 1) v hj
      rwa [Nat.add_comm j, ← Nat.add_assoc] at hne
    cases value with
    | none => exact ih h hrest
    | some v =>
      obtain ⟨vals₁, hstep, hframe, -⟩ := setNewValues_cons h
      rw [ih hstep hrest]
      exact hframe id (hid 0 v rfl)

theorem setNewValues_given (h : setNewValues env s mtype modifSet i values vals = some vals')
    (hv : values[j]? = some (some v)) {holder : HolderPtr}
    (hholder : holderOf modifSet (newValueId (i + j)) = some holder) :
    vals' (newValueId (i + j)) = if holder ∈ s.modifParams mtype then some v else none := by
  induction values generalizing i j vals with
  | nil => cases hv
  | cons value values ih =>
    cases j with
    | zero =>
      have hvalue : value = some v := by simpa using hv
      subst hvalue
      obtain ⟨vals₁, hstep, -, hgiven⟩ := setNewValues_cons h
      rw [Nat.add_zero] at hholder ⊢
      rw [setNewValues_frame hstep, hgiven holder hholder]
      intro k w _ heq
      have hk := newValueId_inj heq
      omega
    | succ j =>
      have hindex : i + (j + 1) = i + 1 + j := by omega
      rw [hindex] at hholder ⊢
      cases value with
      | none => exact ih h hv hholder
      | some w =>
        obtain ⟨vals₁, hstep, -⟩ := setNewValues_cons h
        exact ih hstep hv hholder

theorem setNewValues_accepted (haccepts : ∀ id v, env.accepts id v = true) (s : ModifInternals)
    (mtype : ModType) (modifSet : ParamSet) (i : Nat) (values : List (Option V))
    (vals : HolderValues V) :
    ∃ vals', setNewValues env s mtype modifSet i values vals = some vals' := by
  induction values generalizing i vals with
  | nil => exact ⟨vals, rfl⟩
  | cons value values ih =>
    cases value with
    | none => exact ih _ _
    | some v =>
      rw [setNewValues]
      split
      · exact ih _ _
      · split
        · rw [HolderValues.set, if_pos (haccepts _ _), Option.bind_some]
          exact ih _ _
        · exact ih _ _

theorem setOldValues_cons {columns : List Nat}
    (h : setOldValues env modifSet (i :: columns) vals = some vals') :
    ∃ vals₁, setOldValues env modifSet columns vals₁ = some vals' ∧
      (∀ id, id ≠ oldValueId i → vals₁ id = vals id) ∧
      ((holderOf modifSet (oldValueId i)).isSome = true →
        ∃ v, env.rowValue i = some v ∧ vals₁ (oldValueId i) = some v) := by
  rw [setOldValues] at h
  by_cases hholder : (holderOf modifSet (oldValueId i)).isSome = true
  · rw [if_pos hholder] at h
    cases hvalue : env.rowValue i with
    | none =>
      rw [hvalue] at h
      cases h
    | some v =>
      rw [hvalue] at h
      dsimp only at h
      rw [Option.bind_eq_some_iff] at h
      obtain ⟨vals₁, hset, h⟩ := h
      obtain ⟨-, rfl⟩ := HolderValues.set_some hset
      exact ⟨_, h, fun id hid => if_neg hid, fun _ => ⟨v, rfl, if_pos rfl⟩⟩
  · rw [if_neg hholder] at h
    exact ⟨vals, h, fun _ _ => rfl, fun hsome => absurd hsome hholder⟩

theorem setOldValues_frame {columns : List Nat}
    (h : setOldValues env modifSet columns vals = some vals')
    (hid : ∀ i ∈ columns, id ≠ oldValueId i) : vals' id = vals id := by
  induction columns generalizing vals with
  | nil =>
    cases h
    rfl
  | cons i columns ih =>
    obtain ⟨vals₁, hstep, hframe, -⟩ := setOldValues_cons h
    rw [ih hstep fun j hj => hid j (List.mem_cons_of_mem _ hj)]
    exact hframe id (hid i (List.mem_cons_self ..))

theorem setOldValues_row {columns : List Nat}
    (h : setOldValues env modifSet columns vals = some vals') (hnodup : columns.Nodup)
    (hi : i ∈ columns) (hholder : (holderOf modifSet (oldValueId i)).isSome = true) :
    ∃ v, env.rowValue i = some v ∧ vals' (oldValueId i) = some v := by
  induction columns generalizing vals with
  | nil => cases hi
  | cons k columns ih =>
    obtain ⟨vals₁, hstep, -, hgiven⟩ := setOldValues_cons h
    obtain ⟨hnot, hnodup⟩ := List.nodup_cons.1 hnodup
    obtain rfl | hi := List.mem_cons.1 hi
    · obtain ⟨v, hrow, hv⟩ := hgiven hholder
      refine ⟨v, hrow, ?_⟩
      rw [setOldValues_frame hstep, hv]
      intro j hj heq
      rw [oldValueId_inj heq] at hnot
      exact hnot hj
    · exact ih hstep hnodup hi

theorem setOldValues_accepted (haccepts : ∀ id v, env.accepts id v = true)
    (hrow : ∀ i, env.rowValue i ≠ none) (modifSet : ParamSet) (columns : List Nat)
    (vals : HolderValues V) :
    ∃ vals', setOldValues env modifSet columns vals = some vals' := by
  induction columns generalizing vals with
  | nil => exact ⟨vals, rfl⟩
  | cons i columns ih =>
    rw [setOldValues]
    split
    · cases hvalue : env.rowValue i with
      | none => exact absurd hvalue (hrow i)
      | some v =>
        dsimp only
        rw [HolderValues.set, if_pos (haccepts _ _), Option.bind_some]
        exact ih _
    · exact ih _

def Overwrites (vals : HolderValues V) (src id : String) (v : V) : Prop :=
  vals src = some v ∧ ∃ res, paramNameToInt src = some (res, false) ∧ id = "-" ++ toString res

theorem overwrites_frame {vals₁ : HolderValues V} {src : String} {res : Int} {w : V}
    (h : ∀ id, id ≠ "-" ++ toString res → vals₁ id = vals id) :
    Overwrites vals₁ src id w ↔ Overwrites vals src id w := by
  constructor
  · intro hover
    obtain ⟨hvalue, n, hn, hid⟩ := hover
    rw [h src (paramNameToInt_plus hn _)] at hvalue
    exact ⟨hvalue, n, hn, hid⟩
  · intro hover
    obtain ⟨hvalue, n, hn, hid⟩ := hover
    rw [← h src (paramNameToInt_plus hn _)] at hvalue
    exact ⟨hvalue, n, hn, hid⟩

theorem overwriteOldValues_cons {ids : List String} {src : String}
    (h : overwriteOldValues env modifSet (src :: ids) vals = some vals') :
    overwriteOldValues env modifSet ids vals = some vals' ∧
        (∀ id w, Overwrites vals src id w → (holderOf modifSet id).isSome = false) ∨
      ∃ w res vals₁, vals src = some w ∧ paramNameToInt src = some (res, false) ∧
        overwriteOldValues env modifSet ids vals₁ = some vals' ∧
        vals₁ = fun id => if id = "-" ++ toString res then some w else vals id := by
  rw [overwriteOldValues] at h
  split at h
  · rename_i w res hvalue hres
    by_cases hholder : (holderOf modifSet ("-" ++ toString res)).isSome = true
    · rw [if_pos hholder, Option.bind_eq_some_iff] at h
      obtain ⟨vals₁, hset, h⟩ := h
      obtain ⟨-, heq⟩ := HolderValues.set_some hset
      exact .inr ⟨w, res, vals₁, hvalue, hres, h, heq⟩
    · rw [if_neg hholder] at h
      refine .inl ⟨h, ?_⟩
      intro id w' hover
      obtain ⟨-, n, hn, rfl⟩ := hover
      have hnum : n = res := by
        rw [hres] at hn
        exact (Prod.mk.inj (Option.some.inj hn)).1.symm
      rw [hnum]
      exact eq_false_of_ne_true hholder
  · rename_i hno
    refine .inl ⟨h, ?_⟩
    intro id w hover
    obtain ⟨hvalue, n, hn, -⟩ := hover
    exact absurd hn (hno w n hvalue)

theorem overwriteOldValues_frame {ids : List String}
    (h : overwriteOldValues env modifSet ids vals = some vals')
    (hid : ∀ src ∈ ids, ∀ w, ¬ Overwrites vals src id w) : vals' id = vals id := by
  induction ids generalizing vals with
  | nil =>
    cases h
    rfl
  | cons src ids ih =>
    have hrest : ∀ src' ∈ ids, ∀ w, ¬ Overwrites vals src' id w :=
      fun src' hsrc => hid src' (List.mem_cons_of_mem _ hsrc)
    obtain ⟨hstep, -⟩ | ⟨w, res, vals₁, hvalue, hres, hstep, heq⟩ := overwriteOldValues_cons h
    · exact ih hstep hrest
    · have hne : id ≠ "-" ++ toString res := by
        intro hid'
        exact hid src (List.mem_cons_self ..) w ⟨hvalue, res, hres, hid'⟩
      have hframe : ∀ id, id ≠ "-" ++ toString res → vals₁ id = vals id := by
        intro id' hid'
        rw [heq]
        exact if_neg hid'
      rw [ih hstep fun src' hsrc w' => (overwrites_frame hframe).not.2 (hrest src' hsrc w')]
      exact hframe id hne

theorem overwriteOldValues_given {ids : List String}
    (h : overwriteOldValues env modifSet ids vals = some vals')
    (hall : ∀ src ∈ ids, ∀ w, Overwrites vals src id w → w = v)
    (hsome : ∃ src ∈ ids, ∃ w, Overwrites vals src id w)
    (hholder : (holderOf modifSet id).isSome = true) : vals' id = some v := by
  induction ids generalizing vals with
  | nil =>
    obtain ⟨src, hsrc, -⟩ := hsome
    cases hsrc
  | cons src ids ih =>
    have hrest : ∀ src' ∈ ids, ∀ w, Overwrites vals src' id w → w = v :=
      fun src' hsrc => hall src' (List.mem_cons_of_mem _ hsrc)
    obtain ⟨hstep, hno⟩ | ⟨w, res, vals₁, hvalue, hres, hstep, heq⟩ := overwriteOldValues_cons h
    · apply ih hstep hrest
      obtain ⟨src', hsrc, w, hover⟩ := hsome
      obtain rfl | hsrc := List.mem_cons.1 hsrc
      · rw [hno id w hover] at hholder
        cases hholder
      · exact ⟨src', hsrc, w, hover⟩
    · have hframe : ∀ id, id ≠ "-" ++ toString res → vals₁ id = vals id := by
        intro id' hid'
        rw [heq]
        exact if_neg hid'
      have hrest' : ∀ src' ∈ ids, ∀ w, Overwrites vals₁ src' id w → w = v :=
        fun src' hsrc w' hover => hrest src' hsrc w' ((overwrites_frame hframe).1 hover)
      by_cases hlater : ∃ src' ∈ ids, ∃ w, Overwrites vals₁ src' id w
      · exact ih hstep hrest' hlater
      · -- this is the last one which goes to the holder
        have hnone : ∀ src' ∈ ids, ∀ w, ¬ Overwrites vals₁ src' id w :=
          fun src' hsrc w hover => hlater ⟨src', hsrc, w, hover⟩
        rw [overwriteOldValues_frame hstep hnone]
        obtain ⟨src', hsrc, w', hover⟩ := hsome
        obtain rfl | hsrc := List.mem_cons.1 hsrc
        · obtain ⟨hvalue', n, hn, hid⟩ := hover
          have hnum : n = res := by
            rw [hres] at hn
            exact (Prod.mk.inj (Option.some.inj hn)).1.symm
          have hv := hall src' (List.mem_cons_self ..) w ⟨hvalue, n, hnum ▸ hres, hid⟩
          rw [heq, hid, hnum, hv]
          exact if_pos rfl
        · exact absurd ((overwrites_frame hframe).2 hover) (hnone src' hsrc w')

theorem selectValues_mem {params : List (String × (V → Bool))} {given : List (String × V)}
    (h : selectValues env modifSet vals params = some given) :
    ∀ entry ∈ given, (holderOf modifSet entry.1).isSome = true ∧
      entry.2 = (vals entry.1).getD env.null := by
  induction params generalizing given with
  | nil =>
    cases h
    intro entry hentry
    cases hentry
  | cons param params ih =>
    obtain ⟨id, takes⟩ := param
    rw [selectValues] at h
    split at h
    · rename_i hboth
      rw [Option.map_eq_some_iff] at h
      obtain ⟨rest, hrest, rfl⟩ := h
      intro entry hentry
      obtain rfl | hentry := List.mem_cons.1 hentry
      · exact ⟨hboth.1, rfl⟩
      · exact ih hrest entry hentry
    · cases h

theorem overwriteOldValues_accepted (haccepts : ∀ id v, env.accepts id v = true)
    (modifSet : ParamSet) (ids : List String) (vals : HolderValues V) :
    ∃ vals', overwriteOldValues env modifSet ids vals = some vals' := by
  induction ids generalizing vals with
  | nil => exact ⟨vals, rfl⟩
  | cons src ids ih =>
    rw [overwriteOldValues]
    split
    · split
      · rw [HolderValues.set, if_pos (haccepts _ _), Option.bind_some]
        exact ih _
      · exact ih _
    · exact ih _

theorem selectValues_accepted (env : Surroundings V) (vals : HolderValues V)
    {params : List (String × (V → Bool))} (h : ∀ param ∈ params, (holderOf modifSet param.1).isSome
      = true ∧ ∀ v, param.2 v = true) :
    ∃ given, selectValues env modifSet vals params = some given := by
  induction params with
  | nil => exact ⟨[], rfl⟩
  | cons param params ih =>
    obtain ⟨id, takes⟩ := param
    obtain ⟨hholder, htakes⟩ := h (id, takes) (List.mem_cons_self ..)
    obtain ⟨given, hgiven⟩ := ih fun param hmem => h param (List.mem_cons_of_mem _ hmem)
    rw [selectValues, if_pos ⟨hholder, htakes _⟩, hgiven]
    exact ⟨_, rfl⟩

end Values

end LibGda
