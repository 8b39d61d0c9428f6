import Mathlib.Data.List.Basic

/-! `gda_statement_rewrite_for_default_values` on INSERT statements: the parameters which are set to
their default value are removed, or become the keyword DEFAULT. -/

namespace LibGda.DefaultValues

structure ParamSpec where
  name : String
  isParam : Bool
  deriving DecidableEq

structure SqlExpr where
  value : Option String
  paramSpec : Option ParamSpec
  other : Option String
  deriving DecidableEq

structure SelectPart where
  contents : String
  columns : Except String Nat

structure InsertStmt where
  table : Option String
  onConflict : Option String
  fieldsList : List String
  valuesList : List (List SqlExpr)
  select : Option SelectPart

structure GdaHolder where
  id : String
  isDefault : Bool

def getHolder (params : List GdaHolder) (name : String) : Option GdaHolder :=
  params.find? fun h => h.id = name

def checkValues (fields : Bool) : Nat → List (List SqlExpr) → Except String Unit
  | _, [] => .ok ()
  | nb, row :: rows =>
    if nb = 0 then
      if row.length = 0 then .error "Missing values to insert in INSERT statement"
      else checkValues fields row.length rows
    else if row.length ≠ nb then
      .error (if fields then
          "INSERT statement does not have the same number of target columns and expressions"
        else "VALUES lists must all be the same length in INSERT statement")
    else checkValues fields nb rows

def checkStructure (ins : InsertStmt) : Except String Unit :=
  if ins.table = none then .error "INSERT statement needs a table to insert into"
  else
    match ins.select with
    | some select =>
      if ins.valuesList ≠ [] then
        .error "Can't specify values to insert and SELECT statement in INSERT statement"
      else if ins.fieldsList ≠ [] then
        match select.columns with
        | .error error => .error error
        | .ok len =>
          if len ≠ ins.fieldsList.length then
            .error "INSERT statement does not have the same number of target columns and expressions"
          else .ok ()
      else .ok ()
    | none =>
      if ins.valuesList = [] ∧ ins.fieldsList ≠ [] then
        .error "Missing values to insert in INSERT statement"
      else checkValues (ins.fieldsList ≠ []) ins.fieldsList.length ins.valuesList

section Rewrite

variable (params : List GdaHolder)

def missingParam (name : String) : String :=
  "Missing parameter '" ++ name ++ "' to execute query"

def valueIsDefault (expr : SqlExpr) : Except String Bool :=
  match expr.paramSpec with
  | none => .ok false
  | some spec =>
    if spec.isParam then
      match getHolder params spec.name with
      | none => .error (missingParam spec.name)
      | some h => .ok h.isDefault
    else .ok false

def removeLoop : List String → List SqlExpr → Except String (List String × List SqlExpr)
  | field :: fields, expr :: values => do
    let isDefault ← valueIsDefault params expr
    let (fields, values) ← removeLoop fields values
    if isDefault then .ok (fields, values) else .ok (field :: fields, expr :: values)
  | fields, values => .ok (fields, values)

def stmtRewriteInsertRemove (ins : InsertStmt) : Except String InsertStmt :=
  match ins.valuesList with
  | [] => .ok ins
  | [row] => do
    let (fields, values) ← removeLoop params ins.fieldsList row
    .ok { ins with
      fieldsList := fields
      valuesList := if values = [] then [] else [values] }
  | _ => .error "Not yet implemented"

def defaultKeyword : SqlExpr where
  value := some "DEFAULT"
  paramSpec := none
  other := none

def replaceRow : List SqlExpr → Except String (List SqlExpr)
  | [] => .ok []
  | expr :: values => do
    let isDefault ← valueIsDefault params expr
    let values ← replaceRow values
    .ok ((if isDefault then defaultKeyword else expr) :: values)

def replaceRows : List (List SqlExpr) → Except String (List (List SqlExpr))
  | [] => .ok []
  | row :: rows => do
    let row ← replaceRow params row
    let rows ← replaceRows rows
    .ok (row :: rows)

/-- `stmt_rewrite_insert_default_keyword`; there is no result where the first list of a NULL
`values_list` is read. -/
def stmtRewriteInsertDefaultKeyword (ins : InsertStmt) : Option (Except String InsertStmt) :=
  match replaceRows params ins.valuesList with
  | .error error => some (.error error)
  | .ok [] => none
  | .ok (row :: rows) =>
    some (.ok { ins with valuesList := if row = [] then [] else row :: rows })

/-- `gda_statement_rewrite_for_default_values` on an INSERT statement. -/
def rewriteForDefaultValues (remove : Bool) (ins : InsertStmt) :
    Option (Except String InsertStmt) :=
  match checkStructure ins with
  | .error error => some (.error error)
  | .ok () =>
    if remove then some (stmtRewriteInsertRemove params ins)
    else stmtRewriteInsertDefaultKeyword params ins

end Rewrite

section Meaning

variable (params : List GdaHolder)

def isDefaultParam (expr : SqlExpr) : Bool :=
  match valueIsDefault params expr with
  | .ok isDefault => isDefault
  | .error _ => false

def keptPairs (fields : List String) (row : List SqlExpr) : List (String × SqlExpr) :=
  (fields.zip row).filter fun p => !isDefaultParam params p.2

def RemovedFrom (ins out : InsertStmt) : Prop :=
  match ins.valuesList with
  | [] => out = ins
  | row :: rows =>
    (∀ r ∈ rows, r.map (isDefaultParam params) = row.map (isDefaultParam params)) ∧
      if ins.fieldsList = [] then (∀ expr ∈ row, isDefaultParam params expr = false) ∧ out = ins
      else
        out = { ins with
          fieldsList := (keptPairs params ins.fieldsList row).map Prod.fst
          valuesList :=
            if ∀ expr ∈ row, isDefaultParam params expr = true then []
            else (row :: rows).map fun r => (keptPairs params ins.fieldsList r).map Prod.snd }

def ReplacedIn (ins out : InsertStmt) : Prop :=
  out = { ins with
    valuesList := ins.valuesList.map fun row =>
      row.map fun expr => if isDefaultParam params expr then defaultKeyword else expr }

structure RewrittenTo (remove : Bool) (ins out : InsertStmt) : Prop where
  noDefault : ∀ row ∈ out.valuesList, ∀ expr ∈ row, isDefaultParam params expr = false
  others : if remove then RemovedFrom params ins out else ReplacedIn params ins out
  valid : checkStructure out = .ok ()

def Meets (remove : Bool) (ins : InsertStmt) : Prop :=
  (∃ error, rewriteForDefaultValues params remove ins = some (.error error)) ∨
    ∃ out, rewriteForDefaultValues params remove ins = some (.ok out) ∧
      RewrittenTo params remove ins out

def Rewritable (remove : Bool) (ins : InsertStmt) : Prop :=
  if remove then
    ins.fieldsList = [] → ∀ row, ins.valuesList = [row] →
      ∀ expr ∈ row, isDefaultParam params expr = false
  else ins.valuesList ≠ []

end Meaning

section Valid

variable {params : List GdaHolder} {ins : InsertStmt} {rows : List (List SqlExpr)}
  {row values : List SqlExpr} {fields : List String} {nb : Nat} {withFields : Bool}

theorem checkValues_iff (hnb : nb ≠ 0) :
    checkValues withFields nb rows = .ok () ↔ ∀ row ∈ rows, row.length = nb := by
  induction rows with
  | nil => simp [checkValues]
  | cons row rows ih =>
    rw [checkValues, if_neg hnb]
    by_cases hlen : row.length = nb
    · rw [if_neg (not_not.2 hlen), ih]
      simp [hlen]
    · rw [if_pos hlen]
      refine iff_of_false ?_ ?_
      · intro h
        cases h
      · intro h
        exact hlen (h row List.mem_cons_self)

theorem checkValues_first : checkValues withFields 0 (row :: rows) = .ok () ↔
    row ≠ [] ∧ ∀ r ∈ rows, r.length = row.length := by
  rw [checkValues, if_pos rfl]
  by_cases hrow : row.length = 0
  · rw [if_pos hrow]
    refine iff_of_false ?_ ?_
    · intro h
      cases h
    · intro h
      exact h.1 (List.length_eq_zero_iff.1 hrow)
  · rw [if_neg hrow, checkValues_iff hrow]
    have hne : row ≠ [] := fun h => hrow (List.length_eq_zero_iff.2 h)
    simp [hne]

theorem checkStructure_values (hvalues : ins.valuesList = row :: rows) :
    checkStructure ins = .ok () ↔ ins.table ≠ none ∧ ins.select = none ∧ row ≠ [] ∧
      (ins.fieldsList ≠ [] → row.length = ins.fieldsList.length) ∧
        ∀ r ∈ rows, r.length = row.length := by
  rw [checkStructure]
  by_cases htable : ins.table = none
  · rw [if_pos htable]
    refine iff_of_false ?_ (fun h => h.1 htable)
    intro h
    cases h
  · rw [if_neg htable]
    cases hselect : ins.select with
    | some select =>
      simp only [hvalues]
      refine iff_of_false ?_ ?_
      · intro h
        cases h
      · intro h
        cases h.2.1
    | none =>
      simp only [hvalues, reduceCtorEq, false_and, if_false]
      by_cases hfields : ins.fieldsList = []
      · rw [hfields, List.length_nil, checkValues_first]
        simp [htable]
      · have hnb : ins.fieldsList.length ≠ 0 := fun h => hfields (List.length_eq_zero_iff.1 h)
        rw [checkValues_iff hnb]
        constructor
        · intro h
          have hrow := h row List.mem_cons_self
          refine ⟨htable, trivial, ?_, fun _ => hrow, ?_⟩
          · rintro rfl
            exact hnb hrow.symm
          · intro r hr
            rw [h r (List.mem_cons_of_mem _ hr), hrow]
        · rintro ⟨-, -, -, hrow, hrows⟩ r hr
          rcases List.mem_cons.1 hr with rfl | hr
          · exact hrow hfields
          · rw [hrows r hr, hrow hfields]

end Valid

section Loops

variable {params : List GdaHolder} {fields : List String} {row : List SqlExpr}
  {rows : List (List SqlExpr)}

theorem removeLoop_spec (hlen : fields.length = row.length) :
    (∃ error, removeLoop params fields row = .error error) ∨
      removeLoop params fields row =
        .ok ((keptPairs params fields row).map Prod.fst, (keptPairs params fields row).map Prod.snd) := by
  induction fields generalizing row with
  | nil =>
    obtain rfl : row = [] := List.eq_nil_of_length_eq_zero hlen.symm
    exact Or.inr rfl
  | cons field fields ih =>
    cases row with
    | nil => cases hlen
    | cons expr row =>
      have hrest := ih (Nat.succ.inj hlen)
      rw [removeLoop]
      cases hdefault : valueIsDefault params expr with
      | error e => exact Or.inl ⟨e, rfl⟩
      | ok isDefault =>
        rcases hrest with ⟨e, he⟩ | hok
        · rw [he]
          exact Or.inl ⟨e, rfl⟩
        · rw [hok]
          refine Or.inr ?_
          have hkept : isDefaultParam params expr = isDefault := by rw [isDefaultParam, hdefault]
          cases isDefault with
          | true => simp [keptPairs, hkept, bind, Except.bind]
          | false => simp [keptPairs, hkept, bind, Except.bind]

theorem replaceRow_spec (row : List SqlExpr) :
    (∃ error, replaceRow params row = .error error) ∨
      replaceRow params row =
        .ok (row.map fun expr => if isDefaultParam params expr then defaultKeyword else expr) := by
  induction row with
  | nil => exact Or.inr rfl
  | cons expr row ih =>
    rw [replaceRow]
    cases hdefault : valueIsDefault params expr with
    | error e => exact Or.inl ⟨e, rfl⟩
    | ok isDefault =>
      rcases ih with ⟨e, he⟩ | hok
      · rw [he]
        exact Or.inl ⟨e, rfl⟩
      · have hkept : isDefaultParam params expr = isDefault := by rw [isDefaultParam, hdefault]
        rw [hok, List.map_cons, hkept]
        exact Or.inr rfl

theorem replaceRows_spec (rows : List (List SqlExpr)) :
    (∃ error, replaceRows params rows = .error error) ∨
      replaceRows params rows = .ok (rows.map fun row =>
        row.map fun expr => if isDefaultParam params expr then defaultKeyword else expr) := by
  induction rows with
  | nil => exact Or.inr rfl
  | cons row rows ih =>
    rw [replaceRows]
    rcases @replaceRow_spec params row with ⟨e, he⟩ | hrow
    · rw [he]
      exact Or.inl ⟨e, rfl⟩
    · rw [hrow]
      rcases ih with ⟨e, he⟩ | hok
      · rw [he]
        exact Or.inl ⟨e, rfl⟩
      · rw [hok]
        exact Or.inr rfl

theorem isDefaultParam_keyword : isDefaultParam params defaultKeyword = false := rfl

theorem keptPairs_nil (hlen : fields.length = row.length) :
    keptPairs params fields row = [] ↔ ∀ expr ∈ row, isDefaultParam params expr = true := by
  rw [keptPairs, List.filter_eq_nil_iff]
  constructor
  · intro h expr hexpr
    obtain ⟨i, hi, rfl⟩ := List.getElem_of_mem hexpr
    have hi' : i < (fields.zip row).length := by
      rw [List.length_zip]
      omega
    have hpair := h _ (List.getElem_mem hi')
    simpa using hpair
  · intro h p hp
    simp [h p.2 (List.of_mem_zip hp).2]

theorem keptPairs_kept (p : String × SqlExpr) (hp : p ∈ keptPairs params fields row) :
    isDefaultParam params p.2 = false := by
  have hkept := (List.mem_filter.1 hp).2
  simpa using hkept

end Loops

section Contract

variable {params : List GdaHolder} {ins : InsertStmt} {row : List SqlExpr}
  {rows : List (List SqlExpr)}

theorem remove_noFields (hvalid : checkStructure ins = .ok ()) (hvalues : ins.valuesList = [row])
    (hfields : ins.fieldsList = []) : stmtRewriteInsertRemove params ins = .ok ins := by
  obtain ⟨-, -, hrow, -⟩ := (checkStructure_values hvalues).1 hvalid
  rw [stmtRewriteInsertRemove, hvalues, hfields]
  change Except.ok { ins with
    fieldsList := [], valuesList := if row = [] then [] else [row] } = _
  rw [if_neg hrow, ← hfields, ← hvalues]

theorem remove_fields (hvalid : checkStructure ins = .ok ()) (hvalues : ins.valuesList = [row])
    (hfields : ins.fieldsList ≠ []) :
    (∃ error, stmtRewriteInsertRemove params ins = .error error) ∨
      ∃ out, stmtRewriteInsertRemove params ins = .ok out ∧ RewrittenTo params true ins out := by
  obtain ⟨htable, hselect, hrow, hlen, -⟩ := (checkStructure_values hvalues).1 hvalid
  have hlen' := (hlen hfields).symm
  rw [stmtRewriteInsertRemove, hvalues]
  rcases @removeLoop_spec params _ _ hlen' with ⟨e, he⟩ | hok
  · simp only [he]
    exact Or.inl ⟨e, rfl⟩
  · simp only [hok]
    refine Or.inr ⟨_, rfl, ?_⟩
    have hpairs := @keptPairs_nil params _ _ hlen'
    have hkept := @keptPairs_kept params ins.fieldsList row
    generalize hp : keptPairs params ins.fieldsList row = pairs at hpairs hkept
    have hnil : pairs.map Prod.snd = [] ↔ pairs = [] := List.map_eq_nil_iff
    constructor
    · intro r hr expr hexpr
      change r ∈ (if pairs.map Prod.snd = [] then [] else [pairs.map Prod.snd]) at hr
      split at hr
      · cases hr
      · obtain rfl := List.mem_singleton.1 hr
        obtain ⟨p, hpmem, rfl⟩ := List.mem_map.1 hexpr
        exact hkept p hpmem
    · rw [if_pos rfl, RemovedFrom, hvalues]
      simp only
      refine ⟨fun r hr => absurd hr List.not_mem_nil, ?_⟩
      rw [if_neg hfields, List.map_singleton, hp]
      congr 1
      by_cases hall : ∀ expr ∈ row, isDefaultParam params expr = true
      · rw [if_pos hall, if_pos (hnil.2 (hpairs.2 hall))]
      · rw [if_neg hall, if_neg (fun h => hall (hpairs.1 (hnil.1 h)))]
    · by_cases hempty : pairs = []
      · subst hempty
        change checkStructure { ins with fieldsList := [], valuesList := [] } = _
        rw [checkStructure]
        simp [htable, hselect, checkValues]
      · have hvalues' : (if pairs.map Prod.snd = [] then [] else [pairs.map Prod.snd]) =
            [pairs.map Prod.snd] := if_neg fun h => hempty (hnil.1 h)
        apply (checkStructure_values hvalues').2
        refine ⟨htable, hselect, fun h => hempty (hnil.1 h), ?_, fun r hr => absurd hr List.not_mem_nil⟩
        intro _
        rw [List.length_map, List.length_map]

theorem replace_spec (hvalid : checkStructure ins = .ok ()) (hvalues : ins.valuesList = row :: rows) :
    (∃ error, stmtRewriteInsertDefaultKeyword params ins = some (.error error)) ∨
      ∃ out, stmtRewriteInsertDefaultKeyword params ins = some (.ok out) ∧
        RewrittenTo params false ins out := by
  obtain ⟨htable, hselect, hrow, hlen, hrows⟩ := (checkStructure_values hvalues).1 hvalid
  rw [stmtRewriteInsertDefaultKeyword, hvalues]
  rcases @replaceRows_spec params (row :: rows) with ⟨e, he⟩ | hok
  · rw [he]
    exact Or.inl ⟨e, rfl⟩
  · rw [hok, List.map_cons]
    generalize hreplace : (fun expr => if isDefaultParam params expr = true then defaultKeyword
      else expr) = replace
    have hne : row.map replace ≠ [] := fun h => hrow (List.map_eq_nil_iff.1 h)
    simp only [if_neg hne]
    refine Or.inr ⟨_, rfl, ?_⟩
    have hplain : ∀ expr, isDefaultParam params (replace expr) = false := by
      intro expr
      rw [← hreplace]
      simp only
      by_cases hdefault : isDefaultParam params expr = true
      · rw [if_pos hdefault, isDefaultParam_keyword]
      · rw [if_neg hdefault, Bool.eq_false_iff.2 hdefault]
    constructor
    · intro r hr expr hexpr
      have hr' : r ∈ (row :: rows).map fun r => r.map replace := hr
      obtain ⟨r', -, rfl⟩ := List.mem_map.1 hr'
      obtain ⟨expr', -, rfl⟩ := List.mem_map.1 hexpr
      exact hplain expr'
    · rw [if_neg Bool.false_ne_true, ReplacedIn, hvalues, hreplace, List.map_cons]
    · apply (@checkStructure_values _ (rows.map fun r => r.map replace) (row.map replace) rfl).2
      refine ⟨htable, hselect, hne, ?_, ?_⟩
      · intro hfields
        rw [List.length_map]
        exact hlen hfields
      · intro r hr
        obtain ⟨r', hr', rfl⟩ := List.mem_map.1 hr
        rw [List.length_map, List.length_map, hrows r' hr']

/-- A valid INSERT is rewritten, or there is an error, exactly when no default value is removed from
a list without columns, or there are values instead. -/
theorem rewriteForDefaultValues_contract {remove : Bool} (hvalid : checkStructure ins = .ok ()) :
    Meets params remove ins ↔ Rewritable params remove ins := by
  rw [Meets, rewriteForDefaultValues, hvalid, Rewritable]
  simp only
  cases remove with
  | false =>
    simp only [Bool.false_eq_true, if_false]
    cases hvalues : ins.valuesList with
    | nil =>
      have hnone : stmtRewriteInsertDefaultKeyword params ins = none := by
        rw [stmtRewriteInsertDefaultKeyword, hvalues]
        rfl
      rw [hnone]
      refine iff_of_false ?_ (fun h => h rfl)
      rintro (⟨e, he⟩ | ⟨out, hout, -⟩)
      · cases he
      · cases hout
    | cons row rows => exact iff_of_true (replace_spec hvalid hvalues) (List.cons_ne_nil _ _)
  | true =>
    simp only [if_true]
    cases hvalues : ins.valuesList with
    | nil =>
      have hsame : stmtRewriteInsertRemove params ins = .ok ins := by
        rw [stmtRewriteInsertRemove, hvalues]
      refine iff_of_true (Or.inr ⟨ins, by rw [hsame], ?_⟩) ?_
      · refine ⟨?_, ?_, hvalid⟩
        · rw [hvalues]
          intro row hrow
          cases hrow
        · rw [if_pos rfl, RemovedFrom, hvalues]
      · intro _ row hrow
        cases hrow
    | cons row rows =>
      cases rows with
      | cons second rows =>
        have herror : stmtRewriteInsertRemove params ins = .error "Not yet implemented" := by
          rw [stmtRewriteInsertRemove, hvalues]
        refine iff_of_true (Or.inl ⟨_, by rw [herror]⟩) ?_
        intro _ r hr
        cases hr
      | nil =>
        by_cases hfields : ins.fieldsList = []
        · rw [remove_noFields hvalid hvalues hfields]
          constructor
          · rintro (⟨e, he⟩ | ⟨out, hout, hright⟩)
            · cases he
            · obtain rfl := Except.ok.inj (Option.some.inj hout)
              intro _ r hr
              obtain rfl := List.cons.inj hr |>.1
              exact hright.noDefault row (by rw [hvalues]; exact List.mem_cons_self)
          · intro hnone
            refine Or.inr ⟨ins, rfl, ?_, ?_, hvalid⟩
            · rw [hvalues]
              intro r hr
              obtain rfl := List.mem_singleton.1 hr
              exact hnone hfields r rfl
            · rw [if_pos rfl, RemovedFrom, hvalues]
              simp only
              refine ⟨fun r hr => absurd hr List.not_mem_nil, ?_⟩
              rw [if_pos hfields]
              exact ⟨hnone hfields row rfl, trivial⟩
        · refine iff_of_true ?_ (fun h => absurd h hfields)
          rcases @remove_fields params ins row hvalid hvalues hfields with ⟨e, he⟩ | ⟨out, hout, hright⟩
          · exact Or.inl ⟨e, by rw [he]⟩
          · exact Or.inr ⟨out, by rw [hout], hright⟩

def insertValues (fields : List String) (rows : List (List SqlExpr)) : InsertStmt where
  table := some "t"
  onConflict := none
  fieldsList := fields
  valuesList := rows
  select := none

def paramP : SqlExpr where
  value := none
  paramSpec := some { name := "p", isParam := true }
  other := none

/-- `INSERT INTO t (a) VALUES (##p)` becomes `INSERT INTO t DEFAULT VALUES`. -/
theorem rewrite_withColumn : Meets [{ id := "p", isDefault := true }] true
    (insertValues ["a"] [[paramP]]) :=
  (rewriteForDefaultValues_contract rfl).2 fun h => by cases h

/-- `INSERT INTO t VALUES (##p)` stays as it is. -/
theorem rewrite_withoutColumns : ¬ ∀ (params : List GdaHolder) (remove : Bool) (ins : InsertStmt),
    checkStructure ins = .ok () → Meets params remove ins := by
  intro h
  have hmeets := h [{ id := "p", isDefault := true }] true (insertValues [] [[paramP]]) rfl
  rcases hmeets with ⟨e, he⟩ | ⟨out, hout, hright⟩
  · cases he
  · obtain rfl := Except.ok.inj (Option.some.inj hout)
    have hdefault := hright.noDefault [paramP] List.mem_cons_self paramP List.mem_cons_self
    cases hdefault

end Contract

end LibGda.DefaultValues
