import LibGda.OperatorPrecedence
import Mathlib.Data.Multiset.Dedup

/-! Combinations of SELECT statements: how the grammar reads them, the compound
statements which it composes, and the rows of both. -/

namespace LibGda

open OperatorPrecedence

inductive GdaSqlStatementCompoundType where
  | union | unionAll | intersect | intersectAll | except | exceptAll
  deriving DecidableEq

inductive GdaSqlStatement (σ : Type) where
  | select (s : σ)
  | compound (compoundType : Option GdaSqlStatementCompoundType)
      (stmtList : List (GdaSqlStatement σ))

structure GdaSqlStatementCompound (σ : Type) where
  compoundType : Option GdaSqlStatementCompoundType
  stmtList : List (GdaSqlStatement σ)

variable {σ : Type}

def GdaSqlStatementCompound.statement (c : GdaSqlStatementCompound σ) : GdaSqlStatement σ :=
  .compound c.compoundType c.stmtList

def GdaSqlStatementCompound.takeStmt (compound : GdaSqlStatementCompound σ)
    (s : GdaSqlStatement σ) : GdaSqlStatementCompound σ :=
  match s with
  | .compound _ [] => compound
  | .compound _ [s'] => { compound with stmtList := compound.stmtList ++ [s'] }
  | .compound _ (_ :: _ :: _) => { compound with stmtList := compound.stmtList ++ [s] }
  | .select _ => { compound with stmtList := compound.stmtList ++ [s] }

/-- `none` is the `NULL` statement. -/
def composeMultipleCompounds (ctype : GdaSqlStatementCompoundType)
    (left right : GdaSqlStatementCompound σ) : Option (GdaSqlStatementCompound σ) :=
  if left.compoundType = some ctype then
    if right.stmtList.tail = [] ∨ right.compoundType = some ctype then
      some { left with stmtList := left.stmtList ++ right.stmtList }
    else none
  else
    some (((⟨some ctype, []⟩ : GdaSqlStatementCompound σ).takeStmt left.statement).takeStmt
      right.statement)

/-- A token of an operator is its keyword with the `ALL` that may follow. -/
abbrev CompoundToken (σ : Type) := Token σ GdaSqlStatementCompoundType Empty Unit Unit

abbrev CompoundTree (σ : Type) := Tree σ GdaSqlStatementCompoundType Empty Unit Unit

abbrev CompoundActions (σ α : Type) := Actions σ GdaSqlStatementCompoundType Empty Unit Unit α

/-- `%left UNION EXCEPT INTERSECT`, on the line under that of `PGCAST`. -/
def compoundGrammar : Grammar GdaSqlStatementCompoundType Unit Unit where
  prefixLevel _ := none
  binaryLevel _ := some (18, .left)
  closes _ _ := true

/-- The actions of the rules of `compound`: the use of a `NULL` statement ends the
program, which is `none` too. -/
def compoundActions : CompoundActions σ (Option (GdaSqlStatementCompound σ)) where
  leaf s := some ((⟨none, []⟩ : GdaSqlStatementCompound σ).takeStmt (.select s))
  prefixed _ c := c
  binary ctype left right :=
    left.bind fun left => right.bind fun right => composeMultipleCompounds ctype left right
  suffixed s _ := s.elim
  bracketed _ _ c := c

def parseCompound (tokens : List (CompoundToken σ)) : Option (GdaSqlStatementCompound σ) :=
  (parse compoundGrammar compoundActions tokens).join

def readCompound (tokens : List (CompoundToken σ)) : Option (CompoundTree σ) :=
  parse compoundGrammar Tree.actions tokens

section Rows

variable {V : Type} [Zero V] (op : GdaSqlStatementCompoundType → V → V → V) (env : σ → V)

def combine (compoundType : Option GdaSqlStatementCompoundType) (v w : V) : V :=
  match compoundType with
  | none => v
  | some ctype => op ctype v w

mutual

def evalStatement : GdaSqlStatement σ → V
  | .select s => env s
  | .compound _ [] => 0
  | .compound compoundType (s :: stmts) => evalStmts compoundType (evalStatement s) stmts

def evalStmts (compoundType : Option GdaSqlStatementCompoundType) (v : V) :
    List (GdaSqlStatement σ) → V
  | [] => v
  | s :: stmts => evalStmts compoundType (combine op compoundType v (evalStatement s)) stmts

end

def evalCompound (c : GdaSqlStatementCompound σ) : V :=
  evalStatement op env c.statement

def rowsActions : CompoundActions σ V where
  leaf := env
  prefixed _ v := v
  binary ctype v w := op ctype v w
  suffixed s _ := s.elim
  bracketed _ _ v := v

end Rows

/-- The operations on the rows; those without `ALL` leave each row once. -/
def multisetOp {ρ : Type} [DecidableEq ρ] : GdaSqlStatementCompoundType →
    Multiset ρ → Multiset ρ → Multiset ρ
  | .union, a, b => (a + b).dedup
  | .unionAll, a, b => a + b
  | .intersect, a, b => (a ∩ b).dedup
  | .intersectAll, a, b => a ∩ b
  | .except, a, b => a.dedup.filter (· ∉ b)
  | .exceptAll, a, b => a - b

/-- `s UNION s EXCEPT (s INTERSECT s)` -/
example : readCompound [.leaf 1, .operator .union, .leaf 2, .operator .except, .opening (),
    .leaf 3, .operator .intersect, .leaf 4, .closing ()] =
    some (.binary .except (.binary .union (.leaf 1) (.leaf 2))
      (.bracketed () () (.binary .intersect (.leaf 3) (.leaf 4)))) := rfl

end LibGda

/-! Which combinations of SELECT statements the compounds denote: two compounds of
one type may become one, which is right where the operation is associative. -/

namespace LibGda

open OperatorPrecedence

variable {σ V : Type}

def readCompoundType : CompoundTree σ → Option GdaSqlStatementCompoundType
  | .leaf _ => none
  | .prefixed _ e => readCompoundType e
  | .binary ctype _ _ => some ctype
  | .suffixed s _ => s.elim
  | .bracketed _ _ e => readCompoundType e

def GdaSqlStatementCompoundType.associative : GdaSqlStatementCompoundType → Bool
  | .except | .exceptAll => false
  | _ => true

def composes (ctype : GdaSqlStatementCompoundType)
    (left right : Option GdaSqlStatementCompoundType) : Bool :=
  left != some ctype || right == none || right == some ctype

def composesAll : CompoundTree σ → Bool
  | .leaf _ => true
  | .prefixed _ e => composesAll e
  | .binary ctype l r => composesAll l && composesAll r &&
    composes ctype (readCompoundType l) (readCompoundType r)
  | .suffixed s _ => s.elim
  | .bracketed _ _ e => composesAll e

def composesWell (ctype : GdaSqlStatementCompoundType)
    (left right : Option GdaSqlStatementCompoundType) : Bool :=
  left != some ctype || right == none || (right == some ctype && ctype.associative)

def keepsOperation : CompoundTree σ → Bool
  | .leaf _ => true
  | .prefixed _ e => keepsOperation e
  | .binary ctype l r => keepsOperation l && keepsOperation r &&
    composesWell ctype (readCompoundType l) (readCompoundType r)
  | .suffixed s _ => s.elim
  | .bracketed _ _ e => keepsOperation e

theorem composes_of_composesWell {ctype : GdaSqlStatementCompoundType}
    {left right : Option GdaSqlStatementCompoundType} (h : composesWell ctype left right = true) :
    composes ctype left right = true := by
  simp only [composesWell, composes, Bool.or_eq_true, Bool.and_eq_true] at h ⊢
  rcases h with h | h
  · exact Or.inl h
  · exact Or.inr h.1

theorem composesAll_of_keepsOperation {t : CompoundTree σ} (h : keepsOperation t = true) :
    composesAll t = true := by
  induction t with
  | leaf s => rfl
  | prefixed ctype e ih => exact ih h
  | binary ctype l r ihl ihr =>
    simp only [keepsOperation, Bool.and_eq_true] at h
    simp only [composesAll, Bool.and_eq_true]
    exact ⟨⟨ihl h.1.1, ihr h.1.2⟩, composes_of_composesWell h.2⟩
  | suffixed s e ih => exact s.elim
  | bracketed o c e ih => exact ih h

structure Operands (V : Type) where
  compoundType : Option GdaSqlStatementCompoundType
  values : List V

namespace Operands

def value [Zero V] (op : GdaSqlStatementCompoundType → V → V → V) (o : Operands V) : V :=
  match o.values with
  | [] => 0
  | v :: vs => vs.foldl (combine op o.compoundType) v

def compose [Zero V] (op : GdaSqlStatementCompoundType → V → V → V)
    (ctype : GdaSqlStatementCompoundType) (l r : Operands V) : Operands V :=
  if l.compoundType = some ctype then { l with values := l.values ++ r.values }
  else ⟨some ctype, [l.value op, r.value op]⟩

end Operands

section Compose

variable [Zero V] (op : GdaSqlStatementCompoundType → V → V → V) (env : σ → V)

def evalOperands (c : GdaSqlStatementCompound σ) : Operands V :=
  ⟨c.compoundType, c.stmtList.map (evalStatement op env)⟩

def operandActions : CompoundActions σ (Operands V) where
  leaf s := ⟨none, [env s]⟩
  prefixed _ o := o
  binary ctype l r := l.compose op ctype r
  suffixed s _ := s.elim
  bracketed _ _ o := o

theorem evalStmts_eq_foldl (compoundType : Option GdaSqlStatementCompoundType) (v : V)
    (stmts : List (GdaSqlStatement σ)) : evalStmts op env compoundType v stmts =
      (stmts.map (evalStatement op env)).foldl (combine op compoundType) v := by
  induction stmts generalizing v with
  | nil => simp [evalStmts]
  | cons s stmts ih => simp [evalStmts, ih]

theorem evalCompound_eq_value (c : GdaSqlStatementCompound σ) :
    evalCompound op env c = (evalOperands op env c).value op := by
  obtain ⟨compoundType, stmtList⟩ := c
  cases stmtList with
  | nil => simp [evalCompound, GdaSqlStatementCompound.statement, evalStatement, evalOperands,
      Operands.value]
  | cons s stmts => simp [evalCompound, GdaSqlStatementCompound.statement, evalStatement,
      evalOperands, Operands.value, evalStmts_eq_foldl]

theorem takeStmt_statement (compound : GdaSqlStatementCompound σ)
    {c : GdaSqlStatementCompound σ} (hc : c.stmtList ≠ []) :
    ∃ s, compound.takeStmt c.statement = { compound with stmtList := compound.stmtList ++ [s] } ∧
      ∀ (V : Type) [Zero V] (op : GdaSqlStatementCompoundType → V → V → V) (env : σ → V),
        evalStatement op env s = evalCompound op env c := by
  obtain ⟨compoundType, stmtList⟩ := c
  match stmtList, hc with
  | [s], _ =>
    refine ⟨s, rfl, ?_⟩
    intro V _ op env
    simp [evalCompound, GdaSqlStatementCompound.statement, evalStatement, evalStmts]
  | s :: s' :: stmts, _ =>
    exact ⟨.compound compoundType (s :: s' :: stmts), rfl, fun V _ op env => rfl⟩

end Compose

def ComposedAs (t : CompoundTree σ) (c : GdaSqlStatementCompound σ) : Prop :=
  c.compoundType = readCompoundType t ∧ c.stmtList ≠ [] ∧
    (c.stmtList.tail = [] ↔ readCompoundType t = none) ∧
    ∀ (V : Type) [Zero V] (op : GdaSqlStatementCompoundType → V → V → V) (env : σ → V),
      evalOperands op env c = t.fold (operandActions op env)

def buildCompound (t : CompoundTree σ) : Option (GdaSqlStatementCompound σ) :=
  t.fold compoundActions

theorem composeMultipleCompounds_none {ctype : GdaSqlStatementCompoundType} {l r : CompoundTree σ}
    {left right : GdaSqlStatementCompound σ} (hl : ComposedAs l left) (hr : ComposedAs r right)
    (h : composes ctype (readCompoundType l) (readCompoundType r) = false) :
    composeMultipleCompounds ctype left right = none := by
  obtain ⟨hlt, -, -, -⟩ := hl
  obtain ⟨hrt, -, hone, -⟩ := hr
  simp only [composes, Bool.or_eq_false_iff, bne_eq_false_iff_eq, beq_eq_false_iff_ne] at h
  obtain ⟨⟨hleft, hsingle⟩, hright⟩ := h
  have hmore : ¬ right.stmtList.tail = [] := fun ht => hsingle (hone.1 ht)
  simp [composeMultipleCompounds, hlt, hleft, hrt, hright, hmore]

theorem composeMultipleCompounds_some {ctype : GdaSqlStatementCompoundType} {l r : CompoundTree σ}
    {left right : GdaSqlStatementCompound σ} (hl : ComposedAs l left) (hr : ComposedAs r right)
    (h : composes ctype (readCompoundType l) (readCompoundType r) = true) :
    ∃ c, composeMultipleCompounds ctype left right = some c ∧
      ComposedAs (.binary ctype l r) c := by
  obtain ⟨hlt, hln, -, hlv⟩ := hl
  obtain ⟨hrt, hrn, hone, hrv⟩ := hr
  by_cases hleft : left.compoundType = some ctype
  · -- the statements of the right go behind those of the left
    have hright : right.stmtList.tail = [] ∨ right.compoundType = some ctype := by
      simp only [composes, Bool.or_eq_true, bne_iff_ne, beq_iff_eq, ← hlt, hleft, ne_eq,
        not_true_eq_false, false_or] at h
      rcases h with h | h
      · exact Or.inl (hone.2 h)
      · exact Or.inr (hrt.trans h)
    refine ⟨{ left with stmtList := left.stmtList ++ right.stmtList }, ?_, hleft, ?_, ?_, ?_⟩
    · simp [composeMultipleCompounds, hleft, hright]
    · simp [hln]
    · obtain ⟨s, stmts, hs⟩ := List.exists_cons_of_ne_nil hln
      simp [hs, hrn, readCompoundType]
    · intro V _ op env
      have hfold : (Tree.binary ctype l r).fold (operandActions op env) =
        (l.fold (operandActions op env)).compose op ctype (r.fold (operandActions op env)) := rfl
      rw [hfold, ← hlv V op env, ← hrv V op env]
      simp [Operands.compose, evalOperands, hleft]
  · obtain ⟨s, hs, hsv⟩ := takeStmt_statement ⟨some ctype, []⟩ hln
    obtain ⟨s', hs', hsv'⟩ := takeStmt_statement ⟨some ctype, [s]⟩ hrn
    refine ⟨⟨some ctype, [s, s']⟩, ?_, rfl, by simp, by simp [readCompoundType], ?_⟩
    · simp only [List.nil_append] at hs
      simp only [composeMultipleCompounds, hleft, if_false, hs, hs']
      rfl
    · intro V _ op env
      have hfold : (Tree.binary ctype l r).fold (operandActions op env) =
        (l.fold (operandActions op env)).compose op ctype (r.fold (operandActions op env)) := rfl
      rw [hfold, ← hlv V op env, ← hrv V op env]
      have hne : (evalOperands op env left).compoundType ≠ some ctype := hleft
      simp only [Operands.compose, hne, if_false, ← evalCompound_eq_value]
      simp [evalOperands, hsv, hsv']

theorem buildCompound_composes (t : CompoundTree σ) :
    (composesAll t = true → ∃ c, buildCompound t = some c ∧ ComposedAs t c) ∧
      (composesAll t = false → buildCompound t = none) := by
  induction t with
  | leaf s =>
    refine ⟨fun _ => ⟨⟨none, [.select s]⟩, rfl, rfl, by simp, by simp [readCompoundType], ?_⟩,
      (nomatch ·)⟩
    intro V _ op env
    simp [evalOperands, evalStatement, Tree.fold, operandActions]
  | prefixed ctype e ih => exact ih
  | binary ctype l r ihl ihr =>
    have hb : buildCompound (.binary ctype l r) = (buildCompound l).bind fun left =>
      (buildCompound r).bind fun right => composeMultipleCompounds ctype left right := rfl
    cases hl : composesAll l with
    | false => simp [composesAll, hl, hb, ihl.2 hl]
    | true =>
      obtain ⟨left, hleft, hcl⟩ := ihl.1 hl
      cases hr : composesAll r with
      | false => simp [composesAll, hr, hb, hleft, ihr.2 hr]
      | true =>
        obtain ⟨right, hright, hcr⟩ := ihr.1 hr
        simp only [hb, hleft, hright, Option.bind_some, composesAll, hl, hr, Bool.true_and]
        exact ⟨composeMultipleCompounds_some hcl hcr, composeMultipleCompounds_none hcl hcr⟩
  | suffixed s e ih => exact s.elim
  | bracketed o c e ih => exact ih

end LibGda
