import LibGda.OperatorPrecedence

/-! The expressions of the SQL grammar: their tokens with the precedences declared
in the grammar, and the `GdaSqlExpr` which the actions of its rules build. -/

namespace LibGda

open OperatorPrecedence

inductive GdaSqlOperatorType where
  | and | or | eq | is | like | ilike | between | gt | lt | geq | leq | diff
  | regexp | regexpCi | notRegexp | notRegexpCi | similar | isNull | isNotNull | not | opIn | notIn
  | concat | plus | minus | star | div | rem | bitAnd | bitOr | bitNot | notLike | notIlike | glob
  deriving DecidableEq

/-- The text of a value or of a name, `none` being `NULL`. -/
abbrev SqlAtom := Option String

/-- A value or an operation, with what it is cast as. The operands of an operation
are `first` and those of `rest`. -/
inductive GdaSqlExpr where
  | value (value : SqlAtom) (castAs : Option String)
  | cond (operatorType : GdaSqlOperatorType) (first : GdaSqlExpr) (rest : List GdaSqlExpr)
      (castAs : Option String)

/-- The operator tokens; `EQ` is written in two ways, and so is `DIFF`. -/
inductive SqlOperator where
  | or | and | not | like | ilike | notLike | notIlike | eq | eqEq | diff | bangEq
  | gt | leq | lt | geq | bitAnd | bitOr | plus | minus | star | slash | rem | concat | bitNot
  deriving DecidableEq

inductive SqlOpening where
  | lp
  | castLp
  deriving DecidableEq

/-- `RP`, or `AS` with a type name and `RP`. -/
inductive SqlClosing where
  | rp
  | asTypeRp (typeName : String)
  deriving DecidableEq

/-- A suffix is `PGCAST` with a type name. -/
abbrev SqlExprToken := Token SqlAtom SqlOperator String SqlOpening SqlClosing

abbrev SqlExprTree := Tree SqlAtom SqlOperator String SqlOpening SqlClosing

abbrev SqlExprActions (α : Type) := Actions SqlAtom SqlOperator String SqlOpening SqlClosing α

def SqlOperator.text : SqlOperator → List Char
  | .eq => ['=']
  | .eqEq => ['=', '=']
  | .diff => ['<', '>']
  | .bangEq => ['!', '=']
  | .gt => ['>']
  | .leq => ['<', '=']
  | .lt => ['<']
  | .geq => ['>', '=']
  | .bitAnd => ['&']
  | .bitOr => ['|']
  | .plus => ['+']
  | .minus => ['-']
  | .slash => ['/']
  | .rem => ['%']
  | _ => []

/-- `sql_operation_string_to_operator`, `none` where it ends the program. -/
def sqlOperationStringToOperator (op : List Char) : Option GdaSqlOperatorType :=
  match op.head?.map Char.toUpper, op.tail with
  | some 'A', _ => some .and
  | some 'O', _ => some .or
  | some 'N', _ => some .not
  | some '=', _ => some .eq
  | some 'I', 'S' :: _ => some .is
  | some 'I', 'N' :: _ => some .opIn
  | some 'I', 'I' :: _ => some .ilike
  | some 'L', _ => some .like
  | some 'B', _ => some .between
  | some '>', '=' :: _ => some .geq
  | some '>', [] => some .gt
  | some '<', '=' :: _ => some .leq
  | some '<', '>' :: _ => some .diff
  | some '<', [] => some .lt
  | some '!', '=' :: _ => some .diff
  | some '!', ['~'] => some .notRegexp
  | some '!', '~' :: '*' :: _ => some .notRegexpCi
  | some '~', '*' :: _ => some .regexpCi
  | some '~', [] => some .regexp
  | some 'S', _ => some .similar
  | some '|', '|' :: _ => some .concat
  | some '|', _ => some .bitOr
  | some '+', _ => some .plus
  | some '-', _ => some .minus
  | some '*', _ => some .star
  | some '/', _ => some .div
  | some '%', _ => some .rem
  | some '&', _ => some .bitAnd
  | _, _ => none

def SqlOperator.stringToOpType (op : SqlOperator) : GdaSqlOperatorType :=
  (sqlOperationStringToOperator op.text).getD .and

/-- The operator of the rule `expr ::= expr op expr`. -/
def SqlOperator.binaryType : SqlOperator → GdaSqlOperatorType
  | .star => .star
  | .and => .and
  | .or => .or
  | .concat => .concat
  | .like => .like
  | .ilike => .ilike
  | .notLike => .notLike
  | .notIlike => .notIlike
  | op => op.stringToOpType

/-- The operator of the rule `expr ::= op expr`. -/
def SqlOperator.prefixType : SqlOperator → GdaSqlOperatorType
  | .minus => .minus
  | .plus => .plus
  | .bitNot => .bitNot
  | _ => .not

/-- The rules whose action is `compose_multiple_expr`. -/
def SqlOperator.composes : SqlOperator → Bool
  | .plus | .minus | .star | .and | .or | .concat => true
  | _ => false

/-- The `%left` and `%right` lines, numbered from the lowest. `UMINUS`, `UPLUS` and
`BITNOT` are at 15, and `PGCAST` is above all. -/
def sqlExprGrammar : Grammar SqlOperator SqlOpening SqlClosing where
  prefixLevel
    | .not => some 3
    | .minus | .plus | .bitNot => some 15
    | _ => none
  binaryLevel
    | .or => some (1, .left)
    | .and => some (2, .left)
    | .like | .ilike | .notLike | .notIlike | .eq | .eqEq | .diff | .bangEq => some (4, .left)
    | .gt | .leq | .lt | .geq => some (6, .left)
    | .bitAnd | .bitOr => some (10, .left)
    | .plus | .minus => some (11, .left)
    | .star | .slash | .rem => some (12, .left)
    | .concat => some (13, .left)
    | .not | .bitNot => none
  closes
    | .lp, .rp => true
    | .castLp, .asTypeRp _ => true
    | _, _ => false

namespace GdaSqlExpr

def castAs : GdaSqlExpr → Option String
  | .value _ castAs => castAs
  | .cond _ _ _ castAs => castAs

def setCastAs (typeName : Option String) : GdaSqlExpr → GdaSqlExpr
  | .value v _ => .value v typeName
  | .cond op first rest _ => .cond op first rest typeName

def operatorType : GdaSqlExpr → Option GdaSqlOperatorType
  | .value _ _ => none
  | .cond op _ _ _ => some op

end GdaSqlExpr

def createTwoExpr (op : GdaSqlOperatorType) (left right : GdaSqlExpr) : GdaSqlExpr :=
  .cond op left [right] none

def createUniExpr (op : GdaSqlOperatorType) (expr : GdaSqlExpr) : GdaSqlExpr :=
  .cond op expr [] none

def composeMultipleExpr (op : GdaSqlOperatorType) (left right : GdaSqlExpr) : GdaSqlExpr :=
  match left with
  | .cond leftOp first rest castAs =>
    if leftOp = op then .cond leftOp first (rest ++ [right]) castAs
    else createTwoExpr op left right
  | .value _ _ => createTwoExpr op left right

/-- The actions of the rules of `expr`. -/
def exprActions : SqlExprActions GdaSqlExpr where
  leaf v := .value v none
  prefixed t e := createUniExpr t.prefixType e
  binary t l r :=
    if t.composes then composeMultipleExpr t.binaryType l r else createTwoExpr t.binaryType l r
  suffixed typeName e := e.setCastAs (some typeName)
  bracketed _ c e :=
    match c with
    | .rp => e
    | .asTypeRp typeName => e.setCastAs (some typeName)

def parseExpr (tokens : List SqlExprToken) : Option GdaSqlExpr :=
  parse sqlExprGrammar exprActions tokens

def readExpr (tokens : List SqlExprToken) : Option SqlExprTree :=
  parse sqlExprGrammar Tree.actions tokens

structure SqlAlgebra (V : Type) where
  unary : GdaSqlOperatorType → V → V
  binary : GdaSqlOperatorType → V → V → V
  cast : String → V → V

section Value

variable {V : Type} (alg : SqlAlgebra V) (env : SqlAtom → V)

def SqlAlgebra.castTo (castAs : Option String) (v : V) : V :=
  match castAs with
  | none => v
  | some typeName => alg.cast typeName v

mutual

def evalExpr : GdaSqlExpr → V
  | .value v castAs => alg.castTo castAs (env v)
  | .cond op first [] castAs => alg.castTo castAs (alg.unary op (evalExpr first))
  | .cond op first (e :: rest) castAs =>
    alg.castTo castAs (evalRest op (alg.binary op (evalExpr first) (evalExpr e)) rest)

def evalRest (op : GdaSqlOperatorType) (v : V) : List GdaSqlExpr → V
  | [] => v
  | e :: rest => evalRest op (alg.binary op v (evalExpr e)) rest

end

def valueActions : SqlExprActions V where
  leaf := env
  prefixed t v := alg.unary t.prefixType v
  binary t v w := alg.binary t.binaryType v w
  suffixed typeName v := alg.cast typeName v
  bracketed _ c v :=
    match c with
    | .rp => v
    | .asTypeRp typeName => alg.cast typeName v

end Value

/-- `- a :: t * b = c` is read `((- (a :: t)) * b) = c`. -/
example : readExpr [.operator .minus, .leaf (some "a"), .suffix "t", .operator .star,
    .leaf (some "b"), .operator .eq, .leaf (some "c")] =
    some (.binary .eq (.binary .star (.prefixed .minus (.suffixed "t" (.leaf (some "a"))))
      (.leaf (some "b"))) (.leaf (some "c"))) := rfl

end LibGda

/-! Which expressions keep their value: an operation that is flattened into its
left operand must be the same operation there, and a cast must not replace one. -/

namespace LibGda

open OperatorPrecedence

def readType : SqlExprTree → Option GdaSqlOperatorType
  | .leaf _ => none
  | .prefixed t _ => some t.prefixType
  | .binary t _ _ => some t.binaryType
  | .suffixed _ e => readType e
  | .bracketed _ _ e => readType e

def readsUnary : SqlExprTree → Bool
  | .leaf _ => false
  | .prefixed _ _ => true
  | .binary _ _ _ => false
  | .suffixed _ e => readsUnary e
  | .bracketed _ _ e => readsUnary e

def readsCast : SqlExprTree → Bool
  | .suffixed _ _ => true
  | .bracketed _ (.asTypeRp _) _ => true
  | .bracketed _ .rp e => readsCast e
  | _ => false

/-- The left operands that `compose_multiple_expr` adds an operand to. -/
def flattens (t : SqlOperator) (l : SqlExprTree) : Bool :=
  t.composes && readType l == some t.binaryType

def keepsMeaning : SqlExprTree → Bool
  | .leaf _ => true
  | .prefixed _ e => keepsMeaning e
  | .binary t l r => keepsMeaning l && keepsMeaning r &&
    (!flattens t l || (!readsCast l && !readsUnary l))
  | .suffixed _ e => keepsMeaning e && !readsCast e
  | .bracketed _ (.asTypeRp _) e => keepsMeaning e && !readsCast e
  | .bracketed _ .rp e => keepsMeaning e

def buildExpr (t : SqlExprTree) : GdaSqlExpr :=
  t.fold exprActions

theorem setCastAs_operatorType (e : GdaSqlExpr) (typeName : Option String) :
    (e.setCastAs typeName).operatorType = e.operatorType := by
  cases e <;> rfl

theorem setCastAs_castAs (e : GdaSqlExpr) (typeName : Option String) :
    (e.setCastAs typeName).castAs = typeName := by
  cases e <;> rfl

theorem setCastAs_setCastAs (e : GdaSqlExpr) (typeName typeName' : Option String) :
    (e.setCastAs typeName).setCastAs typeName' = e.setCastAs typeName' := by
  cases e <;> rfl

theorem setCastAs_self {e : GdaSqlExpr} (h : e.castAs = none) : e.setCastAs none = e := by
  cases e with
  | value v castAs =>
    have hc : castAs = none := h
    rw [hc]
    rfl
  | cond op first rest castAs =>
    have hc : castAs = none := h
    rw [hc]
    rfl

def GdaSqlExpr.isUnary : GdaSqlExpr → Bool
  | .cond _ _ [] _ => true
  | _ => false

theorem setCastAs_isUnary (e : GdaSqlExpr) (typeName : Option String) :
    (e.setCastAs typeName).isUnary = e.isUnary := by
  cases e with
  | value v castAs => rfl
  | cond op first rest castAs => cases rest <;> rfl

theorem exprActions_binary (t : SqlOperator) (left right : GdaSqlExpr) :
    (∃ first rest castAs, left = .cond t.binaryType first rest castAs ∧ t.composes = true ∧
      exprActions.binary t left right = .cond t.binaryType first (rest ++ [right]) castAs) ∨
    ((t.composes && left.operatorType == some t.binaryType) = false ∧
      exprActions.binary t left right = .cond t.binaryType left [right] none) := by
  by_cases hc : t.composes = true
  · cases left with
    | value v castAs =>
      refine Or.inr ⟨by simp [GdaSqlExpr.operatorType], ?_⟩
      simp [exprActions, hc, composeMultipleExpr, createTwoExpr]
    | cond leftOp first rest castAs =>
      by_cases ho : leftOp = t.binaryType
      · subst ho
        refine Or.inl ⟨first, rest, castAs, rfl, hc, ?_⟩
        simp [exprActions, hc, composeMultipleExpr]
      · refine Or.inr ⟨by simp [GdaSqlExpr.operatorType, ho], ?_⟩
        simp [exprActions, hc, composeMultipleExpr, createTwoExpr, ho]
  · refine Or.inr ⟨by simp [hc], ?_⟩
    simp [exprActions, hc, createTwoExpr]

theorem buildExpr_operatorType (t : SqlExprTree) :
    (buildExpr t).operatorType = readType t := by
  induction t with
  | leaf v => rfl
  | prefixed t e ih => rfl
  | binary t l r ihl ihr =>
    show (exprActions.binary t (buildExpr l) (buildExpr r)).operatorType = some t.binaryType
    rcases exprActions_binary t (buildExpr l) (buildExpr r) with
      ⟨first, rest, castAs, -, -, hb⟩ | ⟨-, hb⟩
    · rw [hb]
      rfl
    · rw [hb]
      rfl
  | suffixed typeName e ih => exact (setCastAs_operatorType _ _).trans ih
  | bracketed o c e ih =>
    cases c with
    | rp => exact ih
    | asTypeRp typeName => exact (setCastAs_operatorType _ _).trans ih

theorem buildExpr_binary (t : SqlOperator) (l r : SqlExprTree) :
    (∃ first rest castAs, flattens t l = true ∧
      buildExpr l = .cond t.binaryType first rest castAs ∧
      buildExpr (.binary t l r) = .cond t.binaryType first (rest ++ [buildExpr r]) castAs) ∨
    (flattens t l = false ∧
      buildExpr (.binary t l r) = .cond t.binaryType (buildExpr l) [buildExpr r] none) := by
  have ht := buildExpr_operatorType l
  rcases exprActions_binary t (buildExpr l) (buildExpr r) with
    ⟨first, rest, castAs, hl, hc, hb⟩ | ⟨hf, hb⟩
  · rw [hl] at ht
    have hf : flattens t l = true := by
      simp [flattens, hc, ← ht, GdaSqlExpr.operatorType]
    exact Or.inl ⟨first, rest, castAs, hf, hl, hb⟩
  · rw [ht] at hf
    exact Or.inr ⟨hf, hb⟩

theorem buildExpr_isUnary (t : SqlExprTree) : (buildExpr t).isUnary = readsUnary t := by
  induction t with
  | leaf v => rfl
  | prefixed t e ih => rfl
  | binary t l r ihl ihr =>
    rcases buildExpr_binary t l r with ⟨first, rest, castAs, -, -, hb⟩ | ⟨-, hb⟩
    · rw [hb]
      cases rest <;> rfl
    · rw [hb]
      rfl
  | suffixed typeName e ih => exact (setCastAs_isUnary _ _).trans ih
  | bracketed o c e ih =>
    cases c with
    | rp => exact ih
    | asTypeRp typeName => exact (setCastAs_isUnary _ _).trans ih

theorem castAs_of_readsCast {t : SqlExprTree} (h : readsCast t = true) :
    (buildExpr t).castAs.isSome = true := by
  induction t with
  | leaf v => cases h
  | prefixed t e ih => cases h
  | binary t l r ihl ihr => cases h
  | suffixed typeName e ih =>
    have hc : (buildExpr (.suffixed typeName e)).castAs = some typeName := setCastAs_castAs _ _
    rw [hc]
    rfl
  | bracketed o c e ih =>
    cases c with
    | rp => exact ih h
    | asTypeRp typeName =>
      have hc : (buildExpr (.bracketed o (.asTypeRp typeName) e)).castAs = some typeName :=
        setCastAs_castAs _ _
      rw [hc]
      rfl

theorem castAs_of_keepsMeaning {t : SqlExprTree} (h : keepsMeaning t = true)
    (hc : readsCast t = false) : (buildExpr t).castAs = none := by
  induction t with
  | leaf v => rfl
  | prefixed t e ih => rfl
  | binary t l r ihl ihr =>
    simp only [keepsMeaning, Bool.and_eq_true] at h
    obtain ⟨⟨hl, -⟩, hm⟩ := h
    rcases buildExpr_binary t l r with ⟨first, rest, castAs, hf, hbl, hb⟩ | ⟨-, hb⟩
    · simp only [hf, Bool.not_true, Bool.false_or, Bool.and_eq_true, Bool.not_eq_true'] at hm
      have hcast := ihl hl hm.1
      rw [hbl] at hcast
      rw [hb]
      exact hcast
    · rw [hb]
      rfl
  | suffixed typeName e ih => cases hc
  | bracketed o c e ih =>
    cases c with
    | rp => exact ih h hc
    | asTypeRp typeName => cases hc

section Value

variable {V : Type} (alg : SqlAlgebra V) (env : SqlAtom → V)

theorem evalExpr_castAs (e : GdaSqlExpr) :
    evalExpr alg env e = alg.castTo e.castAs (evalExpr alg env (e.setCastAs none)) := by
  cases e with
  | value v castAs => simp [evalExpr, GdaSqlExpr.castAs, GdaSqlExpr.setCastAs, SqlAlgebra.castTo]
  | cond op first rest castAs =>
    cases rest <;>
      simp [evalExpr, GdaSqlExpr.castAs, GdaSqlExpr.setCastAs, SqlAlgebra.castTo]

theorem evalExpr_setCastAs (e : GdaSqlExpr) (typeName : String) :
    evalExpr alg env (e.setCastAs (some typeName)) =
      alg.cast typeName (evalExpr alg env (e.setCastAs none)) := by
  have h := evalExpr_castAs alg env (e.setCastAs (some typeName))
  rw [setCastAs_castAs, setCastAs_setCastAs] at h
  exact h

theorem evalRest_append (op : GdaSqlOperatorType) (v : V) (rest : List GdaSqlExpr)
    (e : GdaSqlExpr) : evalRest alg env op v (rest ++ [e]) =
      alg.binary op (evalRest alg env op v rest) (evalExpr alg env e) := by
  induction rest generalizing v with
  | nil => simp [evalRest]
  | cons e' rest ih => simp only [List.cons_append, evalRest, ih]

theorem evalExpr_append (op : GdaSqlOperatorType) (first : GdaSqlExpr) {rest : List GdaSqlExpr}
    (hrest : rest ≠ []) (e : GdaSqlExpr) :
    evalExpr alg env (.cond op first (rest ++ [e]) none) =
      alg.binary op (evalExpr alg env (.cond op first rest none)) (evalExpr alg env e) := by
  cases rest with
  | nil => exact absurd rfl hrest
  | cons e' rest => simp [evalExpr, SqlAlgebra.castTo, evalRest_append]

def readValue (t : SqlExprTree) : V :=
  t.fold (valueActions alg env)

theorem evalExpr_buildExpr {t : SqlExprTree} (h : keepsMeaning t = true) :
    evalExpr alg env (buildExpr t) = readValue alg env t := by
  have hcast : ∀ (typeName : String) (e : SqlExprTree),
      (keepsMeaning e = true → evalExpr alg env (buildExpr e) = readValue alg env e) →
      keepsMeaning e = true → readsCast e = false →
      evalExpr alg env ((buildExpr e).setCastAs (some typeName)) =
        alg.cast typeName (readValue alg env e) := by
    intro typeName e ih he hc
    rw [evalExpr_setCastAs, setCastAs_self (castAs_of_keepsMeaning he hc), ih he]
  induction t with
  | leaf v => simp [buildExpr, readValue, Tree.fold, exprActions, valueActions, evalExpr,
      SqlAlgebra.castTo]
  | prefixed t e ih =>
    have he : keepsMeaning e = true := h
    have hv : evalExpr alg env (buildExpr (.prefixed t e)) =
        alg.unary t.prefixType (evalExpr alg env (buildExpr e)) := by
      simp [buildExpr, Tree.fold, exprActions, createUniExpr, evalExpr, SqlAlgebra.castTo]
    rw [hv, ih he]
    rfl
  | binary t l r ihl ihr =>
    simp only [keepsMeaning, Bool.and_eq_true] at h
    obtain ⟨⟨hl, hr⟩, hm⟩ := h
    have hread : readValue alg env (.binary t l r) =
      alg.binary t.binaryType (readValue alg env l) (readValue alg env r) := rfl
    rw [hread, ← ihl hl, ← ihr hr]
    rcases buildExpr_binary t l r with ⟨first, rest, castAs, hf, hbl, hb⟩ | ⟨-, hb⟩
    · simp only [hf, Bool.not_true, Bool.false_or, Bool.and_eq_true, Bool.not_eq_true'] at hm
      have hc := castAs_of_keepsMeaning hl hm.1
      have hu := (buildExpr_isUnary l).trans hm.2
      rw [hbl] at hc hu
      have hnone : castAs = none := hc
      have hrest : rest ≠ [] := by
        rintro rfl
        cases hu
      rw [hb, hbl, hnone]
      exact evalExpr_append alg env _ first hrest _
    · rw [hb]
      simp [evalExpr, evalRest, SqlAlgebra.castTo]
  | suffixed typeName e ih =>
    simp only [keepsMeaning, Bool.and_eq_true, Bool.not_eq_true'] at h
    exact hcast typeName e ih h.1 h.2
  | bracketed o c e ih =>
    cases c with
    | rp => exact ih h
    | asTypeRp typeName =>
      simp only [keepsMeaning, Bool.and_eq_true, Bool.not_eq_true'] at h
      exact hcast typeName e ih h.1 h.2

end Value

inductive SqlTerm where
  | atom (v : SqlAtom)
  | unary (op : GdaSqlOperatorType) (v : SqlTerm)
  | binary (op : GdaSqlOperatorType) (v w : SqlTerm)
  | cast (typeName : String) (v : SqlTerm)
  deriving DecidableEq

def termAlgebra : SqlAlgebra SqlTerm where
  unary := .unary
  binary := .binary
  cast := .cast

namespace SqlTerm

def size : SqlTerm → Nat
  | atom _ => 1
  | unary _ v => v.size + 1
  | binary _ v w => v.size + w.size + 1
  | cast _ v => v.size + 1

end SqlTerm

def builtTerm (e : GdaSqlExpr) : SqlTerm :=
  evalExpr termAlgebra .atom e

def readTerm (t : SqlExprTree) : SqlTerm :=
  readValue termAlgebra .atom t

theorem size_setCastAs (e : GdaSqlExpr) :
    (builtTerm (e.setCastAs none)).size ≤ (builtTerm e).size ∧
      (e.castAs.isSome = true → (builtTerm (e.setCastAs none)).size < (builtTerm e).size) := by
  have h : builtTerm e = termAlgebra.castTo e.castAs (builtTerm (e.setCastAs none)) :=
    evalExpr_castAs termAlgebra .atom e
  rw [h]
  cases e.castAs with
  | none => simp [SqlAlgebra.castTo]
  | some typeName => simp [SqlAlgebra.castTo, termAlgebra, SqlTerm.size]

theorem builtTerm_setCastAs (e : GdaSqlExpr) (typeName : String) :
    builtTerm (e.setCastAs (some typeName)) = .cast typeName (builtTerm (e.setCastAs none)) :=
  evalExpr_setCastAs termAlgebra .atom e typeName

theorem builtTerm_castAs (op : GdaSqlOperatorType) (first : GdaSqlExpr) (rest : List GdaSqlExpr)
    (castAs : Option String) : builtTerm (.cond op first rest castAs) =
      termAlgebra.castTo castAs (builtTerm (.cond op first rest none)) :=
  evalExpr_castAs termAlgebra .atom _

theorem builtTerm_unary (op : GdaSqlOperatorType) (first : GdaSqlExpr) :
    builtTerm (.cond op first [] none) = .unary op (builtTerm first) := by
  simp [builtTerm, evalExpr, SqlAlgebra.castTo, termAlgebra]

theorem builtTerm_two (op : GdaSqlOperatorType) (first e : GdaSqlExpr) :
    builtTerm (.cond op first [e] none) = .binary op (builtTerm first) (builtTerm e) := by
  simp [builtTerm, evalExpr, evalRest, SqlAlgebra.castTo, termAlgebra]

theorem builtTerm_append (op : GdaSqlOperatorType) (first : GdaSqlExpr) {rest : List GdaSqlExpr}
    (hrest : rest ≠ []) (e : GdaSqlExpr) : builtTerm (.cond op first (rest ++ [e]) none) =
      .binary op (builtTerm (.cond op first rest none)) (builtTerm e) :=
  evalExpr_append termAlgebra .atom op first hrest e

theorem size_append (op : GdaSqlOperatorType) (first : GdaSqlExpr) (rest : List GdaSqlExpr)
    (castAs : Option String) (e : GdaSqlExpr) :
    (builtTerm (.cond op first (rest ++ [e]) castAs)).size ≤
      (builtTerm (.cond op first rest castAs)).size + (builtTerm e).size + 1 := by
  have h : (builtTerm (.cond op first (rest ++ [e]) none)).size ≤
      (builtTerm (.cond op first rest none)).size + (builtTerm e).size + 1 := by
    by_cases hrest : rest = []
    · subst hrest
      rw [List.nil_append, builtTerm_two, builtTerm_unary]
      simp only [SqlTerm.size]
      omega
    · rw [builtTerm_append op first hrest]
      exact Nat.le_refl _
  rw [builtTerm_castAs op first (rest ++ [e]), builtTerm_castAs op first rest]
  cases castAs with
  | none => exact h
  | some typeName =>
    simp only [SqlAlgebra.castTo, termAlgebra, SqlTerm.size]
    omega

theorem size_buildExpr (t : SqlExprTree) :
    (builtTerm (buildExpr t)).size ≤ (readTerm t).size := by
  have hcast : ∀ (typeName : String) (e : SqlExprTree),
      (builtTerm (buildExpr e)).size ≤ (readTerm e).size →
      (builtTerm ((buildExpr e).setCastAs (some typeName))).size ≤ (readTerm e).size + 1 := by
    intro typeName e ih
    have hs := (size_setCastAs (buildExpr e)).1
    rw [builtTerm_setCastAs]
    simp only [SqlTerm.size]
    omega
  induction t with
  | leaf v => simp [buildExpr, Tree.fold, exprActions, builtTerm, evalExpr, SqlAlgebra.castTo,
      readTerm, readValue, valueActions, SqlTerm.size]
  | prefixed t e ih =>
    have hb : builtTerm (buildExpr (.prefixed t e)) = .unary t.prefixType (builtTerm (buildExpr e)) :=
      builtTerm_unary _ _
    have hr : readTerm (.prefixed t e) = .unary t.prefixType (readTerm e) := rfl
    rw [hb, hr]
    simp only [SqlTerm.size]
    omega
  | binary t l r ihl ihr =>
    have hr : readTerm (.binary t l r) = .binary t.binaryType (readTerm l) (readTerm r) := rfl
    rw [hr]
    simp only [SqlTerm.size]
    rcases buildExpr_binary t l r with ⟨first, rest, castAs, -, hbl, hb⟩ | ⟨-, hb⟩
    · have hs := size_append t.binaryType first rest castAs (buildExpr r)
      rw [hbl] at ihl
      rw [hb]
      omega
    · rw [hb, builtTerm_two]
      simp only [SqlTerm.size]
      omega
  | suffixed typeName e ih => exact hcast typeName e ih
  | bracketed o c e ih =>
    cases c with
    | rp => exact ih
    | asTypeRp typeName => exact hcast typeName e ih

theorem keepsMeaning_of_term {t : SqlExprTree} (h : builtTerm (buildExpr t) = readTerm t) :
    keepsMeaning t = true := by
  have hcast : ∀ (typeName : String) (e : SqlExprTree),
      (builtTerm (buildExpr e) = readTerm e → keepsMeaning e = true) →
      builtTerm ((buildExpr e).setCastAs (some typeName)) = .cast typeName (readTerm e) →
      (keepsMeaning e && !readsCast e) = true := by
    intro typeName e ih h
    rw [builtTerm_setCastAs] at h
    have he : builtTerm ((buildExpr e).setCastAs none) = readTerm e := (SqlTerm.cast.inj h).2
    have hs := size_setCastAs (buildExpr e)
    have hle := size_buildExpr e
    -- a cast that is replaced would make the built term the smaller one
    have hnone : (buildExpr e).castAs = none := by
      by_contra hc
      have hlt := hs.2 (Option.isSome_iff_ne_none.2 hc)
      rw [he] at hlt
      omega
    have hread : readsCast e = false := by
      by_contra hc
      have hsome := castAs_of_readsCast (Bool.of_not_eq_false hc)
      rw [hnone] at hsome
      cases hsome
    rw [setCastAs_self hnone] at he
    simp [ih he, hread]
  induction t with
  | leaf v => rfl
  | prefixed t e ih =>
    have hb : builtTerm (buildExpr (.prefixed t e)) = .unary t.prefixType (builtTerm (buildExpr e)) :=
      builtTerm_unary _ _
    rw [hb] at h
    exact ih (SqlTerm.unary.inj h).2
  | binary t l r ihl ihr =>
    have hr : readTerm (.binary t l r) = .binary t.binaryType (readTerm l) (readTerm r) := rfl
    rw [hr] at h
    rcases buildExpr_binary t l r with ⟨first, rest, castAs, hf, hbl, hb⟩ | ⟨hf, hb⟩
    · rw [hb, builtTerm_castAs] at h
      -- the result of the flattened operation is not cast
      cases castAs with
      | some typeName => cases h
      | none =>
        have h : builtTerm (.cond t.binaryType first (rest ++ [buildExpr r]) none) =
          .binary t.binaryType (readTerm l) (readTerm r) := h
        by_cases hrest : rest = []
        · subst hrest
          rw [List.nil_append, builtTerm_two] at h
          have hle := size_buildExpr l
          rw [hbl, builtTerm_unary, ← (SqlTerm.binary.inj h).2.1] at hle
          simp only [SqlTerm.size] at hle
          omega
        · rw [builtTerm_append _ _ hrest, ← hbl] at h
          obtain ⟨-, hl, hr⟩ := SqlTerm.binary.inj h
          have hcast : readsCast l = false := by
            by_contra hc
            have hsome := castAs_of_readsCast (Bool.of_not_eq_false hc)
            rw [hbl] at hsome
            cases hsome
          have hunary : readsUnary l = false := by
            rw [← buildExpr_isUnary, hbl]
            cases rest with
            | nil => exact absurd rfl hrest
            | cons e rest => rfl
          simp [keepsMeaning, ihl hl, ihr hr, hcast, hunary]
    · rw [hb, builtTerm_two] at h
      obtain ⟨-, hl, hr⟩ := SqlTerm.binary.inj h
      simp [keepsMeaning, ihl hl, ihr hr, hf]
  | suffixed typeName e ih => exact hcast typeName e ih h
  | bracketed o c e ih =>
    cases c with
    | rp => exact ih h
    | asTypeRp typeName => exact hcast typeName e ih h

/-- What the parser builds has the value of what is read, whatever the operators and
casts compute, exactly for the expressions that keep their meaning. -/
theorem parseExpr_value_iff (tokens : List SqlExprToken) :
    (∀ (V : Type) (alg : SqlAlgebra V) (env : SqlAtom → V),
      (parseExpr tokens).map (evalExpr alg env) =
        parse sqlExprGrammar (valueActions alg env) tokens) ↔
    ∀ t, readExpr tokens = some t → keepsMeaning t = true := by
  have hbuild : parseExpr tokens = (readExpr tokens).map buildExpr :=
    parse_eq_fold sqlExprGrammar exprActions tokens
  have hvalue : ∀ (V : Type) (alg : SqlAlgebra V) (env : SqlAtom → V),
      parse sqlExprGrammar (valueActions alg env) tokens =
        (readExpr tokens).map (readValue alg env) :=
    fun V alg env => parse_eq_fold sqlExprGrammar (valueActions alg env) tokens
  cases hread : readExpr tokens with
  | none => simp [hbuild, hvalue, hread]
  | some t =>
    simp only [hbuild, hvalue, hread, Option.map_some, Option.some.injEq, forall_eq']
    constructor
    · intro h
      exact keepsMeaning_of_term (h SqlTerm termAlgebra .atom)
    · intro h V alg env
      exact evalExpr_buildExpr alg env h

def integerAlgebra : SqlAlgebra Int where
  unary
    | .minus, v => -v
    | _, v => v
  binary
    | .minus, v, w => v - w
    | .star, v, w => v * w
    | .div, v, w => v / w
    | .rem, v, w => v % w
    | _, v, w => v + w
  cast _ v := v

/-- With `1` for `a` and for `b`, `- a - b` is built as an expression of value `0`. -/
theorem negated_minuend_loses_its_sign :
    ¬ ∀ (tokens : List SqlExprToken) (V : Type) (alg : SqlAlgebra V) (env : SqlAtom → V),
      (parseExpr tokens).map (evalExpr alg env) =
        parse sqlExprGrammar (valueActions alg env) tokens := by
  intro h
  have hv := h [.operator .minus, .leaf (some "a"), .operator .minus, .leaf (some "b")]
    Int integerAlgebra fun _ => 1
  have hbuilt : (parseExpr [.operator .minus, .leaf (some "a"), .operator .minus,
    .leaf (some "b")]).map (evalExpr integerAlgebra fun _ => 1) = some 0 := rfl
  have hread : parse sqlExprGrammar (valueActions integerAlgebra fun _ => 1) [.operator .minus,
    .leaf (some "a"), .operator .minus, .leaf (some "b")] = some (-2) := rfl
  rw [hbuilt, hread] at hv
  exact absurd hv (by decide)

end LibGda
