import Mathlib.Data.List.Nodup

/-! `gda_rewrite_sql_statement_for_null_parameters`: comparisons with a NULL parameter become IS NULL
or IS NOT NULL, in the tree of a parsed statement and in the texts of an unknown one. -/

namespace LibGda.NullParams

inductive HolderValue where
  | null
  | other
  | unset
  deriving DecidableEq

structure GdaHolder where
  id : String
  value : HolderValue

/-- The holders of a `GdaSet`; no set is one without holders. -/
abbrev GdaSet := List GdaHolder

/-- Some value is of type `GDA_TYPE_NULL`; there is nothing to do otherwise. -/
def hasNull (params : GdaSet) : Bool := params.any fun h => h.value = .null

/-- The parameter of that name has a value of type `GDA_TYPE_NULL`. -/
def isNull (params : GdaSet) (name : String) : Bool :=
  match params.find? fun h => h.id = name with
  | some holder => holder.value = .null
  | none => false

theorem isNull_of_not_hasNull {params : GdaSet} (h : hasNull params = false) (name : String) :
    isNull params name = false := by
  rw [isNull]
  split
  · rename_i holder hfind
    rw [hasNull, List.any_eq_false] at h
    simpa using h holder (List.mem_of_find?_eq_some hfind)
  · rfl

inductive SqlOperator where
  | and | or | eq | is | like | between | gt | lt | geq | leq | diff | regexp | regexpCi
  | notRegexp | notRegexpCi | similar | isNull | isNotNull | not | in | notIn | concat | plus
  | minus | star | div | rem | bitAnd | bitOr | bitNot | notLike | ilike | notILike
  deriving DecidableEq

inductive PartKind where
  | expr (paramSpec : Option String) (value : Option String)
  | operation (type : SqlOperator)
  | other (contents : String)

inductive Part where
  | node (ptr : Nat) (kind : PartKind) (parts : List Part)

namespace Part

def ptr : Part → Nat
  | node ptr _ _ => ptr

def kind : Part → PartKind
  | node _ kind _ => kind

def parts : Part → List Part
  | node _ _ parts => parts

mutual

def ptrs : Part → List Nat
  | node ptr _ parts => ptr :: ptrsOf parts

def ptrsOf : List Part → List Nat
  | [] => []
  | part :: parts => part.ptrs ++ ptrsOf parts

end

def IsComparison (op : SqlOperator) : Prop := op = .eq ∨ op = .diff

instance (op : SqlOperator) : Decidable (IsComparison op) :=
  inferInstanceAs (Decidable (_ ∨ _))

mutual

/-- What `gda_sql_statement_check_structure` asks of the comparisons. -/
def Binary : Part → Prop
  | node _ kind parts =>
    (∀ op, kind = .operation op → IsComparison op → parts.length = 2) ∧ BinaryOf parts

def BinaryOf : List Part → Prop
  | [] => True
  | part :: parts => part.Binary ∧ BinaryOf parts

end

def operationOf : PartKind → List Part → Option (SqlOperator × List Nat)
  | .operation op, parts => some (op, parts.map ptr)
  | _, _ => none

/-- `oexpr`: the second operand for the first one, and the first one for the others. -/
def otherOperand (operands : List Nat) (part : Nat) : Option Nat :=
  if operands.head? = some part then operands[1]? else operands.head?

/-- `null_param_foreach_func`, with the `expr_list`. -/
def nullParamFunc (params : GdaSet) (parent : Option (SqlOperator × List Nat)) (part : Nat)
    (kind : PartKind) (exprList : List Nat) : List Nat :=
  match kind, parent with
  | .expr (some name) _, some (op, operands) =>
    if IsComparison op ∧ isNull params name = true then
      match otherOperand operands part with
      | some oexpr => if oexpr ∈ exprList then exprList else part :: exprList
      | none => exprList
    else exprList
  | _, _ => exprList

mutual

/-- `gda_sql_any_part_foreach` with it: the parts of a part come first. -/
def visit (params : GdaSet) (parent : Option (SqlOperator × List Nat)) :
    Part → List Nat → List Nat
  | node ptr kind parts, exprList =>
    nullParamFunc params parent ptr kind (visitAll params (operationOf kind parts) parts exprList)

def visitAll (params : GdaSet) (parent : Option (SqlOperator × List Nat)) :
    List Part → List Nat → List Nat
  | [], exprList => exprList
  | part :: parts, exprList =>
    visitAll params parent parts (visit params parent part exprList)

end

def nullOperator (op : SqlOperator) : SqlOperator := if op = .eq then .isNull else .isNotNull

mutual

def remove (expr : Nat) : Part → Part
  | node ptr kind parts =>
    match operationOf kind parts with
    | some (op, operands) =>
      if expr ∈ operands then
        node ptr (.operation (nullOperator op)) (parts.filter fun p => p.ptr ≠ expr)
      else node ptr kind (removeIn expr parts)
    | none => node ptr kind (removeIn expr parts)

def removeIn (expr : Nat) : List Part → List Part
  | [] => []
  | part :: parts => part.remove expr :: removeIn expr parts

end

end Part

structure ParsedStatement where
  contents : Part
  nodup : contents.ptrs.Nodup
  binary : contents.Binary

/-- Both passes over a parsed statement, with `out_modified`. -/
def rewriteParsed (params : GdaSet) (s : ParsedStatement) : Part × Bool :=
  let exprList := if hasNull params then s.contents.visit params none [] else []
  (exprList.foldl (fun part expr => part.remove expr) s.contents, !exprList.isEmpty)

section Unknown

def isBlank (c : Char) : Bool := c ∈ [' ', '\t', '\n', '\r']

abbrev Literal := { t : List Char // ∃ c, t.getLast? = some c ∧ isBlank c = false ∧ c ≠ '=' }

inductive UnknownExpr where
  | text (value : List Char)
  | param (name : String) (value : Option Literal)

/-- An expression with whether it is in the `expr_list`. -/
structure Marked where
  expr : UnknownExpr
  removed : Bool

inductive TextScan where
  | blank
  | stops
  | comparison (rewritten : List Char)

def scanText (str : List Char) : TextScan :=
  match str.reverse.dropWhile isBlank with
  | [] => .blank
  | '=' :: '!' :: before => .comparison (before.reverse ++ " IS NOT NULL".toList)
  | '=' :: before => .comparison (before.reverse ++ " IS NULL".toList)
  | _ => .stops

def walkBack : List Marked → Option (List Marked)
  | [] => none
  | m :: before =>
    match m.expr with
    | .text value =>
      match scanText value with
      | .stops => none
      | .comparison rewritten => some ({ m with expr := .text rewritten } :: before)
      | .blank => (walkBack before).map fun before => { m with removed := true } :: before
    -- a literal stops the scan
    | .param _ _ => none

/-- `null_param_unknown_foreach_func` for each expression, with those before it in reverse order. -/
def visitUnknown (params : GdaSet) : List UnknownExpr → List Marked → List Marked
  | [], visited => visited.reverse
  | .text value :: rest, visited =>
    visitUnknown params rest ({ expr := .text value, removed := false } :: visited)
  | .param name value :: rest, visited =>
    if isNull params name then
      match walkBack visited with
      | some visited =>
        visitUnknown params rest ({ expr := .param name value, removed := true } :: visited)
      | none =>
        visitUnknown params rest ({ expr := .param name value, removed := false } :: visited)
    else visitUnknown params rest ({ expr := .param name value, removed := false } :: visited)

def markedUnknown (params : GdaSet) (exprs : List UnknownExpr) : List Marked :=
  if hasNull params then visitUnknown params exprs []
  else exprs.map fun expr => { expr, removed := false }

/-- The expressions which are left, with `out_modified`. -/
def rewriteUnknown (params : GdaSet) (exprs : List UnknownExpr) : List UnknownExpr × Bool :=
  let visited := markedUnknown params exprs
  ((visited.filter fun m => !m.removed).map Marked.expr, visited.any Marked.removed)

end Unknown

end LibGda.NullParams

/-! The texts of an unknown statement: which of its comparisons with a NULL parameter are changed, where
the comparisons are what the database reads in the texts. -/

namespace LibGda.NullParams

inductive Symbol where
  | eq | eqEq | bangEq | ltGt
  deriving DecidableEq

namespace Symbol

def text : Symbol → List Char
  | eq => ['=']
  | eqEq => ['=', '=']
  | bangEq => ['!', '=']
  | ltGt => ['<', '>']

def nullTest : Symbol → List Char
  | eq | eqEq => " IS NULL".toList
  | bangEq | ltGt => " IS NOT NULL".toList

end Symbol

structure Operand where
  right : Option Symbol
  left : Bool

def trimmed (t : List Char) : List Char := (t.reverse.dropWhile isBlank).reverse

def frontText (pieces : List (List Char)) : List Char := pieces.reverse.flatten

def EndsWith (text : List Char) (symbol : Symbol) : Prop :=
  ∃ before, trimmed text = before ++ symbol.text ∧
    ∀ c ∈ before.getLast?, c ∉ ['<', '>', '!', '=']

/-- The operands which the parameters are, in their order; the texts since the last one are in reverse
order. -/
def Reading : List UnknownExpr → List (List Char) → List Operand → Prop
  | [], _, operands => operands = []
  | .text value :: rest, pieces, operands => Reading rest (value :: pieces) operands
  | .param _ _ :: rest, pieces, operands =>
    ∃ operand others, operands = operand :: others ∧
      (∀ symbol ∈ operand.right, EndsWith (frontText pieces) symbol) ∧ Reading rest [] others

structure UnknownStatement where
  exprs : List UnknownExpr
  operands : List Operand
  reading : Reading exprs [] operands

abbrev Left := List Char × Option Bool

def expectedFront (pieces : List (List Char)) (null : Bool) (operand : Operand) : Left :=
  match null, operand.right with
  | true, some symbol =>
    let text := trimmed (frontText pieces)
    (text.take (text.length - symbol.text.length) ++ symbol.nullTest, some false)
  | _, _ => (frontText pieces, some true)

def expected (params : GdaSet) : List UnknownExpr → List (List Char) → List Operand → List Left
  | [], pieces, _ => [(frontText pieces, none)]
  | .text value :: rest, pieces, operands => expected params rest (value :: pieces) operands
  | .param _ _ :: _, _, [] => []
  | .param name _ :: rest, pieces, operand :: operands =>
    expectedFront pieces (isNull params name) operand :: expected params rest [] operands

def view : List Marked → List (List Char) → List Left
  | [], pieces => [(frontText pieces, none)]
  | m :: rest, pieces =>
    match m.expr with
    | .text value => view rest (if m.removed then pieces else value :: pieces)
    | .param _ _ => (frontText pieces, some !m.removed) :: view rest []

def NoneLeft (params : GdaSet) : List UnknownExpr → List Operand → Prop
  | [], _ => True
  | .text _ :: rest, operands => NoneLeft params rest operands
  | .param _ _ :: _, [] => True
  | .param name _ :: rest, operand :: operands =>
    (isNull params name = true → operand.left = false) ∧ NoneLeft params rest operands

structure UnknownRewritten (params : GdaSet) (s : UnknownStatement) : Prop where
  texts : view (markedUnknown params s.exprs) [] = expected params s.exprs [] s.operands
  left : NoneLeft params s.exprs s.operands
  modified : (rewriteUnknown params s.exprs).2 = true ↔ (rewriteUnknown params s.exprs).1 ≠ s.exprs

def lastPiece (pieces : List (List Char)) : List Char :=
  ((pieces.map trimmed).find? fun t => t ≠ []).getD []

/-- A NULL parameter stands behind an `=` exactly as the right operand of `=`, or of a `!=` in one
expression, and is no left operand. -/
def Agrees (pieces : List (List Char)) (operand : Operand) : Prop :=
  operand.left = false ∧
    match operand.right with
    | none => (trimmed (frontText pieces)).getLast? ≠ some '='
    | some .eq => True
    | some .bangEq => ['!', '='] <:+ lastPiece pieces
    | some .eqEq => False
    | some .ltGt => False

def AllAgree (params : GdaSet) : List UnknownExpr → List (List Char) → List Operand → Prop
  | [], _, _ => True
  | .text value :: rest, pieces, operands => AllAgree params rest (value :: pieces) operands
  | .param _ _ :: _, _, [] => True
  | .param name _ :: rest, pieces, operand :: operands =>
    (isNull params name = true → Agrees pieces operand) ∧ AllAgree params rest [] operands

section Scan

variable {a b p u before : List Char} {c : Char} {pieces : List (List Char)} {operand : Operand}

theorem trimmed_append : trimmed (a ++ b) = if trimmed b = [] then trimmed a else a ++ trimmed b := by
  have hempty : (b.reverse.dropWhile isBlank).isEmpty = true ↔ trimmed b = [] := by
    rw [List.isEmpty_iff, trimmed, List.reverse_eq_nil_iff]
  rw [trimmed, List.reverse_append, List.dropWhile_append]
  by_cases hb : trimmed b = []
  · rw [if_pos (hempty.2 hb), if_pos hb]
    rfl
  · rw [if_neg (fun h => hb (hempty.1 h)), if_neg hb, List.reverse_append, List.reverse_reverse]
    rfl

theorem frontText_cons (p : List Char) (pieces : List (List Char)) :
    frontText (p :: pieces) = frontText pieces ++ p := by
  simp [frontText]

theorem trimmed_front (p : List Char) (pieces : List (List Char)) :
    trimmed (frontText (p :: pieces)) =
      if trimmed p = [] then trimmed (frontText pieces) else frontText pieces ++ trimmed p := by
  rw [frontText_cons, trimmed_append]

theorem lastPiece_cons (p : List Char) (pieces : List (List Char)) :
    lastPiece (p :: pieces) = if trimmed p = [] then lastPiece pieces else trimmed p := by
  rw [lastPiece, List.map_cons, List.find?_cons]
  by_cases hp : trimmed p = []
  · simp [hp, lastPiece]
  · simp [hp]

theorem scanText_eq (p : List Char) : scanText p =
    match (trimmed p).reverse with
    | [] => .blank
    | '=' :: '!' :: before => .comparison (before.reverse ++ " IS NOT NULL".toList)
    | '=' :: before => .comparison (before.reverse ++ " IS NULL".toList)
    | _ => .stops := by
  rw [scanText, trimmed, List.reverse_reverse]

theorem scanText_stops (hp : trimmed p = u ++ [c]) (hc : c ≠ '=') : scanText p = .stops := by
  rw [scanText_eq, hp, List.reverse_append]
  change (match c :: u.reverse with
    | [] => TextScan.blank
    | '=' :: '!' :: before => .comparison (before.reverse ++ " IS NOT NULL".toList)
    | '=' :: before => .comparison (before.reverse ++ " IS NULL".toList)
    | _ => .stops) = _
  split
  · rename_i heq
    cases heq
  · rename_i heq
    exact absurd (List.cons.inj heq).1 hc
  · rename_i heq
    exact absurd (List.cons.inj heq).1 hc
  · rfl

theorem scanText_diff (hp : trimmed p = u ++ ['!', '=']) :
    scanText p = .comparison (u ++ " IS NOT NULL".toList) := by
  rw [scanText_eq, hp, List.reverse_append]
  change TextScan.comparison (u.reverse.reverse ++ _) = _
  rw [List.reverse_reverse]

theorem scanText_equal (hp : trimmed p = u ++ ['=']) (hu : u.getLast? ≠ some '!') :
    scanText p = .comparison (u ++ " IS NULL".toList) := by
  rw [scanText_eq, hp, List.reverse_append]
  change (match '=' :: u.reverse with
    | [] => TextScan.blank
    | '=' :: '!' :: before => .comparison (before.reverse ++ " IS NOT NULL".toList)
    | '=' :: before => .comparison (before.reverse ++ " IS NULL".toList)
    | _ => .stops) = _
  split
  · rename_i heq
    cases heq
  · rename_i before heq
    refine absurd ?_ hu
    rw [← List.head?_reverse, (List.cons.inj heq).2]
    rfl
  · rename_i before _ heq
    rw [← (List.cons.inj heq).2, List.reverse_reverse]
  · rename_i hother
    exact absurd rfl (hother u.reverse)

def kept (value : List Char) : Marked where
  expr := .text value
  removed := false

def markedText : List Marked → List Char
  | [] => []
  | m :: rest =>
    match m.expr with
    | .text value => if m.removed then markedText rest else markedText rest ++ value
    | .param _ _ => markedText rest

theorem markedText_kept (pieces : List (List Char)) :
    markedText (pieces.map kept) = frontText pieces := by
  induction pieces with
  | nil => rfl
  | cons p pieces ih =>
    rw [frontText_cons, ← ih]
    rfl

theorem walkBack_cons (hp : trimmed p ≠ []) : walkBack ((p :: pieces).map kept) =
    match scanText p with
    | .comparison rewritten => some (kept rewritten :: pieces.map kept)
    | _ => none := by
  rw [List.map_cons, walkBack]
  change (match scanText p with
    | .stops => none
    | .comparison rewritten => some (kept rewritten :: pieces.map kept)
    | .blank => (walkBack (pieces.map kept)).map fun before =>
      { kept p with removed := true } :: before) = _
  cases hscan : scanText p with
  | stops => rfl
  | comparison rewritten => rfl
  | blank =>
    rw [scanText_eq] at hscan
    split at hscan
    · rename_i hnil
      exact absurd (List.reverse_eq_nil_iff.1 hnil) hp
    · cases hscan
    · cases hscan
    · cases hscan

theorem walkBack_blank (hp : trimmed p = []) : walkBack ((p :: pieces).map kept) =
    (walkBack (pieces.map kept)).map fun before => { kept p with removed := true } :: before := by
  rw [List.map_cons, walkBack]
  change (match scanText p with
    | .stops => none
    | .comparison rewritten => some (kept rewritten :: pieces.map kept)
    | .blank => (walkBack (pieces.map kept)).map fun before =>
      { kept p with removed := true } :: before) = _
  have hscan : scanText p = .blank := by
    rw [scanText_eq, hp]
    rfl
  rw [hscan]

theorem walkBack_none (h : (trimmed (frontText pieces)).getLast? ≠ some '=') :
    walkBack (pieces.map kept) = none := by
  induction pieces with
  | nil => rfl
  | cons p pieces ih =>
    rw [trimmed_front] at h
    by_cases hp : trimmed p = []
    · rw [if_pos hp] at h
      rw [walkBack_blank hp, ih h]
      rfl
    · rw [if_neg hp] at h
      rw [walkBack_cons hp]
      obtain ⟨u, c, hu⟩ := (List.eq_nil_or_concat' (trimmed p)).resolve_left hp
      have hc : c ≠ '=' := by
        intro hc
        apply h
        rw [hu, hc]
        simp
      rw [scanText_stops hu hc]

theorem walkBack_some (h : trimmed (frontText pieces) = before ++ ['=']) :
    ∃ ms, walkBack (pieces.map kept) = some ms ∧
      if ['!', '='] <:+ lastPiece pieces then
        ∃ b, before = b ++ ['!'] ∧ markedText ms = b ++ " IS NOT NULL".toList
      else markedText ms = before ++ " IS NULL".toList := by
  induction pieces with
  | nil =>
    have hlen := congrArg List.length h
    simp [frontText, trimmed] at hlen
  | cons p pieces ih =>
    rw [trimmed_front] at h
    rw [lastPiece_cons]
    by_cases hp : trimmed p = []
    · rw [if_pos hp] at h ⊢
      obtain ⟨ms, hms, htext⟩ := ih h
      rw [walkBack_blank hp, hms]
      exact ⟨_, rfl, htext⟩
    · rw [if_neg hp] at h ⊢
      obtain ⟨u, c, hu⟩ := (List.eq_nil_or_concat' (trimmed p)).resolve_left hp
      rw [hu, ← List.append_assoc] at h
      obtain ⟨hbefore, hc⟩ := List.append_inj' h rfl
      obtain rfl := (List.cons.inj hc).1
      rw [walkBack_cons hp]
      by_cases hdiff : ['!', '='] <:+ trimmed p
      · obtain ⟨v, hv⟩ := hdiff
        have hv' : u = v ++ ['!'] := by
          have heq : v ++ ['!'] ++ ['='] = u ++ ['='] := by
            rw [← hu, ← hv, List.append_assoc]
            rfl
          exact (List.append_cancel_right heq).symm
        have hsuffix : ['!', '='] <:+ trimmed p := ⟨v, hv⟩
        simp only [if_pos hsuffix, scanText_diff hv.symm]
        refine ⟨_, rfl, frontText pieces ++ v, ?_, ?_⟩
        · rw [← hbefore, hv', List.append_assoc]
        · change markedText (pieces.map kept) ++ _ = _
          rw [markedText_kept, List.append_assoc]
      · have hlast : u.getLast? ≠ some '!' := by
          intro hlast
          obtain ⟨v, hv⟩ := List.getLast?_eq_some_iff.1 hlast
          apply hdiff
          refine ⟨v, ?_⟩
          rw [hu, hv, List.append_assoc]
          rfl
        simp only [if_neg hdiff, scanText_equal hu hlast]
        refine ⟨_, rfl, ?_⟩
        change markedText (pieces.map kept) ++ _ = _
        rw [markedText_kept, ← hbefore, List.append_assoc]

end Scan

end LibGda.NullParams
