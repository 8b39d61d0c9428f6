import LibGda.ParamSpec

/-! `gda_sql_parser_parse_string`: the tokens of a statement go to one of the two grammars, and what
the PARSE grammar refuses is read again with the DELIMIT one. -/

namespace LibGda

open TerminatedBuffer

structure UnknownExpr (T : Type) where
  value : TokenValue
  paramSpec : Option (GdaSqlParamSpec T)
  deriving DecidableEq

/-- A statement without its text; `S` is for those of the PARSE grammar. -/
inductive GdaSqlParsedStatement (T S : Type) where
  | unknown (expressions : List (UnknownExpr T))
  | known (contents : S)
  deriving DecidableEq

structure GdaStatement (T S : Type) where
  contents : GdaSqlParsedStatement T S
  sql : List Char
  deriving DecidableEq

def GdaStatement.isUseless {T S : Type} (stmt : GdaStatement T S) : Bool :=
  match stmt.contents with
  | .known _ => false
  | .unknown expressions =>
    expressions.all fun expr =>
      expr.paramSpec.isNone && (expr.value.getD []).all fun c => c ∈ [' ', '\t', '\n', '\x0c', '\r']

inductive GrammarError where
  | syntaxError
  | overflowError
  deriving DecidableEq

/-- A parser generated by lemon: its stack, the callback which a token made it call, and what it
put in `parsed_statement`. No statement is without tokens. -/
structure LemonParser (G Stmt : Type) where
  start : G
  push : G → TokenType → TokenValue → G
  finish : G → G
  callback : G → Option GrammarError
  parsedStatement : G → Option Stmt
  noTokens : parsedStatement (finish start) = none

namespace Delimiter

variable {T : Type} (types : GTypes T)

structure Bracket (T : Type) where
  value : TokenValue
  paramSpec : Option (GdaSqlParamSpec T)

inductive Pending (T : Type) where
  | nothing
  | unspecVal
  | value (v : TokenValue)
  | bracket (b : Bracket T)
  | complete
  | failed

structure Stack (T : Type) where
  expressions : List (UnknownExpr T)
  pending : Pending T

def Stack.start : Stack T := { expressions := [], pending := .nothing }

def Stack.add (s : Stack T) (expr : UnknownExpr T) : Stack T :=
  { expressions := s.expressions ++ [expr], pending := .nothing }

def Stack.fail (s : Stack T) : Stack T := { s with pending := .failed }

def Stack.reduced (s : Stack T) : Stack T :=
  match s.pending with
  | .value v => s.add { value := v, paramSpec := none }
  | _ => s

/-- The tokens of `expr` and of the end of `stmt`; all which are not tokens of the grammar are given
to it as RAWSTRING. -/
def Stack.pushToken (s : Stack T) (type : TokenType) (value : TokenValue) : Stack T :=
  match type with
  | .string | .textual | .integer | .float => { s with pending := .value value }
  | .unspecVal => { s with pending := .unspecVal }
  | .simpleParam => s.add { value := none, paramSpec := some (.new types value) }
  | .lsBracket | .rsBracket | .pName | .pDescr | .pType | .pNullOk => s.fail
  | .semi | .endOfFile => if s.expressions = [] then s.fail else { s with pending := .complete }
  | _ => s.add { value := value, paramSpec := none }

/-- The actions of `paramspec`, and the bracket which ends it. -/
def Stack.pushProperty (s : Stack T) (b : Bracket T) (type : TokenType) (value : TokenValue) :
    Stack T :=
  let pspec := b.paramSpec.getD (.empty types)
  match type with
  | .pName => { s with pending := .bracket { b with paramSpec := some (pspec.takeName value) } }
  | .pDescr => { s with pending := .bracket { b with paramSpec := some (pspec.takeDescr value) } }
  | .pType =>
    { s with pending := .bracket { b with paramSpec := some (pspec.takeType types value) } }
  | .pNullOk => { s with pending := .bracket { b with paramSpec := some (pspec.takeNullok value) } }
  | .rsBracket => s.add { value := b.value, paramSpec := b.paramSpec }
  | _ => s.fail

def Stack.push (s : Stack T) (type : TokenType) (value : TokenValue) : Stack T :=
  match s.pending, type with
  | .nothing, _ => s.pushToken types type value
  | .value v, .lsBracket => { s with pending := .bracket { value := v, paramSpec := none } }
  | .value _, _ => s.reduced.pushToken types type value
  | .unspecVal, .lsBracket => { s with pending := .bracket { value := none, paramSpec := none } }
  | .unspecVal, _ => s.fail
  | .bracket b, _ => s.pushProperty types b type value
  | .complete, _ => s.fail
  | .failed, _ => s

def Stack.finish (s : Stack T) : Stack T :=
  match s.pending with
  | .complete => s
  | _ => s.fail

def Stack.callback (s : Stack T) : Option GrammarError :=
  match s.pending with
  | .failed => some .syntaxError
  | _ => none

def Stack.parsedStatement {S : Type} (s : Stack T) : Option (GdaSqlParsedStatement T S) :=
  match s.pending with
  | .complete => some (.unknown s.expressions)
  | _ => none

def grammar (S : Type) : LemonParser (Stack T) (GdaSqlParsedStatement T S) where
  start := .start
  push := Stack.push types
  finish := Stack.finish
  callback := Stack.callback
  parsedStatement := Stack.parsedStatement
  noTokens := rfl

end Delimiter

/-- What `gda_sql_parser_set_syntax_error` and its sibling record. -/
structure RecordedError where
  type : GrammarError
  line : Nat
  col : Nat
  deriving DecidableEq

inductive GdaSqlParserError where
  | emptySql
  /-- `none`: nothing was recorded. -/
  | parse (recorded : Option RecordedError)
  deriving DecidableEq

namespace GdaSqlParser

/-- `get_position`, with lines and columns counted from 1. -/
def position (parser : GdaSqlParser) : Nat × Nat :=
  (parser.sql.1.take parser.context.lastTokenStart).foldl
    (fun p c => if c = '\n' then (p.1 + 1, 1) else (p.1, p.2 + 1)) (1, 1)

def recordError (parser : GdaSqlParser) (error : Option RecordedError) (type : GrammarError) :
    RecordedError :=
  error.getD { type := type, line := parser.position.1, col := parser.position.2 }

end GdaSqlParser

structure ParseState (G : Type) where
  tokens : StatementTokens
  grammar : G
  error : Option RecordedError

namespace ParseState

variable {G Stmt : Type} (lemon : LemonParser G Stmt)

def noteCallback (s : ParseState G) : ParseState G :=
  match lemon.callback s.grammar with
  | none => s
  | some type => { s with error := some (s.tokens.parser.recordError s.error type) }

def parseTokens : Nat → ParseState G → Except ScanFault (ParseState G)
  | 0, _ => .error .outOfFuel
  | fuel + 1, s => do
    let (tokens, value) ← s.tokens.nextToken
    if tokens.parser.context.tokenType = .illegal then
      return { s with
        tokens := tokens
        error := some (tokens.parser.recordError s.error .syntaxError) }
    else
      let s :=
        if tokens.parser.passes then
          noteCallback lemon
            { s with
              tokens := tokens
              grammar := lemon.push s.grammar tokens.parser.context.tokenType value }
        else { s with tokens := tokens }
      if tokens.ended ∨ s.error.isSome then return s else parseTokens fuel s

def finish (s : ParseState G) : ParseState G :=
  noteCallback lemon { s with grammar := lemon.finish s.grammar }

end ParseState

theorem CString.suffix {l : List Char} (h : '\x00' ∉ l) {l' : List Char} (hs : l' <:+ l) :
    '\x00' ∉ l' :=
  fun hmem => h (hs.subset hmem)

def GdaSqlParser.remain (parser : GdaSqlParser) : Option CString :=
  if parser.rest = [] then none
  else
    some ⟨parser.rest.dropWhile (fun c => c = ' ' ∨ c = '\n'),
      CString.suffix parser.sql.2 ((List.dropWhile_suffix _).trans (List.drop_suffix _ _))⟩

structure ParseOutcome (T S : Type) where
  result : Except GdaSqlParserError (GdaStatement T S)
  remain : Option CString

section ParseString

variable {T S G : Type}

def parseWith {H : Type} (lemon : LemonParser H (GdaSqlParsedStatement T S)) (parser : GdaSqlParser)
    (sql : CString) : Except ScanFault (ParseState H) :=
  (ParseState.parseTokens lemon (sql.1.length + 1)
    { tokens := .start parser sql, grammar := lemon.start, error := none }).map
      (ParseState.finish lemon)

/-- The statement, with its text up to `next_token_start`. -/
def ParseState.statement {H : Type} (lemon : LemonParser H (GdaSqlParsedStatement T S))
    (s : ParseState H) : Option (GdaStatement T S) :=
  (lemon.parsedStatement s.grammar).map fun stmt =>
    { contents := stmt
      sql := s.tokens.parser.sql.1.take s.tokens.parser.context.nextTokenStart }

/-- `gda_sql_parser_parse_string` in DELIMIT mode. -/
def parseDelimited (types : GTypes T) (S : Type) (parser : GdaSqlParser) (sql : CString) :
    Except ScanFault (GdaSqlParser × ParseOutcome T S) := do
  let s ← parseWith (Delimiter.grammar types S) parser sql
  let parser := s.tokens.parser
  let result :=
    match s.statement (Delimiter.grammar types S) with
    | some stmt => .ok stmt
    | none =>
      if s.tokens.passedTokens.length ≤ 1 ∧ parser.context.tokenType ≠ .illegal then
        .error .emptySql
      else .error (.parse s.error)
  return (parser, { result := result, remain := parser.remain })

def parseString (types : GTypes T) (lemon : LemonParser G (GdaSqlParsedStatement T S))
    (parser : GdaSqlParser) (sql : CString) :
    Except ScanFault (GdaSqlParser × ParseOutcome T S) :=
  match parser.mode with
  | .delimit => parseDelimited types S parser sql
  | .parse => do
    let s ← parseWith lemon parser sql
    let parser := s.tokens.parser
    match s.statement lemon with
    | some stmt => return (parser, { result := .ok stmt, remain := parser.remain })
    | none =>
      let (parser, outcome) ← parseDelimited types S { parser with mode := .delimit } sql
      return ({ parser with mode := .parse }, outcome)

end ParseString

end LibGda
