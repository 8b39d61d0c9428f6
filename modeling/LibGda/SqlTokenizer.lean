import LibGda.SqlTokens

/-! The tokenizer of the SQL parser: its contexts, `getToken`, and the keywords composed of
two tokens. -/

namespace LibGda

open TerminatedBuffer

structure TokenizerContext where
  tokenType : TokenType
  nextTokenStart : Nat
  lastTokenStart : Nat
  delimiter : Char
  inParamSpec : Bool
  blockLevel : Int
  ignoreSemi : Bool
  deriving DecidableEq

structure GdaSqlParser where
  sql : CString
  mode : GdaSqlParserMode
  flavour : GdaSqlParserFlavour
  context : TokenizerContext
  pushedContexts : List TokenizerContext
  deriving DecidableEq

abbrev TokenValue := Option (List Char)

namespace GdaSqlParser

/-- The text at `next_token_start`. -/
def rest (parser : GdaSqlParser) : List Char :=
  parser.sql.1.drop parser.context.nextTokenStart

def setType (parser : GdaSqlParser) (type : TokenType) : GdaSqlParser :=
  { parser with context := { parser.context with tokenType := type } }

/-- Moves over `n` characters, without a token. -/
def skipPrefix (parser : GdaSqlParser) (n : Nat) : GdaSqlParser :=
  { parser with
    context := { parser.context with nextTokenStart := parser.context.nextTokenStart + n } }

/-- Label `tok_end`, with the locals of `getToken`. -/
def tokEnd (parser : GdaSqlParser) (type : TokenType) (consumed : Nat) (inParamSpec : Bool) :
    GdaSqlParser :=
  { parser with
    context := { parser.context with
      tokenType := type
      lastTokenStart := parser.context.nextTokenStart
      nextTokenStart := parser.context.nextTokenStart + consumed
      inParamSpec := inParamSpec } }

def pushTokenizerContext (parser : GdaSqlParser) : GdaSqlParser :=
  { parser with pushedContexts := parser.context :: parser.pushedContexts }

def popTokenizerContext (parser : GdaSqlParser) : GdaSqlParser :=
  match parser.pushedContexts with
  | [] => parser
  | c :: cs => { parser with context := c, pushedContexts := cs }

/-- The current context, with the token of the context pushed `n` levels before it. -/
def mergeTokenizerContexts (parser : GdaSqlParser) (n : Nat) : GdaSqlParser :=
  match parser.pushedContexts[n - 1]? with
  | none => parser
  | some c =>
    { parser with
      context := { parser.context with
        tokenType := c.tokenType
        lastTokenStart := c.lastTokenStart
        delimiter := c.delimiter }
      pushedContexts := parser.pushedContexts.drop n }

/-- The tokens which follow, a space left out: whether the next one has type `second`, with its
value and the number of contexts pushed. -/
def fetchForward (next : GdaSqlParser → Except ScanFault (GdaSqlParser × TokenValue))
    (parser : GdaSqlParser) (second : TokenType) :
    Except ScanFault (GdaSqlParser × Option (TokenValue × Nat)) := do
  let (parser, v1) ← next parser.pushTokenizerContext
  if parser.context.tokenType = .space then
    let (parser, v2) ← next parser.pushTokenizerContext
    if parser.context.tokenType = second then return (parser, some (v2, 2))
    else return (parser.popTokenizerContext.popTokenizerContext, none)
  else if parser.context.tokenType = second then return (parser, some (v1, 1))
  else return (parser.popTokenizerContext, none)

def mergedValue (retval v : TokenValue) : TokenValue :=
  some (retval.getD [] ++ ' ' :: v.getD [])

def handleComposed2Keywords
    (next : GdaSqlParser → Except ScanFault (GdaSqlParser × TokenValue))
    (parser : GdaSqlParser) (retval : TokenValue) (second replacer : TokenType) :
    Except ScanFault (Bool × GdaSqlParser × TokenValue) := do
  match ← fetchForward next parser second with
  | (parser, some (v, n)) =>
    return (true, (parser.mergeTokenizerContexts n).setType replacer, mergedValue retval v)
  | (parser, none) => return (false, parser, retval)

def compositions : TokenType → List (TokenType × TokenType)
  | .end => [(.loop, .endLoop)]
  | .is => [(.null, .isNull)]
  | .not => [(.null, .notNull), (.like, .notLike), (.ilike, .notILike)]
  | .similar => [(.to, .similar)]
  | _ => []

def tryCompositions (next : GdaSqlParser → Except ScanFault (GdaSqlParser × TokenValue)) :
    List (TokenType × TokenType) → GdaSqlParser → TokenValue →
      Except ScanFault (GdaSqlParser × TokenValue)
  | [], parser, retval => .ok (parser, retval)
  | (second, replacer) :: others, parser, retval => do
    match ← handleComposed2Keywords next parser retval second replacer with
    | (true, parser, retval) => return (parser, retval)
    | (false, parser, retval) => tryCompositions next others parser retval

end GdaSqlParser

/-- What is read at `next_token_start`: a token, or the name of a property of a parameter, whose
value is the token which follows. -/
inductive Lexeme where
  | token (s : Scanned)
  | paramProperty (length : Nat) (type : TokenType)
  deriving DecidableEq

def paramProperties : List (String × TokenType) :=
  [("name:", .pName), ("type:", .pType), ("descr:", .pDescr), ("nullok:", .pNullOk)]

def rawChar (delimiter : Char) (c : Char) : Bool :=
  c != '\x00' && !isspace c && c != delimiter && c != '*' && c != '\'' && c != '"' && c != '#'

def propertyOrRawString (delimiter : Char) (z : List Char) (s : Scanned) :
    Except ScanFault Lexeme := do
  match paramProperties.find? (fun property => property.1.toList.isPrefixOf z) with
  | some (name, type) => return .paramProperty name.length type
  | none =>
    let i ← skip (rawChar delimiter) z 1
    return .token (s.token .rawString i)

def untreatedToken (mode : GdaSqlParserMode) (flavour : GdaSqlParserFlavour) (delimiter : Char)
    (c : Char) (z : List Char) (s : Scanned) : Except ScanFault Lexeme := do
  if s.inParamSpec then propertyOrRawString delimiter z s
  else if idChar c then
    let i ← skip idChar z 1
    let type := keywordCode mode flavour (z.take i)
    if mode = .delimit ∧ type = .rawString then propertyOrRawString delimiter z s
    else return .token (s.token type i)
  else
    match mode with
    | .parse => return .token s
    | .delimit => propertyOrRawString delimiter z s

def readLexeme (mode : GdaSqlParserMode) (flavour : GdaSqlParserFlavour) (delimiter : Char)
    (inParamSpec : Bool) (c : Char) (z : List Char) : Except ScanFault Lexeme := do
  let s ← switchToken mode flavour delimiter c z (Scanned.start inParamSpec)
  match s.tokenType with
  | none => untreatedToken mode flavour delimiter c z s
  | some _ => return .token s

theorem readLexeme_of_switch {mode : GdaSqlParserMode} {flavour : GdaSqlParserFlavour}
    {delimiter c : Char} {z : List Char} {spec : Bool} {r : Scanned} {type : TokenType}
    (h : switchToken mode flavour delimiter c z (Scanned.start spec) = .ok r)
    (htype : r.tokenType = some type) :
    readLexeme mode flavour delimiter spec c z = .ok (.token r) := by
  simp [readLexeme, h, htype, bind, Except.bind, pure, Except.pure]

namespace GdaSqlParser

def getTokenWithFuel : Nat → GdaSqlParser → Except ScanFault (GdaSqlParser × TokenValue)
  | 0, _ => .error .outOfFuel
  | fuel + 1, parser =>
    match parser.rest with
    | [] => .ok (parser.tokEnd .endOfFile 0 parser.context.inParamSpec, none)
    | c :: _ =>
      if c = parser.context.delimiter then
        let type :=
          if parser.context.ignoreSemi = false ∧ parser.context.blockLevel = 0 then .semi
          else .rawString
        .ok (parser.tokEnd type 1 parser.context.inParamSpec, some [c])
      else do
        let lexeme ← readLexeme parser.mode parser.flavour parser.context.delimiter
          parser.context.inParamSpec c parser.rest
        match lexeme with
        | .paramProperty length type =>
          let (parser, retval) ← getTokenWithFuel fuel (parser.skipPrefix length)
          return (parser.tokEnd type 0 parser.context.inParamSpec, some (retval.getD []))
        | .token s =>
          -- the fallback for the token type
          let type := s.tokenType.getD .illegal
          let retval := s.retval.getD (parser.rest.take s.consumedChars)
          tryCompositions (getTokenWithFuel fuel) (compositions type)
            (parser.tokEnd type s.consumedChars s.inParamSpec) (some retval)

def getToken (parser : GdaSqlParser) : Except ScanFault (GdaSqlParser × TokenValue) :=
  getTokenWithFuel (parser.sql.1.length + 1) parser

end GdaSqlParser

end LibGda

/-! The loop of `gda_sql_parser_parse_string` on the tokens of one statement. -/

namespace LibGda

open TerminatedBuffer

namespace GdaSqlParser

/-- `gda_sql_parser_reset`, then the text to parse: the delimiter and `ignore_semi` stay. -/
def reset (parser : GdaSqlParser) (sql : CString) : GdaSqlParser :=
  { parser with
    sql := sql
    context := { parser.context with
      nextTokenStart := 0
      lastTokenStart := 0
      inParamSpec := false
      blockLevel := 0 }
    pushedContexts := [] }

def passes (parser : GdaSqlParser) : Bool :=
  match parser.context.tokenType with
  | .illegal => false
  | .sqlComment => false
  | .space => !parser.context.inParamSpec && parser.mode == .delimit
  | _ => true

def addLevel (parser : GdaSqlParser) (n : Int) : GdaSqlParser :=
  { parser with context := { parser.context with blockLevel := parser.context.blockLevel + n } }

def setIgnoreSemi (parser : GdaSqlParser) (ignore : Bool) : GdaSqlParser :=
  { parser with context := { parser.context with ignoreSemi := ignore } }

def setDelimiter (parser : GdaSqlParser) (delimiter : Char) : GdaSqlParser :=
  { parser with context := { parser.context with delimiter := delimiter } }

def delimiterValue (parser : GdaSqlParser) : Except ScanFault (GdaSqlParser × TokenValue) := do
  let (parser, v) ← parser.pushTokenizerContext.getToken
  if parser.context.tokenType = .space then
    let (parser, v) ← parser.pushTokenizerContext.getToken
    return (parser.popTokenizerContext.popTokenizerContext, v)
  else return (parser.popTokenizerContext, v)

def opensBegin (parser : GdaSqlParser) (passedTokens : List TokenType) (value : TokenValue) : Bool :=
  parser.context.tokenType = .begin ∧ passedTokens ≠ [] ∧ lowered (value.getD []) = "begin"

def trackBlocks (parser : GdaSqlParser) (passedTokens : List TokenType) (value : TokenValue) :
    Except ScanFault GdaSqlParser := do
  let parser := if parser.opensBegin passedTokens value then parser.addLevel 1 else parser
  match parser.context.tokenType with
  | .loop => return parser.addLevel 1
  | .end =>
    if passedTokens = [] then return parser
    else
      let parser := parser.addLevel (-1)
      if parser.context.blockLevel = 0 then return parser.setIgnoreSemi false else return parser
  | .endLoop => return parser.addLevel (-1)
  | .declare => return parser.setIgnoreSemi true
  | .as | .is =>
    if parser.flavour = .oracle ∧ .create ∈ passedTokens then return parser.setIgnoreSemi true
    else return parser
  | .delimiter =>
    if parser.flavour = .mysql then
      match ← parser.delimiterValue with
      | (parser, none) => return parser
      | (parser, some v) => return parser.setDelimiter (v.headD '\x00')
    else return parser
  | _ => return parser

end GdaSqlParser

/-- The variables of the loop; its last token is an illegal one, the end of the text or the end of
the statement. -/
structure StatementTokens where
  parser : GdaSqlParser
  passedTokens : List TokenType
  ended : Bool
  deriving DecidableEq

namespace StatementTokens

def start (parser : GdaSqlParser) (sql : CString) : StatementTokens where
  parser := parser.reset sql
  passedTokens := []
  ended := false

def endsStatement (type : TokenType) : Bool :=
  type = .illegal ∨ type = .endOfFile ∨ type = .semi

def nextToken (s : StatementTokens) : Except ScanFault (StatementTokens × TokenValue) := do
  let (parser, value) ← s.parser.getToken
  let ended := endsStatement parser.context.tokenType
  if parser.passes then
    let type := parser.context.tokenType
    let parser ←
      match parser.mode with
      | .parse => pure parser
      | .delimit => parser.trackBlocks s.passedTokens value
    return ({ parser := parser, passedTokens := s.passedTokens ++ [type], ended := ended }, value)
  else return ({ s with parser := parser, ended := ended }, value)

end StatementTokens

end LibGda
