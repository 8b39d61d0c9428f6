import LibGda.TerminatedBuffer

/-! The tokens of the SQL parser: token types, keywords, and what the `switch` of
`getToken` reads for each first character. -/

namespace LibGda

open TerminatedBuffer

inductive TokenType where
  | illegal | sqlComment | space | id | semi | endOfFile | rawString
  | minus | lp | rp | plus | star | slash | rem | eq | leq | diff | lshift | lt | geq
  | rshift | gt | notRegexpCi | notRegexp | bitOr | concat | comma | bitAnd | regexpCi
  | regexp | bitNot | textual | string | dot | integer | float | simpleParam | unspecVal
  | pgCast | blob | lsBracket | rsBracket | pName | pType | pDescr | pNullOk
  | all | and | as | asc | batch | begin | between | by | case | cast | comment | commit
  | committed | create | cross | declare | delete | deferred | delimiter | desc | distinct
  | else | end | endLoop | except | exclusive | force | from | full | group | having | ilike
  | immediate | in | inner | insert | intersect | into | is | isNull | isolation | join | left
  | level | like | limit | loop | natural | not | notNull | notLike | notILike | nowait | null
  | offset | on | only | or | order | outer | right | read | release | repeatable | rollback
  | savepoint | select | serializable | set | similar | then | to | transaction
  | uncommitted | union | update | using | values | wait | when | where | write
  deriving DecidableEq

inductive GdaSqlParserMode where
  | parse
  | delimit
  deriving DecidableEq

inductive GdaSqlParserFlavour where
  | standard
  | sqlite
  | mysql
  | oracle
  | postgresql
  deriving DecidableEq

def GdaSqlParserFlavour.code : GdaSqlParserFlavour → Char
  | .standard => '0'
  | .sqlite => '1'
  | .mysql => '2'
  | .oracle => '3'
  | .postgresql => '4'

abbrev CString := { chars : List Char // '\x00' ∉ chars }

def isspace (c : Char) : Bool := c ∈ [' ', '\t', '\n', '\x0b', '\x0c', '\r']

def isxdigit (c : Char) : Bool := c.isDigit || ('a' ≤ c && c ≤ 'f') || ('A' ≤ c && c ≤ 'F')

/-- `IdChar`: the digits, the letters, `$`, `_` and all from 0x80 on. -/
def idChar (c : Char) : Bool := 0x80 ≤ c.toNat || c.isAlphanum || c == '$' || c == '_'

def keywords : List (String × TokenType) :=
  [("all", .all), ("and", .and), ("as", .as), ("asc", .asc), ("3batch", .batch),
   ("begin", .begin), ("between", .between), ("by", .by), ("case", .case), ("cast", .cast),
   ("comment", .comment), ("commit", .commit), ("committed", .committed), ("create", .create),
   ("cross", .cross), ("declare", .declare), ("delete", .delete), ("deferred", .deferred),
   ("delimiter", .delimiter), ("desc", .desc), ("distinct", .distinct), ("else", .else),
   ("end", .end), ("except", .except), ("exclusive", .exclusive), ("3force", .force),
   ("from", .from), ("full", .full), ("group", .group), ("having", .having),
   ("ilike", .ilike), ("immediate", .immediate), ("in", .in), ("inner", .inner),
   ("insert", .insert), ("intersect", .intersect), ("into", .into), ("is", .is),
   ("isolation", .isolation), ("join", .join), ("left", .left), ("level", .level),
   ("like", .like), ("limit", .limit), ("loop", .loop), ("natural", .natural),
   ("not", .not), ("3nowait", .nowait), ("null", .null), ("offset", .offset), ("on", .on),
   ("only", .only), ("or", .or), ("order", .order), ("outer", .outer), ("right", .right),
   ("read", .read), ("release", .release), ("repeatable", .repeatable),
   ("rollback", .rollback), ("savepoint", .savepoint), ("select", .select),
   ("serializable", .serializable), ("set", .set), ("similar", .similar), ("start", .begin),
   ("then", .then), ("to", .to), ("transaction", .transaction),
   ("uncommitted", .uncommitted), ("union", .union), ("update", .update), ("using", .using),
   ("values", .values), ("3wait", .wait), ("when", .when), ("where", .where),
   ("work", .transaction), ("write", .write)]

def lowered (word : List Char) : String := String.ofList (word.map Char.toLower)

def keywordCode (mode : GdaSqlParserMode) (flavour : GdaSqlParserFlavour) (str : List Char) :
    TokenType :=
  match keywords.lookup (lowered str) with
  | some type => type
  | none =>
    match keywords.lookup (lowered (flavour.code :: str)) with
    | some type => type
    | none =>
      match mode with
      | .parse => .id
      | .delimit => .rawString

/-- What the locals of `getToken` hold, with `none` for `G_MININT`. -/
structure Scanned where
  tokenType : Option TokenType
  consumedChars : Nat
  retval : Option (List Char)
  inParamSpec : Bool
  deriving DecidableEq

namespace Scanned

def start (inParamSpec : Bool) : Scanned :=
  { tokenType := none, consumedChars := 1, retval := none, inParamSpec := inParamSpec }

def token (s : Scanned) (type : TokenType) (consumed : Nat) : Scanned :=
  { s with tokenType := some type, consumedChars := consumed }

end Scanned

def holdsAt (p : Char → Bool) (z : List Char) (i : Nat) : Except ScanFault Bool :=
  (peek '\x00' z i).map p

def andAlso (x y : Except ScanFault Bool) : Except ScanFault Bool := do
  if ← x then y else return false

def orElse (x y : Except ScanFault Bool) : Except ScanFault Bool := do
  if ← x then return true else y

def skip (p : Char → Bool) (z : List Char) (i : Nat) : Except ScanFault Nat := scan '\x00' p z i

def spaceToken (z : List Char) (s : Scanned) : Except ScanFault Scanned := do
  let i ← skip isspace z 1
  if ← andAlso (holdsAt (· == '/') z i) (holdsAt (· == '*') z (i + 1)) then
    return { s.token .lsBracket (i + 2) with inParamSpec := true }
  else return s.token .space i

def inLine (c : Char) : Bool := c != '\x00' && c != '\n'

def minusToken (z : List Char) (s : Scanned) : Except ScanFault Scanned := do
  if ← holdsAt (· == '-') z 1 then
    let i ← skip inLine z 2
    return s.token .sqlComment i
  else return s.token .minus 1

def starToken (z : List Char) (s : Scanned) : Except ScanFault Scanned := do
  if ← holdsAt (· == '/') z 1 then
    return { s.token .rsBracket 2 with inParamSpec := false }
  else return s.token .star 1

def slashToken (mode : GdaSqlParserMode) (z : List Char) (s : Scanned) :
    Except ScanFault Scanned := do
  match mode with
  | .parse =>
    if ← andAlso (holdsAt (· == '*') z 1) (holdsAt (· != '\x00') z 2) then return s
    else return s.token .slash 1
  | .delimit =>
    if ← holdsAt (· == '*') z 1 then
      return { s.token .lsBracket 2 with inParamSpec := true }
    else return s

def eqToken (z : List Char) (s : Scanned) : Except ScanFault Scanned := do
  if ← holdsAt (· == '=') z 1 then return s.token .eq 2 else return s.token .eq 1

def ltToken (z : List Char) (s : Scanned) : Except ScanFault Scanned := do
  match ← peek '\x00' z 1 with
  | '=' => return s.token .leq 2
  | '>' => return s.token .diff 2
  | '<' => return s.token .lshift 2
  | _ => return s.token .lt 1

def gtToken (z : List Char) (s : Scanned) : Except ScanFault Scanned := do
  match ← peek '\x00' z 1 with
  | '=' => return s.token .geq 2
  | '>' => return s.token .rshift 2
  | _ => return s.token .gt 1

def bangToken (z : List Char) (s : Scanned) : Except ScanFault Scanned := do
  match ← peek '\x00' z 1 with
  | '=' => return s.token .diff 2
  | '~' =>
    if ← holdsAt (· == '*') z 2 then return s.token .notRegexpCi 3
    else return s.token .notRegexp 2
  | _ => return s

def barToken (mode : GdaSqlParserMode) (z : List Char) (s : Scanned) :
    Except ScanFault Scanned := do
  match mode with
  | .parse => if ← holdsAt (· == '|') z 1 then return s.token .concat 2 else return s.token .bitOr 1
  | .delimit => return s.token .rawString 1

def tildeToken (flavour : GdaSqlParserFlavour) (z : List Char) (s : Scanned) :
    Except ScanFault Scanned := do
  if ← holdsAt (· == '*') z 1 then return s.token .regexpCi 2
  else return s.token (if flavour = .postgresql then .regexp else .bitNot) 1

/-- The loop on a quoted string, from position `i`: where the closing quote is. -/
def closingQuote (delim : Char) : List Char → Nat → Except ScanFault (Option Nat)
  | [], _ => .ok none
  | c :: rest, i =>
    if c = delim then
      match rest with
      | [] => .ok (some i)
      | d :: rest => if d = delim then closingQuote delim rest (i + 2) else .ok (some i)
    else if c = '\\' then
      match rest with
      -- i++ moves to the terminator, and the loop reads the next character
      | [] => .error .beyondEnd
      | _ :: rest => closingQuote delim rest (i + 2)
    else closingQuote delim rest (i + 1)

def quotedToken (delim : Char) (z : List Char) (s : Scanned) : Except ScanFault Scanned := do
  match ← closingQuote delim (z.drop 1) 1 with
  | some i => return s.token (if delim = '"' then .textual else .string) (i + 1)
  | none => return s.token .illegal 0

def exponentAt (z : List Char) (i : Nat) : Except ScanFault Bool :=
  andAlso (holdsAt (fun c => c == 'e' || c == 'E') z i)
    (orElse (holdsAt Char.isDigit z (i + 1))
      (andAlso (holdsAt (fun c => c == '+' || c == '-') z (i + 1))
        (holdsAt Char.isDigit z (i + 2))))

def decimalEnd (z : List Char) : Except ScanFault (TokenType × Nat) := do
  let i ← skip Char.isDigit z 0
  let (type, i) ←
    if ← holdsAt (· == '.') z i then (skip Char.isDigit z (i + 1)).map (TokenType.float, ·)
    else .ok (TokenType.integer, i)
  if ← exponentAt z i then (skip Char.isDigit z (i + 2)).map (TokenType.float, ·)
  else return (type, i)

def hexadecimalAt (z : List Char) : Except ScanFault Bool :=
  andAlso (holdsAt (· == '0') z 0)
    (andAlso (holdsAt (fun c => c == 'x' || c == 'X') z 1) (holdsAt (· != '\x00') z 2))

def numberToken (mode : GdaSqlParserMode) (z : List Char) (s : Scanned) :
    Except ScanFault Scanned := do
  let (type, i) ←
    if ← hexadecimalAt z then (skip isxdigit z 2).map (TokenType.integer, ·)
    else decimalEnd z
  let j ← skip idChar z i
  if j = i then return s.token type i
  else
    match mode with
    | .parse => return s.token .illegal j
    | .delimit => return s.token .rawString j

def dotToken (mode : GdaSqlParserMode) (z : List Char) (s : Scanned) :
    Except ScanFault Scanned := do
  match mode with
  | .parse =>
    if ← holdsAt Char.isDigit z 1 then numberToken .parse z s else return s.token .dot 1
  | .delimit => numberToken .delimit z s

/-- `?12`, `$name`, `:name` and `@name` -/
def simpleParamToken (p : Char → Bool) (z : List Char) (s : Scanned) :
    Except ScanFault Scanned := do
  let i ← skip p z 1
  return { s.token .simpleParam i with retval := some ((z.drop 1).take (i - 1)) }

def questionToken (flavour : GdaSqlParserFlavour) (z : List Char) (s : Scanned) :
    Except ScanFault Scanned :=
  if flavour = .sqlite then simpleParamToken Char.isDigit z s else .ok s

def paramChar (delimiter : Char) (c : Char) : Bool :=
  c != '\x00' && (idChar c || c ∈ ['+', '-', '.', ':', '|', '@', '?']) && c != '/' &&
    c != delimiter

def sharpToken (flavour : GdaSqlParserFlavour) (delimiter : Char) (z : List Char) (s : Scanned) :
    Except ScanFault Scanned := do
  if ← holdsAt (· == '#') z 1 then
    let i ← skip (paramChar delimiter) z 2
    if 2 < i then
      return { s.token .simpleParam i with retval := some ((z.drop 2).take (i - 2)) }
    else return s.token .unspecVal i
  else if flavour = .mysql then
    let i ← skip inLine z 1
    return s.token .sqlComment i
  else return { s with tokenType := some .illegal }

/-- Where the search of a closing tag is: at the test of its `while`, going to the next `$`, or
comparing, with what is left of the tag. -/
inductive TagSearch where
  | head
  | seeking
  | comparing (left : List Char)

def closingTag (tag : List Char) : TagSearch → List Char → Nat → Except ScanFault (Option Nat)
  | .comparing [], _, i => .ok (some i)
  | .head, [], _ => .ok none
  -- z[i] is the terminator: the i++ at the end of the body goes behind it
  | _, [], _ => .error .beyondEnd
  | .comparing (t :: left), c :: rest, i =>
    if c = t then closingTag tag (.comparing left) rest (i + 1)
    else closingTag tag .head rest (i + 1)
  | _, c :: rest, i =>
    if c = '$' then closingTag tag (.comparing tag.tail) rest (i + 1)
    else closingTag tag .seeking rest (i + 1)

inductive CopyState where
  | lineStart
  | inLine
  | inComment

/-- The lines starting with `--`, which are removed from the copy of a dollar-quoted string. -/
def stripComments : CopyState → List Char → Except ScanFault (List Char)
  -- only a '\n' stops the loop on ptr2
  | .inComment, [] => .error .beyondEnd
  | _, [] => .ok []
  | .inComment, c :: rest =>
    if c = '\n' then (stripComments .lineStart rest).map (c :: ·)
    else stripComments .inComment rest
  | .lineStart, c :: rest =>
    if c = '-' ∧ rest.head? = some '-' then stripComments .inComment rest
    else (stripComments (if c = '\n' then .lineStart else .inLine) rest).map (c :: ·)
  | .inLine, c :: rest =>
    (stripComments (if c = '\n' then .lineStart else .inLine) rest).map (c :: ·)

def tagChar (c : Char) : Bool := c.isAlphanum || c == '_'

def dollarQuotedToken (z : List Char) (s : Scanned) : Except ScanFault Scanned := do
  let i ← skip tagChar z 1
  if ← holdsAt (· == '$') z i then
    match ← closingTag (z.take (i + 1)) .head (z.drop (i + 1)) (i + 1) with
    | none => return { s with tokenType := some .illegal }
    | some j =>
      let retval ← stripComments .lineStart (z.take j)
      return { s.token .string j with retval := some retval }
  else return s

def dollarToken (flavour : GdaSqlParserFlavour) (z : List Char) (s : Scanned) :
    Except ScanFault Scanned :=
  match flavour with
  | .postgresql => dollarQuotedToken z s
  | .sqlite => simpleParamToken Char.isAlphanum z s
  | _ => .ok s

def colonToken (flavour : GdaSqlParserFlavour) (z : List Char) (s : Scanned) :
    Except ScanFault Scanned := do
  if ← holdsAt (· == ':') z 1 then return s.token .pgCast 2
  else if flavour = .sqlite then simpleParamToken tagChar z s
  else return s

def blobToken (z : List Char) (s : Scanned) : Except ScanFault Scanned := do
  let delim ← peek '\x00' z 1
  if delim = '\'' ∨ delim = '"' then
    let i ← skip (fun c => c != '\x00' && c != delim && isxdigit c) z 2
    let c ← peek '\x00' z i
    if c = '\x00' then return s.token .blob i
    else if c = delim ∧ i % 2 = 0 then return s.token .blob (i + 1)
    else return s.token .illegal (i + 1)
  else return s

def switchToken (mode : GdaSqlParserMode) (flavour : GdaSqlParserFlavour) (delimiter : Char)
    (c : Char) (z : List Char) (s : Scanned) : Except ScanFault Scanned :=
  match c, mode with
  | ' ', _ | '\t', _ | '\n', _ | '\x0c', _ | '\r', _ => spaceToken z s
  | '-', _ => minusToken z s
  | '(', _ => .ok (s.token .lp 1)
  | ')', _ => .ok (s.token .rp 1)
  | '+', .parse => .ok (s.token .plus 1)
  | '*', _ => starToken z s
  | '%', .parse => .ok (s.token .rem 1)
  | '/', mode => slashToken mode z s
  | '=', .parse => eqToken z s
  | '<', _ => ltToken z s
  | '>', _ => gtToken z s
  | '!', .parse => bangToken z s
  | '|', mode => barToken mode z s
  | ',', _ => .ok (s.token .comma 1)
  | '&', .parse => .ok (s.token .bitAnd 1)
  | '~', .parse => tildeToken flavour z s
  | '\'', _ => quotedToken '\'' z s
  | '"', _ => quotedToken '"' z s
  | '.', mode => dotToken mode z s
  | '?', _ => questionToken flavour z s
  | '#', _ => sharpToken flavour delimiter z s
  | '$', _ => dollarToken flavour z s
  | '@', _ | ':', _ => colonToken flavour z s
  | 'x', _ | 'X', _ => blobToken z s
  | c, mode => if c.isDigit then numberToken mode z s else .ok s

end LibGda
