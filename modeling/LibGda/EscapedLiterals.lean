import LibGda.BinaryLiteral
import LibGda.BracketTokens

/-! The SQL text of values and of quoted identifiers, as the tokenizer of the SQL parser reads it. -/

namespace LibGda

open RunInvariant

namespace HandlerString

/-- `gda_handler_string_get_sql_from_value`, without a provider; `gda_value_stringify` may give no
text. -/
def getSqlFromValue : Option Bytes → Except BlockFault Bytes
  | some str => do
    let str2 ← defaultEscapeString str
    return quote :: (str2 ++ [quote])
  | none => .ok ("NULL".toList.map byte)

end HandlerString

namespace GdaSqlParser

variable {parser : GdaSqlParser} {body rest : List Char}

theorem getToken_quoted {d : Char} {type : TokenType}
    (hd : d = '\'' ∧ type = .string ∨ d = '"' ∧ type = .textual) (hbody : QuotedBody d body)
    (hrest : parser.rest = d :: (body ++ d :: rest)) (hdelimiter : parser.context.delimiter ≠ d)
    (hnext : rest.head? ≠ some d) :
    parser.getToken = .ok (parser.tokEnd type (body.length + 2) parser.context.inParamSpec,
      some (d :: (body ++ [d]))) := by
  have hne : d ≠ '\\' := by
    rcases hd with ⟨rfl, -⟩ | ⟨rfl, -⟩ <;> decide
  have hclosing := closingQuote_closed hne hbody hnext 1
  have hlen : 1 + body.length + 1 = body.length + 2 := by omega
  have hswitch : switchToken parser.mode parser.flavour parser.context.delimiter d
      (d :: (body ++ d :: rest)) (Scanned.start parser.context.inParamSpec) =
      .ok ((Scanned.start parser.context.inParamSpec).token type (body.length + 2)) := by
    rcases hd with ⟨rfl, rfl⟩ | ⟨rfl, rfl⟩ <;>
      simp [switchToken, quotedToken, hclosing, hlen, bind, Except.bind, pure, Except.pure]
  have hplain : compositions type = [] := by
    rcases hd with ⟨-, rfl⟩ | ⟨-, rfl⟩ <;> rfl
  obtain ⟨fuel, hfuel⟩ := getToken_succ hrest
  have hlexeme := readLexeme_of_switch hswitch rfl
  rw [hfuel, getTokenWithFuel_token hrest hdelimiter.symm hlexeme rfl hplain]
  simp [Scanned.token, Scanned.start, List.take_append]

end GdaSqlParser

/-- An identifier in forced quotes is one token, from which its name is read back. -/
theorem identifier_oneToken {parser : GdaSqlParser} {name rest : List Char} (hname : '\\' ∉ name)
    (hrest : parser.rest = forceQuotes name ++ rest) (hdelimiter : parser.context.delimiter ≠ '"')
    (hnext : rest.head? ≠ some '"') :
    parser.getToken = .ok (parser.tokEnd .textual (forceQuotes name).length
      parser.context.inParamSpec, some (forceQuotes name)) ∧
      removeQuotes (forceQuotes name) = name := by
  refine ⟨?_, removeQuotes_forceQuotes hname⟩
  have htext : parser.rest = '"' :: (doubledQuotes name ++ '"' :: rest) := by
    simpa [forceQuotes_eq] using hrest
  have htoken := GdaSqlParser.getToken_quoted (.inr ⟨rfl, rfl⟩) (doubledQuotes_body hname) htext
    hdelimiter hnext
  simpa [forceQuotes_eq] using htoken

theorem identifier_oneToken_quote :
    (GdaSqlParser.mk ⟨"\"a\"\"b\".c".toList, by decide⟩ .parse .sqlite
      ⟨.illegal, 0, 0, ';', false, 0, false⟩ []).getToken.map Prod.snd =
      .ok (some "\"a\"\"b\"".toList) := by
  rw [(@identifier_oneToken _ "a\"b".toList ".c".toList (by decide) (by decide) (by decide)
    (by decide)).1]
  rfl

end LibGda
