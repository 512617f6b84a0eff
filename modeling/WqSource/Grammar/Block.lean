import WqSource.Grammar.Parser
import WqSource.Tree

/-!
# Items and statements between brackets

Where an expression stands inside another, between brackets or behind a colon, say, the
parser for it is a parameter: `Inner` holds the two that are needed. This module has what
brackets enclose, as far as it comes in sequences: items, and the statements of functions
and of control forms. They differ in what may separate them and in what ends them.

## Main definitions

* `Inner`: the parsers of expressions inside another.
* `items`: items through a closing bracket.
* `functionBody`, `arm`, `firstArm`: statements.
* `head`: the expression in front of the statements of a control form.
-/

namespace WqSource.Grammar
open WqSource.Parser

/-- The parsers of expressions inside another. -/
structure Inner where
  /-- Any expression. -/
  expression : Parser Expr
  /-- What may stand behind the sign of a power: any operand with its signs. -/
  exponent : Parser Expr

variable {α : Type}

/-- Goes on at the given operator, separator or bracket. -/
def atPunct (p : Punct) (goOn : Token → Parser α) (c : Cursor) : Option (Token → Parser α) :=
  if c.looksAt p then some goOn else none

/-- What may stand behind the first token of a separator: a semicolon behind line feeds,
and line feeds behind a semicolon. -/
def restOfSeparator (t : Token) : Parser Unit := do
  if t.kind == .newline then
    if ← look (·.looksAt .semicolon) then
      discard take
      skipNewlines
  else skipNewlines

/-- Line feeds, a semicolon, or a semicolon with line feeds around it. -/
def separator (c : Cursor) : Option (Token → Parser Unit) :=
  if c.atSeparator then some restOfSeparator else none

/-- Items up to a closing bracket, and the bracket. A separator may stand behind the last
item. -/
def items (close : Punct) (item : Parser α) : Parser (List α) := do
  skipNewlines
  let all ←
    if ← look (·.looksAt close) then pure []
    else do
      let (first, rest) ← separated item separator (·.looksAt close)
      pure (first :: rest)
  expect close (.itemEnd close)
  return all

variable (inner : Inner)

/-! ## Statements inside expressions -/

/-- A line for the host, or an expression. -/
def statement : Parser Statement := do
  match ← look (·.current.kind) with
  | .magic payload => return .magic (← take).span payload
  | _ => return .expression (← inner.expression)

/-- One or more statements. -/
def statements (separator : Cursor → Option (Token → Parser Unit)) (stop : Cursor → Bool) :
    Parser Branch := do
  let (first, rest) ← separated (statement inner) separator stop
  return .ofStatements first rest

/-- The statements of a function, if there are any, and its closing brace. Any number of
separators may stand around them. -/
def functionBody : Parser (Option Branch) := do
  skipSeparators
  let body ←
    if ← look (·.looksAt .closeBrace) then pure none
    else
      let further c := if c.atSeparator then some fun _ => skipSeparators else none
      some <$> statements inner further (·.looksAt .closeBrace)
  expect .closeBrace .bodyStatementEnd
  return body

/-- The statements of an arm up to its closing bracket. -/
def arm : Parser Branch := do
  skipNewlines
  statements inner separator (·.looksAt .closeBracket)

/-- The statements of an arm that a semicolon ends, too. -/
def firstArm : Parser Branch := do
  skipNewlines
  let further c := if c.atNewline then some fun _ => pure () else none
  statements inner further fun c => c.looksAt .closeBracket || c.looksAt .semicolon

/-- The expression at the head of a control form, and the separator behind it. -/
def head : Parser Expr := do
  skipNewlines
  let e ← inner.expression
  choose (fun c =>
    if c.atNewline then some fun _ => pure ()
    else if c.looksAt .semicolon then some fun _ => skipNewlines
    else none) .separator
  return e

end WqSource.Grammar
