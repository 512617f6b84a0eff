import WqSource.Grammar.Block
import WqSource.Name

/-!
# The grammar of primaries

A primary is an expression without operators and without anything behind it: a literal, a
name, or a form that its first token begins, which may hold other expressions between its
brackets. Which form it is depends on the first token alone, except for the names that
begin a loop in front of an opening bracket, and for dicts, which begin as lists do.

## Main definitions

* `function`, `group`, `conditional`, `loop`, `control`: the forms.
* `primary`: all of them.
-/

namespace WqSource.Grammar
open WqSource.Parser

variable (inner : Inner)

/-- A parameter. Reserved names cannot be parameters. -/
def param : Parser Param :=
  choose (fun c =>
    match c.current.kind with
    | .identifier name => some fun t => pure ⟨name, t.span⟩
    | _ => none) .parameterName

/-- Parameters with semicolons between them, and the closing bracket. -/
def params : Parser (List Param) := do
  let all ←
    if ← look (·.looksAt .closeBracket) then pure []
    else do
      let (first, rest) ← separated param (atPunct .semicolon fun _ => pure ()) fun _ => false
      pure (first :: rest)
  expect .closeBracket .parameterEnd
  return all

/-- A function, behind its opening brace. -/
def function (t : Token) : Parser Expr := do
  let params ←
    if ← look (·.looksAt .openBracket) then do
      discard take
      params
    else pure []
  let body ← functionBody inner
  return .function (← spanFrom t.span.start) params body

/-- An entry of a dict. -/
def entry : Parser Entry :=
  choose (fun c =>
    match c.current.kind with
    | .symbol key => some fun t => do
      expect .colon .entryColon
      return .mk key t.span (← inner.expression)
    | _ => none) .entryKey

/-- Whether the first item of a group makes it a dict: a symbol with a colon behind it. -/
def startsDict : Parser Bool := do
  match ← look (·.current.kind) with
  | .symbol _ => return (← peek) == .punct .colon
  | _ => return false

/-- A unit, a dict or a list, behind its opening parenthesis. -/
def group (t : Token) : Parser Expr := do
  skipNewlines
  if ← look (·.looksAt .closeParen) then
    discard take
    return .unit (← spanFrom t.span.start)
  if ← startsDict then
    let entries ← items .closeParen (entry inner)
    return .dict (← spanFrom t.span.start) entries
  let items ← items .closeParen inner.expression
  return .list (← spanFrom t.span.start) items

/-- The arms of a conditional with two of them. The semicolon between them may be missing;
the last statement is the second arm then. -/
def arms : Parser (Branch × Branch) := do
  let first ← firstArm inner
  if ← look (·.looksAt .closeBracket) then
    match first.splitLast? with
    | some both => return both
    | none => fail .armSeparator
  else
    expect .semicolon .armSeparator
    return (first, ← arm inner)

/-- A conditional, behind its dollar sign. -/
def conditional (t : Token) : Parser Expr := do
  if ← look (·.looksAt .dot) then
    discard take
    expect .openBracket .guardBracket
    let condition ← head inner
    let arm ← arm inner
    expect .closeBracket .conditionalEnd
    return .guarded (← spanFrom t.span.start) condition arm
  else
    expect .openBracket .conditionalBracket
    let condition ← head inner
    let (thenArm, elseArm) ← arms inner
    expect .closeBracket .conditionalEnd
    return .conditional (← spanFrom t.span.start) condition thenArm elseArm

/-- The loops, by the names that begin them. -/
def loopOfName? : String → Option (Span → Expr → Branch → Expr)
  | "W" => some .whileLoop
  | "N" => some .countLoop
  | _ => none

/-- A loop, behind the name that begins it. -/
def loop (node : Span → Expr → Branch → Expr) (t : Token) : Parser Expr := do
  discard take
  let head ← head inner
  let body ← arm inner
  expect .closeBracket .loopEnd
  return node (← spanFrom t.span.start) head body

/-- A name that is not reserved. In front of an opening bracket, some begin a loop. -/
def identifier (name : String) (t : Token) : Parser Expr := do
  match loopOfName? name, ← look (·.looksAt .openBracket) with
  | some node, true => loop inner node t
  | _, _ =>
    if let some word := Name.constantSpelled? name then
      note (.legacySpelling name word t.span)
    return .name t.span name false

/-- A control word, and the expression behind it if it takes one. -/
def control (t : Token) : ControlWord → Parser Expr
  | .returning => do
    let value ←
      if ← look (·.current.kind.startsExpression) then some <$> inner.expression else pure none
    return .returning (← spanFrom t.span.start) value
  | .breaking => return .breaking t.span
  | .continuing => return .continuing t.span
  | .asserting => do
    let claim ← inner.expression
    return .asserting (← spanFrom t.span.start) claim
  | .trying => do
    let attempt ← inner.expression
    return .trying (← spanFrom t.span.start) attempt

/-- What goes on behind the first token of a primary, if a token of this kind is one. -/
def primary? : Token.Kind → Option (Token → Parser Expr)
  | .integer n => some fun t => return .literal t.span (.integer n)
  | .float x => some fun t => return .literal t.span (.float x)
  | .character c => some fun t => return .literal t.span (.character c)
  | .string s => some fun t => return .literal t.span (.string s)
  | .symbol s => some fun t => return .literal t.span (.symbol s)
  | .boolean b => some fun t => return .literal t.span (.boolean b)
  | .infinity => some fun t => return .literal t.span .infinity
  | .notANumber => some fun t => return .literal t.span .notANumber
  | .identifier name => some (identifier inner name)
  | .builtin name => some fun t => return .name t.span name true
  | .punct .openBrace => some (function inner)
  | .punct .openParen => some (group inner)
  | .punct .dollar => some (conditional inner)
  | .control word => some (control inner · word)
  | .punct _ | .newline | .shebang _ | .magic _ | .endOfInput => none

theorem isSome_primary? (k : Token.Kind) : (primary? inner k).isSome = k.startsPrimary := by
  cases k with
  | punct p => cases p <;> rfl
  | _ => rfl

/-- An expression without operators, and without anything behind it. -/
def primary : Parser Expr := choose (fun c => primary? inner c.current.kind) .expression

end WqSource.Grammar
