import WqSource.Grammar.Operator

/-!
# The levels of expressions

The parsers of expressions inside another are those of the next level, and each level has
one less to spend than the one around it. So the depth of nesting is limited, and no parser
calls itself.

## Main definitions

* `level`: the parsers of each level.
* `expression`, `single`: one expression as part of a text, and as all of it.
-/

namespace WqSource.Grammar
open WqSource.Parser

/-- How many expressions may be open inside each other. -/
def maxNesting : Nat := 24

/-- The parsers of expressions in which as many more may be open as the level says. -/
def level : Nat → Inner
  | 0 => ⟨fail (.shallowerNesting maxNesting), fail (.shallowerNesting maxNesting)⟩
  | n + 1 => ⟨assignment (level n), unary (level n)⟩

/-- An expression that is inside no other. -/
def expression : Parser Expr := (level maxNesting).expression

/-- One expression with nothing but line feeds around it. -/
def single : Parser Expr := do
  skipNewlines
  let e ← expression
  skipNewlines
  if ← look (·.atEnd) then
    discard take
    return e
  else fail .endOfInput

end WqSource.Grammar
