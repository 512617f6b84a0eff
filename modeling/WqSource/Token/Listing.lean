import WqSource.Text.Columns
import WqSource.Token.Stream

/-!
# Token listings

A listing has a row for every token: line and column, the name of the kind, and the
quoted text of the token. The end of the input has no text to quote.
-/

namespace WqSource.Token
open Text (padLeft padRight)

/-- The row of a token. -/
def row (t : Token) : String :=
  let place := padLeft 4 t.span.start.line.repr ++ ":" ++ padRight 3 t.span.start.column.repr
  let text := if t.kind = .endOfInput then "" else Text.quoteString t.lexeme
  place ++ " " ++ padRight 10 t.kind.name ++ " " ++ text ++ "\n"

/-- The rows of tokens. -/
def listing (ts : List Token) : String := String.join (ts.map row)

end WqSource.Token
