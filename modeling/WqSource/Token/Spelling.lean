import WqSource.Text.Escape
import WqSource.Token

/-!
# How tokens are written

Every kind of token has one spelling that a text is written with. A literal is spelled by
its value alone: a whole number among the floats gets a fraction, so that it does not read
as an integer, and characters and strings get the escapes they need.
-/

namespace WqSource.Token.Kind

/-- A float with digits on both sides of a point. -/
def floatSpelling (x : Binary64) : List Char :=
  let digits := x.text.toList
  if digits.contains '.' then digits else digits ++ ['.', '0']

/-- The text that a token is written with. -/
def spelling : Kind → List Char
  | integer n => n.repr.toList
  | float x => floatSpelling x
  | character c => '\'' :: Text.escape '\'' c ++ ['\'']
  | string s => '"' :: s.toList.flatMap (Text.escape '"') ++ ['"']
  | symbol s => '\x60' :: s.toList
  | boolean b => (if b then "true" else "false").toList
  | infinity => "inf".toList
  | notANumber => "nan".toList
  | identifier s => s.toList
  | builtin s => s.toList
  | punct p => p.spelling.toList
  | control w => w.spelling.toList
  | newline => ['\n']
  | shebang text => '#' :: '!' :: text.toList
  | magic payload => '!' :: payload.toList
  | endOfInput => []

end WqSource.Token.Kind
