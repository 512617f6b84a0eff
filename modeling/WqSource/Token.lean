import WqSource.Binary64.Shortest
import WqSource.Position
import WqSource.Text.Quoted

/-!
# Tokens

A token is a kind, the text it was read from, and the span of that text. The kinds fall
into literals, names, punctuation, control words, and what structures lines: newlines, the
shebang line, host commands, and the end of the input.

Punctuation and control words are determined by their spelling; the other kinds carry
their value.

## Main definitions

* `Punct`, `ControlWord`: the fixed tokens and their spellings.
* `Token.Kind`: every kind of token, with its `name` for listings and its `description`
  for messages.
* `Token.Kind.depthAfter`: how a token changes the number of open brackets.
-/

namespace WqSource

/-- Operators, separators and brackets. -/
inductive Punct where
  | plus | minus | star | slash | slashDot | percent | percentDot | caret | hash
  | equal | tilde | bangEqual | less | lessEqual | greater | greaterEqual
  | colon | comma | pipe | semicolon | dot | dollar
  | openParen | closeParen | openBracket | closeBracket | openBrace | closeBrace
  deriving DecidableEq

namespace Punct

/-- How the token is written. -/
def spelling : Punct → String
  | plus => "+"
  | minus => "-"
  | star => "*"
  | slash => "/"
  | slashDot => "/."
  | percent => "%"
  | percentDot => "%."
  | caret => "^"
  | hash => "#"
  | equal => "="
  | tilde => "~"
  | bangEqual => "!="
  | less => "<"
  | lessEqual => "<="
  | greater => ">"
  | greaterEqual => ">="
  | colon => ":"
  | comma => ","
  | pipe => "|"
  | semicolon => ";"
  | dot => "."
  | dollar => "$"
  | openParen => "("
  | closeParen => ")"
  | openBracket => "["
  | closeBracket => "]"
  | openBrace => "\x7b"
  | closeBrace => "\x7d"

/-- The number of open brackets behind the token, given the number in front of it. A
closing bracket with none open changes nothing. -/
def depthAfter (depth : Nat) : Punct → Nat
  | openParen | openBracket | openBrace => depth + 1
  | closeParen | closeBracket | closeBrace => depth - 1
  | _ => depth

end Punct

/-- The words that begin with `@`. -/
inductive ControlWord where
  | returning | breaking | continuing | asserting | trying
  deriving DecidableEq

namespace ControlWord

/-- The letter behind the `@`. -/
def letter : ControlWord → Char
  | returning => 'r'
  | breaking => 'b'
  | continuing => 'c'
  | asserting => 'a'
  | trying => 't'

/-- The word with a given letter. -/
def ofLetter? : Char → Option ControlWord
  | 'r' => some returning
  | 'b' => some breaking
  | 'c' => some continuing
  | 'a' => some asserting
  | 't' => some trying
  | _ => none

@[simp] theorem ofLetter?_letter (w : ControlWord) : ofLetter? w.letter = some w := by
  cases w <;> rfl

/-- How the word is written. -/
def spelling (w : ControlWord) : String := String.ofList ['@', w.letter]

end ControlWord

/-- What a token is. -/
inductive Token.Kind where
  /-- An integer literal. -/
  | integer (value : Int)
  /-- A literal with digits on both sides of a point. -/
  | float (value : Binary64)
  /-- A character between single quotes. -/
  | character (value : Char)
  /-- A string between double quotes. -/
  | string (value : String)
  /-- A name directly behind a backtick. -/
  | symbol (name : String)
  /-- One of the words of the truth values. -/
  | boolean (value : Bool)
  /-- The constant of infinity. -/
  | infinity
  /-- The constant that is not a number. -/
  | notANumber
  /-- A name that is not reserved. -/
  | identifier (name : String)
  /-- A reserved name. -/
  | builtin (name : String)
  /-- An operator, separator or bracket. -/
  | punct (p : Punct)
  /-- A word that begins with `@`. -/
  | control (word : ControlWord)
  /-- One or more line feeds, with blank lines and comment lines between them. -/
  | newline
  /-- The text behind `#!` on the first line. -/
  | shebang (text : String)
  /-- The text behind `!` on a line for the host. -/
  | magic (payload : String)
  /-- The end of the input. -/
  | endOfInput
  deriving DecidableEq

namespace Token.Kind

/-- The spelling of the kinds that have just one. -/
def fixedSpelling? : Kind → Option String
  | punct p => some p.spelling
  | control w => some w.spelling
  | _ => none

/-- The tag of the kind in a token listing. -/
def name : Kind → String
  | integer _ => "integer"
  | float _ => "float"
  | character _ => "character"
  | string _ => "string"
  | symbol _ => "symbol"
  | boolean _ => "boolean"
  | infinity => "inf"
  | notANumber => "nan"
  | identifier _ => "identifier"
  | builtin _ => "builtin"
  | punct _ => "punct"
  | control _ => "control"
  | newline => "newline"
  | shebang _ => "shebang"
  | magic _ => "magic"
  | endOfInput => "eof"

/-- A text between backticks. -/
private def ticked (s : String) : String := "`" ++ s ++ "`"

/-- What a message calls the token. -/
def description : Kind → String
  | integer n => "integer " ++ ticked n.repr
  | float x => "float " ++ ticked x.text
  | character c => "character " ++ Text.quoteChar c
  | string s => "string " ++ Text.quoteString s
  | symbol s => "symbol `" ++ s
  | boolean b => ticked (if b then "true" else "false")
  | infinity => ticked "inf"
  | notANumber => ticked "nan"
  | identifier s => "identifier " ++ ticked s
  | builtin s => "builtin " ++ ticked s
  | punct p => ticked p.spelling
  | control w => ticked w.spelling
  | newline => "newline"
  | shebang _ => "shebang line"
  | magic _ => "magic command"
  | endOfInput => "end of input"

/-- The number of open brackets behind the token, given the number in front of it. -/
def depthAfter (depth : Nat) : Kind → Nat
  | punct p => p.depthAfter depth
  | _ => depth

/-- Whether the token separates statements. -/
def isSeparator : Kind → Bool
  | newline | punct .semicolon => true
  | _ => false

/-- Whether an expression without operators can begin with the token. -/
def startsPrimary : Kind → Bool
  | integer _ | float _ | character _ | string _ | symbol _ | boolean _ | infinity
  | notANumber | identifier _ | builtin _ | control _ => true
  | punct .openBrace | punct .openParen | punct .dollar => true
  | punct _ | newline | shebang _ | magic _ | endOfInput => false

/-- Whether an argument can begin with the token when it stands directly behind a
function. A minus sign cannot: between two operands it is a subtraction. -/
def startsArgument (k : Kind) : Bool := k.startsPrimary || k == punct .hash

/-- Whether an expression can begin with the token. -/
def startsExpression (k : Kind) : Bool := k.startsArgument || k == punct .minus

end Token.Kind

/-- A piece of source text and what it is. -/
structure Token where
  kind : Token.Kind
  /-- The text the token was read from. -/
  lexeme : String
  span : Span
  deriving DecidableEq

namespace Token

/-- The token at the end of the input: it has no text. -/
def ending (place : Position) : Token := ⟨.endOfInput, "", ⟨place, place⟩⟩

instance : Inhabited Token := ⟨ending .start⟩

end Token
end WqSource
