import WqSource.Token.Lexer

/-!
# What can be wrong with a source text

A parse ends with errors or draws warnings. A `ParseError` is a cause: text that is no
token, or a token where the grammar wants something else. A `Problem` is an error or a
warning, and a `Diagnostic` is what a problem looks like to a reader: how severe it is, a
message, and the stretch of text it is about. Each wording stands in one place here.
-/

namespace WqSource

/-- What the grammar wants at some point. -/
inductive Expectation where
  | expression
  /-- What follows a parameter. -/
  | parameterEnd
  | parameterName
  /-- What follows a statement of a function. -/
  | bodyStatementEnd
  /-- The key of an entry, in parentheses whose first item is one. -/
  | entryKey
  /-- The colon behind the key of an entry. -/
  | entryColon
  /-- What follows an item between brackets that end with `close`. -/
  | itemEnd (close : Punct)
  /-- The bracket behind a dollar sign and a dot. -/
  | guardBracket
  /-- What follows a dollar sign. -/
  | conditionalBracket
  /-- The semicolon between the arms of a conditional. -/
  | armSeparator
  /-- The bracket behind the last arm of a conditional. -/
  | conditionalEnd
  /-- The bracket behind the body of a loop. -/
  | loopEnd
  /-- What ends a statement, or the head of a control form. -/
  | separator
  | endOfInput
  /-- Fewer expressions inside each other; at most `limit` are allowed. -/
  | shallowerNesting (limit : Nat)
  deriving DecidableEq

/-- What a message says is expected. -/
def Expectation.text : Expectation → String
  | expression => "expression"
  | parameterEnd => "`;` or `]` in parameter list"
  | parameterName => "parameter name"
  | bodyStatementEnd => "`;`, newline or `\x7d`"
  | entryKey => "symbol key in dict"
  | entryColon => "`:` after dict key"
  | itemEnd close => s!"`;`, newline or `{close.spelling}`"
  | guardBracket => "`[` after `$.`"
  | conditionalBracket => "`[` or `.[` after `$`"
  | armSeparator => "`;` between conditional arms"
  | conditionalEnd => "`]` to close conditional"
  | loopEnd => "`]` to close loop"
  | separator => "`;` or newline"
  | endOfInput => "end of input"
  | shallowerNesting limit => s!"shallower nesting (at most {limit} levels)"

/-- A token where the grammar wants something else. -/
structure GrammarError where
  expected : Expectation
  found : Token.Kind
  /-- Where the token stands. -/
  span : Span
  deriving DecidableEq

namespace GrammarError

/-- What a message says is there instead. A reserved name in place of a parameter gets
the reason why it cannot be one. -/
def foundText (e : GrammarError) : String :=
  match e.expected, e.found with
  | .parameterName, .builtin _ => e.found.description ++ ", which cannot be rebound"
  | _, _ => e.found.description

/-- The text of the error. -/
def message (e : GrammarError) : String :=
  s!"expected {e.expected.text}, found {e.foundText} at {e.span.start.text}"

end GrammarError

/-- What stops a parse. -/
inductive ParseError where
  | lexical (e : LexError)
  | grammar (e : GrammarError)
  deriving DecidableEq

namespace ParseError

/-- The stretch of text the error is about. -/
def span : ParseError → Span
  | lexical e => e.span
  | grammar e => e.span

/-- The text of the error. -/
def message : ParseError → String
  | lexical e => "lex error: " ++ e.message
  | grammar e => "syntax error: " ++ e.message

end ParseError

/-- How severe a problem is. -/
inductive Severity where
  | error | warning
  deriving DecidableEq

/-- The word for the severity. -/
def Severity.text : Severity → String
  | error => "error"
  | warning => "warning"

/-- What a reader is told of a problem. -/
structure Diagnostic where
  severity : Severity
  message : String
  span : Span
  deriving DecidableEq

namespace Diagnostic

/-- Whether the problem keeps the text from being a program. -/
def isError (d : Diagnostic) : Bool := d.severity == .error

/-- The whole diagnostic on one line. -/
def text (d : Diagnostic) : String := s!"{d.severity.text}:{d.span.start.text}: {d.message}"

end Diagnostic

/-- An error or a warning. -/
inductive Problem where
  | failure (e : ParseError)
  /-- A name that spells the word of a constant with capitals, at its place. -/
  | legacySpelling (name word : String) (span : Span)
  deriving DecidableEq

namespace Problem

/-- The stretch of text the problem is about. -/
def span : Problem → Span
  | failure e => e.span
  | legacySpelling _ _ span => span

/-- Whether the problem is an error. -/
def isError : Problem → Bool
  | failure _ => true
  | legacySpelling .. => false

/-- What a reader is told. -/
def diagnostic : Problem → Diagnostic
  | failure e => ⟨.error, e.message, e.span⟩
  | legacySpelling name word span =>
    ⟨.warning, s!"`{name}` is a legacy spelling and parses as an identifier; " ++
      s!"write `{word}` for the literal", span⟩

@[simp] theorem span_diagnostic (p : Problem) : p.diagnostic.span = p.span := by
  cases p <;> rfl

@[simp] theorem isError_diagnostic (p : Problem) : p.diagnostic.isError = p.isError := by
  cases p <;> rfl

end Problem
end WqSource
