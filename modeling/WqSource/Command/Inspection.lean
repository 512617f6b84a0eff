import WqSource.Command.Failure
import WqSource.Grammar.Program
import WqSource.Manual.Category
import WqSource.Token.Listing
import WqSource.Tree.Json
import WqSource.Tree.Layout

/-!
# What commands find out

Each command but the one that reports on a source looks at it in one way and gives a text.
A source with errors has no tree to show; its tokens can be shown if all of it is tokens.

## Main definitions

* `check`: the errors and warnings of a source.
* `listTokens`, `showTree`, `format`: the tokens of a source, its tree, and its text in the
  layout for readers.
* `manualPage`: a page of the manual.
-/

namespace WqSource

/-- What a check of a source finds. -/
structure CheckResult where
  /-- How many statements were read. -/
  statements : Nat
  diagnostics : List Diagnostic

/-- Whether the source is a program. Warnings do not matter. -/
def CheckResult.isValid (r : CheckResult) : Bool := !r.diagnostics.any Diagnostic.isError

/-- Looks for errors in a source. -/
def check (source : String) (recover : Bool) : CheckResult :=
  let parsed := Grammar.parse source recover
  ⟨parsed.program.statements.length, parsed.diagnostics⟩

/-- The program that a source is. -/
def readProgram (source : String) : Except Failure Program :=
  (Grammar.parse source false).toExcept.mapError .unparsable

/-- The tokens of a source, one on a line. -/
def listTokens (source : String) : Except Failure String :=
  match tokenize source with
  | .ok ts => .ok (Token.listing ts)
  | .error e => .error (.unparsable [(Problem.failure (.lexical e)).diagnostic])

/-- The tree of a source. -/
def showTree (source : String) (pretty spans : Bool) : Except Failure String := do
  let tree := (← readProgram source).toJson spans
  return if pretty then tree.pretty else tree.compact

/-- The source in the layout for readers. -/
def format (source : String) : Except Failure String := do
  let text := (← readProgram source).text .pretty
  return if text.isEmpty then text else text ++ "\n"

/-- The page of the manual on a category. -/
def manualPage (name : String) : Except Failure String :=
  match Manual.Category.ofName? name with
  | some category => .ok (Manual.text (Manual.page category))
  | none => .error (.unknownCategory name)

end WqSource
