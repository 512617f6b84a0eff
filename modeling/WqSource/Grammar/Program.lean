import WqSource.Grammar.Expression

/-!
# The grammar of programs

A program is a shebang line, perhaps, and statements with separators between them. A
statement that is in error ends the parse, unless the parse is to recover: then the error
is noted, tokens are skipped up to the next separator outside brackets, and the parse goes
on behind that. Text that is no token always ends the parse.

Whatever ends it, the statements read before are kept. A statement counts as soon as it is
read, even if the error is what stands behind it.

## Main definitions

* `program`: reading a program from a cursor.
* `parse`: the program in a text and its problems.
-/

namespace WqSource.Grammar
open WqSource.Parser

/-- The shebang line, if the cursor looks at one. -/
def shebang : Parser (Option String) := do
  match ← look (·.current.kind) with
  | .shebang text =>
    discard take
    return text
  | _ => return none

/-- Skips to the next separator outside all brackets, or to the end. -/
def synchronize : Parser Unit := skipWhile fun c => !(c.atSeparator && c.depth == 0)

/-- What an error between statements leads to: the statements read stay, and the parse
either goes on behind the error or stops at it. -/
def afterError (recover : Bool) (read : List Statement) (e : ParseError) :
    Parser (Outcome (List Statement)) := do
  match recover, e with
  | true, .grammar _ =>
    note (.failure e)
    match ← attempt synchronize with
    | .ok () => return ⟨read, none⟩
    | .error e => return ⟨read, some e⟩
  | _, _ => return ⟨read, some e⟩

/-- Whether a statement may end here. -/
def atStatementEnd (c : Cursor) : Bool := c.atSeparator || c.atEnd

/-- A statement, or nothing where one might end. -/
def optionalStatement (recover : Bool) : Parser (Outcome (List Statement)) := do
  if ← look atStatementEnd then return ⟨[], none⟩
  match ← attempt (statement (level maxNesting)) with
  | .error e => afterError recover [] e
  | .ok s =>
    if ← look atStatementEnd then return ⟨[s], none⟩
    afterError recover [s] (← look (·.unexpected .separator))

/-- The statements of a program. -/
def topLevel (recover : Bool) (c : Cursor) : Outcome (List Statement) × Cursor :=
  collect (·.atSeparator) (optionalStatement recover) c

/-- A program, as far as it can be read. -/
def program (recover : Bool) (c : Cursor) : Outcome Program × Cursor :=
  match shebang.run c with
  | (.error e, c₁) => (⟨⟨none, [], ⟨.start, c₁.current.span.stop⟩⟩, some e⟩, c₁)
  | (.ok shebang, c₁) =>
    let (⟨statements, failure⟩, c₂) := topLevel recover c₁
    (⟨⟨shebang, statements, ⟨.start, c₂.current.span.stop⟩⟩, failure⟩, c₂)

theorem reaches_program (recover : Bool) (c : Cursor) : c.Reaches (program recover c).2 := by
  have h := shebang.reaches c
  unfold program
  split
  · next hs => simpa [hs] using h
  · next c₁ hs => exact .trans (by simpa [hs] using h) (reaches_collect _ _ c₁)

/-- A program, if no error stops it. -/
def wholeProgram (recover : Bool) : Parser Program where
  run c :=
    match program recover c with
    | (⟨result, none⟩, c') => (.ok result, c')
    | (⟨_, some e⟩, c') => (.error e, c')
  reaches c := by
    have h := reaches_program recover c
    split <;> simp_all

end Grammar

/-- What a parse of a text has found. -/
structure Parsed where
  /-- The program, or as much of it as could be read. -/
  program : Program
  /-- What is wrong with the text, and what it is warned of. -/
  problems : List Problem

instance : Inhabited Parsed := ⟨⟨default, []⟩⟩

namespace Parsed

/-- What a reader is told. -/
def diagnostics (p : Parsed) : List Diagnostic := p.problems.map Problem.diagnostic

/-- The errors among what a reader is told. -/
def errors (p : Parsed) : List Diagnostic := p.diagnostics.filter Diagnostic.isError

/-- The program, if there are no errors; else everything that a reader is told. -/
def toExcept (p : Parsed) : Except (List Diagnostic) Program :=
  if p.errors.isEmpty then .ok p.program else .error p.diagnostics

end Parsed

namespace Grammar

/-- Reads a text, with the problems in the order they are found in. Without recovery the
first error ends the parse. -/
def read (source : String) (recover : Bool) : Parsed :=
  match Cursor.ofString source with
  | .error e => ⟨default, [.failure e]⟩
  | .ok c =>
    let (⟨result, failure⟩, c') := program recover c
    ⟨result, c'.problems ++ failure.toList.map Problem.failure⟩

/-- Whether one problem begins no later than another. -/
def beginsBy (p q : Problem) : Bool := p.span.start.offset ≤ q.span.start.offset

/-- Parses a text, with the problems in the order of the places where they begin. -/
def parse (source : String) (recover : Bool) : Parsed :=
  let found := read source recover
  { found with problems := found.problems.mergeSort beginsBy }

end Grammar
end WqSource
