import WqSource.Position
import WqSource.Text.Columns
import WqSource.Text.Line

/-!
# Lines around a span

A report shows the lines that a span touches, one line before them and one behind. Where
a span ends together with a line, the next line counts as touched, too. Places are
counted in bytes, which goes for the column in the heading of a report as well.

Which lines are shown, and from which number on they are counted, goes by the lines of the
source, which a carriage return alone ends. On the screen it ends none: what is shown is
divided again, at line feeds only. Where all that is shown ends with a carriage return
alone, the row it leaves open is not counted as a further one.

## Main definitions

* `place`: line and column of a byte, for the heading.
* `excerpt`: the lines shown.
* `Role`, `Role.ofLine`: how a line lies to a span.
* `visualColumn`: the column of the terminal in which a byte stands.
-/

namespace WqSource.Report
open Text (Line)

/-- The lines of a source. -/
def sourceLines (source : String) : List Line :=
  Text.placeLines 1 0 (Text.splitLines Text.isLineEnd source.toList)

/-- Lines that end in front of a byte. -/
def linesBefore (lines : List Line) (offset : Nat) : List Line :=
  lines.takeWhile fun l => !l.ending.isEmpty && l.stop ≤ offset

/-- Line and column of a byte, both from 1. The ending of a line is a single column. -/
def place (lines : List Line) (offset : Nat) : Nat × Nat :=
  let before := linesBefore lines offset
  let column :=
    match lines[before.length]? with
    | some l => min offset l.textStop - l.start
    | none => 0
  (before.length + 1, column + 1)

/-- The lines of a source around a span: those it touches, and a line on either side. -/
def linesAround (lines : List Line) (span : Span) : List Line :=
  let further := lines.drop ((linesBefore lines span.start.offset).length - 1)
  let inside := further.takeWhile (·.textStop < span.start.offset + span.length)
  inside ++ (further.drop inside.length).take 2

/-- Whether a row of the screen ends with a carriage return that no line feed follows. -/
def leftOpen (l : Line) : Bool := l.ending.isEmpty && l.text.getLast? == some '\r'

/-- A row with its number, which is that of the row in front of it if it is left open. -/
def countRow (l : Line) : Line :=
  if leftOpen l then { l with number := l.number - 1 } else l

/-- The lines to show for a span. -/
def excerpt (lines : List Line) (span : Span) : List Line :=
  match linesAround lines span with
  | [] => []
  | first :: rest =>
    let text := (first :: rest).flatMap Line.characters
    (Text.placeLines first.number first.start (Text.splitLines Text.isLineFeed text)).map
      countRow

/-- How a line lies to a span. -/
inductive Role where
  /-- The span does not touch the line. -/
  | outside
  /-- The span starts and ends on the line. -/
  | whole
  /-- The span starts on the line and goes on behind it. -/
  | first
  /-- The span covers the line and goes on behind it. -/
  | inner
  /-- The span ends on the line and starts before it. -/
  | last
  deriving DecidableEq

/-- How a line lies to a span. A span without bytes is taken to have one. -/
def Role.ofLine (span : Span) (l : Line) : Role :=
  let start := span.start.offset
  let stop := start + max span.length 1
  let startsHere := l.start ≤ start && start < l.stop
  let endsHere := l.start < stop && stop ≤ l.stop
  if startsHere && endsHere then whole
  else if startsHere then first
  else if endsHere then last
  else if start < l.start && l.stop < stop then inner
  else outside

/-- Whether the span crosses an ending of the line. -/
def Role.isPartial : Role → Bool
  | first | inner | last => true
  | outside | whole => false

/-- The characters that begin within the first bytes of a text. -/
def takeBytes : Nat → List Char → List Char
  | 0, _ => []
  | _, [] => []
  | n + 1, c :: cs => c :: takeBytes (n + 1 - c.utf8Size) cs

/-- The column of the terminal, from 0, in which a byte of a line stands. All of the ending
behind its first byte stands in one column behind it. -/
def visualColumn (l : Line) (offset : Nat) : Nat :=
  if l.textStop < offset then Text.columns l.text + 1
  else Text.columns (takeBytes (offset - l.start) l.text)

end WqSource.Report
