import WqSource.Problem
import WqSource.Report.Excerpt

/-!
# Reports

A report shows one diagnostic to a reader: its message, where it is about, and the lines
there. A span within one line is underlined, with a label below. A span over several lines
has a bracket in front of them, and the label at its last line.

## Main definitions

* `Style`: with colours or without.
* `rows`: the rows of a report.
* `reports`: reports on several diagnostics, one behind the other.
-/

namespace WqSource.Report
open Text (Line padLeft spaces)

/-- Whether a report has colours. -/
inductive Style where
  | plain | coloured
  deriving DecidableEq

namespace Style

/-- A text in colours that terminals know by these codes. -/
def paint (style : Style) (codes text : String) : String :=
  match style with
  | plain => text
  | coloured => "\x1b[" ++ codes ++ "m" ++ text ++ "\x1b[0m"

/-- The codes of what belongs to the label. -/
def labelCodes : String := "35;1"

end Style

/-- A text several times over. -/
def repeated (s : String) (n : Nat) : String := String.join (List.replicate n s)

/-- The sign of a severity. -/
def severitySign (style : Style) : Severity → String
  | .error => style.paint "31" "×"
  | .warning => style.paint "33" "⚠"

/-- What stands between the bar and the text of a line when a span covers several. -/
def bracket : Role → String
  | .first => "╭─▶ "
  | .last => "├─▶ "
  | .inner => "│   "
  | .outside | .whole => "    "

/-- The rows below a line that tell where the span is. -/
def marks (style : Style) (width : Nat) (span : Span) (l : Line) : List String :=
  let gutter := " " ++ spaces width ++ " · "
  match Role.ofLine span l with
  | .whole =>
    let start := visualColumn l span.start.offset
    let stop := max (visualColumn l (span.start.offset + span.length)) (start + 1)
    let middle := (start + stop) / 2
    let underline := spaces start ++ repeated "─" (middle - start) ++ "┬" ++
      repeated "─" (stop - middle - 1)
    let label := style.paint Style.labelCodes ("╰── " ++ style.paint Style.labelCodes "here")
    [gutter ++ style.paint Style.labelCodes underline, gutter ++ spaces middle ++ label]
  | .last => [gutter ++ "╰──── here"]
  | _ => []

/-- The rows of a report on one diagnostic in a source of the given name. -/
def rows (style : Style) (name : String) (lines : List Line) (d : Diagnostic) : List String :=
  let shown := excerpt lines d.span
  let width := ((shown.getLast?.map Line.number).getD 0).repr.length
  let covers := shown.any fun l => (Role.ofLine d.span l).isPartial
  let (line, column) := place lines d.span.start.offset
  let heading := style.paint "36;1;4" s!"{name}:{line}:{column}"
  let lineRows (l : Line) : List String :=
    let number := style.paint "2" (padLeft width l.number.repr)
    let before := if covers then bracket (Role.ofLine d.span l) else ""
    (" " ++ number ++ " │ " ++ before ++ String.ofList (Text.expandTabs Text.Pen.start l.text)) ::
      marks style width d.span l
  ["  " ++ severitySign style d.severity ++ " " ++ d.message,
    spaces (width + 2) ++ "╭─[" ++ heading ++ "]"] ++ shown.flatMap lineRows ++
    [spaces (width + 2) ++ "╰────"]

/-- Reports on diagnostics in a source of the given name. -/
def reports (style : Style) (name source : String) (ds : List Diagnostic) : String :=
  let lines := sourceLines source
  String.join (ds.flatMap fun d => (rows style name lines d).map (· ++ "\n"))

end WqSource.Report
