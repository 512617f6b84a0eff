import WqSource.Manual.Pages
import WqSource.Name
import WqSource.Text.Columns

/-!
# The categories of the manual

The manual has a page for each category. A category has several names, which may be
written with capitals, and with hyphens in place of underscores. The page of reserved
names is made from the table that the grammar uses.
-/

namespace WqSource.Manual

/-- What the manual has pages on. -/
inductive Category where
  | statements | operators | control | literals | builtins
  deriving DecidableEq

namespace Category

/-- The category with a given name. -/
def ofName? (name : String) : Option Category :=
  match name.toLower.map (fun c => if c = '-' then '_' else c) with
  | "syntax" => some statements
  | "operators" | "ops" => some operators
  | "control" | "control_flow" | "flow" => some control
  | "literals" | "literal" | "values" => some literals
  | "builtins" | "builtin" => some builtins
  | _ => none

/-- The foremost name of a category. -/
def name : Category → String
  | statements => "syntax"
  | operators => "operators"
  | control => "control"
  | literals => "literals"
  | builtins => "builtins"

theorem ofName?_name (c : Category) : ofName? c.name = some c := by
  cases c <;> decide +kernel

end Category

/-- The first six of a list, the next six, and so on. -/
def sixes {α : Type} : List α → List (List α)
  | a :: b :: c :: d :: e :: f :: rest => [a, b, c, d, e, f] :: sixes rest
  | [] => []
  | rest => [rest]

/-- A row of names in columns. -/
def nameRow (names : List String) : String :=
  match names.reverse with
  | [] => ""
  | last :: others => "  " ++ String.join (others.reverse.map (Text.padRight 10)) ++ last

/-- The reserved names, in columns. -/
def builtinsPage : List String :=
  ["BUILTINS - Reserved Names",
    "",
    "These names are reserved. They parse like any other variable but",
    "cannot be used as function parameters.",
    ""] ++ (sixes Name.builtins).map nameRow

/-- The text of lines, each ended by a line feed. -/
def text (lines : List String) : String := String.join (lines.map (· ++ "\n"))

/-- The page of a category. -/
def page : Category → List String
  | .statements => statementsPage
  | .operators => operatorsPage
  | .control => controlPage
  | .literals => literalsPage
  | .builtins => builtinsPage

end WqSource.Manual
