import WqSource.Unicode.Property

/-!
# Names

A name starts with a letter of any script or an underscore and goes on with letters,
numerals, underscores and question marks. Some names are reserved for what the language
provides itself; they read as names of their own kind and cannot be parameters.
-/

namespace WqSource.Name

/-- Whether a name may start with the character. -/
def isStart (c : Char) : Bool := Unicode.isAlphabetic c || c == '_'

/-- Whether a name may go on with the character. -/
def isContinue (c : Char) : Bool :=
  Unicode.isAlphabetic c || Unicode.isNumeric c || c == '_' || c == '?'

theorem isContinue_of_isStart {c : Char} (h : isStart c = true) : isContinue c = true := by
  simp only [isStart, isContinue, Bool.or_eq_true] at *
  rcases h with h | h <;> simp [h]

/-- The reserved names, in alphabetical order. -/
def builtins : List String := [
  "abs", "acos", "asc", "asin", "atan", "atom?", "avg", "band", "bnot", "bool?", "bor",
  "bxor", "cat", "ceil", "chr", "chr?", "cos", "cosh", "desc", "dict?", "distinct", "drop",
  "echo", "exec", "exit", "exp", "first", "flat", "float", "float?", "floor", "fmt", "fn?",
  "idx", "in", "input", "int", "int?", "join", "keys", "last", "list?", "ln", "log",
  "lower", "max", "min", "num?", "ord", "print", "println", "prod", "rand", "range", "read",
  "rev", "round", "sgn", "shl", "shr", "sin", "sinh", "sleep", "sort", "split", "sqrt",
  "str", "str?", "sum", "sym", "sym?", "take", "tan", "tanh", "til", "time", "trim", "type",
  "upper", "vals", "where", "write"]

/-- Whether a name is reserved. -/
def isBuiltin (name : String) : Bool := builtins.contains name

/-- The lower-case word that a name spells apart from the case of its ASCII letters, if
that is the word of a constant; the constants are written in lower case only. -/
def constantSpelled? (name : String) : Option String :=
  let lower := name.toLower
  if lower = "inf" ∨ lower = "nan" then some lower else none

end WqSource.Name
