/-!
# The pages of the manual

Each page is a list of lines.
-/

namespace WqSource.Manual

/-- The list of categories, and the forms of the language at a glance. -/
def overview : List String := [
  "WQ DOCUMENTATION",
  "",
  "wq is a terse array language in the APL/K family. Programs are sequences of",
  "expressions separated by newlines or semicolons. Functions are applied by",
  "juxtaposition (`f x`) or with brackets (`f[x; y]`).",
  "",
  "DOCUMENTATION CATEGORIES",
  "",
  "  syntax            Statements, assignment, juxtaposition, lists and dicts",
  "  operators         Operator table and precedence",
  "  control           Conditionals, loops and control words",
  "  literals          Numbers, characters, strings, symbols and constants",
  "  builtins          Reserved builtin names",
  "",
  "QUICK REFERENCE",
  "",
  "  x: 1 + 2          Assignment",
  "  f x               Apply f to x",
  "  f[x; y]           Apply or index with several arguments",
  "  \x7b[a; b] a + b\x7d    Function with parameters",
  "  (1; 2; 3)         List",
  "  (`a: 1; `b: 2)    Dict",
  "  $[c; t; e]        Conditional",
  "  W[c; body]        While loop",
  "  x | f | g         Pipe",
  "",
  "Run 'wq doc <category>' for detailed documentation."]

/-- Statements and expressions. -/
def statementsPage : List String := [
  "SYNTAX - Statements and Expressions",
  "",
  "STATEMENTS",
  "  Statements are separated by newlines or semicolons. Blank lines and",
  "  comment lines (starting with //) are ignored.",
  "",
  "    x: 1; y: 2",
  "    z: x + y      // trailing comment",
  "",
  "ASSIGNMENT",
  "  name: expression",
  "    Binds a value. Assignment is right-associative and loosest of all.",
  "",
  "    a: b: 0",
  "",
  "  Indexed targets are allowed:",
  "",
  "    m[1]: 10",
  "",
  "APPLICATION",
  "  f x",
  "    Juxtaposition applies f to x. Chains associate left: `f x y` is",
  "    `(f x) y`. The argument binds tighter than any binary operator, so",
  "    `f x + 1` is `(f x) + 1`.",
  "",
  "  f[x; y]",
  "    Bracket application or indexing. The `[` must touch the previous",
  "    token; `f [x]` is a syntax error.",
  "",
  "  f x[1]          Index belongs to the argument: f (x[1])",
  "  f -x            Minus followed by a space is subtraction: f - x",
  "  f (-x)          Parenthesize to pass a negated argument",
  "",
  "FUNCTIONS",
  "  \x7bbody\x7d",
  "  \x7b[a; b] body\x7d",
  "    Parameters are separated by semicolons. A body may contain several",
  "    statements; the last one is the result.",
  "",
  "    add: \x7b[a; b] a + b\x7d",
  "    sq: \x7b[x] x * x\x7d",
  "",
  "PARENTHESES",
  "  ()              Empty list",
  "  (x)             Grouping",
  "  (1; 2; 3)       List",
  "  (`a: 1; `b: 2)  Dict with symbol keys",
  "",
  "  Items may be separated by semicolons or newlines, and a trailing",
  "  separator before the closing parenthesis is allowed.",
  "",
  "PIPE",
  "  x | f | g",
  "    Passes each stage's result to the next stage.",
  "",
  "MAGIC COMMANDS",
  "  !command text",
  "    A line starting with ! at the top level is handed to the host",
  "    verbatim.",
  "",
  "SHEBANG",
  "  #!/usr/bin/env wq",
  "    Allowed on the first line only."]

/-- Operators, from the loosest to the tightest. -/
def operatorsPage : List String := [
  "OPERATORS - Precedence, Loosest to Tightest",
  "",
  "  :           Assignment (right-associative)",
  "  |           Pipe",
  "  ,           Join",
  "  = ~ != < <= > >=",
  "              Comparison",
  "  + -         Additive",
  "  * / /. % %. Multiplicative",
  "  - #         Unary prefix (negate, count)",
  "  ^           Power (right-associative)",
  "  f x  f[x]   Application and indexing",
  "",
  "ARITHMETIC",
  "  +     Add",
  "  -     Subtract",
  "  *     Multiply",
  "  /     Divide",
  "  /.    Integer divide",
  "  %     Modulo",
  "  %.    Float modulo",
  "  ^     Power",
  "",
  "  Examples:",
  "    1 + 2 * 3       7",
  "    -2^2            -(2^2)",
  "    2^3^2           2^(3^2)",
  "    2^-1            Exponent may carry a sign",
  "",
  "COMPARISON",
  "  =     Equal",
  "  ~     Not equal",
  "  !=    Not equal (same as ~)",
  "  <  <=  >  >=",
  "",
  "UNARY",
  "  -x    Negate",
  "  #x    Count",
  "",
  "  Prefixes stack: `-#x`, `--x`.",
  "",
  "JOIN",
  "  1, 2, 3",
  "    Commas build a flat join of all elements."]

/-- Conditionals, loops and control words. -/
def controlPage : List String := [
  "CONTROL - Conditionals, Loops and Control Words",
  "",
  "CONDITIONAL",
  "  $[cond; then; else]",
  "    Two-arm conditional. Inside the `then` arm statements are separated",
  "    by newlines; the first semicolon ends the arm. Without a semicolon,",
  "    the last line before `]` is the `else` arm.",
  "",
  "    $[x > 0; `pos; `neg]",
  "",
  "    $[x > 0",
  "      `pos",
  "      `neg]",
  "",
  "  $.[cond; body]",
  "    One-arm conditional. The body may hold several statements separated",
  "    by semicolons or newlines.",
  "",
  "WHILE",
  "  W[cond; body]",
  "    Repeats body while cond holds.",
  "",
  "    W[i < 10; i: i + 1]",
  "",
  "FOR",
  "  N[count; body]",
  "    Repeats body count times.",
  "",
  "  W and N are ordinary names unless immediately followed by `[`.",
  "",
  "CONTROL WORDS",
  "  @r value    Return from the enclosing function (value optional)",
  "  @b          Break out of the enclosing loop",
  "  @c          Continue with the next iteration",
  "  @a expr     Assert expr holds",
  "  @t expr     Try: evaluate expr, capturing failure"]

/-- Values written in source. -/
def literalsPage : List String := [
  "LITERALS - Values Written in Source",
  "",
  "NUMBERS",
  "  42          Integer (64-bit)",
  "  3.14        Float",
  "  1.0         Floats need digits on both sides of the dot",
  "",
  "CHARACTERS AND STRINGS",
  "  'a'         Character",
  "  \"hello\"     String",
  "",
  "  Escapes:",
  "    \\n  \\t  \\r  \\0  \\\\  \\'  \\\"",
  "    Any other escaped character stands for itself.",
  "",
  "SYMBOLS",
  "  `name",
  "    A backtick followed directly by a name.",
  "",
  "CONSTANTS",
  "  true false  Booleans",
  "  inf         Infinity",
  "  nan         Not a number",
  "",
  "  Only lowercase spellings are constants. `Inf` or `NaN` parse as plain",
  "  names and draw a warning."]

end WqSource.Manual
