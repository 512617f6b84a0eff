import WqSource.Token

/-!
# Syntax trees

A program is a list of statements, most of which are expressions. Every node keeps the
span of text it was read from. Grouping lives in the tree: a parenthesised expression is a
list of one item, so that no form needs parentheses that the tree does not show.

From the loosest to the tightest the forms are: assignment, pipe, join, the binary
operators in their three tiers, prefix operators, power, and chains of a base with its
index brackets and arguments.
-/

namespace WqSource

/-- The operators between two operands. -/
inductive BinaryOp where
  | equal | notEqual | less | lessEqual | greater | greaterEqual
  | add | subtract
  | multiply | divide | wholeDivide | modulo | floatModulo
  deriving DecidableEq

/-- The token an operator is written with. Of the two spellings of inequality it is the
longer. -/
def BinaryOp.punct : BinaryOp → Punct
  | equal => .equal
  | notEqual => .bangEqual
  | less => .less
  | lessEqual => .lessEqual
  | greater => .greater
  | greaterEqual => .greaterEqual
  | add => .plus
  | subtract => .minus
  | multiply => .star
  | divide => .slash
  | wholeDivide => .slashDot
  | modulo => .percent
  | floatModulo => .percentDot

/-- The operators in front of an operand. -/
inductive UnaryOp where
  | negate | count
  deriving DecidableEq

/-- The token an operator is written with. -/
def UnaryOp.punct : UnaryOp → Punct
  | negate => .minus
  | count => .hash

/-- Values written in the source. -/
inductive Literal where
  | integer (value : Int)
  | float (value : Binary64)
  | character (value : Char)
  | string (value : String)
  | symbol (name : String)
  | boolean (value : Bool)
  | infinity
  | notANumber
  deriving DecidableEq

/-- The token that a literal is. -/
def Literal.kind : Literal → Token.Kind
  | integer n => .integer n
  | float x => .float x
  | character c => .character c
  | string s => .string s
  | symbol s => .symbol s
  | boolean b => .boolean b
  | infinity => .infinity
  | notANumber => .notANumber

/-- A parameter of a function. -/
structure Param where
  name : String
  span : Span
  deriving DecidableEq

mutual

/-- An expression. -/
inductive Expr where
  /-- `target: value`. Any pipe may be a target. -/
  | assignment (span : Span) (target value : Expr)
  /-- Stages with `|` between them. -/
  | pipe (span : Span) (stages : List Expr)
  /-- Elements with `,` between them. -/
  | join (span : Span) (elements : List Expr)
  /-- Two operands with an operator between them. -/
  | binary (span : Span) (op : BinaryOp) (left right : Expr)
  /-- Operators in front of an operand. -/
  | unary (span : Span) (ops : List UnaryOp) (operand : Expr)
  /-- `base^exponent`. -/
  | power (span : Span) (base exponent : Expr)
  /-- A base with what stands behind it: index brackets and arguments. -/
  | chain (span : Span) (base : Expr) (suffixes : List Suffix)
  | literal (span : Span) (value : Literal)
  /-- A name where it is used. -/
  | name (span : Span) (name : String) (reserved : Bool)
  /-- Parameters and statements in braces, each of them optional. -/
  | function (span : Span) (params : List Param) (body : Option Branch)
  /-- `()` -/
  | unit (span : Span)
  /-- Items in parentheses; a single one is a grouping. -/
  | list (span : Span) (items : List Expr)
  /-- Entries in parentheses, in the order they are written in. -/
  | dict (span : Span) (entries : List Entry)
  /-- `$[condition; thenArm; elseArm]` -/
  | conditional (span : Span) (condition : Expr) (thenArm elseArm : Branch)
  /-- `$.[condition; arm]` -/
  | guarded (span : Span) (condition : Expr) (arm : Branch)
  /-- `W[condition; body]` -/
  | whileLoop (span : Span) (condition : Expr) (body : Branch)
  /-- `N[count; body]` -/
  | countLoop (span : Span) (count : Expr) (body : Branch)
  /-- `@r`, perhaps with a value -/
  | returning (span : Span) (value : Option Expr)
  /-- `@b` -/
  | breaking (span : Span)
  /-- `@c` -/
  | continuing (span : Span)
  /-- `@a claim` -/
  | asserting (span : Span) (claim : Expr)
  /-- `@t attempt` -/
  | trying (span : Span) (attempt : Expr)

/-- What stands behind the base of a chain. -/
inductive Suffix where
  /-- Arguments in brackets that touch what they index. -/
  | index (span : Span) (args : List Expr)
  /-- An argument next to its function. -/
  | apply (arg : Expr)

/-- A symbol and its value in a dict. -/
inductive Entry where
  | mk (key : String) (keySpan : Span) (value : Expr)

/-- The statements of a function or of an arm. There is at least one. -/
inductive Branch where
  | mk (span : Span) (statements : List Statement)

/-- A statement. -/
inductive Statement where
  | expression (e : Expr)
  /-- A line for the host. -/
  | magic (span : Span) (payload : String)

end

/-- The span of text an expression was read from. -/
def Expr.span : Expr → Span
  | assignment s .. | pipe s .. | join s .. | binary s .. | unary s .. | power s .. | chain s ..
  | literal s .. | name s .. | function s .. | unit s | list s .. | dict s .. | conditional s ..
  | guarded s .. | whileLoop s .. | countLoop s .. | returning s .. | breaking s | continuing s
  | asserting s .. | trying s .. => s

instance : Inhabited Expr := ⟨.unit default⟩

namespace Suffix

/-- The span of text a suffix was read from. -/
def span : Suffix → Span
  | index s _ => s
  | apply arg => arg.span

end Suffix

namespace Entry

/-- The symbol of an entry, without its backtick. -/
def key : Entry → String
  | mk key _ _ => key

/-- The span of the symbol. -/
def keySpan : Entry → Span
  | mk _ keySpan _ => keySpan

/-- The value of an entry. -/
def value : Entry → Expr
  | mk _ _ value => value

/-- The span from the symbol through the value. -/
def span (e : Entry) : Span := e.keySpan.merge e.value.span

end Entry

namespace Statement

/-- The span of text a statement was read from. -/
def span : Statement → Span
  | expression e => e.span
  | magic span _ => span

end Statement

namespace Branch

/-- A branch of one or more statements. -/
def ofStatements (first : Statement) (rest : List Statement) : Branch :=
  mk (rest.foldl (fun s t => s.merge t.span) first.span) (first :: rest)

/-- The span from the first statement through the last. -/
def span : Branch → Span
  | mk span _ => span

/-- The statements in order. -/
def statements : Branch → List Statement
  | mk _ statements => statements

/-- Divides a branch in front of its last statement, if there is another one. -/
def splitLast? (b : Branch) : Option (Branch × Branch) :=
  match b.statements with
  | first :: second :: rest =>
    let last := (second :: rest).getLast (by simp)
    some (ofStatements first (second :: rest).dropLast, ofStatements last [])
  | _ => none

end Branch

/-- A whole source text. -/
structure Program where
  /-- The text behind `#!` on the first line, if that is such a line. -/
  shebang : Option String
  statements : List Statement
  span : Span

namespace Program

instance : Inhabited Program := ⟨⟨none, [], default⟩⟩

/-- Whether there is no statement. -/
def isEmpty (p : Program) : Bool := p.statements.isEmpty

end Program
end WqSource
