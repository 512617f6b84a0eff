import WqSource.Json
import WqSource.Tree

/-!
# Trees as JSON

Every node of a tree becomes an object with a member `type`, the node's own members, and,
on demand, a member `span` with the bytes at which the node starts and ends. Without spans
the value is the shape of the tree: what it is, apart from where it stands.

A float is given as text, because not every one is a JSON number.

## Main definitions

* `Program.toJson`, `Expr.toJson`: the values.
* `Program.shape`: the value without spans.
-/

namespace WqSource

/-- An object for a node. Its type is added first and its place last, so a member of its own
that is named `type` would hide the type. -/
def Json.node (spans : Bool) (type : String) (span : Span) (fields : List (String × Json)) :
    Json :=
  let place := if spans
    then [("span", Json.array [.number span.start.offset, .number span.stop.offset])]
    else []
  .ofFields (("type", .string type) :: fields ++ place)

open Json (node)

/-- What a literal is, and its value. The constants have none. -/
def Literal.fields : Literal → List (String × Json)
  | integer n => [("kind", .string "integer"), ("value", .number n)]
  | float x => [("kind", .string "float"), ("value", .string x.text)]
  | character c => [("kind", .string "character"), ("value", .string c.toString)]
  | string s => [("kind", .string "string"), ("value", .string s)]
  | symbol s => [("kind", .string "symbol"), ("value", .string s)]
  | boolean b => [("kind", .string "boolean"), ("value", .bool b)]
  | infinity => [("kind", .string "inf")]
  | notANumber => [("kind", .string "nan")]

/-- The object for a parameter. -/
def Param.toJson (spans : Bool) (p : Param) : Json :=
  node spans "param" p.span [("name", .string p.name)]

mutual

/-- The object for an expression. -/
def Expr.toJson (spans : Bool) : Expr → Json
  | .assignment s target value =>
    node spans "assign" s [("left", target.toJson spans), ("right", value.toJson spans)]
  | .pipe s stages => node spans "pipe" s [("stages", .array (Expr.listToJson spans stages))]
  | .join s elements =>
    node spans "comma" s [("elements", .array (Expr.listToJson spans elements))]
  | .binary s op left right =>
    node spans "binary" s [("op", .string op.punct.spelling), ("left", left.toJson spans),
      ("right", right.toJson spans)]
  | .unary s ops operand =>
    node spans "unary" s [("ops", .array (ops.map (.string ·.punct.spelling))),
      ("operand", operand.toJson spans)]
  | .power s base exponent =>
    node spans "power" s [("base", base.toJson spans), ("exponent", exponent.toJson spans)]
  | .chain s base suffixes =>
    node spans "postfix" s [("base", base.toJson spans),
      ("suffixes", .array (Suffix.listToJson spans suffixes))]
  | .literal s value => node spans "literal" s value.fields
  | .name s name reserved =>
    node spans "variable" s [("name", .string name), ("builtin", .bool reserved)]
  | .function s params body =>
    node spans "function" s [("params", .array (params.map (Param.toJson spans))),
      ("body", match body with | none => .null | some body => body.toJson spans)]
  | .unit s => node spans "unit" s []
  | .list s items => node spans "list" s [("items", .array (Expr.listToJson spans items))]
  | .dict s entries =>
    node spans "dict" s [("entries", .array (Entry.listToJson spans entries))]
  | .conditional s condition thenArm elseArm =>
    node spans "conditional" s [("cond", condition.toJson spans),
      ("then", thenArm.toJson spans), ("else", elseArm.toJson spans)]
  | .guarded s condition arm =>
    node spans "conditional_one_arm" s [("cond", condition.toJson spans),
      ("branch", arm.toJson spans)]
  | .whileLoop s condition body =>
    node spans "while" s [("cond", condition.toJson spans), ("body", body.toJson spans)]
  | .countLoop s count body =>
    node spans "for" s [("count", count.toJson spans), ("body", body.toJson spans)]
  | .returning s value =>
    node spans "return" s [("value",
      match value with | none => .null | some value => value.toJson spans)]
  | .breaking s => node spans "break" s []
  | .continuing s => node spans "continue" s []
  | .asserting s claim => node spans "assert" s [("value", claim.toJson spans)]
  | .trying s attempt => node spans "try" s [("value", attempt.toJson spans)]

/-- The objects for expressions. -/
def Expr.listToJson (spans : Bool) : List Expr → List Json
  | [] => []
  | e :: es => e.toJson spans :: Expr.listToJson spans es

/-- The object for a suffix. -/
def Suffix.toJson (spans : Bool) : Suffix → Json
  | .index s args => node spans "index" s [("args", .array (Expr.listToJson spans args))]
  | .apply arg => node spans "apply" arg.span [("arg", arg.toJson spans)]

/-- The objects for suffixes. -/
def Suffix.listToJson (spans : Bool) : List Suffix → List Json
  | [] => []
  | s :: ss => s.toJson spans :: Suffix.listToJson spans ss

/-- The object for an entry. Its span is that from the symbol through the value. -/
def Entry.toJson (spans : Bool) : Entry → Json
  | .mk key keySpan value =>
    node spans "entry" (keySpan.merge value.span)
      [("key", .string key), ("value", value.toJson spans)]

/-- The objects for entries. -/
def Entry.listToJson (spans : Bool) : List Entry → List Json
  | [] => []
  | e :: es => e.toJson spans :: Entry.listToJson spans es

/-- The object for a branch. -/
def Branch.toJson (spans : Bool) : Branch → Json
  | .mk s statements =>
    node spans "branch" s [("statements", .array (Statement.listToJson spans statements))]

/-- The object for a statement. -/
def Statement.toJson (spans : Bool) : Statement → Json
  | .expression e => e.toJson spans
  | .magic s payload => node spans "magic" s [("payload", .string payload)]

/-- The objects for statements. -/
def Statement.listToJson (spans : Bool) : List Statement → List Json
  | [] => []
  | s :: ss => s.toJson spans :: Statement.listToJson spans ss

end

/-- The object for a program. -/
def Program.toJson (spans : Bool) (p : Program) : Json :=
  node spans "program" p.span [("shebang", .ofOption (p.shebang.map .string)),
    ("statements", .array (Statement.listToJson spans p.statements))]

/-- What a program is, apart from where its nodes stand. -/
def Program.shape (p : Program) : Json := p.toJson false

end WqSource
