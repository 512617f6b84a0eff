import WqSource.Grammar.Primary

/-!
# The grammar of operators

One parser for each tier of the grammar, from the tightest to the loosest. A tier goes on
by the kind of the current token, with one exception: an opening bracket indexes what it
touches, and is out of place elsewhere.

An argument next to its function is a tier of its own, beside the others: it may have
signs of counting and an exponent, but no minus sign, which would be a subtraction.

## Main definitions

* `chain`, `power`, `unary`: what stands around a primary.
* `multiplicative`, `additive`, `comparison`: operators between two operands.
* `join`, `pipe`, `assignment`: the loosest tiers.
-/

namespace WqSource.Grammar
open WqSource.Parser

variable (inner : Inner)

/-! ## Chains -/

/-- The arguments between index brackets, behind the opening one. -/
def index (t : Token) : Parser Suffix := do
  let args ← items .closeBracket inner.expression
  return .index (← spanFrom t.span.start) args

/-- A base with the suffixes behind it. Without any it stands for itself. -/
def chained (base : Expr) (suffixes : List Suffix) : Parser Expr := do
  if suffixes.isEmpty then return base
  return .chain (← spanFrom base.span.start) base suffixes

/-- The index brackets behind a primary. -/
def indexed (base : Expr) : Parser Expr := do
  let further suffixes c :=
    if c.atAdjacentBracket then some fun t => return suffixes ++ [← index inner t] else none
  chained base (← repeatTaking further [])

/-- An exponent, if there is one. It may have signs and an exponent of its own. -/
def raised (base : Expr) : Parser Expr := do
  if ← look (·.looksAt .caret) then
    discard take
    let exponent ← inner.exponent
    return .power (base.span.merge exponent.span) base exponent
  else return base

/-- Operators in front of an operand. Without any, the operand stands for itself. -/
def counted (start : Position) (ops : List UnaryOp) (operand : Expr) : Parser Expr := do
  if ops.isEmpty then return operand
  return .unary (← spanFrom start) ops operand

/-- An argument next to its function, behind the first token: a primary with its index
brackets and its exponent, perhaps with signs of counting in front. -/
def argument? : Token.Kind → Option (Token → Parser Expr)
  | .punct .hash => some fun t => do
    let ops ← repeatTaking (fun ops => atPunct .hash fun _ => return ops ++ [.count]) [.count]
    let operand ← raised inner (← indexed inner (← primary inner))
    counted t.span.start ops operand
  | k => (primary? inner k).map fun goOn t => do
    raised inner (← indexed inner (← goOn t))

theorem isSome_argument? (k : Token.Kind) : (argument? inner k).isSome = k.startsArgument := by
  cases k with
  | punct p => cases p <;> rfl
  | _ => rfl

/-- A primary with index brackets and arguments behind it. -/
def chain : Parser Expr := do
  let base ← primary inner
  let further suffixes c :=
    if c.atAdjacentBracket then some fun t => return suffixes ++ [← index inner t]
    else (argument? inner c.current.kind).map fun goOn t => return suffixes ++ [.apply (← goOn t)]
  chained base (← repeatTaking further [])

/-! ## Operators -/

/-- A chain with its exponent, if it has one. -/
def power : Parser Expr := do raised inner (← chain inner)

/-- The operators in front of an operand, by their tokens. -/
def unaryOp? : Token.Kind → Option UnaryOp
  | .punct .minus => some .negate
  | .punct .hash => some .count
  | _ => none

/-- A power with its signs. -/
def unary : Parser Expr := do
  let start ← look (·.current.span.start)
  let further ops c := (unaryOp? c.current.kind).map fun op _ => return ops ++ [op]
  let ops ← repeatTaking further []
  counted start ops (← power inner)

/-- The tiers of operators between two operands. -/
inductive Tier where
  | comparison | additive | multiplicative
  deriving DecidableEq

/-- The operators of a tier, by their tokens. Inequality has two spellings. -/
def Tier.op? : Tier → Token.Kind → Option BinaryOp
  | comparison, .punct .equal => some .equal
  | comparison, .punct .tilde => some .notEqual
  | comparison, .punct .bangEqual => some .notEqual
  | comparison, .punct .less => some .less
  | comparison, .punct .lessEqual => some .lessEqual
  | comparison, .punct .greater => some .greater
  | comparison, .punct .greaterEqual => some .greaterEqual
  | additive, .punct .plus => some .add
  | additive, .punct .minus => some .subtract
  | multiplicative, .punct .star => some .multiply
  | multiplicative, .punct .slash => some .divide
  | multiplicative, .punct .slashDot => some .wholeDivide
  | multiplicative, .punct .percent => some .modulo
  | multiplicative, .punct .percentDot => some .floatModulo
  | _, _ => none

/-- Operands with operators of a tier between them, grouped from the left. -/
def binary (tier : Tier) (operand : Parser Expr) : Parser Expr := do
  let first ← operand
  let further (left : Expr) (c : Cursor) := (tier.op? c.current.kind).map fun op _ => do
    let right ← operand
    return .binary (left.span.merge right.span) op left right
  repeatTaking further first

/-- Products and the like. -/
def multiplicative : Parser Expr := binary .multiplicative (unary inner)

/-- Sums and differences. -/
def additive : Parser Expr := binary .additive (multiplicative inner)

/-- Comparisons. -/
def comparison : Parser Expr := binary .comparison (additive inner)

/-- Operands with one separator between all of them. A single one stands for itself. -/
def listed (p : Punct) (node : Span → List Expr → Expr) (operand : Parser Expr) :
    Parser Expr := do
  let (first, rest) ← separated operand (atPunct p fun _ => pure ()) fun _ => false
  if rest.isEmpty then return first
  return node (← spanFrom first.span.start) (first :: rest)

/-- Elements with commas between them. -/
def join : Parser Expr := listed .comma .join (comparison inner)

/-- Stages with bars between them. -/
def pipe : Parser Expr := listed .pipe .pipe (join inner)

/-- A pipe, perhaps with a colon and a value behind it. -/
def assignment : Parser Expr := do
  let target ← pipe inner
  if ← look (·.looksAt .colon) then
    discard take
    let value ← inner.expression
    return .assignment (target.span.merge value.span) target value
  else return target

end WqSource.Grammar
