import WqSource.Grammar.Expression
import WqSource.Proofs.Tree.Parts
import Mathlib.Data.List.Chain
import Mathlib.Order.Lattice

/-!
# The shape of well-formed trees

Not every tree can be read. The forms of expressions stand in a ladder, and each form says
how tight its parts have to be. Besides, a part is followed by other tokens of the whole,
and what is at its end must let them go: a control word with an expression behind it would
take them all, a bare `@r` would take whatever begins an expression, and a name that begins
loops would begin one in front of a bracket.

`Expr.WellShaped` says of one node that its parts are in order, and `Expr.Regular` says so
of a whole tree and limits its levels. Regular trees are what the grammar reads, and what
it reads back when they are written.

## Main definitions

* `Rank`: the ladder. `Expr.rank` is the place of a form on it.
* `Token.Kind.joinsAt?`: the tier that goes on with an operand at a token behind it.
* `Ending`, `Expr.ending`: what is open at the end of an expression.
* `Expr.WellShaped`, `Expr.Regular`.
-/

namespace WqSource
open Grammar

/-- The forms of expressions, from the loosest to the tightest. -/
inductive Rank where
  | assignment | pipe | join | comparison | additive | multiplicative | unary | power | chain
  | primary
  deriving DecidableEq

instance : LinearOrder Rank :=
  LinearOrder.lift' Rank.ctorIdx fun a b h => by cases a <;> cases b <;> first | rfl | cases h

/-- The tier of an operator between two operands. -/
def BinaryOp.rank : BinaryOp → Rank
  | equal | notEqual | less | lessEqual | greater | greaterEqual => .comparison
  | add | subtract => .additive
  | multiply | divide | wholeDivide | modulo | floatModulo => .multiplicative

/-- The place of a tier of binary operators on the ladder. -/
def Grammar.Tier.rank : Tier → Rank
  | comparison => .comparison
  | additive => .additive
  | multiplicative => .multiplicative

/-- The place of an expression on the ladder. -/
def Expr.rank : Expr → Rank
  | assignment .. => .assignment
  | pipe .. => .pipe
  | join .. => .join
  | binary _ op .. => op.rank
  | unary .. => .unary
  | power .. => .power
  | chain .. => .chain
  | _ => .primary

/-! ## What goes on behind an operand -/

/-- The tier that goes on with an operand at an operator or bracket behind it, which may
touch the operand or not. -/
def Punct.joinsAt? (touching : Bool) : Punct → Option Rank
  | colon => some .assignment
  | pipe => some .pipe
  | comma => some .join
  | equal | tilde | bangEqual | less | lessEqual | greater | greaterEqual => some .comparison
  | plus | minus => some .additive
  | star | slash | slashDot | percent | percentDot => some .multiplicative
  | caret => some .power
  | hash | dollar | openParen | openBrace => some .chain
  | openBracket => if touching then some .chain else none
  | semicolon | dot | closeParen | closeBracket | closeBrace => none

/-- The tier that goes on with an operand at a token behind it, if one does. -/
def Token.Kind.joinsAt? (touching : Bool) : Token.Kind → Option Rank
  | punct p => p.joinsAt? touching
  | k => if k.startsPrimary then some .chain else none

/-- Whether a tier and all tighter ones stop in front of a token. -/
def Token.Kind.StopsAt (k : Token.Kind) (touching : Bool) (r : Rank) : Prop :=
  ∀ q ∈ k.joinsAt? touching, q < r

section Joins
variable {k : Token.Kind} {touching : Bool}

@[simp] theorem Token.Kind.joinsAt?_eq_assignment :
    k.joinsAt? touching = some .assignment ↔ k = .punct .colon := by
  cases k with
  | punct p => cases p <;> cases touching <;> simp [joinsAt?, Punct.joinsAt?]
  | _ => simp [joinsAt?, startsPrimary]

@[simp] theorem Token.Kind.joinsAt?_eq_pipe :
    k.joinsAt? touching = some .pipe ↔ k = .punct .pipe := by
  cases k with
  | punct p => cases p <;> cases touching <;> simp [joinsAt?, Punct.joinsAt?]
  | _ => simp [joinsAt?, startsPrimary]

@[simp] theorem Token.Kind.joinsAt?_eq_join :
    k.joinsAt? touching = some .join ↔ k = .punct .comma := by
  cases k with
  | punct p => cases p <;> cases touching <;> simp [joinsAt?, Punct.joinsAt?]
  | _ => simp [joinsAt?, startsPrimary]

@[simp] theorem Token.Kind.joinsAt?_eq_power :
    k.joinsAt? touching = some .power ↔ k = .punct .caret := by
  cases k with
  | punct p => cases p <;> cases touching <;> simp [joinsAt?, Punct.joinsAt?]
  | _ => simp [joinsAt?, startsPrimary]

@[simp] theorem Token.Kind.joinsAt?_eq_unary : k.joinsAt? touching ≠ some .unary := by
  cases k with
  | punct p => cases p <;> cases touching <;> simp [joinsAt?, Punct.joinsAt?]
  | _ => simp [joinsAt?, startsPrimary]

@[simp] theorem Token.Kind.joinsAt?_eq_primary : k.joinsAt? touching ≠ some .primary := by
  cases k with
  | punct p => cases p <;> cases touching <;> simp [joinsAt?, Punct.joinsAt?]
  | _ => simp [joinsAt?, startsPrimary]

/-- What begins an argument, or is a bracket that touches, goes on with a chain. -/
@[simp] theorem Token.Kind.joinsAt?_eq_chain :
    k.joinsAt? touching = some .chain ↔
      k.startsArgument = true ∨ k = .punct .openBracket ∧ touching = true := by
  cases k with
  | punct p => cases p <;> cases touching <;> simp [joinsAt?, Punct.joinsAt?, startsArgument,
      startsPrimary]
  | _ => simp [joinsAt?, startsArgument, startsPrimary]

/-- The operators of a tier are the tokens that go on with it. -/
theorem Token.Kind.joinsAt?_eq_rank (tier : Tier) :
    k.joinsAt? touching = some tier.rank ↔ (tier.op? k).isSome = true := by
  cases k with
  | punct p => cases p <;> cases tier <;> cases touching <;> decide
  | _ => cases tier <;> simp [joinsAt?, startsPrimary, Tier.rank, Tier.op?]

/-- An operator is of the tier that reads it, and is read from its own spelling or, if it is
that of inequality, from the shorter one. -/
theorem Grammar.Tier.op?_eq_some {tier : Tier} {op : BinaryOp} (h : tier.op? k = some op) :
    op.rank = tier.rank ∧ (k = .punct op.punct ∨ k = .punct .tilde ∧ op = .notEqual) := by
  cases k with
  | punct p => cases tier <;> cases p <;> cases h <;> decide
  | _ => cases tier <;> cases h

theorem Token.Kind.StopsAt.mono {r q : Rank} (h : k.StopsAt touching r) (hr : r ≤ q) :
    k.StopsAt touching q :=
  fun s hs => lt_of_lt_of_le (h s hs) hr

/-- If all tiers tighter than one stop in front of a token, and that one does not go on
there, it stops, too. -/
theorem Token.Kind.StopsAt.looser {r q : Rank} (h : k.StopsAt touching q)
    (hr : ∀ s, s < q → s ≤ r) (hk : k.joinsAt? touching ≠ some r) : k.StopsAt touching r := by
  intro s hs
  refine lt_of_le_of_ne (hr s (h s hs)) ?_
  rintro rfl
  exact hk hs

theorem Token.Kind.stopsAt_primary : k.StopsAt touching .primary := by
  intro s hs
  refine lt_of_le_of_ne (by cases s <;> decide) ?_
  rintro rfl
  exact joinsAt?_eq_primary hs

theorem Token.Kind.stopsAt_assignment :
    k.StopsAt touching .assignment ↔ k.joinsAt? touching = none := by
  constructor
  · intro h
    cases hk : k.joinsAt? touching with
    | none => rfl
    | some q => exact absurd (h q hk) (by cases q <;> decide)
  · intro h q hq
    simp [h] at hq

end Joins

/-! ## What is open at the end -/

/-- What is open at the end of an expression. -/
inductive Ending where
  /-- Nothing is. -/
  | closed
  /-- A name that begins a loop in front of a bracket. -/
  | loopName
  /-- A control word that may have an expression behind it and has none. -/
  | bareReturn
  /-- A control word and the expression behind it, which goes on as far as it can. -/
  | openWord
  deriving DecidableEq

/-- Whether a token may stand behind an end without becoming part of what is open there. -/
def Ending.Admits (touching : Bool) (k : Token.Kind) : Ending → Prop
  | closed => True
  | loopName => k ≠ .punct .openBracket
  | bareReturn => k.startsExpression = false
  | openWord => k.joinsAt? touching = none

/-- What is open at the end of a name. -/
def nameEnding (name : String) (reserved : Bool) : Ending :=
  if !reserved && (loopOfName? name).isSome then .loopName else .closed

mutual

/-- What is open at the end of an expression. -/
def Expr.ending : Expr → Ending
  | .assignment _ _ value => value.ending
  | .pipe _ stages => Expr.lastEnding stages
  | .join _ elements => Expr.lastEnding elements
  | .binary _ _ _ right => right.ending
  | .unary _ _ operand => operand.ending
  | .power _ _ exponent => exponent.ending
  | .chain _ base suffixes => Suffix.lastEnding base.ending suffixes
  | .name _ name reserved => nameEnding name reserved
  | .returning _ none => .bareReturn
  | .returning _ (some _) | .asserting .. | .trying .. => .openWord
  | _ => .closed

/-- What is open at the end of the last of some expressions. -/
def Expr.lastEnding : List Expr → Ending
  | [] => .closed
  | [e] => e.ending
  | _ :: es => Expr.lastEnding es

/-- What is open at the end of a suffix. -/
def Suffix.ending : Suffix → Ending
  | .index .. => .closed
  | .apply arg => arg.ending

/-- What is open at the end of the last of some suffixes, or else in front of them. -/
def Suffix.lastEnding (before : Ending) : List Suffix → Ending
  | [] => before
  | [s] => s.ending
  | _ :: ss => Suffix.lastEnding before ss

end

/-! ## Shapes -/

namespace Suffix

/-- Whether a suffix is in brackets. -/
def isIndex : Suffix → Bool
  | index .. => true
  | apply _ => false

/-- Whether a suffix may stand behind such an end. An argument may begin with any token
that begins arguments. -/
def Follows (before : Ending) : Suffix → Prop
  | index .. => before.Admits true (.punct .openBracket)
  | apply _ => ∀ k : Token.Kind, k.startsArgument = true → before.Admits true k

end Suffix

namespace Expr

/-- A primary, or one with nothing but index brackets behind it. -/
def isIndexed : Expr → Bool
  | chain _ _ suffixes => suffixes.all Suffix.isIndex
  | e => e.rank == .primary

/-- Whether an argument has an exponent, which would take the arguments behind it. -/
def isRaised : Expr → Bool
  | power .. => true
  | unary _ _ (power ..) => true
  | _ => false

/-- An expression that can be an argument next to its function: a primary with its index
brackets and perhaps an exponent, perhaps counted. There is no minus sign in front. -/
def isArgument : Expr → Bool
  | power .. => true
  | unary _ ops (power ..) => ops.all (· == .count)
  | unary _ ops operand => ops.all (· == .count) && operand.isIndexed
  | e => e.isIndexed

end Expr

/-- Whether one suffix may stand directly behind another. -/
def Suffix.Precedes (s t : Suffix) : Prop :=
  (t.isIndex = true → s.isIndex = true) ∧ t.Follows s.ending ∧
    ∀ arg, s = .apply arg → arg.isRaised = false

/-- A branch with at least one statement, and no lines for the host. -/
def Branch.WellShaped (b : Branch) : Prop :=
  b.statements ≠ [] ∧ ∀ s ∈ b.statements, s.expression?.isSome = true

/-- Whether an expression is an assignment to a symbol, as an entry of a dict would be. -/
def Expr.isEntry : Expr → Bool
  | assignment _ (literal _ (.symbol _)) _ => true
  | _ => false

/-- Whether the parts of an expression are of the forms they have to be, and let go of what
stands behind them. -/
def Expr.WellShaped : Expr → Prop
  | assignment _ target _ =>
    .assignment < target.rank ∧ target.ending.Admits true (.punct .colon)
  | pipe _ stages =>
    2 ≤ stages.length ∧ (∀ e ∈ stages, .pipe < e.rank) ∧
      ∀ e ∈ stages.dropLast, e.ending.Admits true (.punct .pipe)
  | join _ elements =>
    2 ≤ elements.length ∧ (∀ e ∈ elements, .join < e.rank) ∧
      ∀ e ∈ elements.dropLast, e.ending.Admits true (.punct .comma)
  | binary _ op left right =>
    op.rank ≤ left.rank ∧ op.rank < right.rank ∧ left.ending.Admits true (.punct op.punct)
  | unary _ ops operand => ops ≠ [] ∧ .unary < operand.rank
  | power _ base exponent =>
    base.isIndexed = true ∧ .unary ≤ exponent.rank ∧ base.ending.Admits true (.punct .caret)
  | chain _ base suffixes =>
    base.rank = .primary ∧ suffixes ≠ [] ∧ (∀ s ∈ suffixes.head?, s.Follows base.ending) ∧
      suffixes.IsChain Suffix.Precedes ∧ ∀ arg, .apply arg ∈ suffixes → arg.isArgument = true
  | function _ _ body => ∀ b ∈ body, b.WellShaped
  | list _ items => items ≠ [] ∧ ∀ e ∈ items.head?, e.isEntry = false
  | dict _ entries => entries ≠ []
  | conditional _ _ thenArm elseArm => thenArm.WellShaped ∧ elseArm.WellShaped
  | guarded _ _ arm => arm.WellShaped
  | whileLoop _ _ body => body.WellShaped
  | countLoop _ _ body => body.WellShaped
  | _ => True

/-- A tree that is well shaped all through and has no more than `n` levels in it. -/
def Expr.Regular (n : Nat) (e : Expr) : Prop := e.Everywhere fun k x => x.WellShaped ∧ k ≤ n

/-- A tree that may stand in one with `n` levels in it, one level deeper. -/
def Expr.NestsIn (n : Nat) (e : Expr) : Prop := ∃ m, n = m + 1 ∧ e.Regular m

/-- A tree is regular if its root is well shaped and its parts are regular, those that are
nested with one level less. -/
theorem Expr.regular_iff {n : Nat} {e : Expr} :
    e.Regular n ↔
      e.WellShaped ∧ (∀ x ∈ e.operands, x.Regular n) ∧ ∀ x ∈ e.nested, x.NestsIn n := by
  unfold Expr.NestsIn Expr.Regular
  rw [everywhere_iff]
  simp only [Nat.zero_le, and_true]
  refine and_congr_right fun _ => and_congr_right fun _ => forall₂_congr fun x _ => ?_
  constructor
  · intro h
    have hn : 1 ≤ n := (h 0 x (.refl x)).2
    refine ⟨n - 1, by omega, fun k y hy => ⟨(h k y hy).1, ?_⟩⟩
    have := (h k y hy).2
    omega
  · rintro ⟨m, rfl, h⟩ k y hy
    exact ⟨(h k y hy).1, by have := (h k y hy).2; omega⟩

/-- What passes from the parts to a well-shaped whole holds of every regular tree. -/
theorem Expr.Regular.induction {P : Expr → Prop}
    (h : ∀ e : Expr, e.WellShaped → (∀ x ∈ e.operands, P x) → (∀ x ∈ e.nested, P x) → P e)
    {n : Nat} {e : Expr} (he : e.Regular n) : P e := by
  induction e using induction_parts generalizing n with
  | h e operands nested =>
    obtain ⟨hshape, hoperands, hnested⟩ := regular_iff.1 he
    refine h e hshape (fun x hx => operands x hx (hoperands x hx)) fun x hx => ?_
    obtain ⟨m, -, hm⟩ := hnested x hx
    exact nested x hx hm

end WqSource
