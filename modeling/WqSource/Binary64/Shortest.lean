import WqSource.Binary64

/-!
# The shortest decimal text of a number

A binary64 number is written with the fewest decimal digits that still read back as the
same number; of two such texts the one nearer to the number is taken, and of two equally
near the larger. Digits are always written in place: there is no exponent, and a whole
number has no fraction. A minus sign stands in front.

Every number is a multiple of `10 ^ (-1074)`, so the search runs over decimal grids of
ever finer steps `10 ^ (j - 1074)` and needs no bound: at `j = 0` the number itself is on
the grid.
-/

namespace WqSource.Binary64

-- Powers are those of natural numbers themselves, whatever other powers are in scope.
attribute [local instance (2000)] instPowNat

/-- The number without its sign in steps of `10 ^ (-1074)`, of which each unit has `5 ^ 1074`. -/
def decimalSteps (x : Binary64) : Nat := x.units * 5 ^ unitPlaces

/-- Whether the decimal number `c * 10 ^ (j - 1074)` reads as `x`, apart from the sign. -/
def readsAs (x : Binary64) (c j : Nat) : Bool :=
  nearestUnits (c * 10 ^ j) (10 ^ unitPlaces) == x.units

/-- Of a number and its successor the one that the test holds of; if it holds of both, the
successor only where that is nearer. -/
def eitherOf? (test : Nat → Bool) (below : Nat) (nearer : Bool) : Option Nat :=
  match test below, test (below + 1) with
  | true, true => some (if nearer then below + 1 else below)
  | true, false => some below
  | false, true => some (below + 1)
  | false, false => none

/-- The neighbour of `x` on the grid of step `10 ^ (j - 1074)` that is to be written, as
a multiple of the step: one that reads as `x`, the nearer if both do. -/
def neighbour? (x : Binary64) (j : Nat) : Option Nat :=
  eitherOf? (x.readsAs · j) (x.decimalSteps / 10 ^ j)
    (10 ^ j ≤ 2 * (x.decimalSteps % 10 ^ j))

/-- The first result on the grids from `j` down, and its grid. On the last grid there always
is one. -/
def firstGrid (onGrid? : Nat → Option Nat) (last : Nat) : Nat → Nat × Nat
  | 0 => (last, 0)
  | j + 1 =>
    match onGrid? (j + 1) with
    | some c => (c, j + 1)
    | none => firstGrid onGrid? last j

/-- The digits of the text and the grid they are on, trying the grids from `j` down. -/
def shortestFrom (x : Binary64) (j : Nat) : Nat × Nat :=
  firstGrid x.neighbour? x.decimalSteps j

/-- The digits of the text and their grid. The first grid is coarser than the number:
`30103 / 100000` exceeds the decimal logarithm of 2. -/
def shortest (x : Binary64) : Nat × Nat :=
  x.shortestFrom ((x.decimalSteps.log2 + 1) * 30103 / 100000 + 1)

/-- A natural number in decimal digits, with leading zeros up to a width. -/
def paddedDigits (width n : Nat) : List Char :=
  let digits := Nat.toDigits 10 n
  List.replicate (width - digits.length) '0' ++ digits

/-- The decimal number `c * 10 ^ (j - 1074)` with every digit in its place. -/
def positional (c j : Nat) : List Char :=
  let whole := c * 10 ^ j / 10 ^ unitPlaces
  let places := unitPlaces - j
  let fraction := c % 10 ^ places
  if fraction = 0 then Nat.toDigits 10 whole
  else Nat.toDigits 10 whole ++ '.' :: paddedDigits places fraction

/-- The shortest text that reads back as the number. -/
def text (x : Binary64) : String :=
  String.ofList ((if x.negative then ['-'] else []) ++ positional x.shortest.1 x.shortest.2)

end WqSource.Binary64
