import WqSource.Unicode.Alphabetic
import WqSource.Unicode.Extender
import WqSource.Unicode.Numeric
import WqSource.Unicode.Unprintable

/-!
# Properties of characters

The classes of characters that wq source text and its messages depend on. ASCII is
decided directly; beyond it each class looks its code point up in a table of ranges.
-/

namespace WqSource.Unicode

/-- Whether a code point lies in one of the inclusive ranges of a table. -/
def within (ranges : Array (Nat × Nat)) (n : Nat) : Bool :=
  ranges.any fun r => r.1 ≤ n && n ≤ r.2

/-- The property Alphabetic. -/
def isAlphabetic (c : Char) : Bool :=
  if c.toNat < 0x80 then c.isAlpha else within alphabeticRanges c.toNat

/-- A numeral of any script: general category Nd, Nl or No. -/
def isNumeric (c : Char) : Bool :=
  if c.toNat < 0x80 then c.isDigit else within numericRanges c.toNat

/-- The property White_Space. -/
def isBlank (c : Char) : Bool :=
  let n := c.toNat
  n == 0x20 || (0x09 ≤ n && n ≤ 0x0D) || n == 0x85 || n == 0xA0 || n == 0x1680 ||
    (0x2000 ≤ n && n ≤ 0x200A) || n == 0x2028 || n == 0x2029 || n == 0x202F || n == 0x205F ||
    n == 0x3000

/-- Whether a character attaches to the one before it: the property Grapheme_Extend, except
for letters. -/
def isExtender (c : Char) : Bool :=
  0x80 ≤ c.toNat && within extenderRanges c.toNat

/-- Whether a character shows something of its own when printed. The only separator that
does is the ordinary space; letters without a shape do not. -/
def isPrintable (c : Char) : Bool :=
  if c.toNat < 0x80 then 0x20 ≤ c.toNat && c.toNat < 0x7F
  else !within unprintableRanges c.toNat

/-- Every character of the library's own whitespace class is blank. -/
theorem isBlank_of_isWhitespace {c : Char} (h : c.isWhitespace = true) : isBlank c = true := by
  simp only [Char.isWhitespace, Bool.or_eq_true, decide_eq_true_eq] at h
  rcases h with ((rfl | rfl) | rfl) | rfl <;> rfl

end WqSource.Unicode
