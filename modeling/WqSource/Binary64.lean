/-!
# Binary64 numbers

A float literal denotes a number of the interchange format binary64: at most 53 binary
digits, of which the last stands for no less than `2 ^ (-1074)`. Literals are never
infinite, so a number here is a sign and a natural number of *units*, each unit being
that least positive number; all arithmetic on it is exact. A sign is never read from a
text, in which it is an operator, but a tree put together by hand may have it.

`ofDecimal` reads a decimal fraction: the nearest binary64 number, of two equally near
the one whose last binary digit is 0.

## Main definitions

* `Representable u`: `u` units have at most 53 significant binary digits and are finite.
* `nearestUnits n d`: the units of the binary64 number nearest to `n / d`.
* `Binary64.ofDecimal n places`: the number nearest to `n / 10 ^ places`, if finite.
-/

namespace WqSource

-- Powers are those of natural numbers themselves, whatever other powers are in scope.
attribute [local instance (2000)] instPowNat

/-- The number of binary places of a unit. It has as many decimal ones. -/
abbrev unitPlaces : Nat := 1074

/-- The quotient `n / d` rounded to the nearest natural number, halves to the even one. -/
def divideToEven (n d : Nat) : Nat :=
  if 2 * (n % d) < d then n / d
  else if d < 2 * (n % d) then n / d + 1
  else n / d + (n / d) % 2

/-- The quotient rounded down, or one more. -/
theorem divideToEven_le (n d : Nat) : divideToEven n d ≤ n / d + 1 := by
  unfold divideToEven
  split
  · omega
  · split <;> omega

/-- Number of binary digits behind the first 53 of a number. -/
def excessDigits (u : Nat) : Nat := u.log2 - 52

/-- A number of units that binary64 has: the digits behind the first 53 are zero, and
the number has at most 2098 binary digits, which is to say that it is below `2 ^ 1024`. -/
def Representable (u : Nat) : Prop := 2 ^ excessDigits u ∣ u ∧ u.log2 < 2098

instance (u : Nat) : Decidable (Representable u) := inferInstanceAs (Decidable (_ ∧ _))

/-- Units of the number nearest to `n / d` among those with at most 53 significant
digits. -/
def nearestUnits (n d : Nat) : Nat :=
  let excess := excessDigits (n * 2 ^ unitPlaces / d)
  divideToEven (n * 2 ^ unitPlaces) (d * 2 ^ excess) * 2 ^ excess

theorem log2_lt_of_lt {u k : Nat} (h : u < 2 ^ (k + 1)) : u.log2 ≤ k := by
  by_cases hu : u = 0
  · simp [hu]
  · exact Nat.le_of_lt_succ ((Nat.log2_lt hu).2 h)

/-- A number of 53 digits has as many digits 0 at its end when it is moved to the left. -/
theorem excessDigits_mul_dvd {m j : Nat} (hm : m ≤ 2 ^ (53 : Nat)) (hj : j ≤ 52) (hdvd : 2 ^ j ∣ m)
    (e : Nat) : 2 ^ (excessDigits (m * 2 ^ e) + j) ∣ m * 2 ^ e := by
  rcases Nat.lt_or_eq_of_le hm with hlt | rfl
  · have hlog : (m * 2 ^ e).log2 ≤ 52 + e := by
      apply log2_lt_of_lt
      rw [show 52 + e + 1 = 53 + e by omega, Nat.pow_add]
      exact Nat.mul_lt_mul_of_pos_right hlt (Nat.two_pow_pos e)
    have hexcess : excessDigits (m * 2 ^ e) ≤ e := by
      simp only [excessDigits]
      omega
    rw [Nat.pow_add, Nat.mul_comm (2 ^ _)]
    exact Nat.mul_dvd_mul hdvd (Nat.pow_dvd_pow 2 hexcess)
  · rw [← Nat.pow_add]
    refine Nat.pow_dvd_pow 2 ?_
    simp only [excessDigits, Nat.log2_two_pow]
    omega

/-- Rounded to the last digit that there is room for, a quotient has 53 digits, or is the power of
two behind all those that have. -/
theorem divideToEven_excess_le (n d : Nat) :
    divideToEven n (d * 2 ^ excessDigits (n / d)) ≤ 2 ^ (53 : Nat) := by
  have hquotient : n / (d * 2 ^ excessDigits (n / d)) < 2 ^ (53 : Nat) := by
    rw [← Nat.div_div_eq_div_mul]
    apply Nat.div_lt_of_lt_mul
    rw [← Nat.pow_add]
    refine Nat.lt_of_lt_of_le Nat.lt_log2_self (Nat.pow_le_pow_right (by decide) ?_)
    simp only [excessDigits]
    omega
  exact Nat.le_trans (divideToEven_le _ _) hquotient

/-- Rounding leaves no digit behind the first 53. -/
theorem excessDigits_nearestUnits_dvd (n d : Nat) :
    2 ^ excessDigits (nearestUnits n d) ∣ nearestUnits n d := by
  unfold nearestUnits
  generalize n * 2 ^ unitPlaces = numerator
  have hdvd := excessDigits_mul_dvd (divideToEven_excess_le numerator d) (Nat.zero_le 52)
    (Nat.one_dvd _) (excessDigits (numerator / d))
  rwa [Nat.add_zero] at hdvd

/-- A finite binary64 number. There are two zeros. -/
structure Binary64 where
  /-- Whether there is a minus sign. -/
  negative : Bool
  /-- How many times the least positive number, `2 ^ (-1074)`. -/
  units : Nat
  representable : Representable units
  deriving DecidableEq

namespace Binary64

@[ext] theorem ext {x y : Binary64} (hsign : x.negative = y.negative) (h : x.units = y.units) :
    x = y := by
  cases x; cases y
  congr

/-- The number zero. -/
instance : Inhabited Binary64 := ⟨⟨false, 0, by decide⟩⟩

/-- The binary64 number nearest to `n / 10 ^ places`, unless that is too large. -/
def ofDecimal (n places : Nat) : Option Binary64 :=
  if h : (nearestUnits n (10 ^ places)).log2 < 2098 then
    some ⟨false, nearestUnits n (10 ^ places), excessDigits_nearestUnits_dvd _ _, h⟩
  else none

end Binary64
end WqSource
