import WqSource.Binary64
import Mathlib.Data.Nat.Dist

/-!
# The nearest number

A decimal fraction is read as a binary64 number in one division: the quotient is rounded to a
multiple of the last binary digit for which there is room. That digit is found from the quotient
itself, so it remains to show that no number with other digits is nearer. A number with room for
finer digits is below every number of 53 digits that the quotient may be rounded to, and the least
of these is between it and the quotient.

What is rounded to `2 ^ 1024` is too large. That begins half a digit below.

## Main definitions

* `IsNearest`: the number of units that binary64 has for a quotient.
* `Binary64.limit`: where numbers begin that are too large.

## Main statements

* `isNearest_nearestUnits`: rounding gives the nearest number.
* `nearestUnits_lt_iff`: what is rounded to less than a power of two.
* `Binary64.ofDecimal_of_lt`, `Binary64.ofDecimal_of_le`: what is read of a decimal fraction.
-/

namespace WqSource

-- Powers are those of natural numbers themselves, whatever other powers are in scope.
attribute [local instance (2000)] instPowNat

variable {n d k u v : Nat}

/-! ## Quotients -/

/-- Of two multiples, the greater one is greater by the factor or more. -/
theorem mul_add_le_mul {m : Nat} (h : k < m) (d : Nat) : k * d + d ≤ m * d := by
  rw [← Nat.succ_mul]
  exact Nat.mul_le_mul_right d h

/-- A quotient is rounded to at most one half more or less than it is, and to an even number if it
is exactly that. -/
theorem divideToEven_half (n : Nat) (hd : 0 < d) :
    2 * n ≤ 2 * (divideToEven n d * d) + d ∧ 2 * (divideToEven n d * d) ≤ 2 * n + d ∧
      (2 * n = 2 * (divideToEven n d * d) + d ∨ 2 * (divideToEven n d * d) = 2 * n + d →
        divideToEven n d % 2 = 0) := by
  have hn : n / d * d + n % d = n := by rw [Nat.mul_comm, Nat.div_add_mod]
  have hlt : n % d < d := Nat.mod_lt n hd
  have hup : (n / d + 1) * d = n / d * d + d := Nat.succ_mul _ _
  unfold divideToEven
  split
  · omega
  · split
    · omega
    · rcases Nat.mod_two_eq_zero_or_one (n / d) with heven | hodd
      · rw [heven, Nat.add_zero]
        omega
      · rw [hodd]
        omega

/-- No multiple is nearer than the one that a quotient is rounded to. -/
theorem dist_divideToEven_le (n : Nat) (hd : 0 < d) (k : Nat) :
    Nat.dist (divideToEven n d * d) n ≤ Nat.dist (k * d) n := by
  obtain ⟨hbelow, habove, -⟩ := divideToEven_half n hd
  rcases Nat.lt_trichotomy k (divideToEven n d) with hk | rfl | hk
  · have hstep := mul_add_le_mul hk d
    simp only [Nat.dist]
    omega
  · exact Nat.le_refl _
  · have hstep := mul_add_le_mul hk d
    simp only [Nat.dist]
    omega

/-- If another multiple is as near, a quotient is rounded to an even one. -/
theorem divideToEven_even (hd : 0 < d) (hk : k ≠ divideToEven n d)
    (h : Nat.dist (k * d) n = Nat.dist (divideToEven n d * d) n) : divideToEven n d % 2 = 0 := by
  obtain ⟨hbelow, habove, heven⟩ := divideToEven_half n hd
  refine heven ?_
  rcases Nat.lt_or_gt_of_ne hk with hk | hk
  · have hstep := mul_add_le_mul hk d
    simp only [Nat.dist] at h
    omega
  · have hstep := mul_add_le_mul hk d
    simp only [Nat.dist] at h
    omega

/-! ## Units -/

/-- How far `u` units are from the quotient `n / d`, in steps of which a unit has `d`. -/
def roundingError (n d u : Nat) : Nat := Nat.dist (u * d) (n * 2 ^ unitPlaces)

/-- Binary64 has `u` units for the quotient `n / d`. -/
structure IsNearest (n d u : Nat) : Prop where
  /-- There is such a number, and it is finite. -/
  representable : Representable u
  /-- No other one is nearer. -/
  nearest : ∀ v, Representable v → roundingError n d u ≤ roundingError n d v
  /-- If another one is as near, the last of the 53 binary digits is 0. -/
  even : ∀ v, Representable v → v ≠ u → roundingError n d v = roundingError n d u →
    2 ^ (excessDigits u + 1) ∣ u

/-- A number of 53 digits ends in front of the digits that are in excess in another one, or it is
below all numbers that have such digits. -/
theorem dvd_or_lt (hv : 2 ^ excessDigits v ∣ v) (u : Nat) :
    2 ^ excessDigits u ∣ v ∨ v < 2 ^ (52 + excessDigits u) ∧ 2 ^ (52 + excessDigits u) ≤ u := by
  rcases Nat.lt_or_ge (excessDigits v) (excessDigits u) with hlt | hle
  · have hlog : 52 + excessDigits u = u.log2 := by
      simp only [excessDigits] at hlt ⊢
      omega
    have hu : u ≠ 0 := by
      rintro rfl
      cases hlt
    refine .inr ⟨?_, ?_⟩
    · refine Nat.lt_of_lt_of_le Nat.lt_log2_self (Nat.pow_le_pow_right (by decide) ?_)
      simp only [excessDigits] at hlt ⊢
      omega
    · rw [hlog]
      exact Nat.log2_self_le hu
  · exact .inl (Nat.dvd_trans (Nat.pow_dvd_pow 2 hle) hv)

/-- A number of 53 digits is a multiple of the last digit for which a quotient has room, or the
least multiple that fills the room is nearer to the quotient. -/
theorem multiple_or_nearer (numerator : Nat) (hd : 0 < d) (hv : 2 ^ excessDigits v ∣ v) :
    (∃ k, v = k * 2 ^ excessDigits (numerator / d)) ∨
      Nat.dist (2 ^ (52 : Nat) * (d * 2 ^ excessDigits (numerator / d))) numerator <
        Nat.dist (v * d) numerator := by
  rcases dvd_or_lt hv (numerator / d) with hdvd | ⟨hlt, hle⟩
  · obtain ⟨k, hk⟩ := hdvd
    exact .inl ⟨k, hk.trans (Nat.mul_comm _ k)⟩
  · generalize excessDigits (numerator / d) = excess at *
    have hleast : 2 ^ (52 : Nat) * (d * 2 ^ excess) = 2 ^ (52 + excess) * d := by
      rw [Nat.pow_add, Nat.mul_comm d, Nat.mul_assoc]
    have hbelow : v * d < 2 ^ (52 + excess) * d := Nat.mul_lt_mul_of_pos_right hlt hd
    have hfloor : 2 ^ (52 + excess) * d ≤ numerator := calc
      2 ^ (52 + excess) * d ≤ numerator / d * d := Nat.mul_le_mul_right d hle
      _ ≤ numerator := Nat.div_mul_le_self numerator d
    right
    rw [hleast]
    simp only [Nat.dist]
    omega

/-- What a quotient is rounded to is a multiple of the last digit for which there is room. -/
theorem nearestUnits_mul (n d : Nat) : nearestUnits n d * d =
    divideToEven (n * 2 ^ unitPlaces) (d * 2 ^ excessDigits (n * 2 ^ unitPlaces / d)) *
      (d * 2 ^ excessDigits (n * 2 ^ unitPlaces / d)) := by
  unfold nearestUnits
  rw [Nat.mul_assoc, Nat.mul_comm (2 ^ _) d]

/-- No number of 53 digits is nearer to a quotient than the one it is rounded to. -/
theorem roundingError_nearestUnits_le (n : Nat) (hd : 0 < d) (hv : 2 ^ excessDigits v ∣ v) :
    roundingError n d (nearestUnits n d) ≤ roundingError n d v := by
  rw [roundingError, roundingError, nearestUnits_mul]
  generalize n * 2 ^ unitPlaces = numerator
  have hpos := Nat.mul_pos hd (Nat.two_pow_pos (excessDigits (numerator / d)))
  have hle := dist_divideToEven_le numerator hpos
  rcases multiple_or_nearer numerator hd hv with ⟨k, hk⟩ | hlt
  · rw [hk, Nat.mul_assoc, Nat.mul_comm (2 ^ _) d]
    exact hle k
  · exact (hle _).trans hlt.le

/-- If another number is as near, the one that a quotient is rounded to has 0 as its last digit. -/
theorem nearestUnits_even (n : Nat) (hd : 0 < d) (hv : 2 ^ excessDigits v ∣ v)
    (hne : v ≠ nearestUnits n d) (h : roundingError n d v = roundingError n d (nearestUnits n d)) :
    2 ^ (excessDigits (nearestUnits n d) + 1) ∣ nearestUnits n d := by
  rw [roundingError, roundingError, nearestUnits_mul] at h
  simp only [nearestUnits] at hne ⊢
  generalize n * 2 ^ unitPlaces = numerator at *
  have hpos := Nat.mul_pos hd (Nat.two_pow_pos (excessDigits (numerator / d)))
  rcases multiple_or_nearer numerator hd hv with ⟨k, hk⟩ | hlt
  · rw [hk, Nat.mul_assoc, Nat.mul_comm (2 ^ _) d] at h
    have hk : k ≠ divideToEven numerator (d * 2 ^ excessDigits (numerator / d)) := by
      rintro rfl
      exact hne hk
    have heven := Nat.dvd_of_mod_eq_zero (divideToEven_even hpos hk h)
    exact excessDigits_mul_dvd (divideToEven_excess_le numerator d) (by decide) heven _
  · have hle := dist_divideToEven_le numerator hpos (2 ^ (52 : Nat))
    omega

/-- A quotient is rounded to the nearest number, unless that is too large. -/
theorem isNearest_nearestUnits (n : Nat) (hd : 0 < d) (hfinite : (nearestUnits n d).log2 < 2098) :
    IsNearest n d (nearestUnits n d) where
  representable := ⟨excessDigits_nearestUnits_dvd n d, hfinite⟩
  nearest _ hv := roundingError_nearestUnits_le n hd hv.1
  even _ hv hne h := nearestUnits_even n hd hv.1 hne h

/-! ## The limit -/

/-- A quotient is rounded to less than an even number if and only if it is less by more than a
half. -/
theorem divideToEven_lt_iff (hd : 0 < d) (hk : k % 2 = 0) :
    divideToEven n d < k ↔ 2 * n + d < 2 * (k * d) := by
  obtain ⟨hbelow, habove, heven⟩ := divideToEven_half n hd
  constructor
  · intro hlt
    have hstep := mul_add_le_mul hlt d
    by_contra hle
    -- Half way between two numbers, a quotient is rounded to the lower one only if that is even.
    have hnext : k * d = (divideToEven n d + 1) * d := by
      rw [Nat.succ_mul]
      omega
    have hsucc : k = divideToEven n d + 1 := Nat.eq_of_mul_eq_mul_right hd hnext
    omega
  · intro hlt
    by_contra hle
    have hstep : k * d ≤ divideToEven n d * d := Nat.mul_le_mul_right d (Nat.le_of_not_lt hle)
    omega

/-- Below a power of two, a quotient is rounded to that at most. -/
theorem nearestUnits_le_two_pow (h : n * 2 ^ unitPlaces / d < 2 ^ (53 + k)) :
    nearestUnits n d ≤ 2 ^ (53 + k) := by
  simp only [nearestUnits]
  generalize n * 2 ^ unitPlaces = numerator at *
  have hexcess : excessDigits (numerator / d) ≤ k := by
    have hlog : (numerator / d).log2 ≤ 52 + k :=
      log2_lt_of_lt (by rwa [show 52 + k + 1 = 53 + k by omega])
    simp only [excessDigits]
    omega
  rw [Nat.pow_add]
  have hroom : 2 ^ excessDigits (numerator / d) ≤ 2 ^ k := Nat.pow_le_pow_right (by decide) hexcess
  exact Nat.mul_le_mul (divideToEven_excess_le numerator d) hroom

theorem le_divideToEven (n d : Nat) : n / d ≤ divideToEven n d := by
  unfold divideToEven
  split
  · omega
  · split <;> omega

/-- From a power of two on, a quotient is rounded to that at least. -/
theorem two_pow_le_nearestUnits (h : 2 ^ (52 + k) ≤ n * 2 ^ unitPlaces / d) :
    2 ^ (52 + k) ≤ nearestUnits n d := by
  simp only [nearestUnits]
  generalize n * 2 ^ unitPlaces = numerator at *
  have hq : numerator / d ≠ 0 := by
    have := Nat.two_pow_pos (52 + k)
    omega
  have hlog : 52 + k ≤ (numerator / d).log2 := (Nat.le_log2 hq).2 h
  have hexcess : (numerator / d).log2 = 52 + excessDigits (numerator / d) := by
    simp only [excessDigits]
    omega
  have hleast : 2 ^ (52 : Nat) ≤ numerator / d / 2 ^ excessDigits (numerator / d) := by
    rw [Nat.le_div_iff_mul_le (Nat.two_pow_pos _), ← Nat.pow_add, ← hexcess]
    exact Nat.log2_self_le hq
  calc 2 ^ (52 + k) ≤ 2 ^ (52 : Nat) * 2 ^ excessDigits (numerator / d) := by
        rw [← Nat.pow_add, ← hexcess]
        exact Nat.pow_le_pow_right (by decide) hlog
    _ ≤ _ := by
        refine Nat.mul_le_mul_right _ (hleast.trans ?_)
        rw [Nat.div_div_eq_div_mul]
        exact le_divideToEven _ _

/-- In front of a power of two, a quotient is rounded to less than that if and only if it is less by
more than half of the last digit there. -/
theorem nearestUnits_lt_iff_of_excess (hd : 0 < d)
    (hexcess : excessDigits (n * 2 ^ unitPlaces / d) = k + 1) :
    nearestUnits n d < 2 ^ (54 + k) ↔ n * 2 ^ unitPlaces < (2 ^ (54 : Nat) - 1) * 2 ^ k * d := by
  simp only [nearestUnits]
  rw [hexcess]
  generalize n * 2 ^ unitPlaces = numerator
  have hdigit : 0 < d * 2 ^ (k + 1) := Nat.mul_pos hd (Nat.two_pow_pos _)
  have hhalf : d * 2 ^ (k + 1) = 2 * (2 ^ k * d) := by
    rw [Nat.pow_succ, Nat.mul_comm d, Nat.mul_right_comm, Nat.mul_comm]
  have hpower : 2 ^ (54 + k) = 2 ^ (53 : Nat) * 2 ^ (k + 1) := by
    rw [← Nat.pow_add]
    congr 1
    omega
  rw [hpower, Nat.mul_lt_mul_right (Nat.two_pow_pos _), divideToEven_lt_iff hdigit (by decide),
    hhalf, Nat.mul_assoc (2 ^ (54 : Nat) - 1)]
  omega

/-- A quotient is rounded to less than a power of two if and only if it is less by more than half of
the last digit of the numbers in front of the power. -/
theorem nearestUnits_lt_iff (n : Nat) (hd : 0 < d) (k : Nat) :
    nearestUnits n d < 2 ^ (54 + k) ↔ n * 2 ^ unitPlaces < (2 ^ (54 : Nat) - 1) * 2 ^ k * d := by
  rcases Nat.lt_or_ge (n * 2 ^ unitPlaces / d) (2 ^ (53 + k)) with hbelow | hfrom
  · have hlt : 2 ^ (53 + k) < 2 ^ (54 + k) := Nat.pow_lt_pow_right (by decide) (by omega)
    refine iff_of_true ((nearestUnits_le_two_pow hbelow).trans_lt hlt) ?_
    rw [Nat.div_lt_iff_lt_mul hd] at hbelow
    refine hbelow.trans_le (Nat.mul_le_mul_right d ?_)
    rw [Nat.pow_add]
    exact Nat.mul_le_mul_right _ (by decide)
  rcases Nat.lt_or_ge (n * 2 ^ unitPlaces / d) (2 ^ (54 + k)) with hlt | hbeyond
  · refine nearestUnits_lt_iff_of_excess hd ?_
    have hq : n * 2 ^ unitPlaces / d ≠ 0 := by
      have := Nat.two_pow_pos (53 + k)
      omega
    have hlog := (Nat.le_log2 hq).2 hfrom
    have hlog' := (Nat.log2_lt hq).2 hlt
    simp only [excessDigits]
    omega
  · have hle : 2 ^ (54 + k) ≤ nearestUnits n d := by
      rw [show 54 + k = 52 + (2 + k) by omega] at hbeyond ⊢
      exact two_pow_le_nearestUnits hbeyond
    refine iff_of_false (Nat.not_lt_of_le hle) ?_
    rw [ge_iff_le, Nat.le_div_iff_mul_le hd] at hbeyond
    refine Nat.not_lt_of_le (le_trans (Nat.mul_le_mul_right d ?_) hbeyond)
    rw [Nat.pow_add]
    exact Nat.mul_le_mul_right _ (by decide)

/-- The same without units. -/
theorem log2_nearestUnits_lt_iff (n : Nat) (hd : 0 < d) (k : Nat) :
    (nearestUnits n d).log2 < 54 + (k + unitPlaces) ↔ n < (2 ^ (54 : Nat) - 1) * 2 ^ k * d := by
  have hlog : (nearestUnits n d).log2 < 54 + (k + unitPlaces) ↔
      nearestUnits n d < 2 ^ (54 + (k + unitPlaces)) := by
    by_cases hu : nearestUnits n d = 0
    · rw [hu]
      exact iff_of_true (by simp) (Nat.two_pow_pos _)
    · exact Nat.log2_lt hu
  rw [hlog, nearestUnits_lt_iff n hd, Nat.pow_add, ← Nat.mul_assoc, Nat.mul_right_comm _ _ d,
    Nat.mul_lt_mul_right (Nat.two_pow_pos _)]

namespace Binary64

/-- The least number that is too large. It is half way between the greatest finite one and
`2 ^ 1024`, and rounded to that because the last digit of the other is 1. -/
def limit : Nat := (2 ^ (54 : Nat) - 1) * 2 ^ (970 : Nat)

/-- Below the limit, a decimal fraction is read as the nearest number. -/
theorem ofDecimal_of_lt {n places : Nat} (h : n < limit * 10 ^ places) :
    ∃ x, ofDecimal n places = some x ∧ x.negative = false ∧ IsNearest n (10 ^ places) x.units := by
  have hd : 0 < 10 ^ places := Nat.pow_pos (by decide)
  unfold limit at h
  have hfinite : (nearestUnits n (10 ^ places)).log2 < 2098 :=
    (log2_nearestUnits_lt_iff n hd 970).2 h
  unfold ofDecimal
  rw [dif_pos hfinite]
  exact ⟨_, rfl, rfl, isNearest_nearestUnits n hd hfinite⟩

/-- From the limit on, a decimal fraction is read as no number. -/
theorem ofDecimal_of_le {n places : Nat} (h : limit * 10 ^ places ≤ n) :
    ofDecimal n places = none := by
  have hd : 0 < 10 ^ places := Nat.pow_pos (by decide)
  unfold limit at h
  refine dif_neg fun hfinite => Nat.not_lt_of_le h ?_
  exact (log2_nearestUnits_lt_iff n hd 970).1 hfinite

end Binary64
end WqSource
