import WqSource.Proofs.Token.Lexeme
import WqSource.Token.Spelling

/-!
# Numbers that are written are read back

The text of a float is the decimal number of some grid that was found to read as the
float. Rounding depends on the value of a decimal fraction only, so the digits of the text
do, wherever their point stands.

## Main statements

* `nearestUnits_mul_right`: rounding depends on the quotient.
* `Binary64.readsAs_shortestFrom`: the digits found read as the number.
* `Binary64.eq_of_text_eq`: the text tells numbers apart.
* `integer_lexeme`, `float_lexeme`: numbers are read from their spellings.
-/

namespace WqSource

-- Powers are those of natural numbers themselves, whatever other powers are in scope.
attribute [local instance (2000)] instPowNat

/-! ## Rounding -/

theorem divideToEven_mul_right (n d : Nat) {k : Nat} (hk : 0 < k) :
    divideToEven (n * k) (d * k) = divideToEven n d := by
  have hless (a b : Nat) : a * k < b * k ↔ a < b := Nat.mul_lt_mul_right hk
  unfold divideToEven
  rw [Nat.mul_mod_mul_right, Nat.mul_div_mul_right _ _ hk, ← Nat.mul_assoc]
  simp only [hless]

/-- Multiples are not rounded. -/
theorem divideToEven_mul_self (q : Nat) {d : Nat} (hd : 0 < d) : divideToEven (q * d) d = q := by
  unfold divideToEven
  rw [Nat.mul_mod_left, Nat.mul_div_cancel _ hd, if_pos (by omega)]

/-- What a fraction is rounded to depends on the quotient alone. -/
theorem nearestUnits_mul_right (n d : Nat) {k : Nat} (hk : 0 < k) :
    nearestUnits (n * k) (d * k) = nearestUnits n d := by
  have hquotient : n * k * 2 ^ unitPlaces / (d * k) = n * 2 ^ unitPlaces / d := by
    rw [Nat.mul_right_comm, Nat.mul_div_mul_right _ _ hk]
  unfold nearestUnits
  dsimp only
  rw [hquotient, Nat.mul_right_comm n, Nat.mul_right_comm d, divideToEven_mul_right _ _ hk]

/-- What binary64 has is not rounded. -/
theorem nearestUnits_of_representable {u n d : Nat} (hu : Representable u) (hd : 0 < d)
    (h : n * 2 ^ unitPlaces = u * d) : nearestUnits n d = u := by
  have hquotient : n * 2 ^ unitPlaces / d = u := by rw [h, Nat.mul_div_cancel _ hd]
  obtain ⟨q, hq⟩ := hu.1
  unfold nearestUnits
  dsimp only
  rw [hquotient, h]
  generalize excessDigits u = excess at hq ⊢
  have hnumerator : u * d = q * (d * 2 ^ excess) := by
    rw [hq, Nat.mul_comm (2 ^ excess), Nat.mul_assoc, Nat.mul_comm (2 ^ excess)]
  have hpos : 0 < d * 2 ^ excess := Nat.mul_pos hd (Nat.two_pow_pos excess)
  rw [hnumerator, divideToEven_mul_self q hpos, hq, Nat.mul_comm]

-- Stated for all exponents, so that no power is evaluated.
theorem mul_five_pow_mul_two_pow (u k : Nat) : u * 5 ^ k * 2 ^ k = u * 10 ^ k := by
  rw [Nat.mul_assoc, ← Nat.mul_pow]

theorem ten_pow_pos (k : Nat) : 0 < 10 ^ k := Nat.pow_pos (by decide)

namespace Binary64

theorem decimalSteps_mul (x : Binary64) :
    x.decimalSteps * 2 ^ unitPlaces = x.units * 10 ^ unitPlaces :=
  mul_five_pow_mul_two_pow x.units unitPlaces

theorem nearestUnits_decimalSteps (x : Binary64) :
    nearestUnits x.decimalSteps (10 ^ unitPlaces) = x.units :=
  nearestUnits_of_representable x.representable (ten_pow_pos unitPlaces) x.decimalSteps_mul

/-- On the finest grid, a number is what it is read as. -/
theorem readsAs_decimalSteps (x : Binary64) : x.readsAs x.decimalSteps 0 = true := by
  have h := x.nearestUnits_decimalSteps
  unfold readsAs
  rw [Nat.pow_zero, Nat.mul_one, h]
  exact beq_self_eq_true _

theorem test_of_eitherOf? {test : Nat → Bool} {below c : Nat} {nearer : Bool}
    (h : eitherOf? test below nearer = some c) : test c = true := by
  unfold eitherOf? at h
  split at h
  · next hbelow habove =>
    cases h
    split
    · exact habove
    · exact hbelow
  · next hbelow _ =>
    cases h
    exact hbelow
  · next _ habove =>
    cases h
    exact habove
  · cases h

/-- What holds of every result on a grid, and of the last one, holds of the first one. -/
theorem firstGrid_induction {onGrid? : Nat → Option Nat} {last : Nat} {P : Nat → Nat → Prop}
    (hlast : P last 0) (hgrid : ∀ j c, onGrid? j = some c → P c j) (j : Nat) :
    P (firstGrid onGrid? last j).1 (firstGrid onGrid? last j).2 := by
  induction j with
  | zero => exact hlast
  | succ j ih =>
    unfold firstGrid
    split
    · next c hc => exact hgrid _ c hc
    · exact ih

theorem readsAs_neighbour? {x : Binary64} {j c : Nat} (h : x.neighbour? j = some c) :
    x.readsAs c j = true := by
  have hreads := test_of_eitherOf? h
  exact hreads

/-- The digits found read as the number. -/
theorem readsAs_shortestFrom (x : Binary64) (j : Nat) :
    x.readsAs (x.shortestFrom j).1 (x.shortestFrom j).2 = true :=
  firstGrid_induction (P := fun c j => x.readsAs c j = true) x.readsAs_decimalSteps
    (fun _ _ h => readsAs_neighbour? h) j

theorem ofDecimal_eq_some {x : Binary64} {n places : Nat} (hsign : x.negative = false)
    (h : nearestUnits n (10 ^ places) = x.units) : ofDecimal n places = some x := by
  have hfinite : (nearestUnits n (10 ^ places)).log2 < 2098 := h ▸ x.representable.2
  unfold ofDecimal
  rw [dif_pos hfinite]
  exact congrArg some (Binary64.ext hsign.symm h)

end Binary64

/-! ## Digits -/

theorem isDigits_toDigits (n : Nat) : IsDigits (Nat.toDigits 10 n) :=
  ⟨Nat.toDigits_ne_nil, fun _ h => Nat.isDigit_of_mem_toDigits (by decide) (by decide) h⟩

theorem integer_lexeme {n : Nat} (h : n < 9223372036854775808) :
    (Token.Kind.integer n).Lexeme (Token.Kind.integer n).spelling := by
  change Token.Kind.Lexeme _ (Nat.repr n).toList
  rw [Nat.repr, String.toList_ofList]
  refine .integer (isDigits_toDigits n) ?_
  simp only [integerOf, Nat.ofDigitChars_ten_toDigits, if_pos h]

namespace Binary64

theorem isDigit_of_mem_paddedDigits {width n : Nat} {c : Char} (h : c ∈ paddedDigits width n) :
    c.isDigit = true := by
  rcases List.mem_append.1 h with h | h
  · rw [List.eq_of_mem_replicate h]
    rfl
  · exact (isDigits_toDigits n).2 c h

/-- Digits in front of a point and behind it are those of one number. -/
theorem ofDigitChars_paddedDigits {w f places : Nat} (hf : f < 10 ^ places) (hplaces : 0 < places) :
    (paddedDigits places f).length = places ∧
      Nat.ofDigitChars 10 (Nat.toDigits 10 w ++ paddedDigits places f) 0 =
        w * 10 ^ places + f := by
  have hle := (Nat.length_toDigits_le_iff (by decide) hplaces).2 hf
  have hdigits : Nat.ofDigitChars 10 (Nat.toDigits 10 f) 0 = f := Nat.ofDigitChars_ten_toDigits
  unfold paddedDigits
  dsimp only
  generalize Nat.toDigits 10 f = digits at hle hdigits
  constructor
  · simp only [List.length_append, List.length_replicate]
    omega
  · rw [Nat.ofDigitChars_append, Nat.ofDigitChars_append, Nat.ofDigitChars_ten_toDigits,
      Nat.ofDigitChars_replicate_zero, Nat.ofDigitChars_eq_ofDigitChars_zero, hdigits,
      ← Nat.mul_assoc, ← Nat.pow_add, Nat.mul_comm]
    congr 3
    omega

/-- The digits that a number is written with: a point stands between them, and the fraction
that they are reads as the number. -/
theorem floatSpelling_digits {c j units k : Nat} (hreads : nearestUnits (c * 10 ^ j) (10 ^ k) = units)
    {digits : List Char} (hdigits : digits =
      if c % 10 ^ (k - j) = 0 then Nat.toDigits 10 (c * 10 ^ j / 10 ^ k)
      else Nat.toDigits 10 (c * 10 ^ j / 10 ^ k) ++
        '.' :: paddedDigits (k - j) (c % 10 ^ (k - j))) :
    ∃ whole fraction, IsDigits whole ∧ IsDigits fraction ∧
      (if digits.contains '.' then digits else digits ++ ['.', '0']) = whole ++ '.' :: fraction ∧
      nearestUnits (Nat.ofDigitChars 10 (whole ++ fraction) 0) (10 ^ fraction.length) = units := by
  have hwhole := isDigits_toDigits (c * 10 ^ j / 10 ^ k)
  have hpoint : (Nat.toDigits 10 (c * 10 ^ j / 10 ^ k)).contains '.' = false := by
    refine eq_false_of_ne_true fun h => ?_
    have hdot := hwhole.2 '.' (by simpa using h)
    cases hdot
  by_cases hzero : c % 10 ^ (k - j) = 0
  · -- A whole number is the fraction of its digits and one more, which is a zero.
    rw [if_pos hzero] at hdigits
    refine ⟨_, ['0'], hwhole, ⟨by simp, by simp⟩, by rw [hdigits, hpoint]; rfl, ?_⟩
    obtain ⟨q, hq⟩ : 10 ^ k ∣ c * 10 ^ j := by
      obtain ⟨q, hq⟩ := Nat.dvd_of_mod_eq_zero hzero
      by_cases hj : j ≤ k
      · refine ⟨q, ?_⟩
        rw [hq, Nat.mul_right_comm, ← Nat.pow_add]
        congr 2
        omega
      · exact Nat.dvd_mul_left_of_dvd (Nat.pow_dvd_pow 10 (by omega)) c
    rw [← hreads, hq, Nat.mul_div_cancel_left _ (ten_pow_pos k), Nat.ofDigitChars_append,
      Nat.ofDigitChars_ten_toDigits]
    have hten : Nat.ofDigitChars 10 ['0'] q = q * 10 := by
      simp [Nat.ofDigitChars, Nat.mul_comm]
    have hone : nearestUnits (q * 10) (1 * 10) = nearestUnits (q * 10 ^ k) (1 * 10 ^ k) := by
      rw [nearestUnits_mul_right _ _ (by decide), nearestUnits_mul_right _ _ (ten_pow_pos k)]
    rw [Nat.one_mul, Nat.one_mul, Nat.mul_comm q (10 ^ k)] at hone
    rw [hten, ← hone]
    rfl
  · rw [if_neg hzero] at hdigits
    have hlt : j < k := by
      by_contra hj
      rw [show k - j = 0 by omega, Nat.pow_zero, Nat.mod_one] at hzero
      exact hzero rfl
    have hmod : c % 10 ^ (k - j) < 10 ^ (k - j) := Nat.mod_lt _ (ten_pow_pos _)
    have hpow : 10 ^ k = 10 ^ (k - j) * 10 ^ j := by
      rw [← Nat.pow_add]
      congr 1
      omega
    have hquotient : c * 10 ^ j / 10 ^ k = c / 10 ^ (k - j) := by
      rw [hpow, Nat.mul_div_mul_right _ _ (ten_pow_pos j)]
    obtain ⟨hlength, hvalue⟩ :=
      ofDigitChars_paddedDigits (w := c * 10 ^ j / 10 ^ k) hmod (by omega)
    have hfraction : IsDigits (paddedDigits (k - j) (c % 10 ^ (k - j))) :=
      ⟨by simp [paddedDigits, Nat.toDigits_ne_nil], fun _ => isDigit_of_mem_paddedDigits⟩
    refine ⟨_, _, hwhole, hfraction, by rw [hdigits]; simp, ?_⟩
    rw [hlength, hvalue, hquotient, Nat.mul_comm, Nat.div_add_mod, ← hreads, hpow,
      nearestUnits_mul_right _ _ (ten_pow_pos j)]

/-- The text of a number without its sign: a point stands between digits, with a zero added to a
whole number, and the fraction that they are reads as the number. -/
theorem digits_of_text (x : Binary64) :
    ∃ whole fraction, IsDigits whole ∧ IsDigits fraction ∧
      (if (positional x.shortest.1 x.shortest.2).contains '.'
        then positional x.shortest.1 x.shortest.2
        else positional x.shortest.1 x.shortest.2 ++ ['.', '0']) = whole ++ '.' :: fraction ∧
      nearestUnits (Nat.ofDigitChars 10 (whole ++ fraction) 0) (10 ^ fraction.length) = x.units := by
  have hreads := beq_iff_eq.1
    (x.readsAs_shortestFrom ((x.decimalSteps.log2 + 1) * 30103 / 100000 + 1))
  exact @floatSpelling_digits _ _ _ _ hreads (positional x.shortest.1 x.shortest.2) rfl

theorem toList_text (x : Binary64) : x.text.toList =
    (if x.negative then ['-'] else []) ++ positional x.shortest.1 x.shortest.2 :=
  String.toList_ofList

/-- A text without a sign does not begin with one. -/
theorem head?_ne_minus {digits whole fraction : List Char} (hwhole : IsDigits whole)
    (h : (if digits.contains '.' then digits else digits ++ ['.', '0']) = whole ++ '.' :: fraction) :
    digits.head? ≠ some '-' := by
  obtain ⟨d, ds, rfl, hd⟩ := hwhole.head
  intro hminus
  obtain ⟨tail, rfl⟩ : ∃ tail, digits = '-' :: tail := by simpa [List.head?_eq_some_iff] using hminus
  have heq : '-' = d := by
    split at h
    · exact (List.cons.inj h).1
    · exact (List.cons.inj h).1
  rw [← heq] at hd
  cases hd

/-- A sign in front of a text, or none, is told from the text. -/
theorem eq_of_sign_append_eq {sign sign' : Bool} {digits digits' : List Char}
    (hhead : digits.head? ≠ some '-') (hhead' : digits'.head? ≠ some '-')
    (h : (if sign then ['-'] else []) ++ digits = (if sign' then ['-'] else []) ++ digits') :
    sign = sign' ∧ digits = digits' := by
  cases sign <;> cases sign'
  · exact ⟨rfl, h⟩
  · exact absurd (by rw [show digits = '-' :: digits' from h]; rfl) hhead
  · exact absurd (by rw [← show '-' :: digits = digits' from h]; rfl) hhead'
  · exact ⟨rfl, (List.cons.inj h).2⟩

/-- Between digits, the first point is the only one. -/
theorem eq_of_point_eq {whole whole' fraction fraction' : List Char} (hwhole : IsDigits whole)
    (hwhole' : IsDigits whole') (h : whole ++ '.' :: fraction = whole' ++ '.' :: fraction') :
    whole = whole' ∧ fraction = fraction' := by
  have hpoint (digits : List Char) : ∀ c ∈ ('.' :: digits).head?, c.isDigit = false := by simp
  obtain ⟨hfirst, hrest⟩ := takeWhile_append_of_head hwhole.2 (hpoint fraction)
  obtain ⟨hfirst', hrest'⟩ := takeWhile_append_of_head hwhole'.2 (hpoint fraction')
  exact ⟨by rw [← hfirst, h, hfirst'], (List.cons.inj (by rw [← hrest, h, hrest'])).2⟩

/-- Numbers with the same text are equal. -/
theorem eq_of_text_eq {x y : Binary64} (h : x.text = y.text) : x = y := by
  obtain ⟨whole, fraction, hwhole, -, hx, hxunits⟩ := x.digits_of_text
  obtain ⟨whole', fraction', hwhole', -, hy, hyunits⟩ := y.digits_of_text
  have htext := x.toList_text.symm.trans ((congrArg String.toList h).trans y.toList_text)
  obtain ⟨hsign, hdigits⟩ :=
    eq_of_sign_append_eq (head?_ne_minus hwhole hx) (head?_ne_minus hwhole' hy) htext
  rw [hdigits, hy] at hx
  obtain ⟨rfl, rfl⟩ := eq_of_point_eq hwhole' hwhole hx
  exact Binary64.ext hsign (hxunits.symm.trans hyunits)

end Binary64

theorem float_lexeme {x : Binary64} (hsign : x.negative = false) :
    (Token.Kind.float x).Lexeme (Token.Kind.floatSpelling x) := by
  obtain ⟨whole, fraction, hwhole, hfraction, hspelling, hvalue⟩ := x.digits_of_text
  have hdigits : x.text.toList = Binary64.positional x.shortest.1 x.shortest.2 := by
    rw [Binary64.toList_text, hsign, if_neg Bool.false_ne_true, List.nil_append]
  rw [Token.Kind.floatSpelling, hdigits, hspelling]
  refine .float hwhole hfraction ?_
  rw [floatOf_eq]
  dsimp only
  rw [Binary64.ofDecimal_eq_some hsign hvalue]

end WqSource
