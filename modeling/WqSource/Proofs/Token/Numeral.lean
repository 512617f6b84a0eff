import WqSource.Proofs.Binary64.Nearest
import WqSource.Proofs.Token.Number
import WqSource.Proofs.Token.Quoted
import WqSource.Proofs.Token.Run
import Mathlib.Data.Nat.Digits.Defs

/-!
# Numbers at the front of a text

A text that begins with a digit begins with a number, and what is behind the digits decides which:
a point with another digit behind it belongs to the number and makes it a float, and nothing else
does. Either way the number goes as far as it can, so what is read is the longest front of the text
that has the form of a number. An integer is worth what its digits are in base ten, and a float is
the nearest number of its format. Those that are too large are read in vain, as far as they go.

## Main definitions

* `IsFraction`, `IsLongestFront`, `decimalValue`: numbers as they are written.
* `ReadsNumber`: what is read of a text that begins with a number.

## Main statements

* `Lexer.next_of_scanNumber`: a lexer in front of a number.
* `readsNumber`: the number at the front of a text.
* `numbers_read`: that number, and the texts of integers.
-/

namespace WqSource

-- Powers are those of natural numbers themselves, whatever other powers are in scope.
attribute [local instance (2000)] instPowNat

variable {text front other behind digits whole fraction : List Char}

/-! ## Forms -/

/-- Digits on both sides of a point. -/
def IsFraction (cs : List Char) : Prop :=
  ∃ whole fraction, IsDigits whole ∧ IsDigits fraction ∧ cs = whole ++ '.' :: fraction

/-- The text begins with digits, a point and a digit. -/
def BeginsFraction (text : List Char) : Prop :=
  ∃ whole digit behind, IsDigits whole ∧ digit.isDigit = true ∧
    text = whole ++ '.' :: digit :: behind

/-- Of the fronts of a text that have a form, the longest one. -/
structure IsLongestFront (Form : List Char → Prop) (text front : List Char) : Prop where
  form : Form front
  begins : front <+: text
  longest : ∀ other, Form other → other <+: text → other.length ≤ front.length

/-- What digits are worth in base ten. -/
def decimalValue (digits : List Char) : Nat :=
  Nat.ofDigits 10 (digits.reverse.map fun c => c.toNat - '0'.toNat)

/-! ## What is read -/

/-- The read of the first characters of a text, all of them on one line and with a byte each. They
are the lexeme. -/
def readFront (taken : List Char) (outcome : Except LexFault Token.Kind) : Except LexError Token :=
  let span : Span := ⟨⟨0, 1, 1⟩, ⟨taken.length, 1, taken.length + 1⟩⟩
  match outcome with
  | .ok kind => .ok ⟨kind, String.ofList taken, span⟩
  | .error fault => .error ⟨fault, span⟩

/-- Digits are read as an integer. -/
structure ReadsInteger (digits : List Char) (r : Except LexError Token) : Prop where
  /-- It is what they are worth, if that has room in 64 bits of which one is the sign. -/
  inside : decimalValue digits ≤ 2 ^ (63 : Nat) - 1 →
    r = readFront digits (.ok (.integer (decimalValue digits)))
  /-- Otherwise all of them are out of range. -/
  outside : 2 ^ (63 : Nat) - 1 < decimalValue digits →
    r = readFront digits (.error (.integerOutOfRange (String.ofList digits)))

/-- Digits with a point between them are read as a float. -/
structure ReadsFloat (whole fraction : List Char) (r : Except LexError Token) : Prop where
  /-- It is the number nearest to what they are worth, if that is finite. -/
  inside : decimalValue (whole ++ fraction) < Binary64.limit * 10 ^ fraction.length →
    ∃ x : Binary64, x.negative = false ∧
      IsNearest (decimalValue (whole ++ fraction)) (10 ^ fraction.length) x.units ∧
        r = readFront (whole ++ '.' :: fraction) (.ok (.float x))
  /-- Otherwise all of them are out of range. -/
  outside : Binary64.limit * 10 ^ fraction.length ≤ decimalValue (whole ++ fraction) →
    r = readFront (whole ++ '.' :: fraction)
      (.error (.floatOutOfRange (String.ofList (whole ++ '.' :: fraction))))

/-- A float is read, or one that is out of range. -/
def IsFloatRead : Except LexError Token → Prop
  | .ok t => ∃ x, t.kind = .float x
  | .error e => ∃ lexeme, e.fault = .floatOutOfRange lexeme

/-- What is read of a text that begins with a digit. -/
structure ReadsNumber (text : List Char) (r : Except LexError Token) : Prop where
  /-- It is a float, in range or out of it, if and only if a point and a digit are behind the
  first digits. -/
  float_iff : IsFloatRead r ↔ BeginsFraction text
  /-- A float is read from the longest front that has digits on both sides of a point. -/
  float : BeginsFraction text → ∃ whole fraction, IsDigits whole ∧ IsDigits fraction ∧
    IsLongestFront IsFraction text (whole ++ '.' :: fraction) ∧ ReadsFloat whole fraction r
  /-- Any other number is an integer, read from the longest front of digits. -/
  integer : ¬BeginsFraction text → ∃ digits,
    IsLongestFront IsDigits text digits ∧ ReadsInteger digits r

/-! ## Longest fronts -/

/-- No front of a text has more digits than those up to the first character that is none. -/
theorem length_le_of_digits (hbehind : ∀ c ∈ behind.head?, c.isDigit = false)
    (hother : ∀ c ∈ other, c.isDigit = true) (h : other <+: digits ++ behind) :
    other.length ≤ digits.length := by
  by_contra hlong
  have hfront : digits <+: other :=
    List.prefix_of_prefix_length_le (List.prefix_append digits behind) h (by omega)
  obtain ⟨more, rfl⟩ := hfront
  cases more with
  | nil => simp at hlong
  | cons c more =>
    obtain ⟨rest, hrest⟩ := h
    rw [List.append_assoc] at hrest
    have hc := hbehind c (by rw [← List.append_cancel_left hrest]; rfl)
    rw [hother c (by simp)] at hc
    cases hc

theorem isLongestFront_digits (hdigits : IsDigits digits)
    (hbehind : ∀ c ∈ behind.head?, c.isDigit = false) :
    IsLongestFront IsDigits (digits ++ behind) digits where
  form := hdigits
  begins := List.prefix_append digits behind
  longest _ hother h := length_le_of_digits hbehind hother.2 h

theorem isLongestFront_fraction (hwhole : IsDigits whole) (hfraction : IsDigits fraction)
    (hbehind : ∀ c ∈ behind.head?, c.isDigit = false) :
    IsLongestFront IsFraction (whole ++ '.' :: fraction ++ behind) (whole ++ '.' :: fraction) where
  form := ⟨whole, fraction, hwhole, hfraction, rfl⟩
  begins := List.prefix_append _ behind
  longest := by
    rintro _ ⟨whole', fraction', hwhole', hfraction', rfl⟩ ⟨more, h⟩
    simp only [List.append_assoc, List.cons_append] at h
    obtain ⟨rfl, hfront⟩ := Binary64.eq_of_point_eq hwhole' hwhole h
    have hle : fraction'.length ≤ fraction.length :=
      length_le_of_digits hbehind hfraction'.2 ⟨more, hfront⟩
    simp only [List.length_append, List.length_cons]
    omega

/-- Digits in front of anything but a point and a digit begin no fraction. -/
theorem not_beginsFraction (hdigits : IsDigits digits)
    (hbehind : (Token.Kind.integer 0).EndsBefore behind) : ¬BeginsFraction (digits ++ behind) := by
  rintro ⟨whole, d, rest, hwhole, hd, h⟩
  have hpoint : ∀ c ∈ ('.' :: d :: rest).head?, c.isDigit = false := by simp
  obtain ⟨hfirst, hrest⟩ := takeWhile_append_of_head hdigits.2 hbehind.1
  obtain ⟨-, hrest'⟩ := takeWhile_append_of_head hwhole.2 hpoint
  rw [h, hrest'] at hrest
  rw [hbehind.2 d rest hrest.symm] at hd
  cases hd

theorem beginsFraction (hwhole : IsDigits whole) (hfraction : IsDigits fraction) :
    BeginsFraction (whole ++ '.' :: fraction ++ behind) := by
  obtain ⟨d, tail, rfl, hd⟩ := hfraction.head
  exact ⟨whole, d, tail ++ behind, hwhole, hd, by simp⟩

theorem digit_or_point_of_mem (hwhole : IsDigits whole) (hfraction : IsDigits fraction) :
    ∀ c ∈ whole ++ '.' :: fraction, c.isDigit = true ∨ c = '.' := by
  intro c hc
  rcases List.mem_append.1 hc with hc | hc
  · exact .inl (hwhole.2 c hc)
  · rcases List.mem_cons.1 hc with rfl | hc
    · exact .inr rfl
    · exact .inl (hfraction.2 c hc)

/-! ## Values -/

theorem decimalValue_cons (c : Char) (cs : List Char) :
    decimalValue (c :: cs) = decimalValue cs + 10 ^ cs.length * (c.toNat - '0'.toNat) := by
  simp [decimalValue, Nat.ofDigits_append]

theorem ofDigitChars_eq_decimalValue (digits : List Char) :
    Nat.ofDigitChars 10 digits 0 = decimalValue digits := by
  induction digits with
  | nil => rfl
  | cons c cs ih =>
    rw [Nat.ofDigitChars_cons, Nat.ofDigitChars_eq_ofDigitChars_zero, ih, decimalValue_cons,
      Nat.mul_zero, Nat.zero_add, Nat.add_comm]

/-! ## Reads -/

theorem step_of_digit {c : Char} (p : Position) (h : c.isDigit = true ∨ c = '.') :
    p.step c = ⟨p.offset + 1, p.line, p.column + 1⟩ := by
  have hcode : 46 ≤ c.toNat ∧ c.toNat ≤ 57 := by
    rcases h with h | rfl
    · rw [isDigit_iff] at h
      omega
    · decide
  have hsize : c.utf8Size = 1 := Char.utf8Size_eq_one_iff.2 (by
    rw [UInt32.le_iff_toNat_le]
    exact hcode.2.trans (by decide))
  have hline : c ≠ '\n' := by
    rintro rfl
    exact absurd hcode.1 (by decide)
  rw [Position.step, if_neg hline, hsize]

/-- Digits and points stand behind each other on one line, each with one byte. -/
theorem after_digits (p : Position) (h : ∀ c ∈ front, c.isDigit = true ∨ c = '.') :
    p.after front = ⟨p.offset + front.length, p.line, p.column + front.length⟩ := by
  induction front generalizing p with
  | nil => rfl
  | cons c cs ih =>
    obtain ⟨hc, hcs⟩ := List.forall_mem_cons.1 h
    rw [Position.after_cons, ih _ hcs, step_of_digit p hc]
    simp only [List.length_cons, Nat.add_assoc, Nat.add_comm 1]

theorem after_start (h : ∀ c ∈ front, c.isDigit = true ∨ c = '.') :
    Position.start.after front = ⟨front.length, 1, front.length + 1⟩ := by
  rw [after_digits .start h]
  simp only [Position.start, Nat.zero_add, Nat.add_comm 1]

theorem isDigits_repr (n : Nat) : IsDigits n.repr.toList := by
  rw [Nat.repr, String.toList_ofList]
  exact isDigits_toDigits n

namespace Lexer
variable {source : String}

/-- A digit begins no shebang line. -/
theorem shebang?_eq_none_of_digit (h : ∃ d ∈ source.toList.head?, d.isDigit = true) :
    (ofString source).shebang? = none := by
  obtain ⟨d, hd, hdigit⟩ := h
  refine shebang?_eq_none_of_rest fun more hmore => ?_
  rw [show source.toList = '#' :: '!' :: more from hmore] at hd
  cases hd
  cases hdigit

/-- At a digit, a lexer reads a number. -/
theorem next_of_scanNumber {taken : List Char} {outcome : Except LexFault Token.Kind}
    (h : ∃ d ∈ source.toList.head?, d.isDigit = true)
    (hscan : scanNumber source.toList = .read taken outcome)
    (htaken : ∀ c ∈ taken, c.isDigit = true ∨ c = '.') :
    (ofString source).next.1 = readFront taken outcome := by
  obtain ⟨d, hd, hdigit⟩ := h
  obtain ⟨tail, hsource⟩ := List.head?_eq_some_iff.1 hd
  have hrest : (ofString source).rest = d :: tail := hsource
  have hshebang := shebang?_eq_none_of_digit ⟨d, hd, hdigit⟩
  have htrivia : trivia (ofString source).rest = [] := by
    rw [hrest, trivia_eq_nil_iff]
    refine ⟨?_, ?_⟩
    · rintro c ⟨⟩
      exact isSpace_of_isContinue (isContinue_of_isDigit hdigit)
    · rintro more ⟨⟩
      cases hdigit
  have hscan' : scan (ofString source).atHostLine (ofString source).rest = .read taken outcome := by
    rw [hrest, scan_of_isDigit hdigit, ← hsource, hscan]
  have hplace := after_start htaken
  rw [next_of_shebang_eq_none hshebang, skipTrivia_of_trivia htrivia]
  simp only [nextAt, hscan', readFront, ← hplace]
  cases outcome <;> rfl

end Lexer

theorem readsInteger (digits : List Char) :
    ReadsInteger digits (readFront digits (integerOf digits)) := by
  simp only [integerOf, ofDigitChars_eq_decimalValue]
  constructor
  · intro hinside
    rw [if_pos (by omega)]
  · intro houtside
    rw [if_neg (by omega)]

theorem readsFloat (whole fraction : List Char) :
    ReadsFloat whole fraction (readFront (whole ++ '.' :: fraction) (floatOf whole fraction)) := by
  rw [floatOf_eq]
  dsimp only
  rw [ofDigitChars_eq_decimalValue]
  constructor
  · intro hinside
    obtain ⟨x, hx, hsign, hnearest⟩ := Binary64.ofDecimal_of_lt hinside
    rw [hx]
    exact ⟨x, hsign, hnearest, rfl⟩
  · intro houtside
    rw [Binary64.ofDecimal_of_le houtside]

theorem isFloatRead_float (taken whole fraction : List Char) :
    IsFloatRead (readFront taken (floatOf whole fraction)) := by
  rw [floatOf_eq]
  dsimp only
  split
  · exact ⟨_, rfl⟩
  · exact ⟨_, rfl⟩

theorem not_isFloatRead_integer (taken digits : List Char) :
    ¬IsFloatRead (readFront taken (integerOf digits)) := by
  simp only [integerOf]
  split
  · rintro ⟨x, ⟨⟩⟩
  · rintro ⟨lexeme, ⟨⟩⟩

/-- The number at the front of a text is read as far as it goes, and as what it is worth. -/
theorem readsNumber {source : String} (h : ∃ d ∈ source.toList.head?, d.isDigit = true) :
    ReadsNumber source.toList (Lexer.ofString source).next.1 := by
  generalize hscan : scanNumber source.toList = s
  cases scanNumber_cases h hscan with
  | @float whole fraction behind _ hsource hwhole hfraction hbehind hread =>
    rw [Lexer.next_of_scanNumber h hscan (digit_or_point_of_mem hwhole hfraction), hsource, ← hread]
    have hbegins : BeginsFraction (whole ++ '.' :: fraction ++ behind) :=
      beginsFraction hwhole hfraction
    have hlongest := isLongestFront_fraction hwhole hfraction hbehind
    exact
      { float_iff := iff_of_true (isFloatRead_float _ whole fraction) hbegins
        float := fun _ =>
          ⟨whole, fraction, hwhole, hfraction, hlongest, readsFloat whole fraction⟩
        integer := fun hnot => absurd hbegins hnot }
  | @integer digits behind _ hsource hdigits hbehind hpoint hread =>
    rw [Lexer.next_of_scanNumber h hscan fun c hc => .inl (hdigits.2 c hc), hsource, ← hread]
    have hnot : ¬BeginsFraction (digits ++ behind) := not_beginsFraction hdigits ⟨hbehind, hpoint⟩
    have hlongest := isLongestFront_digits hdigits hbehind
    exact
      { float_iff := iff_of_false (not_isFloatRead_integer _ digits) hnot
        float := fun hbegins => absurd hbegins hnot
        integer := fun _ => ⟨digits, hlongest, readsInteger digits⟩ }

/-- The decimal text of a number that has room is one token. -/
theorem tokenize_repr {n : Nat} (h : n ≤ 2 ^ (63 : Nat) - 1) :
    tokenize n.repr = .ok [.atStart n.repr (.integer n),
      .ending (Position.start.after n.repr.toList)] := by
  have hlexeme : (Token.Kind.integer n).Lexeme n.repr.toList := integer_lexeme (by omega)
  have hcode (payload : String) : Token.Kind.integer n ≠ .magic payload := by simp
  have hfinds : (Lexer.ofString n.repr).Finds [] n.repr.toList [] (.integer n) :=
    { rest_eq := by simp [Lexer.ofString]
      gap := isGap_nil
      lexeme := hlexeme
      ends := Token.Kind.endsBefore_nil
      magic := fun payload hk => absurd hk (hcode payload) }
  have hdigits : ∃ d ∈ n.repr.toList.head?, d.isDigit = true := by
    obtain ⟨d, tail, hd, hdigit⟩ := (isDigits_repr n).head
    exact ⟨d, by rw [hd]; rfl, hdigit⟩
  have hnext := hfinds.next (Lexer.shebang?_eq_none_of_digit hdigits)
  have hmoved : (Lexer.ofString n.repr).moved [] n.repr.toList [] (.integer n) =
      Lexer.behindText n.repr "" := rfl
  have htoken : (Lexer.ofString n.repr).tokenBehind [] n.repr.toList (.integer n) =
      .atStart n.repr (.integer n) := by
    simp only [Lexer.tokenBehind, String.ofList_toList]
    rfl
  rw [hmoved, htoken] at hnext
  rw [tokenize, Lexer.stream_of_next hnext hlexeme.kind_ne.1, Lexer.stream_behindText_empty]
  rfl

/-- Of every text that begins with a digit, the longest front that is a number is read, and as what
it is worth. The decimal text of an integer that has room is read as that integer and nothing
else. -/
theorem numbers_read :
    (∀ source : String, (∃ d ∈ source.toList.head?, d.isDigit = true) →
      ReadsNumber source.toList (Lexer.ofString source).next.1) ∧
    ∀ n : Nat, n ≤ 2 ^ (63 : Nat) - 1 → tokenize n.repr =
      .ok [⟨.integer n, n.repr, ⟨⟨0, 1, 1⟩, ⟨n.repr.length, 1, n.repr.length + 1⟩⟩⟩,
        .ending ⟨n.repr.length, 1, n.repr.length + 1⟩] := by
  refine ⟨fun source h => readsNumber h, fun n h => ?_⟩
  have hplace : Position.start.after n.repr.toList = ⟨n.repr.length, 1, n.repr.length + 1⟩ :=
    after_start fun c hc => .inl ((isDigits_repr n).2 c hc)
  rw [tokenize_repr h, Token.atStart, hplace]
  rfl

/-- More digits than have room, behind zeros, and in front of two points; and the greatest integer
that has room. -/
theorem numbers_read_limit :
    ((∃ d ∈ "0009223372036854775808..5".toList.head?, d.isDigit = true) ∧
      ReadsNumber "0009223372036854775808..5".toList
        (Lexer.ofString "0009223372036854775808..5").next.1 ∧
      (Lexer.ofString "0009223372036854775808..5").next.1 =
        .error ⟨.integerOutOfRange "0009223372036854775808", ⟨⟨0, 1, 1⟩, ⟨22, 1, 23⟩⟩⟩) ∧
    9223372036854775807 ≤ 2 ^ (63 : Nat) - 1 ∧
      tokenize "9223372036854775807" =
        .ok [⟨.integer 9223372036854775807, "9223372036854775807", ⟨⟨0, 1, 1⟩, ⟨19, 1, 20⟩⟩⟩,
          .ending ⟨19, 1, 20⟩] := by
  have hhead : ∃ d ∈ "0009223372036854775808..5".toList.head?, d.isDigit = true := ⟨'0', rfl, rfl⟩
  exact ⟨⟨hhead, numbers_read.1 _ hhead, by decide +kernel⟩, by decide,
    numbers_read.2 9223372036854775807 (by decide)⟩

/-- Of two points the first one belongs to the number, and none that has no digit behind it. -/
example : (Lexer.ofString "1.2.3").next.1.toOption.map (·.lexeme) = some "1.2" ∧
    (Lexer.ofString "1..2").next.1.toOption.map (·.lexeme) = some "1" ∧
      (Lexer.ofString "1.").next.1.toOption.map (·.lexeme) = some "1" := by
  decide +kernel

end WqSource
