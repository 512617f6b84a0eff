import WqSource.Name
import WqSource.Text.Escape
import WqSource.Token

/-!
# One token off the front of a text

`scan` looks at the characters at which a token starts and says what it is and how many
characters it takes. It knows nothing of places and remembers nothing: the one thing it
is told is whether a line for the host may begin here.

What lies between tokens is `trivia`: blanks other than line feeds, and comments from
`//` to the end of the line. Line feeds are tokens; a run of them, with the trivia between
them, is a single one, and ends at the last line feed.

## Main statements

* `scan_read_ne_nil`: a scan that reads takes at least one character.
-/

namespace WqSource

/-- What can be wrong with the text at which a token starts. -/
inductive LexFault where
  /-- A string literal runs to the end of the input. -/
  | unterminatedString
  /-- A character literal is not closed behind one character. -/
  | unterminatedCharacter
  /-- A backtick has no name behind it. -/
  | unterminatedSymbol
  /-- No token starts with the character. -/
  | illegalCharacter (c : Char)
  /-- An integer literal of `2 ^ 63` or more. -/
  | integerOutOfRange (lexeme : String)
  /-- A float literal beyond the greatest finite number. -/
  | floatOutOfRange (lexeme : String)
  deriving DecidableEq

/-- What there is at the front of a text. -/
inductive Scan where
  /-- Nothing: the text is empty. -/
  | finished
  /-- A character at which no token starts. It is not taken. -/
  | illegal (c : Char)
  /-- Characters that are taken, as a token or in vain. -/
  | read (taken : List Char) (outcome : Except LexFault Token.Kind)

/-- The characters up to the next line feed. -/
def restOfLine (cs : List Char) : List Char := cs.takeWhile (· != '\n')

/-- A line without the carriage return it may end with. -/
def dropReturn (line : List Char) : List Char :=
  if line.getLast? = some '\r' then line.dropLast else line

/-- Blanks that are not line feeds. -/
def isSpace (c : Char) : Bool := Unicode.isBlank c && c != '\n'

/-- The comment at the front of a text, or nothing. -/
def comment : List Char → List Char
  | '/' :: '/' :: cs => '/' :: '/' :: restOfLine cs
  | _ => []

/-- What comes before the next token: spaces, then perhaps a comment. -/
def trivia (cs : List Char) : List Char := cs.takeWhile isSpace ++ comment (cs.dropWhile isSpace)

/-- The run of line feeds at the front of a text, with the trivia between them. -/
def newlines : List Char → List Char
  | '\n' :: cs =>
    match _h : cs.drop (trivia cs).length with
    | '\n' :: rest => '\n' :: (trivia cs ++ newlines ('\n' :: rest))
    | _ => ['\n']
  | _ => []
termination_by cs => cs.length
decreasing_by
  have := congrArg List.length _h
  simp only [List.length_drop, List.length_cons] at this ⊢
  omega

/-- The body of a string literal and the quote that closes it, with the string meant;
`none` if the text ends first. -/
def stringBody : List Char → List Char × Option (List Char)
  | [] => ([], none)
  | '"' :: _ => (['"'], some [])
  | ['\\'] => (['\\'], none)
  | '\\' :: c :: cs =>
    let r := stringBody cs
    ('\\' :: c :: r.1, r.2.map (Text.unescape c :: ·))
  | c :: cs =>
    let r := stringBody cs
    (c :: r.1, r.2.map (c :: ·))

/-- The body of a character literal and the quote that closes it, with the character
meant. A body that is not closed is taken as far as it could be one. -/
def characterBody : List Char → List Char × Option Char
  | '\\' :: c :: '\'' :: _ => (['\\', c, '\''], some (Text.unescape c))
  | '\\' :: c :: _ => (['\\', c], none)
  | ['\\'] => (['\\'], none)
  | '\'' :: _ => ([], none)
  | c :: '\'' :: _ => ([c, '\''], some c)
  | c :: _ => ([c], none)
  | [] => ([], none)

/-- An integer literal; its value has to be below `2 ^ 63`. -/
def integerOf (digits : List Char) : Except LexFault Token.Kind :=
  let value := Nat.ofDigitChars 10 digits 0
  if value < 9223372036854775808 then .ok (.integer value)
  else .error (.integerOutOfRange (String.ofList digits))

/-- A float literal with the given digits before and behind its point. -/
def floatOf (whole fraction : List Char) : Except LexFault Token.Kind :=
  match Binary64.ofDecimal (Nat.ofDigitChars 10 (whole ++ fraction) 0) fraction.length with
  | some value => .ok (.float value)
  | none => .error (.floatOutOfRange (String.ofList (whole ++ '.' :: fraction)))

/-- The number at the front of a text that starts with a digit. A point belongs to it
only with a digit on either side, and only the first. -/
def scanNumber (cs : List Char) : Scan :=
  let whole := cs.takeWhile Char.isDigit
  match cs.dropWhile Char.isDigit with
  | '.' :: rest =>
    let fraction := rest.takeWhile Char.isDigit
    if fraction.isEmpty then .read whole (integerOf whole)
    else .read (whole ++ '.' :: fraction) (floatOf whole fraction)
  | _ => .read whole (integerOf whole)

/-- The token that a name is. -/
def wordKind (word : String) : Token.Kind :=
  if word = "true" then .boolean true
  else if word = "false" then .boolean false
  else if word = "inf" then .infinity
  else if word = "nan" then .notANumber
  else if Name.isBuiltin word then .builtin word
  else .identifier word

/-- The operator, separator or bracket at the front of a text, the longest that fits. -/
def scanPunct? : List Char → Option Punct
  | '+' :: _ => some .plus
  | '-' :: _ => some .minus
  | '*' :: _ => some .star
  | '/' :: '.' :: _ => some .slashDot
  | '/' :: _ => some .slash
  | '%' :: '.' :: _ => some .percentDot
  | '%' :: _ => some .percent
  | '^' :: _ => some .caret
  | '#' :: _ => some .hash
  | '=' :: _ => some .equal
  | '~' :: _ => some .tilde
  | '!' :: '=' :: _ => some .bangEqual
  | '<' :: '=' :: _ => some .lessEqual
  | '<' :: _ => some .less
  | '>' :: '=' :: _ => some .greaterEqual
  | '>' :: _ => some .greater
  | ':' :: _ => some .colon
  | ',' :: _ => some .comma
  | '|' :: _ => some .pipe
  | ';' :: _ => some .semicolon
  | '.' :: _ => some .dot
  | '$' :: _ => some .dollar
  | '(' :: _ => some .openParen
  | ')' :: _ => some .closeParen
  | '[' :: _ => some .openBracket
  | ']' :: _ => some .closeBracket
  | '\x7b' :: _ => some .openBrace
  | '\x7d' :: _ => some .closeBrace
  | _ => none

/-- The control word whose letter, behind the `@`, is at the front of a text. The letter
has to end the word. -/
def scanControl? : List Char → Option ControlWord
  | c :: cs => if (cs.head?.map Name.isContinue).getD false then none else ControlWord.ofLetter? c
  | [] => none

/-- Reads the token at which a text starts. `hostLine` says that a `!` here begins a line
for the host. -/
def scan (hostLine : Bool) (cs : List Char) : Scan :=
  match scanPunct? cs with
  | some p => .read p.spelling.toList (.ok (.punct p))
  | none =>
    match cs with
    | [] => .finished
    | '\n' :: _ => .read (newlines cs) (.ok .newline)
    | '!' :: rest =>
      if hostLine then
        .read ('!' :: restOfLine rest) (.ok (.magic (String.ofList (dropReturn (restOfLine rest)))))
      else .illegal '!'
    | '@' :: rest =>
      match scanControl? rest with
      | some w => .read ['@', w.letter] (.ok (.control w))
      | none => .illegal '@'
    | '"' :: rest =>
      let body := stringBody rest
      .read ('"' :: body.1) <|
        match body.2 with
        | some value => .ok (.string (String.ofList value))
        | none => .error .unterminatedString
    | '\'' :: rest =>
      let body := characterBody rest
      .read ('\'' :: body.1) <|
        match body.2 with
        | some value => .ok (.character value)
        | none => .error .unterminatedCharacter
    | '\x60' :: rest =>
      if (rest.head?.map Name.isStart).getD false then
        let name := rest.takeWhile Name.isContinue
        .read ('\x60' :: name) (.ok (.symbol (String.ofList name)))
      else .read ['\x60'] (.error .unterminatedSymbol)
    | c :: _ =>
      if Name.isStart c then
        let word := cs.takeWhile Name.isContinue
        .read word (.ok (wordKind (String.ofList word)))
      else if c.isDigit then scanNumber cs
      else .illegal c

@[simp] theorem scan_nil (hostLine : Bool) : scan hostLine [] = .finished := rfl

/-- A run of line feeds that starts with one has at least that. -/
theorem newlines_ne_nil (cs : List Char) : newlines ('\n' :: cs) ≠ [] := by
  rw [newlines]
  split <;> simp

/-- A number takes at least the digit it starts with. -/
theorem scanNumber_read_ne_nil {c : Char} {cs taken : List Char}
    {outcome : Except LexFault Token.Kind} (hc : c.isDigit = true)
    (h : scanNumber (c :: cs) = .read taken outcome) : taken ≠ [] := by
  have hw : (c :: cs).takeWhile Char.isDigit ≠ [] := by simp [hc]
  unfold scanNumber at h
  dsimp only at h
  split at h
  · split at h <;> injection h with h <;> subst h
    · exact hw
    · simp
  · injection h with h
    subst h
    exact hw

/-- A scan that reads takes at least one character. -/
theorem scan_read_ne_nil {hostLine : Bool} {cs taken : List Char}
    {outcome : Except LexFault Token.Kind} (h : scan hostLine cs = .read taken outcome) :
    taken ≠ [] := by
  unfold scan at h
  split at h
  · next p _ =>
    cases h
    cases p <;> simp [Punct.spelling]
  · split at h
    · cases h
    · cases h
      exact newlines_ne_nil _
    · split at h <;> cases h
      simp
    · split at h <;> cases h
      simp
    · cases h
      simp
    · cases h
      simp
    · split at h <;> cases h <;> simp
    · split at h
      · next hc =>
        cases h
        simp [Name.isContinue_of_isStart hc]
      · split at h
        · next hd => exact scanNumber_read_ne_nil hd h
        · cases h

end WqSource
