import WqSource.Token.Scan

/-!
# Reading tokens one after another

A `Lexer` stands somewhere in a text. `Lexer.next` skips trivia, reads one token and
moves behind it. What it remembers beyond its place decides a single question, whether a
`!` begins a line for the host: no bracket may be open, and nothing but trivia may stand
before it on its line. The shebang line is a token only at the very start of the text.

A failed read moves the lexer behind the characters it took in vain, so that reading can
go on. At a character with which no token starts nothing is taken: the lexer fails there
again and again, as at the end of the input it finds the end again and again. Every
other read takes something (`next_rest_lt`).

## Main definitions

* `LexError`: a fault and the stretch of text it is about, with its message.
* `Lexer.next`: one read, and the lexer behind it.
* `Lexer.steps`: the results of a given number of reads.
-/

namespace WqSource

/-- A text that is no token, and where it stands. -/
structure LexError where
  fault : LexFault
  span : Span
  deriving DecidableEq

namespace LexError

/-- Whether the lexer stays in front of the fault. -/
def isSticky (e : LexError) : Bool :=
  match e.fault with
  | .illegalCharacter _ => true
  | _ => false

/-- The text of the error. -/
def message (e : LexError) : String :=
  let start := e.span.start.text
  match e.fault with
  | .unterminatedString => s!"unterminated string literal starting at {start}"
  | .unterminatedCharacter => s!"unterminated character literal starting at {start}"
  | .unterminatedSymbol => s!"backtick at {start} must be followed by a symbol name"
  | .illegalCharacter c => "illegal character " ++ Text.quoteChar c ++ s!" at {start}"
  | .integerOutOfRange lexeme => s!"integer literal `{lexeme}` at {start} does not fit in 64 bits"
  | .floatOutOfRange lexeme => s!"float literal `{lexeme}` at {start} is too large for 64 bits"

end LexError

/-- A place in a text from which tokens are read. -/
structure Lexer where
  /-- The text not yet read. -/
  rest : List Char
  /-- The place of its first character. -/
  position : Position
  /-- How many brackets are open. -/
  depth : Nat
  /-- Whether only trivia has been read since the last line feed. -/
  lineStart : Bool

namespace Lexer

/-- A lexer at the start of a text. -/
def ofString (source : String) : Lexer := ⟨source.toList, .start, 0, true⟩

/-- The lexer behind the given characters, which are those next in the text. -/
def skip (l : Lexer) (taken : List Char) : Lexer :=
  { l with rest := l.rest.drop taken.length, position := l.position.after taken }

/-- The lexer in front of the next token. -/
def skipTrivia (l : Lexer) : Lexer := l.skip (trivia l.rest)

/-- The shebang line, if the lexer stands in front of one. -/
def shebang? (l : Lexer) : Option (List Char) :=
  match l.position.offset, l.rest with
  | 0, '#' :: '!' :: cs => some ('#' :: '!' :: restOfLine cs)
  | _, _ => none

/-- Whether a `!` would begin a line for the host. -/
def atHostLine (l : Lexer) : Bool := l.lineStart && l.depth == 0

/-- Reads the shebang line. Its token leaves out a carriage return at the end of the
line; its span does not. -/
def nextShebang (l : Lexer) (line : List Char) : Token × Lexer :=
  let behind := l.skip line
  let text := dropReturn line
  (⟨.shebang (String.ofList (text.drop 2)), String.ofList text, ⟨l.position, behind.position⟩⟩,
    behind)

/-- Reads the token at which the lexer stands, trivia being skipped. -/
def nextAt (l : Lexer) : Except LexError Token × Lexer :=
  match scan l.atHostLine l.rest with
  | .finished => (.ok (.ending l.position), l)
  | .illegal c =>
    (.error ⟨.illegalCharacter c, ⟨l.position, l.position.step c⟩⟩, { l with lineStart := false })
  | .read taken outcome =>
    let behind := l.skip taken
    let span : Span := ⟨l.position, behind.position⟩
    match outcome with
    | .ok kind =>
      (.ok ⟨kind, String.ofList taken, span⟩,
        { behind with depth := kind.depthAfter l.depth, lineStart := kind == .newline })
    | .error fault => (.error ⟨fault, span⟩, { behind with lineStart := false })

/-- Reads one token. -/
def next (l : Lexer) : Except LexError Token × Lexer :=
  match l.shebang? with
  | some line => ((.ok (l.nextShebang line).1), (l.nextShebang line).2)
  | none => l.skipTrivia.nextAt

/-- The results of `count` reads in a row, whether they succeed or fail. -/
def steps (l : Lexer) : Nat → List (Except LexError Token)
  | 0 => []
  | count + 1 => l.next.1 :: l.next.2.steps count

/-- Whether a read has found the end, or what every later read will fail at, too. -/
def isLast : Except LexError Token → Bool
  | .ok t => t.kind == .endOfInput
  | .error e => e.isSticky

theorem rest_skip_length_le (l : Lexer) (taken : List Char) :
    (l.skip taken).rest.length ≤ l.rest.length := by
  simp [skip]

/-- A read that is not the last one takes at least one character. -/
theorem next_rest_lt {l : Lexer} (h : isLast l.next.1 = false) :
    l.next.2.rest.length < l.rest.length := by
  have drop_lt {m : Lexer} {taken : List Char} (hne : m.rest ≠ []) (ht : taken ≠ []) :
      (m.skip taken).rest.length < m.rest.length := by
    have := List.length_pos_iff.2 hne
    have := List.length_pos_iff.2 ht
    simp only [skip, List.length_drop]
    omega
  unfold next at h ⊢
  split at h
  · next line hline =>
    simp only [nextShebang]
    unfold shebang? at hline
    split at hline
    · next cs _ hrest =>
      cases hline
      exact drop_lt (by simp [hrest]) (by simp)
    · cases hline
  · have hle := rest_skip_length_le l (trivia l.rest)
    change l.skipTrivia.rest.length ≤ _ at hle
    generalize l.skipTrivia = m at h hle
    refine Nat.lt_of_lt_of_le ?_ hle
    unfold nextAt at h ⊢
    split at h
    · simp [isLast, Token.ending] at h
    · simp [isLast, LexError.isSticky] at h
    · next taken outcome hscan =>
      have hne : m.rest ≠ [] := by
        intro he
        simp [he] at hscan
      have ht := scan_read_ne_nil hscan
      cases outcome <;> simpa [hscan] using drop_lt hne ht

end Lexer
end WqSource
