import WqSource.Problem
import WqSource.Token.Stream

/-!
# A place among tokens

A `Cursor` is where a parse stands: the token it looks at, the tokens ahead, and what it
has to remember of those behind. It moves in three ways only: it takes the token it looks
at, it drops a fault that keeps it from doing so, or it notes a problem. `Cursor.Reaches`
is the order that these moves generate. Whatever parses is built from them, so a property
that every move keeps is a property of every parse.

## Main statements

* `Cursor.Reaches.size_le`: there is never more ahead than before.
* `Cursor.size_take_lt`: taking a token leaves less ahead.
-/

namespace WqSource

/-- Where a parse stands. -/
structure Cursor where
  /-- The token looked at, not yet taken. -/
  current : Token
  /-- What is read next. -/
  ahead : TokenStream
  /-- Where the last token taken ends. -/
  lastEnd : Position
  /-- How many of the brackets taken are open. -/
  depth : Nat
  /-- What has been noted, in order. -/
  problems : List Problem

namespace Cursor

/-- A cursor in front of the first token of a text, if there is one. -/
def ofString (source : String) : Except ParseError Cursor :=
  match (Lexer.ofString source).stream.next with
  | (.ok t, ahead) => .ok ⟨t, ahead, .start, 0, []⟩
  | (.error e, _) => .error (.lexical e)

/-- Whether the cursor is behind the last token. -/
def atEnd (c : Cursor) : Bool := c.current.kind == .endOfInput

/-- Whether the cursor looks at the given operator, separator or bracket. -/
def looksAt (c : Cursor) (p : Punct) : Bool := c.current.kind == .punct p

/-- Whether the cursor looks at line feeds. -/
def atNewline (c : Cursor) : Bool := c.current.kind == .newline

/-- Whether the cursor looks at something that separates statements. -/
def atSeparator (c : Cursor) : Bool := c.current.kind.isSeparator

/-- Whether the cursor looks at an opening bracket that touches the last token taken. -/
def atAdjacentBracket (c : Cursor) : Bool :=
  c.looksAt .openBracket && c.current.span.start.offset == c.lastEnd.offset

/-- The cursor behind the current token, with the next one in sight. -/
def shift (c : Cursor) (next : Token) (ahead : TokenStream) : Cursor where
  current := next
  ahead := ahead
  lastEnd := c.current.span.stop
  depth := c.current.kind.depthAfter c.depth
  problems := c.problems

/-- Takes the current token. That fails if what is read next is no token; the fault is
then dropped and the current token stays. -/
def take (c : Cursor) : Except ParseError Token × Cursor :=
  match c.ahead.next with
  | (.ok next, ahead) => (.ok c.current, c.shift next ahead)
  | (.error e, ahead) => (.error (.lexical e), { c with ahead := ahead })

/-- The kind of the token behind the current one. A fault in its place is dropped. -/
def peek (c : Cursor) : Except ParseError Token.Kind × Cursor :=
  match c.ahead.next with
  | (.ok next, _) => (.ok next.kind, c)
  | (.error e, ahead) => (.error (.lexical e), { c with ahead := ahead })

/-- Notes a problem. -/
def note (c : Cursor) (p : Problem) : Cursor := { c with problems := c.problems ++ [p] }

/-- The error of finding the current token where something else is expected. -/
def unexpected (c : Cursor) (expected : Expectation) : ParseError :=
  .grammar ⟨expected, c.current.kind, c.current.span⟩

/-- The span from a place through the last token taken. -/
def spanFrom (c : Cursor) (start : Position) : Span := ⟨start, c.lastEnd⟩

/-- One cursor leads to another by taking tokens, dropping faults and noting problems. -/
inductive Reaches : Cursor → Cursor → Prop where
  | refl (c : Cursor) : Reaches c c
  | take {b c : Cursor} : Reaches b c → Reaches b c.take.2
  | peek {b c : Cursor} : Reaches b c → Reaches b c.peek.2
  | note {b c : Cursor} (p : Problem) : Reaches b c → Reaches b (c.note p)

theorem Reaches.trans {a b c : Cursor} (h₁ : Reaches a b) (h₂ : Reaches b c) : Reaches a c := by
  induction h₂ with
  | refl => exact h₁
  | take _ ih => exact .take ih
  | peek _ ih => exact .peek ih
  | note p _ ih => exact .note p ih

/-- How much there is ahead: the tokens and faults not yet read, and the current token
unless that is the end. -/
def size (c : Cursor) : Nat := c.ahead.length + (!c.atEnd).toNat

theorem size_take_le (c : Cursor) : c.take.2.size ≤ c.size := by
  rcases c with ⟨current, ahead, lastEnd, depth, problems⟩
  cases ahead with
  | token t rest =>
    simp only [take, TokenStream.next, shift, size, atEnd, TokenStream.length]
    have := Bool.toNat_le (!(t.kind == .endOfInput))
    omega
  | _ => simp [take, TokenStream.next, shift, size, atEnd, TokenStream.length, Token.ending]

theorem size_peek_le (c : Cursor) : c.peek.2.size ≤ c.size := by
  rcases c with ⟨current, ahead, lastEnd, depth, problems⟩
  cases ahead <;> simp [peek, TokenStream.next, size, atEnd, TokenStream.length]

/-- There is never more ahead than before. -/
theorem Reaches.size_le {b c : Cursor} (h : Reaches b c) : c.size ≤ b.size := by
  induction h with
  | refl => exact Nat.le_refl _
  | take _ ih => exact Nat.le_trans (size_take_le _) ih
  | peek _ ih => exact Nat.le_trans (size_peek_le _) ih
  | note _ _ ih => exact ih

/-- Taking a token that is not the end leaves less ahead. -/
theorem size_take_lt {c : Cursor} {t : Token} (hc : c.atEnd = false) (h : c.take.1 = .ok t) :
    c.take.2.size < c.size := by
  rcases c with ⟨current, ahead, lastEnd, depth, problems⟩
  simp only [atEnd] at hc
  cases ahead with
  | ended place =>
    simp [take, TokenStream.next, shift, size, atEnd, TokenStream.length, hc, Token.ending]
  | stuck e => simp [take, TokenStream.next] at h
  | token u rest =>
    simp only [take, TokenStream.next, shift, size, atEnd, TokenStream.length, hc, Bool.not_false,
      Bool.toNat_true]
    have := Bool.toNat_le (!(u.kind == .endOfInput))
    omega
  | fault e rest => simp [take, TokenStream.next] at h

end Cursor
end WqSource
