import WqSource.Token.Lexer

/-!
# The tokens of a text

All reads from a text in order, as one finite object: a `TokenStream` lists the tokens
and the faults between them, and ends with the read that repeats for ever, which is
either the end of the input or a character at which no token starts.

The stream is all that a parser needs to know of a text. `tokenize` is the stream up to
its end, or up to its first fault.
-/

namespace WqSource

/-- The results of reading tokens one after another. -/
inductive TokenStream where
  /-- The end of the input, at the given place, from here on. -/
  | ended (place : Position)
  /-- The same error from here on. -/
  | stuck (e : LexError)
  /-- A token, then more. -/
  | token (t : Token) (rest : TokenStream)
  /-- An error behind which reading goes on. -/
  | fault (e : LexError) (rest : TokenStream)

namespace TokenStream

/-- One read, and the stream behind it. -/
def next : TokenStream → Except LexError Token × TokenStream
  | ended place => (.ok (.ending place), ended place)
  | stuck e => (.error e, stuck e)
  | token t rest => (.ok t, rest)
  | fault e rest => (.error e, rest)

/-- Number of reads before the one that repeats. -/
def length : TokenStream → Nat
  | ended _ | stuck _ => 0
  | token _ rest | fault _ rest => rest.length + 1

/-- The tokens through the end of the input, or the first error. -/
def tokens : TokenStream → Except LexError (List Token)
  | ended place => .ok [.ending place]
  | stuck e | fault e _ => .error e
  | token t rest => rest.tokens.map (t :: ·)

end TokenStream

/-- All reads from a lexer. -/
def Lexer.stream (l : Lexer) : TokenStream :=
  match _h : l.next.1 with
  | .ok t => if _hk : t.kind = .endOfInput then .ended t.span.start else .token t l.next.2.stream
  | .error e => if _hs : e.isSticky then .stuck e else .fault e l.next.2.stream
termination_by l.rest.length
decreasing_by
  · exact next_rest_lt (by simp [_h, isLast, _hk])
  · exact next_rest_lt (by simp [_h, isLast, _hs])

/-- The tokens of a text, the last of which is the end of the input; or what is wrong
with it first. -/
def tokenize (source : String) : Except LexError (List Token) :=
  (Lexer.ofString source).stream.tokens

end WqSource
