/-!
# Places in a source text

A `Position` says where a character stands: how many bytes precede it, on which line it
is, and in which column. Bytes are those of the UTF-8 form of the text; columns count
characters. A `Span` is the stretch between two positions.

`Position.after` moves over a list of characters, one `Position.step` each, so that the
place of every character is a function of the text in front of it.
-/

namespace WqSource

/-- A place in a text. Bytes count from 0, lines and columns from 1. -/
structure Position where
  /-- Number of bytes in front of the place. -/
  offset : Nat
  /-- Number of the line, from 1. -/
  line : Nat
  /-- Number of the character in its line, from 1. -/
  column : Nat
  deriving DecidableEq

namespace Position

/-- The place of the first character of a text. -/
def start : Position := ⟨0, 1, 1⟩

instance : Inhabited Position := ⟨start⟩

/-- The place behind one character. A line feed opens a new line. -/
def step (p : Position) (c : Char) : Position :=
  if c = '\n' then ⟨p.offset + c.utf8Size, p.line + 1, 1⟩
  else ⟨p.offset + c.utf8Size, p.line, p.column + 1⟩

/-- The place behind a run of characters. -/
def after (p : Position) (cs : List Char) : Position := cs.foldl step p

@[simp] theorem after_nil (p : Position) : p.after [] = p := rfl

@[simp] theorem after_cons (p : Position) (c : Char) (cs : List Char) :
    p.after (c :: cs) = (p.step c).after cs := rfl

@[simp] theorem after_append (p : Position) (cs ds : List Char) :
    p.after (cs ++ ds) = (p.after cs).after ds := List.foldl_append

/-- Line and column, as messages write them. -/
def text (p : Position) : String := s!"{p.line}:{p.column}"

end Position

/-- The stretch of a text from one place up to, and not including, another. -/
structure Span where
  /-- Place of the first character. -/
  start : Position
  /-- Place behind the last character. -/
  stop : Position
  deriving DecidableEq

namespace Span

/-- The empty stretch at the start of a text. -/
instance : Inhabited Span := ⟨⟨.start, .start⟩⟩

/-- The least stretch that covers two. Places are compared by their bytes, and of two at
the same byte the first span's is kept. -/
def merge (a b : Span) : Span where
  start := if b.start.offset < a.start.offset then b.start else a.start
  stop := if a.stop.offset < b.stop.offset then b.stop else a.stop

/-- Length in bytes; a span whose ends are the wrong way round has length 0. -/
def length (s : Span) : Nat := s.stop.offset - s.start.offset

/-- Whether the stretch holds no byte. -/
def isEmpty (s : Span) : Bool := s.length == 0

/-- Both ends, as messages write them. -/
def text (s : Span) : String := s!"{s.start.text}-{s.stop.text}"

end Span
end WqSource
