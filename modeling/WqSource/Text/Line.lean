/-!
# Lines of a text

A text divides into lines, each with what ends it. A carriage return and a line feed in
this order are one ending, and so is a line feed alone; a carriage return alone ends a line
for some purposes and not for others. The last line may lack an ending, and a text that
ends with one has no further line behind it.

## Main statements

* `flatMap_splitLines`: the lines put together are the text.
-/

namespace WqSource.Text

/-- A line and where it stands. -/
structure Line where
  /-- Number of the line, from 1. -/
  number : Nat
  /-- Number of bytes in front of the line. -/
  start : Nat
  /-- The characters without the ending. -/
  text : List Char
  /-- The characters that end the line, if any. -/
  ending : List Char
  deriving DecidableEq

/-- Number of bytes of a text. -/
def byteCount (cs : List Char) : Nat := (String.ofList cs).utf8ByteSize

namespace Line

/-- The byte behind the text. -/
def textStop (l : Line) : Nat := l.start + byteCount l.text

/-- All characters of the line. -/
def characters (l : Line) : List Char := l.text ++ l.ending

/-- The byte behind the ending. -/
def stop (l : Line) : Nat := l.textStop + byteCount l.ending

end Line

/-- The lines of a text, each with its ending, which is one character that `ends` holds of,
or a carriage return and a line feed. -/
def splitLines (ends : Char → Bool) : List Char → List (List Char × List Char)
  | [] => []
  | '\r' :: '\n' :: cs => ([], ['\r', '\n']) :: splitLines ends cs
  | c :: cs =>
    if ends c then ([], [c]) :: splitLines ends cs
    else
      match splitLines ends cs with
      | [] => [([c], [])]
      | (text, ending) :: rest => (c :: text, ending) :: rest

/-- The lines put together are the text. -/
theorem flatMap_splitLines (ends : Char → Bool) (cs : List Char) :
    (splitLines ends cs).flatMap (fun l => l.1 ++ l.2) = cs := by
  fun_induction splitLines ends cs with
  | case1 => rfl
  | case2 cs ih => simpa using ih
  | case3 c cs _ _ ih => simpa using ih
  | case4 c cs _ _ h ih => simp_all
  | case5 c cs _ _ text ending rest h ih => simp_all

/-- Lines with their places, from a given line on. -/
def placeLines (number start : Nat) : List (List Char × List Char) → List Line
  | [] => []
  | (text, ending) :: rest =>
    let line : Line := ⟨number, start, text, ending⟩
    line :: placeLines (number + 1) line.stop rest

/-- Whether a character ends a line of a screen. -/
def isLineFeed (c : Char) : Bool := c == '\n'

/-- Whether a character ends a line of a source. -/
def isLineEnd (c : Char) : Bool := c == '\r' || c == '\n'

end WqSource.Text
