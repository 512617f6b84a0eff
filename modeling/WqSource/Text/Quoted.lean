import WqSource.Unicode.Property

/-!
# Quoted text in messages

Messages and token listings show characters and strings between quotes, so that what
cannot be seen is still told apart: the enclosing quote and the backslash are escaped,
five controls have a letter, and every character that prints nothing of its own, or
would attach to its neighbour, is written by its code point.
-/

namespace WqSource.Text

/-- The code point of a character in lower-case hexadecimal digits, inside braces. -/
def codePointEscape (c : Char) : String :=
  "\\u\x7b" ++ String.ofList (Nat.toDigits 16 c.toNat) ++ "\x7d"

/-- One character as it stands between two of the given quotes. -/
def quotedChar (quote c : Char) : String :=
  if c = '\x00' then "\\0"
  else if c = '\t' then "\\t"
  else if c = '\r' then "\\r"
  else if c = '\n' then "\\n"
  else if c = '\\' then "\\\\"
  else if c = quote then "\\" ++ c.toString
  else if Unicode.isExtender c || !Unicode.isPrintable c then codePointEscape c
  else c.toString

/-- A character between single quotes. -/
def quoteChar (c : Char) : String := "'" ++ quotedChar '\'' c ++ "'"

/-- A string between double quotes. -/
def quoteString (s : String) : String :=
  "\"" ++ String.join (s.toList.map (quotedChar '"')) ++ "\""

end WqSource.Text
