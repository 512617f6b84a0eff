/-!
# Escapes in character and string literals

Inside a literal a backslash changes the meaning of the character behind it: `n`, `t`,
`r` and `0` name a control, and any other character stands for itself. `escape` writes a
character so that it reads back inside the same quotes: `unescape_escapeLetter` is that
law for the characters that get a backslash.
-/

namespace WqSource.Text

/-- The character meant by a backslash followed by `c`. -/
def unescape (c : Char) : Char :=
  if c = 'n' then '\n'
  else if c = 't' then '\t'
  else if c = 'r' then '\r'
  else if c = '0' then '\x00'
  else c

/-- The character to be written behind a backslash, for a character that cannot stand
bare between the given quotes. -/
def escapeLetter? (quote c : Char) : Option Char :=
  if c = '\n' then some 'n'
  else if c = '\t' then some 't'
  else if c = '\r' then some 'r'
  else if c = '\x00' then some '0'
  else if c = '\\' then some '\\'
  else if c = quote then some c
  else none

/-- Reading the letter behind the backslash gives the escaped character back, for a quote
that does not itself serve as such a letter. -/
theorem unescape_escapeLetter {quote c letter : Char} (hq : unescape quote = quote)
    (h : escapeLetter? quote c = some letter) : unescape letter = c := by
  unfold escapeLetter? at h
  repeat' split at h
  all_goals first
    | (cases h; subst_vars; first | rfl | exact hq)
    | cases h

/-- A character as a literal with the given quotes writes it. -/
def escape (quote c : Char) : List Char :=
  match escapeLetter? quote c with
  | some letter => ['\\', letter]
  | none => [c]

end WqSource.Text
