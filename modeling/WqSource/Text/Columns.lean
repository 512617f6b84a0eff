/-!
# Columns of a terminal

Text is laid out in columns, one for each character. A tab reaches to the next column
whose number is a multiple of four, and other controls take no column. An escape character
begins a control sequence for the terminal, such as a change of colour: nothing in it takes
a column, up to and with the `m` that ends it.

## Main statements

* `Pen.moveAll_expandTabs`: spaces for tabs keep every later character in its column.
-/

namespace WqSource.Text

/-- Spaces. -/
def spaces (n : Nat) : String := String.ofList (List.replicate n ' ')

/-- Adds spaces behind a text up to a width. -/
def padRight (width : Nat) (s : String) : String := s ++ spaces (width - s.length)

/-- Adds spaces in front of a text up to a width. -/
def padLeft (width : Nat) (s : String) : String := spaces (width - s.length) ++ s

/-- Where a terminal stands in a row. -/
structure Pen where
  /-- The column, from 0, in which the next character stands. -/
  column : Nat
  /-- Whether a control sequence goes on. -/
  commanding : Bool
  deriving DecidableEq

namespace Pen

/-- The pen at the beginning of a row. -/
def start : Pen := ⟨0, false⟩

/-- The column behind a character of the text. -/
def columnBehind (column : Nat) (c : Char) : Nat :=
  if c = '\t' then (column / 4 + 1) * 4
  else if c.toNat < 0x20 ∨ 0x7F ≤ c.toNat ∧ c.toNat < 0xA0 then column
  else column + 1

/-- The pen behind a character. -/
def move (p : Pen) (c : Char) : Pen :=
  if p.commanding then ⟨p.column, c != 'm'⟩
  else if c = '\x1b' then ⟨p.column, true⟩
  else ⟨columnBehind p.column c, false⟩

/-- The pen behind a text. -/
def moveAll (p : Pen) (cs : List Char) : Pen := cs.foldl move p

end Pen

/-- The column behind a text that begins in the first one. -/
def columns (cs : List Char) : Nat := (Pen.start.moveAll cs).column

/-- A text that the pen begins, with as many spaces for each tab as the tab has columns. -/
def expandTabs (p : Pen) : List Char → List Char
  | [] => []
  | c :: cs =>
    let next := p.move c
    (if c = '\t' then List.replicate (next.column - p.column) ' ' else [c]) ++
      expandTabs next cs

/-- A pen that writes spaces goes on by their number. -/
theorem Pen.moveAll_replicate_space (n column : Nat) :
    Pen.moveAll ⟨column, false⟩ (List.replicate n ' ') = ⟨column + n, false⟩ := by
  induction n generalizing column with
  | zero => rfl
  | succ n ih =>
    have h : Pen.move ⟨column, false⟩ ' ' = ⟨column + 1, false⟩ := rfl
    rw [Pen.moveAll, List.replicate_succ, List.foldl_cons, h]
    refine (ih (column + 1)).trans ?_
    simp only [Pen.mk.injEq, and_true]
    omega

/-- The spaces for a tab leave the pen where the tab does. -/
theorem Pen.moveAll_tab (p : Pen) :
    p.moveAll (List.replicate ((p.move '\t').column - p.column) ' ') = p.move '\t' := by
  obtain ⟨column, commanding⟩ := p
  cases commanding with
  | true =>
    have h : Pen.move ⟨column, true⟩ '\t' = ⟨column, true⟩ := rfl
    simp [h, Pen.moveAll]
  | false =>
    have h : Pen.move ⟨column, false⟩ '\t' = ⟨(column / 4 + 1) * 4, false⟩ := rfl
    rw [h, Pen.moveAll_replicate_space]
    simp only [Pen.mk.injEq, and_true]
    omega

/-- Spaces for tabs keep every later character in its column. -/
theorem Pen.moveAll_expandTabs (p : Pen) (cs : List Char) :
    p.moveAll (expandTabs p cs) = p.moveAll cs := by
  induction cs generalizing p with
  | nil => rfl
  | cons c cs ih =>
    by_cases h : c = '\t'
    · subst h
      have tab := p.moveAll_tab
      simp only [Pen.moveAll] at ih tab ⊢
      simp only [expandTabs, if_true, List.foldl_append, List.foldl_cons]
      rw [tab, ih]
    · simpa [expandTabs, h, Pen.moveAll] using ih (p.move c)

end WqSource.Text
