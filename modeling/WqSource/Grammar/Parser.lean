import WqSource.Grammar.Cursor

/-!
# Parsers

A parser turns a cursor into a result or an error, and the cursor it has come to. The
cursor is kept after an error too, so that parsing can be taken up again from there. With
the function comes the fact that it only makes the moves of cursors; sequencing keeps it,
so a parser written in `do` notation has it without further proof.

`Parser.repeatTaking` and `Parser.collect` are the loops. Each round takes a token, which
is why they end.

## Main definitions

* `Parser`: the type, a monad.
* `Parser.choose`, `Parser.repeatTaking`: going on by what the current token is, once or
  as long as possible.
* `Outcome`, `Parser.collect`: results that outlive the error behind them.
-/

namespace WqSource

/-- A function from cursors to results that moves as cursors do. -/
structure Parser (α : Type) where
  /-- The result, and where the parse stands then. -/
  run : Cursor → Except ParseError α × Cursor
  reaches : ∀ c : Cursor, Cursor.Reaches c (run c).2

namespace Parser
variable {α β : Type}

/-- Gives a result without moving. -/
protected def pure (a : α) : Parser α := ⟨fun c => (.ok a, c), fun c => .refl c⟩

/-- Goes on after a result; an error ends the parse where it arose. -/
protected def bind (p : Parser α) (f : α → Parser β) : Parser β where
  run c :=
    match p.run c with
    | (.ok a, c') => (f a).run c'
    | (.error e, c') => (.error e, c')
  reaches c := by
    have h := p.reaches c
    split
    · next a c' he =>
      rw [he] at h
      exact h.trans ((f a).reaches c')
    · next e c' he =>
      rw [he] at h
      exact h

instance : Monad Parser where
  pure := Parser.pure
  bind := Parser.bind

@[simp] theorem run_pure (a : α) (c : Cursor) : (pure a : Parser α).run c = (.ok a, c) := rfl

/-- Sequencing runs the second parser only on a result of the first. -/
theorem run_bind (p : Parser α) (f : α → Parser β) (c : Cursor) :
    (p >>= f).run c =
      match p.run c with
      | (.ok a, c') => (f a).run c'
      | (.error e, c') => (.error e, c') := rfl

/-- What the cursor looks like. -/
def look (f : Cursor → α) : Parser α := ⟨fun c => (.ok (f c), c), fun c => .refl c⟩

@[simp] theorem run_look (f : Cursor → α) (c : Cursor) : (look f).run c = (.ok (f c), c) := rfl

/-- Takes the current token. -/
def take : Parser Token := ⟨Cursor.take, fun c => .take (.refl c)⟩

@[simp] theorem run_take (c : Cursor) : take.run c = c.take := rfl

/-- The kind of the token behind the current one. -/
def peek : Parser Token.Kind := ⟨Cursor.peek, fun c => .peek (.refl c)⟩

@[simp] theorem run_peek (c : Cursor) : peek.run c = c.peek := rfl

/-- Notes a problem. -/
def note (p : Problem) : Parser Unit := ⟨fun c => (.ok (), c.note p), fun c => .note p (.refl c)⟩

@[simp] theorem run_note (p : Problem) (c : Cursor) : (note p).run c = (.ok (), c.note p) := rfl

/-- Fails at the current token. -/
def fail (expected : Expectation) : Parser α :=
  ⟨fun c => (.error (c.unexpected expected), c), fun c => .refl c⟩

@[simp] theorem run_fail (expected : Expectation) (c : Cursor) :
    (fail expected : Parser α).run c = (.error (c.unexpected expected), c) := rfl

/-- The span from a place through the last token taken. -/
def spanFrom (start : Position) : Parser Span := look (·.spanFrom start)

/-- If `next` says how to go on behind the current token, takes it and goes on. -/
def choose (next : Cursor → Option (Token → Parser α)) (expected : Expectation) : Parser α := do
  match ← look next with
  | some goOn => goOn (← take)
  | none => fail expected

/-- Takes the given operator, separator or bracket, or fails. -/
def expect (p : Punct) (expected : Expectation) : Parser Unit :=
  choose (fun c => if c.looksAt p then some fun _ => pure () else none) expected

/-- Gives the error of a parser as a result. -/
def attempt (p : Parser α) : Parser (Except ParseError α) :=
  ⟨fun c => (.ok (p.run c).1, (p.run c).2), p.reaches⟩

@[simp] theorem run_attempt (p : Parser α) (c : Cursor) :
    (attempt p).run c = (.ok (p.run c).1, (p.run c).2) := rfl

/-- The rounds of `repeatTaking`, on a cursor. -/
def rounds (next : α → Cursor → Option (Token → Parser α)) (a : α) (c : Cursor) :
    Except ParseError α × Cursor :=
  if _hc : c.atEnd then (.ok a, c)
  else
    match next a c with
    | none => (.ok a, c)
    | some goOn =>
      match _ht : c.take with
      | (.error e, c₁) => (.error e, c₁)
      | (.ok t, c₁) =>
        match _hb : (goOn t).run c₁ with
        | (.error e, c₂) => (.error e, c₂)
        | (.ok b, c₂) => rounds next b c₂
termination_by c.size
decreasing_by
  have h₁ := Cursor.size_take_lt (c := c) (t := t) (by simpa using _hc) (by rw [_ht])
  have h₂ := ((goOn t).reaches c₁).size_le
  rw [_ht] at h₁
  rw [_hb] at h₂
  exact Nat.lt_of_le_of_lt h₂ h₁

theorem reaches_rounds (next : α → Cursor → Option (Token → Parser α)) (a : α) (c : Cursor) :
    c.Reaches (rounds next a c).2 := by
  fun_induction rounds next a c with
  | case1 a c _ => exact .refl c
  | case2 a c _ _ => exact .refl c
  | case3 a c _ goOn _ e c₁ ht => simpa [ht] using Cursor.Reaches.take (.refl c)
  | case4 a c _ goOn _ t c₁ ht e c₂ hb =>
    have h₁ : c.Reaches c₁ := by simpa [ht] using Cursor.Reaches.take (.refl c)
    have h₂ : c₁.Reaches c₂ := by simpa [hb] using (goOn t).reaches c₁
    exact h₁.trans h₂
  | case5 a c _ goOn _ t c₁ ht b c₂ hb ih =>
    have h₁ : c.Reaches c₁ := by simpa [ht] using Cursor.Reaches.take (.refl c)
    have h₂ : c₁.Reaches c₂ := by simpa [hb] using (goOn t).reaches c₁
    exact (h₁.trans h₂).trans ih

/-- As long as `next` says how to go on behind the current token, takes it and goes on.
The end of the input is never taken. -/
def repeatTaking (next : α → Cursor → Option (Token → Parser α)) (a : α) : Parser α :=
  ⟨rounds next a, reaches_rounds next a⟩

/-- Takes tokens as long as the test holds. -/
def skipWhile (test : Cursor → Bool) : Parser Unit :=
  repeatTaking (fun _ c => if test c then some fun _ => pure () else none) ()

/-- Skips line feeds. -/
def skipNewlines : Parser Unit := skipWhile (·.atNewline)

/-- Skips whatever separates statements. -/
def skipSeparators : Parser Unit := skipWhile (·.atSeparator)

/-- Items with separators between them. Behind a separator, where `stop` holds, the
sequence may end. -/
def separated (item : Parser α) (separator : Cursor → Option (Token → Parser Unit))
    (stop : Cursor → Bool) : Parser (α × List α) := do
  let first ← item
  let further items c := (separator c).map fun goOn t => do
    goOn t
    if ← look stop then return items
    return items ++ [← item]
  return (first, ← repeatTaking further [])

end Parser

/-- A result, and the error that ended the parse behind it, if one did. -/
structure Outcome (α : Type) where
  result : α
  failure : Option ParseError

namespace Parser
variable {α : Type}

/-- Runs a parser here, and again behind each token that `again` holds of and that comes
next then. An error ends it; what was found before is kept. -/
def collect (again : Cursor → Bool) (part : Parser (Outcome (List α))) (c : Cursor) :
    Outcome (List α) × Cursor :=
  match _hp : part.run c with
  | (.error e, c₁) => (⟨[], e⟩, c₁)
  | (.ok ⟨items, some e⟩, c₁) => (⟨items, e⟩, c₁)
  | (.ok ⟨items, none⟩, c₁) =>
    if _hc : c₁.atEnd then (⟨items, none⟩, c₁)
    else if again c₁ then
      match _ht : c₁.take with
      | (.error e, c₂) => (⟨items, e⟩, c₂)
      | (.ok _t, c₂) =>
        let (further, c₃) := collect again part c₂
        (⟨items ++ further.result, further.failure⟩, c₃)
    else (⟨items, none⟩, c₁)
termination_by c.size
decreasing_by
  have h₁ := (part.reaches c).size_le
  have h₂ := Cursor.size_take_lt (c := c₁) (t := _t) (by simpa using _hc) (by rw [_ht])
  rw [_hp] at h₁
  rw [_ht] at h₂
  exact Nat.lt_of_lt_of_le h₂ h₁

theorem reaches_collect (again : Cursor → Bool) (part : Parser (Outcome (List α)))
    (c : Cursor) : c.Reaches (collect again part c).2 := by
  fun_induction collect again part c with
  | case1 c e c₁ hp => simpa [hp] using part.reaches c
  | case2 c items e c₁ hp => simpa [hp] using part.reaches c
  | case3 c items c₁ hp _ => simpa [hp] using part.reaches c
  | case4 c items c₁ hp _ _ e c₂ ht =>
    have h₁ : c.Reaches c₁ := by simpa [hp] using part.reaches c
    have h₂ : c₁.Reaches c₂ := by simpa [ht] using Cursor.Reaches.take (.refl c₁)
    exact h₁.trans h₂
  | case5 c items c₁ hp _ _ t c₂ ht further c₃ hr ih =>
    have h₁ : c.Reaches c₁ := by simpa [hp] using part.reaches c
    have h₂ : c₁.Reaches c₂ := by simpa [ht] using Cursor.Reaches.take (.refl c₁)
    exact (h₁.trans h₂).trans (by simpa [hr] using ih)
  | case6 c items c₁ hp _ _ => simpa [hp] using part.reaches c

end Parser
end WqSource
