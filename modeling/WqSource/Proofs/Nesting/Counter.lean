import WqSource.Grammar.Expression
import WqSource.Proofs.Grammar.Contract

/-!
# Counting how deep a parse is nested

The parser of an expression is given the parsers of expressions inside another, and how deep
those may be nested is in the levels. A parser can as well count: the counter goes up by one
where an expression inside another begins and comes down by one where that ends, and at the
limit no further expression is begun. Here is what it is for a parser to run with such a
counter. The counter is part of the state: nothing but the rule for nested expressions changes
it, and whether it is in balance is something to prove.

What is run is a parser that depends on the parsers of expressions inside another, without those
parsers being given. The limit decides, and the levels are what the limit leaves.

## Main definitions

* `Nesting.Runs`: a run with a counter.
* `Nesting.Counts`: a parser that has a run from everywhere.

## Main statements

* `Nesting.Runs.sound`: the counter is in balance, and the run is one of the grammar.
* `Nesting.Runs.raise`: a higher limit changes a run only if it ended at the limit.
-/

namespace WqSource
namespace Nesting
open Grammar WqSource.Parser

/-- The parsers that count, and what they run one level deeper. -/
inductive Deeper : (Inner → Parser Expr) → (Inner → Parser Expr) → Prop where
  | expression : Deeper (·.expression) assignment
  | exponent : Deeper (·.exponent) unary

/-- `Runs limit catching f k c r k' c'` says that a run of `f` from the cursor `c`, with the
counter at `k`, ends with the result `r` at `c'`, and with the counter at `k'`. It is part of the
rules whether errors may be caught: a run that has caught none is over when it meets the limit. -/
inductive Runs (limit : Nat) (catching : Bool) : {α : Type} → (Inner → Parser α) →
    Nat → Cursor → Except ParseError α → Nat → Cursor → Prop where
  /-- What does not depend on the parsers inside does not touch the counter. -/
  | plain {α : Type} {f : Inner → Parser α} {k : Nat} {c c' : Cursor} {r : Except ParseError α} :
    (∀ i, (f i).run c = (r, c')) → Runs limit catching f k c r k c'
  | bind {α β : Type} {f : Inner → Parser α} {g : Inner → α → Parser β} {k k₁ k' : Nat}
      {c c₁ c' : Cursor} {a : α} {r : Except ParseError β} :
    Runs limit catching f k c (.ok a) k₁ c₁ → Runs limit catching (g · a) k₁ c₁ r k' c' →
      Runs limit catching (fun i => f i >>= g i) k c r k' c'
  /-- An error ends a sequence, and the counter stays where it is then. -/
  | error {α β : Type} {f : Inner → Parser α} {g : Inner → α → Parser β} {k k' : Nat}
      {c c' : Cursor} {e : ParseError} :
    Runs limit catching f k c (.error e) k' c' →
      Runs limit catching (fun i => f i >>= g i) k c (.error e) k' c'
  | attempt {α : Type} {f : Inner → Parser α} {k k' : Nat} {c c' : Cursor}
      {r : Except ParseError α} :
    catching = true → Runs limit catching f k c r k' c' →
      Runs limit catching (fun i => attempt (f i)) k c (.ok r) k' c'
  /-- Up by one, whatever the result is then, down by one. -/
  | deeper {p q : Inner → Parser Expr} {k k' : Nat} {c c' : Cursor} {r : Except ParseError Expr} :
    Deeper p q → k < limit → Runs limit catching q (k + 1) c r k' c' →
      Runs limit catching p k c r (k' - 1) c'
  /-- At the limit no further expression is begun. -/
  | limit {p q : Inner → Parser Expr} {k : Nat} {c : Cursor} :
    Deeper p q → limit ≤ k →
      Runs limit catching p k c (.error (c.unexpected (.shallowerNesting maxNesting))) k c
  /-- Loops and choices are run by their equations: what does the same here, whatever the parsers
  inside are, is run instead. -/
  | as {α : Type} {f g : Inner → Parser α} {k k' : Nat} {c c' : Cursor}
      {r : Except ParseError α} :
    (∀ i, (f i).run c = (g i).run c) → Runs limit catching g k c r k' c' →
      Runs limit catching f k c r k' c'

variable {α β : Type} {limit : Nat} {catching : Bool} {k k' : Nat} {c c' : Cursor}

namespace Runs
variable {f : Inner → Parser α} {r : Except ParseError α}

/-- The counter is in balance behind every run, and the run is one of the grammar, with as many
levels as the limit leaves. -/
theorem sound (h : Runs limit catching f k c r k' c') :
    k' = k ∧ (f (level (limit - k))).run c = (r, c') := by
  induction h with
  | plain hrun => exact ⟨rfl, hrun _⟩
  | bind _ _ hf hg =>
    obtain ⟨rfl, hf⟩ := hf
    obtain ⟨rfl, hg⟩ := hg
    exact ⟨rfl, by rw [run_bind, hf]; exact hg⟩
  | error _ hf =>
    obtain ⟨rfl, hf⟩ := hf
    exact ⟨rfl, by rw [run_bind, hf]⟩
  | attempt _ _ hf =>
    obtain ⟨rfl, hf⟩ := hf
    exact ⟨rfl, by rw [run_attempt, hf]⟩
  | @deeper p q k k' c c' r hdeeper hk _ hq =>
    obtain ⟨rfl, hq⟩ := hq
    refine ⟨rfl, ?_⟩
    rw [show limit - k = limit - (k + 1) + 1 by omega]
    cases hdeeper <;> exact hq
  | limit hdeeper hk =>
    refine ⟨rfl, ?_⟩
    rw [Nat.sub_eq_zero_of_le hk]
    cases hdeeper <;> rfl
  | as heq _ hg => exact ⟨hg.1, by rw [heq]; exact hg.2⟩

/-- A run that does not end at the limit is one with a higher limit, too. -/
theorem raise {limit' : Nat} (h : Runs limit false f k c r k' c') (hle : limit ≤ limit') :
    Runs limit' false f k c r k' c' ∨
      ∃ g : GrammarError, r = .error (.grammar g) ∧
        g.expected = .shallowerNesting maxNesting := by
  induction h with
  | plain hrun => exact .inl (.plain hrun)
  | bind _ _ hf hg =>
    obtain hf | ⟨g, hf, -⟩ := hf
    · obtain hg | hg := hg
      · exact .inl (.bind hf hg)
      · exact .inr hg
    · cases hf
  | error _ hf =>
    obtain hf | ⟨g, hf, hg⟩ := hf
    · exact .inl (.error hf)
    · cases hf
      exact .inr ⟨g, rfl, hg⟩
  | attempt h => cases h
  | deeper hdeeper hk _ hq =>
    obtain hq | hq := hq
    · exact .inl (.deeper hdeeper (by omega) hq)
    · exact .inr hq
  | limit => exact .inr ⟨_, rfl, rfl⟩
  | as heq _ hg =>
    obtain hg | hg := hg
    · exact .inl (.as heq hg)
    · exact .inr hg

theorem map {φ : α → β} (h : Runs limit catching f k c r k' c') :
    Runs limit catching (fun i => φ <$> f i) k c (r.map φ) k' c' := by
  cases r with
  | error e => exact .error (g := fun _ a => pure (φ a)) h
  | ok a => exact .bind (g := fun _ a => pure (φ a)) h (.plain fun _ => rfl)

end Runs

/-! ## Runs from everywhere -/

/-- From everywhere there is a run with the counter at `k`, and it leaves the counter there. -/
def Counts (limit : Nat) (catching : Bool) (k : Nat) (f : Inner → Parser α) : Prop :=
  ∀ c, ∃ r c', Runs limit catching f k c r k c'

/-- Whether there is a way to go on does not depend on the parsers inside, and each way has a run
from everywhere. -/
def GoesOn (limit : Nat) (catching : Bool) (k : Nat) (next : Inner → Option (Token → Parser α)) :
    Prop :=
  (∀ i, next i = none) ∨ ∃ goOn : Inner → Token → Parser α, (∀ i, next i = some (goOn i)) ∧
    ∀ t, Counts limit catching k (goOn · t)

namespace Counts
variable {f : Inner → Parser α}

theorem plain (p : Parser α) : Counts limit catching k fun _ => p :=
  fun c => ⟨(p.run c).1, (p.run c).2, .plain fun _ => rfl⟩

theorem bind {g : Inner → α → Parser β} (hf : Counts limit catching k f)
    (hg : ∀ a, Counts limit catching k (g · a)) :
    Counts limit catching k fun i => f i >>= g i := by
  intro c
  obtain ⟨r, c₁, hr⟩ := hf c
  cases r with
  | error e => exact ⟨_, _, .error hr⟩
  | ok a =>
    obtain ⟨r', c', hr'⟩ := hg a c₁
    exact ⟨_, _, .bind hr hr'⟩

theorem map {φ : α → β} (hf : Counts limit catching k f) :
    Counts limit catching k fun i => φ <$> f i := by
  intro c
  obtain ⟨r, c', hr⟩ := hf c
  exact ⟨_, c', hr.map⟩

theorem ite {p : Prop} [Decidable p] {g : Inner → Parser α} (hf : Counts limit catching k f)
    (hg : Counts limit catching k g) : Counts limit catching k fun i => if p then f i else g i := by
  by_cases h : p
  · simpa only [if_pos h] using hf
  · simpa only [if_neg h] using hg

theorem attempt (hf : Counts limit true k f) : Counts limit true k fun i => attempt (f i) := by
  intro c
  obtain ⟨r, c', hr⟩ := hf c
  exact ⟨_, _, .attempt rfl hr⟩

theorem choose {next : Inner → Cursor → Option (Token → Parser α)} {expected : Expectation}
    (h : ∀ c, GoesOn limit catching k (next · c)) :
    Counts limit catching k fun i => choose (next i) expected := by
  intro c
  obtain hnone | ⟨goOn, hsome, hgoOn⟩ := h c
  · exact ⟨_, _, .plain fun i => run_choose_none (hnone i)⟩
  · obtain ⟨r, c', hr⟩ := bind (plain take) hgoOn c
    exact ⟨_, _, .as (fun i => run_choose (hsome i)) hr⟩

/-- The induction is on what is ahead. That a round leaves less of it is known of the round as it
is in the grammar. -/
theorem repeatTaking {next : Inner → α → Cursor → Option (Token → Parser α)} (a : α)
    (h : ∀ a c, GoesOn limit catching k (next · a c)) :
    Counts limit catching k fun i => repeatTaking (next i) a := by
  intro c
  induction hsize : c.size using Nat.strongRecOn generalizing a c with
  | ind size ih =>
    subst hsize
    obtain hnone | ⟨goOn, hsome, hgoOn⟩ := h a c
    · exact ⟨_, _, .plain fun i => run_repeatTaking_stop (hnone i)⟩
    by_cases hend : c.atEnd = true
    · exact ⟨_, _, .plain fun i => (rounds_eq (next i) a c).trans (if_pos hend)⟩
    have hround (i : Inner) : (Parser.repeatTaking (next i) a).run c =
        (take >>= fun t => goOn i t >>= Parser.repeatTaking (next i)).run c := by
      refine (rounds_eq (next i) a c).trans ?_
      rw [if_neg hend, show next i a c = some (goOn i) from hsome i]
    rcases ht : c.take with ⟨e | t, c₁⟩
    · exact ⟨_, _, .as hround (.error (.plain fun _ => ht))⟩
    have htake : Runs limit catching (fun _ => take) k c (.ok t) k c₁ := .plain fun _ => ht
    obtain ⟨r, c₂, hr⟩ := hgoOn t c₁
    cases r with
    | error e => exact ⟨_, _, .as hround (.bind htake (.error hr))⟩
    | ok b =>
      have hlt : c₁.size < c.size := Cursor.size_lt_of_take (by simpa using hend) ht
      have hle : c₂.size ≤ c₁.size := size_le_of_run hr.sound.2
      obtain ⟨r', c', hr'⟩ := ih c₂.size (by omega) b c₂ rfl
      exact ⟨_, _, .as hround (.bind htake (.bind hr hr'))⟩

theorem separated {item : Inner → Parser α} {separator : Cursor → Option (Token → Parser Unit)}
    {stop : Cursor → Bool} (hitem : Counts limit catching k item) :
    Counts limit catching k fun i => separated (item i) separator stop := by
  refine bind hitem fun first => bind (repeatTaking [] fun items c => ?_) fun rest => plain _
  cases separator c with
  | none => exact .inl fun _ => rfl
  | some goOn =>
    exact .inr ⟨_, fun _ => rfl, fun t => bind (plain (goOn t)) fun _ => bind (plain (look stop))
      fun _ => ite (plain _) (bind hitem fun a => plain _)⟩

end Counts

namespace GoesOn

theorem plain (next : Option (Token → Parser α)) : GoesOn limit catching k fun _ => next := by
  cases next with
  | none => exact .inl fun _ => rfl
  | some goOn => exact .inr ⟨fun _ => goOn, fun _ => rfl, fun t => .plain (goOn t)⟩

theorem some {goOn : Inner → Token → Parser α} (h : ∀ t, Counts limit catching k (goOn · t)) :
    GoesOn limit catching k fun i => Option.some (goOn i) :=
  .inr ⟨goOn, fun _ => rfl, h⟩

theorem map {next : Inner → Option (Token → Parser α)}
    {more : Inner → (Token → Parser α) → Token → Parser β}
    (h : GoesOn limit catching k next)
    (hmore : ∀ goOn : Inner → Token → Parser α, (∀ t, Counts limit catching k (goOn · t)) →
      ∀ t, Counts limit catching k fun i => more i (goOn i) t) :
    GoesOn limit catching k fun i => (next i).map (more i) := by
  obtain hnone | ⟨goOn, hsome, hgoOn⟩ := h
  · exact .inl fun i => congrArg (Option.map (more i)) (hnone i)
  · exact .inr ⟨fun i => more i (goOn i), fun i => congrArg (Option.map (more i)) (hsome i),
      hmore goOn hgoOn⟩

theorem ite {p : Prop} [Decidable p] {next next' : Inner → Option (Token → Parser α)}
    (h : GoesOn limit catching k next) (h' : GoesOn limit catching k next') :
    GoesOn limit catching k fun i => if p then next i else next' i := by
  by_cases hp : p
  · simpa only [if_pos hp] using h
  · simpa only [if_neg hp] using h'

end GoesOn
end Nesting
end WqSource
