import WqSource.Proofs.Grammar.Recovery
import WqSource.Proofs.Nesting.Grammar

/-!
# Sessions with a parser

A parser of a text stays where it has come to, and may be called again, whatever the call
before has come to: for an expression, for one that is all of the rest, for a program, or for
what it has noted. Every call runs with the counter of the session. So a counter that were not in
balance would take levels from the calls behind.

## Main definitions

* `Session`: where a parser stands between two calls.
* `Session.Steps`: a sequence of calls, each running with the counter.
* `Session.serve`: what a call does according to the grammar, which has no counter.

## Main statements

* `Session.steps_iff`: sequences of calls do what the grammar does, and keep the counter at zero.
-/

namespace WqSource
open Grammar WqSource.Parser

namespace Parser
variable {α : Type} {again : Cursor → Bool} {part : Parser (Outcome (List α))} {c : Cursor}

/-- Fails with an error that is given. -/
def refuse (e : ParseError) : Parser α := ⟨fun c => (.error e, c), fun c => .refl c⟩

/-- The collection of parts as a parser. -/
def collecting (again : Cursor → Bool) (part : Parser (Outcome (List α))) :
    Parser (Outcome (List α)) :=
  ⟨fun c => (.ok (collect again part c).1, (collect again part c).2), reaches_collect again part⟩

/-- What is collected behind a part. -/
def collectingBehind (again : Cursor → Bool) (part : Parser (Outcome (List α))) :
    Except ParseError (Outcome (List α)) → Parser (Outcome (List α))
  | .error e => return ⟨[], e⟩
  | .ok ⟨items, some e⟩ => return ⟨items, e⟩
  | .ok ⟨items, none⟩ => do
    if ← look fun c => !c.atEnd && again c then
      match ← attempt take with
      | .error e => return ⟨items, e⟩
      | .ok _ =>
        (fun further => ⟨items ++ further.result, further.failure⟩) <$> collecting again part
    else return ⟨items, none⟩

theorem run_collecting (c : Cursor) :
    (collecting again part).run c = (attempt part >>= collectingBehind again part).run c := by
  change (Except.ok (collect again part c).1, (collect again part c).2) = _
  rw [run_bind, run_attempt]
  rcases hp : part.run c with ⟨e | ⟨items, _ | e⟩, c₁⟩
  · rw [collect]
    split <;> next h => simp_all [collectingBehind]
  · rw [collect_ok hp]
    simp only [collectingBehind, run_bind, run_look]
    by_cases hend : c₁.atEnd
    · simp [hend]
    · by_cases hagain : again c₁
      · rcases ht : c₁.take with ⟨e | t, c₂⟩ <;> simp [hend, hagain, ht, run_bind]
        rfl
      · simp [hend, hagain]
  · rw [collect_failed hp]
    rfl

end Parser

namespace Nesting
variable {α : Type} {catching : Bool} {k : Nat}

/-- What is collected has a run with a counter if the part has. The induction is on what is
ahead, as for the other loop. -/
theorem collecting_counts (again : Cursor → Bool) {part : Inner → Parser (Outcome (List α))}
    {limit : Nat} (h : Counts limit true k part) :
    Counts limit true k fun i => collecting again (part i) := by
  intro c
  induction hsize : c.size using Nat.strongRecOn generalizing c with
  | ind size ih =>
    subst hsize
    obtain ⟨r, c₁, hr⟩ := h c
    have hle : c₁.size ≤ c.size := size_le_of_run hr.sound.2
    suffices hbehind : ∃ r' c', Runs limit true (fun i => collectingBehind again (part i) r)
        k c₁ r' k c' by
      obtain ⟨r', c', hr'⟩ := hbehind
      exact ⟨r', c', .as (fun i => run_collecting c) (.bind (.attempt rfl hr) hr')⟩
    rcases r with e | ⟨items, _ | e⟩
    · exact Counts.plain _ c₁
    · by_cases htest : (!c₁.atEnd && again c₁) = true
      · rcases ht : c₁.take with ⟨e | t, c₂⟩
        · refine ⟨.ok ⟨items, some e⟩, c₂, .plain fun i => ?_⟩
          simp [collectingBehind, run_bind, htest, ht]
        · have hlt : c₂.size < c₁.size := Cursor.size_lt_of_take (by simp_all) ht
          obtain ⟨r', c', hr'⟩ := ih c₂.size (by omega) c₂ rfl
          refine ⟨_, c', .as (fun i => ?_) (.bind (f := fun _ => take)
            (g := fun i _ => (fun further => ⟨items ++ further.result, further.failure⟩) <$>
              collecting again (part i)) (.plain fun _ => ht) hr'.map)⟩
          simp [collectingBehind, run_bind, htest, ht]
      · refine ⟨.ok ⟨items, none⟩, c₁, .plain fun i => ?_⟩
        simp [collectingBehind, run_bind, htest]
    · exact Counts.plain _ c₁

/-! ## The calls, with the parsers inside to be given -/

/-- A statement or nothing, with the parsers of expressions to be given. -/
def optionalStatementWith (recover : Bool) (inner : Inner) :
    Parser (Outcome (List Statement)) := do
  if ← look atStatementEnd then return ⟨[], none⟩
  match ← attempt (statement inner) with
  | .error e => afterError recover [] e
  | .ok s =>
    if ← look atStatementEnd then return ⟨[s], none⟩
    afterError recover [s] (← look (·.unexpected .separator))

/-- A program, if no error stops it, with the parsers of expressions to be given. -/
def wholeProgramWith (recover : Bool) (inner : Inner) : Parser Program := do
  let text ← shebang
  let read ← collecting (·.atSeparator) (optionalStatementWith recover inner)
  match read.failure with
  | some e => refuse e
  | none => return ⟨text, read.result, ⟨.start, ← look (·.current.span.stop)⟩⟩

/-- One expression with nothing around it, with the parsers of expressions to be given. -/
def singleWith (inner : Inner) : Parser Expr := do
  skipNewlines
  let e ← inner.expression
  skipNewlines
  if ← look (·.atEnd) then
    discard take
    return e
  else fail .endOfInput

theorem single_eq : single = singleWith (level maxNesting) := rfl

theorem wholeProgramWith_level (recover : Bool) (c : Cursor) :
    (wholeProgramWith recover (level maxNesting)).run c = (wholeProgram recover).run c := by
  have hpart : optionalStatementWith recover (level maxNesting) = optionalStatement recover := rfl
  rw [wholeProgramWith, hpart, run_bind]
  simp only [wholeProgram, program]
  rcases shebang.run c with ⟨e | text, c₁⟩
  · rfl
  · simp only [topLevel, run_bind, collecting]
    rcases collect (·.atSeparator) (optionalStatement recover) c₁ with ⟨⟨read, _ | e⟩, c₂⟩ <;> rfl

variable {limit : Nat}

theorem optionalStatementWith_counts (recover : Bool) (hi : InnerCounts limit true k) :
    Counts limit true k (optionalStatementWith recover) := by
  refine .bind (.plain _) fun _ => .ite (.plain _) (.bind (.attempt (statement_counts hi)) fun r => ?_)
  cases r <;> exact .plain _

theorem wholeProgramWith_counts (recover : Bool) (hi : InnerCounts limit true k) :
    Counts limit true k (wholeProgramWith recover) :=
  .bind (.plain shebang) fun _ => .bind (collecting_counts _ (optionalStatementWith_counts recover hi))
    fun _ => .plain _

theorem singleWith_counts (hi : InnerCounts limit catching k) :
    Counts limit catching k singleWith :=
  .bind (.plain skipNewlines) fun _ => .bind hi.expression fun _ => .plain _

end Nesting

/-! ## Sessions -/

/-- Where a parser stands between two calls. -/
structure Session where
  cursor : Cursor
  /-- Whether programs are read with recovery. -/
  recover : Bool
  /-- The counter. -/
  nesting : Nat

/-- What a parser may be asked for. -/
inductive Call where
  | expression
  /-- One expression, and the end. -/
  | single
  | program
  /-- What has been noted. -/
  | problems
  /-- What has been noted, which is then forgotten. -/
  | takeProblems
  /-- To read programs with recovery or without it from now on. -/
  | recovery (on : Bool)

/-- What a call gives. -/
inductive Answer where
  | expression (r : Except ParseError Expr)
  | program (r : Except ParseError Program)
  | problems (ps : List Problem)
  | nothing

namespace Session
open Nesting

/-- A call, with the counter where the session has it. -/
inductive Step : Session → Call → Answer → Session → Prop where
  | expression {s : Session} {r : Except ParseError Expr} {k : Nat} {c : Cursor} :
    Runs maxNesting true (·.expression) s.nesting s.cursor r k c →
      Step s .expression (.expression r) { s with cursor := c, nesting := k }
  | single {s : Session} {r : Except ParseError Expr} {k : Nat} {c : Cursor} :
    Runs maxNesting true singleWith s.nesting s.cursor r k c →
      Step s .single (.expression r) { s with cursor := c, nesting := k }
  | program {s : Session} {r : Except ParseError Program} {k : Nat} {c : Cursor} :
    Runs maxNesting true (wholeProgramWith s.recover) s.nesting s.cursor r k c →
      Step s .program (.program r) { s with cursor := c, nesting := k }
  | problems (s : Session) : Step s .problems (.problems s.cursor.problems) s
  | takeProblems (s : Session) : Step s .takeProblems (.problems s.cursor.problems)
    { s with cursor := { s.cursor with problems := [] } }
  | recovery (s : Session) (on : Bool) : Step s (.recovery on) .nothing { s with recover := on }

/-- Calls one after another. -/
inductive Steps : Session → List Call → List Answer → Session → Prop where
  | nil (s : Session) : Steps s [] [] s
  | cons {s s₁ s' : Session} {call : Call} {calls : List Call} {answer : Answer}
    {answers : List Answer} :
    Step s call answer s₁ → Steps s₁ calls answers s' →
      Steps s (call :: calls) (answer :: answers) s'

/-- What a call does according to the grammar, which has no counter. -/
def serve (s : Session) : Call → Answer × Session
  | .expression =>
    let found := Grammar.expression.run s.cursor
    (.expression found.1, { s with cursor := found.2 })
  | .single =>
    let found := Grammar.single.run s.cursor
    (.expression found.1, { s with cursor := found.2 })
  | .program =>
    let found := (wholeProgram s.recover).run s.cursor
    (.program found.1, { s with cursor := found.2 })
  | .problems => (.problems s.cursor.problems, s)
  | .takeProblems =>
    (.problems s.cursor.problems, { s with cursor := { s.cursor with problems := [] } })
  | .recovery on => (.nothing, { s with recover := on })

/-- What calls one after another do according to the grammar. -/
def serveAll (s : Session) : List Call → List Answer × Session
  | [] => ([], s)
  | call :: calls =>
    let first := s.serve call
    let rest := first.2.serveAll calls
    (first.1 :: rest.1, rest.2)

variable {s s' : Session} {call : Call} {calls : List Call} {answer : Answer} {answers : List Answer}

/-- The calls that run the grammar are what it does, with the counter in balance. -/
theorem runs_iff {α : Type} {f : Inner → Parser α} {c c' : Cursor} {r : Except ParseError α}
    {k : Nat} (hf : Counts maxNesting true 0 f) :
    Runs maxNesting true f 0 c r k c' ↔ k = 0 ∧ (f (level maxNesting)).run c = (r, c') := by
  constructor
  · exact Runs.sound
  · rintro ⟨rfl, hrun⟩
    obtain ⟨r', c'', hr⟩ := hf c
    cases hrun.symm.trans hr.sound.2
    exact hr

/-- With the counter at zero, a call does what the grammar does, and keeps the counter there. -/
theorem step_iff (h : s.nesting = 0) : s.Step call answer s' ↔ (answer, s') = s.serve call := by
  have hi := inner_counts maxNesting true 0
  obtain ⟨c, recover, nesting⟩ := s
  obtain rfl : nesting = 0 := h
  constructor
  · intro hstep
    cases hstep with
    | expression hr =>
      obtain ⟨rfl, hrun⟩ := (runs_iff hi.expression).1 hr
      simp only [serve, Grammar.expression, hrun]
    | single hr =>
      obtain ⟨rfl, hrun⟩ := (runs_iff (singleWith_counts hi)).1 hr
      simp only [serve, single_eq, hrun]
    | program hr =>
      obtain ⟨rfl, hrun⟩ := (runs_iff (wholeProgramWith_counts recover hi)).1 hr
      simp only [serve, ← wholeProgramWith_level, hrun]
    | problems | takeProblems | recovery => rfl
  · intro hserve
    cases call with
    | expression =>
      cases hserve
      exact .expression ((runs_iff hi.expression).2 ⟨rfl, rfl⟩)
    | single =>
      cases hserve
      exact .single ((runs_iff (singleWith_counts hi)).2 ⟨rfl, rfl⟩)
    | program =>
      cases hserve
      exact .program ((runs_iff (wholeProgramWith_counts recover hi)).2
        ⟨rfl, wholeProgramWith_level recover c⟩)
    | problems =>
      cases hserve
      exact .problems _
    | takeProblems =>
      cases hserve
      exact .takeProblems _
    | recovery on =>
      cases hserve
      exact .recovery _ on

theorem nesting_serve (s : Session) (call : Call) : (s.serve call).2.nesting = s.nesting := by
  cases call <;> rfl

/-- With the counter at zero, calls one after another do what the grammar does, and keep the
counter there. -/
theorem steps_iff (h : s.nesting = 0) :
    s.Steps calls answers s' ↔ (answers, s') = s.serveAll calls := by
  induction calls generalizing s answers with
  | nil =>
    constructor
    · intro hsteps
      cases hsteps
      rfl
    · intro hserve
      cases hserve
      exact .nil _
  | cons call calls ih =>
    have hnext : (s.serve call).2.nesting = 0 := (nesting_serve s call).trans h
    constructor
    · intro hsteps
      cases hsteps with
      | cons hstep hsteps =>
        obtain ⟨rfl, rfl⟩ := Prod.mk.inj ((step_iff h).1 hstep)
        obtain ⟨rfl, rfl⟩ := Prod.mk.inj ((ih hnext).1 hsteps)
        rfl
    · intro hserve
      cases hserve
      exact .cons ((step_iff h).2 rfl) ((ih hnext).2 rfl)

theorem nesting_serveAll (s : Session) (calls : List Call) :
    (s.serveAll calls).2.nesting = s.nesting := by
  induction calls generalizing s with
  | nil => rfl
  | cons call calls ih => exact (ih _).trans (nesting_serve s call)

end Session
end WqSource
