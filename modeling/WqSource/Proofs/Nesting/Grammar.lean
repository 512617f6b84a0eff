import WqSource.Proofs.Nesting.Counter

/-!
# The grammar counts how deep it is nested

Every parser of the grammar has a run with a counter from everywhere: it touches the counter
only through the parsers of expressions inside another. So what it does with levels it does with
a counter, and behind it the counter is what it was.

## Main statements

* `Nesting.inner_counts`: the parsers inside have runs, whatever the counter is.
* `Nesting.statement_counts`.
* `Nesting.agrees_or_stops`: with fewer levels a parser does the same, or it stops at the limit.
-/

namespace WqSource
namespace Nesting
open Grammar WqSource.Parser

/-- The parsers of expressions inside another have runs with the counter at `k`. -/
structure InnerCounts (limit : Nat) (catching : Bool) (k : Nat) : Prop where
  expression : Counts limit catching k (·.expression)
  exponent : Counts limit catching k (·.exponent)

variable {α : Type} {limit : Nat} {catching : Bool} {k : Nat}

theorem items_counts (close : Punct) {item : Inner → Parser α}
    (hitem : Counts limit catching k item) :
    Counts limit catching k fun i => items close (item i) :=
  .bind (.plain skipNewlines) fun _ => .bind (.plain _) fun _ =>
    .ite (.plain _) (.bind (.separated hitem) fun _ => .plain _)

theorem statement_counts (hi : InnerCounts limit catching k) :
    Counts limit catching k statement := by
  refine .bind (.plain (look (·.current.kind))) fun kind => ?_
  cases kind <;> first | exact .bind hi.expression fun e => .plain _ | exact .plain _

theorem statements_counts (hi : InnerCounts limit catching k)
    (sep : Cursor → Option (Token → Parser Unit)) (stop : Cursor → Bool) :
    Counts limit catching k (statements · sep stop) :=
  .bind (.separated (statement_counts hi)) fun _ => .plain _

theorem functionBody_counts (hi : InnerCounts limit catching k) :
    Counts limit catching k functionBody :=
  .bind (.plain skipSeparators) fun _ => .bind (.plain _) fun _ =>
    .ite (.plain _) (.bind (.map (statements_counts hi _ _)) fun _ => .plain _)

theorem arm_counts (hi : InnerCounts limit catching k) : Counts limit catching k arm :=
  .bind (.plain skipNewlines) fun _ => statements_counts hi _ _

theorem firstArm_counts (hi : InnerCounts limit catching k) : Counts limit catching k firstArm :=
  .bind (.plain skipNewlines) fun _ => statements_counts hi _ _

theorem head_counts (hi : InnerCounts limit catching k) : Counts limit catching k head :=
  .bind (.plain skipNewlines) fun _ => .bind hi.expression fun _ => .plain _

/-! ## Primaries -/

theorem function_counts (hi : InnerCounts limit catching k) (t : Token) :
    Counts limit catching k (function · t) :=
  .bind (.plain _) fun _ => .ite
    (.bind (.plain _) fun _ => .bind (.plain params) fun _ => .bind (functionBody_counts hi)
      fun _ => .plain _)
    (.bind (.plain _) fun _ => .bind (functionBody_counts hi) fun _ => .plain _)

theorem entry_counts (hi : InnerCounts limit catching k) : Counts limit catching k entry := by
  refine .choose fun c => ?_
  cases c.current.kind with
  | symbol key => exact .some fun t => .bind (.plain _) fun _ => .bind hi.expression fun _ => .plain _
  | _ => exact .plain none

theorem group_counts (hi : InnerCounts limit catching k) (t : Token) :
    Counts limit catching k (group · t) :=
  .bind (.plain skipNewlines) fun _ => .bind (.plain _) fun _ => .ite (.plain _)
    (.bind (.plain startsDict) fun _ => .ite
      (.bind (items_counts _ (entry_counts hi)) fun _ => .plain _)
      (.bind (items_counts _ hi.expression) fun _ => .plain _))

theorem arms_counts (hi : InnerCounts limit catching k) : Counts limit catching k arms :=
  .bind (firstArm_counts hi) fun _ => .bind (.plain _) fun _ => .ite (.plain _)
    (.bind (.plain _) fun _ => .bind (arm_counts hi) fun _ => .plain _)

theorem conditional_counts (hi : InnerCounts limit catching k) (t : Token) :
    Counts limit catching k (conditional · t) :=
  .bind (.plain _) fun _ => .ite
    (.bind (.plain _) fun _ => .bind (.plain _) fun _ => .bind (head_counts hi) fun _ =>
      .bind (arm_counts hi) fun _ => .plain _)
    (.bind (.plain _) fun _ => .bind (head_counts hi) fun _ => .bind (arms_counts hi)
      fun _ => .plain _)

theorem loop_counts (hi : InnerCounts limit catching k) (node : Span → Expr → Branch → Expr)
    (t : Token) : Counts limit catching k (loop · node t) :=
  .bind (.plain _) fun _ => .bind (head_counts hi) fun _ => .bind (arm_counts hi) fun _ => .plain _

theorem identifier_counts (hi : InnerCounts limit catching k) (name : String) (t : Token) :
    Counts limit catching k (identifier · name t) := by
  refine .bind (.plain _) fun bracket => ?_
  cases loopOfName? name with
  | none => exact .plain _
  | some node =>
    cases bracket with
    | true => exact loop_counts hi node t
    | false => exact .plain _

theorem control_counts (hi : InnerCounts limit catching k) (t : Token) (word : ControlWord) :
    Counts limit catching k (control · t word) := by
  cases word with
  | returning =>
    exact .bind (.plain _) fun _ => .ite (.bind (.map hi.expression) fun _ => .plain _) (.plain _)
  | breaking | continuing => exact .plain _
  | asserting | trying => exact .bind hi.expression fun _ => .plain _

theorem primary?_counts (hi : InnerCounts limit catching k) (kind : Token.Kind) :
    GoesOn limit catching k (primary? · kind) := by
  cases kind with
  | identifier name => exact .some fun t => identifier_counts hi name t
  | control word => exact .some fun t => control_counts hi t word
  | punct p =>
    cases p with
    | openBrace => exact .some fun t => function_counts hi t
    | openParen => exact .some fun t => group_counts hi t
    | dollar => exact .some fun t => conditional_counts hi t
    | _ => exact .plain none
  | newline | shebang | magic | endOfInput => exact .plain none
  | _ => exact .plain (some _)

theorem primary_counts (hi : InnerCounts limit catching k) : Counts limit catching k primary :=
  .choose fun c => primary?_counts hi c.current.kind

/-! ## Operators -/

theorem index_counts (hi : InnerCounts limit catching k) (t : Token) :
    Counts limit catching k (index · t) :=
  .bind (items_counts _ hi.expression) fun _ => .plain _

theorem indexed_counts (hi : InnerCounts limit catching k) (base : Expr) :
    Counts limit catching k (indexed · base) :=
  .bind (.repeatTaking [] fun _ _ => .ite (.some fun t => .bind (index_counts hi t) fun _ => .plain _)
    (.plain none)) fun _ => .plain _

theorem raised_counts (hi : InnerCounts limit catching k) (base : Expr) :
    Counts limit catching k (raised · base) :=
  .bind (.plain _) fun _ => .ite
    (.bind (.plain _) fun _ => .bind hi.exponent fun _ => .plain _) (.plain _)

theorem argument?_counts (hi : InnerCounts limit catching k) (kind : Token.Kind) :
    GoesOn limit catching k (argument? · kind) := by
  have hprimary : GoesOn limit catching k fun i => (primary? i kind).map
      fun goOn t => goOn t >>= fun base => indexed i base >>= raised i :=
    .map (primary?_counts hi kind) fun _ hgoOn t => .bind (hgoOn t) fun _ =>
      .bind (indexed_counts hi _) fun _ => raised_counts hi _
  cases kind with
  | punct p =>
    cases p with
    | hash =>
      exact .some fun t => .bind (.plain _) fun _ => .bind (primary_counts hi) fun _ =>
        .bind (indexed_counts hi _) fun _ => .bind (raised_counts hi _) fun _ => .plain _
    | _ => exact hprimary
  | _ => exact hprimary

theorem chain_counts (hi : InnerCounts limit catching k) : Counts limit catching k chain :=
  .bind (primary_counts hi) fun _ => .bind (.repeatTaking [] fun _ c => .ite
    (.some fun t => .bind (index_counts hi t) fun _ => .plain _)
    (.map (argument?_counts hi c.current.kind) fun _ hgoOn t => .bind (hgoOn t) fun _ => .plain _))
    fun _ => .plain _

theorem power_counts (hi : InnerCounts limit catching k) : Counts limit catching k power :=
  .bind (chain_counts hi) fun _ => raised_counts hi _

theorem unary_counts (hi : InnerCounts limit catching k) : Counts limit catching k unary :=
  .bind (.plain _) fun _ => .bind (.plain _) fun _ => .bind (power_counts hi) fun _ => .plain _

theorem binary_counts (tier : Tier) {operand : Inner → Parser Expr}
    (hoperand : Counts limit catching k operand) :
    Counts limit catching k fun i => binary tier (operand i) := by
  refine .bind hoperand fun _ => .repeatTaking _ fun left c => ?_
  cases tier.op? c.current.kind with
  | none => exact .plain none
  | some op => exact .some fun t => .bind hoperand fun _ => .plain _

theorem listed_counts (p : Punct) (node : Span → List Expr → Expr) {operand : Inner → Parser Expr}
    (hoperand : Counts limit catching k operand) :
    Counts limit catching k fun i => listed p node (operand i) :=
  .bind (.separated hoperand) fun _ => .plain _

theorem assignment_counts (hi : InnerCounts limit catching k) :
    Counts limit catching k assignment :=
  .bind (listed_counts _ _ (listed_counts _ _ (binary_counts _ (binary_counts _ (binary_counts _
    (unary_counts hi)))))) fun _ => .bind (.plain _) fun _ => .ite
      (.bind (.plain _) fun _ => .bind hi.expression fun _ => .plain _) (.plain _)

/-! ## Levels -/

theorem counts_deeper {p q : Inner → Parser Expr} (h : Deeper p q) (hk : k < limit)
    (hq : Counts limit catching (k + 1) q) : Counts limit catching k p := by
  intro c
  obtain ⟨r, c', hr⟩ := hq c
  exact ⟨r, c', .deeper h hk hr⟩

theorem counts_limit {p q : Inner → Parser Expr} (h : Deeper p q) (hk : limit ≤ k) :
    Counts limit catching k p :=
  fun c => ⟨_, c, .limit h hk⟩

/-- The parsers inside have runs, whatever the counter is. The induction is on how far it is from
the limit. -/
theorem inner_counts (limit : Nat) (catching : Bool) (k : Nat) : InnerCounts limit catching k := by
  induction hfar : limit - k generalizing k with
  | zero =>
    have hk : limit ≤ k := by omega
    exact ⟨counts_limit .expression hk, counts_limit .exponent hk⟩
  | succ far ih =>
    have hk : k < limit := by omega
    have hi := ih (k + 1) (by omega)
    exact ⟨counts_deeper .expression hk (assignment_counts hi),
      counts_deeper .exponent hk (unary_counts hi)⟩

/-- With fewer levels a parser does the same, or it stops at the limit. -/
theorem agrees_or_stops {n m : Nat} {f : Inner → Parser α} (hf : Counts n false 0 f) (hle : n ≤ m)
    (c : Cursor) :
    (f (level n)).run c = (f (level m)).run c ∨
      ∃ g c', (f (level n)).run c = (.error (.grammar g), c') ∧
        g.expected = .shallowerNesting maxNesting := by
  obtain ⟨r, c', hrun⟩ := hf c
  have hn := hrun.sound.2
  rw [Nat.sub_zero] at hn
  obtain hraised | ⟨g, rfl, hg⟩ := hrun.raise hle
  · have hm := hraised.sound.2
    rw [Nat.sub_zero] at hm
    exact .inl (hn.trans hm.symm)
  · exact .inr ⟨g, c', hn, hg⟩

end Nesting
end WqSource
