import WqSource.Grammar.Expression
import WqSource.Proofs.Grammar.Taking

/-!
# What parsers do to a cursor

Whatever a parser of the grammar is and however it ends, it takes tokens one after another
and notes nothing but warnings about names that it takes. An error is about the current
token, or it is the fault that is read in place of the next one.

Each way of putting parsers together keeps this, so it holds of all of them. It says
nothing about results; only how far a parser has come, and what it has noted.

## Main definitions

* `Cursor.Fails`, `Cursor.Ends`: how a run ends.
* `Parser.Lawful`: every run ends like that.

## Main statements

* `statement_lawful`.
-/

namespace WqSource
open Grammar

namespace Cursor

/-- The first cursor takes some tokens and is then the second one. -/
def Leads (c c' : Cursor) : Prop := ∃ ts, c.Takes ts c'

/-- What an error can be at a cursor, and the cursor behind it. -/
inductive Fails (c : Cursor) : ParseError → Cursor → Prop where
  | unexpected (expected : Expectation) : Fails c (c.unexpected expected) c
  | fault {e : LexError} {ahead : TokenStream} (h : c.ahead.next = (.error e, ahead)) :
    Fails c (.lexical e) { c with ahead := ahead }

/-- How a run from a cursor may end. -/
def Ends {α : Type} (c : Cursor) : Except ParseError α × Cursor → Prop
  | (.ok _, c') => c.Leads c'
  | (.error e, c') => ∃ c₁, c.Leads c₁ ∧ c₁.Fails e c'

/-- An error of the grammar is about the current token, and leaves the cursor there. -/
theorem Fails.grammar {c c' : Cursor} {g : GrammarError} (h : c.Fails (.grammar g) c') :
    c' = c ∧ g.span = c.current.span := by
  cases h
  exact ⟨rfl, rfl⟩

theorem Leads.refl (c : Cursor) : c.Leads c := ⟨[], .refl c⟩

theorem Leads.trans {a b c : Cursor} (h₁ : a.Leads b) (h₂ : b.Leads c) : a.Leads c := by
  obtain ⟨ts, h₁⟩ := h₁
  obtain ⟨us, h₂⟩ := h₂
  exact ⟨ts ++ us, h₁.trans h₂⟩

theorem Leads.take {c c' : Cursor} {t : Token} (h : c.take = (.ok t, c')) : c.Leads c' :=
  ⟨[t], .single h⟩

theorem Leads.ends {α : Type} {c c' : Cursor} {r : Except ParseError α × Cursor}
    (h : c.Leads c') (hr : c'.Ends r) : c.Ends r := by
  rcases r with ⟨e | a, c''⟩
  · obtain ⟨c₁, h₁, hfails⟩ := hr
    exact ⟨c₁, h.trans h₁, hfails⟩
  · exact h.trans hr

end Cursor

namespace Parser
variable {α β : Type}

/-- Every run of the parser takes tokens and fails, if it does, at the last of them. -/
def Lawful (p : Parser α) : Prop := ∀ c : Cursor, c.Ends (p.run c)

namespace Lawful

theorem pure (a : α) : Lawful (Pure.pure a : Parser α) := fun c => .refl c

theorem fail (expected : Expectation) : Lawful (fail expected : Parser α) :=
  fun c => ⟨c, .refl c, .unexpected expected⟩

theorem look (f : Cursor → α) : Lawful (look f) := fun c => .refl c

theorem take : Lawful take := by
  intro c
  rw [run_take]
  unfold Cursor.take
  split
  · next next ahead hn => exact .take (t := c.current) (by simp [Cursor.take, hn])
  · next e ahead hn => exact ⟨c, .refl c, .fault hn⟩

theorem peek : Lawful peek := by
  intro c
  rw [run_peek]
  unfold Cursor.peek
  split
  · exact .refl c
  · next e ahead hn => exact ⟨c, .refl c, .fault hn⟩

theorem bind {p : Parser α} {f : α → Parser β} (hp : Lawful p) (hf : ∀ a, Lawful (f a)) :
    Lawful (p >>= f) := by
  intro c
  have hc := hp c
  rw [run_bind]
  split
  · next a c' hr =>
    rw [hr] at hc
    exact Cursor.Leads.ends hc (hf a c')
  · next e c' hr =>
    rw [hr] at hc
    exact hc

theorem map {p : Parser α} {f : α → β} (hp : Lawful p) : Lawful (f <$> p) :=
  bind hp fun a => pure (f a)

theorem look_bind {f : Cursor → α} {g : α → Parser β} (hg : ∀ a, Lawful (g a)) :
    Lawful (Parser.look f >>= g) :=
  bind (look f) hg

theorem choose {next : Cursor → Option (Token → Parser α)} {expected : Expectation}
    (h : ∀ c goOn c₁, next c = some goOn → c.take = (.ok c.current, c₁) →
      c.Ends ((goOn c.current).run c₁)) :
    Lawful (choose next expected) := by
  intro c
  unfold Parser.choose
  rw [run_bind, run_look]
  dsimp only
  split
  · next goOn hn =>
    have hc := take c
    rw [run_bind]
    split
    · next t c₁ ht =>
      obtain ⟨rfl, -⟩ := Cursor.take_ok ht
      exact h c goOn c₁ hn ht
    · next e c₁ ht =>
      rw [ht] at hc
      exact hc
  · exact fail expected c

theorem expect (p : Punct) (expected : Expectation) : Lawful (expect p expected) := by
  refine choose fun c goOn c₁ hn ht => ?_
  split at hn
  · cases hn
    exact .take ht
  · cases hn

theorem repeatTaking {next : α → Cursor → Option (Token → Parser α)} (a : α)
    (h : ∀ a c goOn c₁, next a c = some goOn → c.take = (.ok c.current, c₁) →
      c.Ends ((goOn c.current).run c₁)) :
    Lawful (repeatTaking next a) := by
  intro c
  change c.Ends (rounds next a c)
  fun_induction rounds next a c with
  | case1 a c _ => exact .refl c
  | case2 a c _ _ => exact .refl c
  | case3 a c _ goOn _ e c₁ ht =>
    have hc := take c
    rw [run_take, ht] at hc
    exact hc
  | case4 a c _ goOn hn t c₁ ht e c₂ hb =>
    obtain ⟨rfl, -⟩ := Cursor.take_ok ht
    have hc := h a c goOn c₁ hn ht
    rw [hb] at hc
    exact hc
  | case5 a c _ goOn hn t c₁ ht b c₂ hb ih =>
    obtain ⟨rfl, -⟩ := Cursor.take_ok ht
    have hc := h a c goOn c₁ hn ht
    rw [hb] at hc
    exact Cursor.Leads.ends hc ih

theorem skipWhile (test : Cursor → Bool) : Lawful (skipWhile test) := by
  refine repeatTaking () fun _ c goOn c₁ hn ht => ?_
  split at hn
  · cases hn
    exact .take ht
  · cases hn

theorem skipNewlines : Lawful skipNewlines := skipWhile _

theorem separated {item : Parser α} {separator : Cursor → Option (Token → Parser Unit)}
    {stop : Cursor → Bool} (hitem : Lawful item)
    (hsep : ∀ c goOn t, separator c = some goOn → Lawful (goOn t)) :
    Lawful (separated item separator stop) := by
  refine bind hitem fun first => bind (repeatTaking [] fun items c goOn c₁ hn ht => ?_)
    fun rest => pure _
  obtain ⟨goOn', hs, rfl⟩ := Option.map_eq_some_iff.1 hn
  refine Cursor.Leads.ends (.take ht) (bind (hsep c goOn' _ hs) (fun _ => look_bind fun b => ?_) c₁)
  split
  · exact pure _
  · exact bind hitem fun a => pure _

end Lawful
end Parser

namespace Grammar
open WqSource.Parser

/-- The parsers of expressions inside another are lawful. -/
structure Inner.Lawful (inner : Inner) : Prop where
  expression : Parser.Lawful inner.expression
  exponent : Parser.Lawful inner.exponent

variable {inner : Inner} {α : Type}

theorem atPunct_lawful {p : Punct} {f : Token → Parser α} (hf : ∀ t, Lawful (f t)) (c : Cursor)
    (goOn : Token → Parser α) (t : Token) (h : atPunct p f c = some goOn) : Lawful (goOn t) := by
  unfold atPunct at h
  split at h
  · cases h
    exact hf t
  · cases h

theorem restOfSeparator_lawful (t : Token) : Lawful (restOfSeparator t) := by
  unfold restOfSeparator
  split
  · refine .look_bind fun b => ?_
    split
    · exact .bind (.map .take) fun _ => .skipNewlines
    · exact .pure _
  · exact .skipNewlines

theorem separator_lawful (c : Cursor) (goOn : Token → Parser Unit) (t : Token)
    (h : separator c = some goOn) : Lawful (goOn t) := by
  unfold separator at h
  split at h
  · cases h
    exact restOfSeparator_lawful t
  · cases h

theorem items_lawful (close : Punct) {item : Parser α} (hitem : Lawful item) :
    Lawful (items close item) := by
  refine .bind .skipNewlines fun _ => .look_bind fun b => ?_
  have closing (as : List α) : Lawful (do expect close (.itemEnd close); return as) :=
    .bind (.expect _ _) fun _ => .pure _
  split
  · exact .bind (.pure _) closing
  · exact .bind (.separated hitem separator_lawful) fun ⟨first, rest⟩ => .bind (.pure _) closing

theorem statement_lawful (hi : inner.Lawful) : Lawful (statement inner) := by
  refine .look_bind fun k => ?_
  split
  · exact .bind .take fun t => .pure _
  · exact .bind hi.expression fun e => .pure _

theorem statements_lawful {sep : Cursor → Option (Token → Parser Unit)} {stop : Cursor → Bool}
    (hi : inner.Lawful) (hsep : ∀ c goOn t, sep c = some goOn → Lawful (goOn t)) :
    Lawful (statements inner sep stop) :=
  .bind (.separated (statement_lawful hi) hsep) fun ⟨_, _⟩ => .pure _

theorem functionBody_lawful (hi : inner.Lawful) : Lawful (functionBody inner) := by
  refine .bind (.skipWhile _) fun _ => .look_bind fun b => ?_
  have closing (body : Option Branch) :
      Lawful (do expect .closeBrace .bodyStatementEnd; return body) :=
    .bind (.expect _ _) fun _ => .pure _
  split
  · exact .bind (.pure _) closing
  · refine .bind (.map (statements_lawful hi fun c goOn t hs => ?_)) closing
    split at hs
    · cases hs
      exact .skipWhile _
    · cases hs

theorem arm_lawful (hi : inner.Lawful) : Lawful (arm inner) :=
  .bind .skipNewlines fun _ => statements_lawful hi separator_lawful

theorem firstArm_lawful (hi : inner.Lawful) : Lawful (firstArm inner) := by
  refine .bind .skipNewlines fun _ => statements_lawful hi fun c goOn t hs => ?_
  split at hs
  · cases hs
    exact .pure _
  · cases hs

theorem head_lawful (hi : inner.Lawful) : Lawful (head inner) := by
  refine .bind .skipNewlines fun _ => .bind hi.expression fun e =>
    .bind (.choose fun c goOn c₁ hn ht => ?_) fun _ => .pure _
  have hgoOn : Lawful (goOn c.current) := by
    split at hn
    · cases hn
      exact .pure _
    · split at hn
      · cases hn
        exact .skipNewlines
      · cases hn
  exact Cursor.Leads.ends (.take ht) (hgoOn c₁)

/-! ## Primaries -/

theorem param_lawful : Lawful param := by
  refine .choose fun c goOn c₁ hn ht => ?_
  split at hn
  · cases hn
    exact .take ht
  · cases hn

theorem params_lawful : Lawful params := by
  refine .look_bind fun b => ?_
  have closing (ps : List Param) : Lawful (do expect .closeBracket .parameterEnd; return ps) :=
    .bind (.expect _ _) fun _ => .pure _
  split
  · exact .bind (.pure _) closing
  · exact .bind (.separated param_lawful (atPunct_lawful fun _ => .pure _))
      fun ⟨first, rest⟩ => .bind (.pure _) closing

theorem function_lawful (hi : inner.Lawful) (t : Token) : Lawful (function inner t) := by
  have body (ps : List Param) : Lawful (do
      let body ← functionBody inner
      return .function (← spanFrom t.span.start) ps body : Parser Expr) :=
    .bind (functionBody_lawful hi) fun _ => .look_bind fun _ => .pure _
  refine .look_bind fun b => ?_
  split
  · exact .bind (.map .take) fun _ => .bind params_lawful body
  · exact .bind (.pure _) body

theorem entry_lawful (hi : inner.Lawful) : Lawful (entry inner) := by
  refine .choose fun c goOn c₁ hn ht => ?_
  split at hn
  · cases hn
    exact Cursor.Leads.ends (.take ht) (Lawful.bind (.expect _ _)
      (fun _ => .bind hi.expression fun _ => .pure _) c₁)
  · cases hn

theorem startsDict_lawful : Lawful startsDict := by
  refine .look_bind fun k => ?_
  split
  · exact .bind .peek fun _ => .pure _
  · exact .pure _

theorem group_lawful (hi : inner.Lawful) (t : Token) : Lawful (group inner t) := by
  refine .bind .skipNewlines fun _ => .look_bind fun b => ?_
  split
  · exact .bind (.map .take) fun _ => .look_bind fun _ => .pure _
  · refine .bind startsDict_lawful fun b => ?_
    split
    · exact .bind (items_lawful _ (entry_lawful hi)) fun _ => .look_bind fun _ => .pure _
    · exact .bind (items_lawful _ hi.expression) fun _ => .look_bind fun _ => .pure _

theorem arms_lawful (hi : inner.Lawful) : Lawful (arms inner) := by
  refine .bind (firstArm_lawful hi) fun first => .look_bind fun b => ?_
  split
  · split
    · exact .pure _
    · exact .fail _
  · exact .bind (.expect _ _) fun _ => .bind (arm_lawful hi) fun _ => .pure _

theorem conditional_lawful (hi : inner.Lawful) (t : Token) : Lawful (conditional inner t) := by
  refine .look_bind fun b => ?_
  split
  · exact .bind (.map .take) fun _ => .bind (.expect _ _) fun _ => .bind (head_lawful hi)
      fun _ => .bind (arm_lawful hi) fun _ => .bind (.expect _ _) fun _ => .look_bind
      fun _ => .pure _
  · exact .bind (.expect _ _) fun _ => .bind (head_lawful hi) fun _ => .bind (arms_lawful hi)
      fun ⟨_, _⟩ => .bind (.expect _ _) fun _ => .look_bind fun _ => .pure _

theorem loop_lawful (hi : inner.Lawful) (node : Span → Expr → Branch → Expr) (t : Token) :
    Lawful (loop inner node t) :=
  .bind (.map .take) fun _ => .bind (head_lawful hi) fun _ => .bind (arm_lawful hi)
    fun _ => .bind (.expect _ _) fun _ => .look_bind fun _ => .pure _

/-- A name draws a warning where it is taken. -/
theorem identifier_ends {name : String} {c c₁ : Cursor} (hi : inner.Lawful)
    (ht : c.take = (.ok c.current, c₁)) (hk : c.current.kind = .identifier name) :
    c.Ends ((identifier inner name c.current).run c₁) := by
  unfold identifier
  rw [run_bind, run_look]
  dsimp only
  split
  · next node _ _ => exact Cursor.Leads.ends (.take ht) (loop_lawful hi node _ c₁)
  · split
    · next word hword =>
      exact ⟨[c.current], .warn (.refl c) ht hk hword⟩
    · exact .take ht

theorem control_lawful (hi : inner.Lawful) (t : Token) (word : ControlWord) :
    Lawful (control inner t word) := by
  cases word with
  | returning =>
    refine .look_bind fun b => ?_
    split
    · exact .bind (.map hi.expression) fun _ => .look_bind fun _ => .pure _
    · exact .bind (.pure _) fun _ => .look_bind fun _ => .pure _
  | breaking | continuing => exact .pure _
  | asserting | trying => exact .bind hi.expression fun _ => .look_bind fun _ => .pure _

theorem primary?_ends {goOn : Token → Parser Expr} {c c₁ : Cursor} (hi : inner.Lawful)
    (ht : c.take = (.ok c.current, c₁)) (hs : primary? inner c.current.kind = some goOn) :
    c.Ends ((goOn c.current).run c₁) := by
  unfold primary? at hs
  split at hs <;> cases hs
  case h_9 name hk => exact identifier_ends hi ht hk
  case h_11 => exact Cursor.Leads.ends (.take ht) (function_lawful hi _ c₁)
  case h_12 => exact Cursor.Leads.ends (.take ht) (group_lawful hi _ c₁)
  case h_13 => exact Cursor.Leads.ends (.take ht) (conditional_lawful hi _ c₁)
  case h_14 word _ => exact Cursor.Leads.ends (.take ht) (control_lawful hi _ word c₁)
  all_goals exact .take ht

theorem primary_lawful (hi : inner.Lawful) : Lawful (primary inner) :=
  .choose fun _ _ _ hs ht => primary?_ends hi ht hs

/-! ## Operators -/

theorem index_lawful (hi : inner.Lawful) (t : Token) : Lawful (index inner t) :=
  .bind (items_lawful _ hi.expression) fun _ => .look_bind fun _ => .pure _

theorem chained_lawful (base : Expr) (suffixes : List Suffix) :
    Lawful (chained base suffixes) := by
  unfold chained
  split
  · exact .pure _
  · exact .look_bind fun _ => .pure _

theorem indexed_lawful (hi : inner.Lawful) (base : Expr) : Lawful (indexed inner base) := by
  refine .bind (.repeatTaking [] fun suffixes c goOn c₁ hs ht => ?_)
    fun _ => chained_lawful _ _
  split at hs
  · cases hs
    exact Cursor.Leads.ends (.take ht) (Lawful.bind (index_lawful hi _) (fun _ => .pure _) c₁)
  · cases hs

theorem raised_lawful (hi : inner.Lawful) (base : Expr) : Lawful (raised inner base) := by
  refine .look_bind fun b => ?_
  split
  · exact .bind (.map .take) fun _ => .bind hi.exponent fun _ => .pure _
  · exact .pure _

theorem counted_lawful (start : Position) (ops : List UnaryOp) (operand : Expr) :
    Lawful (counted start ops operand) := by
  unfold counted
  split
  · exact .pure _
  · exact .look_bind fun _ => .pure _

/-- What ends well for one parser does so for one behind it. -/
theorem ends_bind {β : Type} {c c₁ : Cursor} {p : Parser α} {f : α → Parser β}
    (hp : c.Ends (p.run c₁)) (hf : ∀ a, Lawful (f a)) : c.Ends ((p >>= f).run c₁) := by
  rw [run_bind]
  split
  · next a c₂ hr =>
    rw [hr] at hp
    exact Cursor.Leads.ends hp (hf a c₂)
  · next e c₂ hr =>
    rw [hr] at hp
    exact hp

theorem argument?_ends {goOn : Token → Parser Expr} {c c₁ : Cursor} (hi : inner.Lawful)
    (ht : c.take = (.ok c.current, c₁)) (hs : argument? inner c.current.kind = some goOn) :
    c.Ends ((goOn c.current).run c₁) := by
  unfold argument? at hs
  split at hs
  · cases hs
    refine Cursor.Leads.ends (.take ht) (Lawful.bind (.repeatTaking _ fun ops c goOn c₁ hs ht =>
      Cursor.Leads.ends (.take ht) (atPunct_lawful (fun _ => .pure _) c goOn _ hs c₁))
      (fun _ => .bind (primary_lawful hi) fun _ => .bind (indexed_lawful hi _) fun _ =>
        .bind (raised_lawful hi _) fun _ => counted_lawful _ _ _) c₁)
  · obtain ⟨goOn', hprimary, rfl⟩ := Option.map_eq_some_iff.1 hs
    exact ends_bind (primary?_ends hi ht hprimary) fun _ => .bind (indexed_lawful hi _)
      fun _ => raised_lawful hi _

theorem chain_lawful (hi : inner.Lawful) : Lawful (chain inner) := by
  refine .bind (primary_lawful hi) fun base => .bind (.repeatTaking [] fun suffixes c goOn c₁ hs
    ht => ?_) fun _ => chained_lawful _ _
  split at hs
  · cases hs
    exact Cursor.Leads.ends (.take ht) (Lawful.bind (index_lawful hi _) (fun _ => .pure _) c₁)
  · obtain ⟨goOn', hargument, rfl⟩ := Option.map_eq_some_iff.1 hs
    exact ends_bind (argument?_ends hi ht hargument) fun _ => .pure _

theorem power_lawful (hi : inner.Lawful) : Lawful (power inner) :=
  .bind (chain_lawful hi) fun _ => raised_lawful hi _

theorem unary_lawful (hi : inner.Lawful) : Lawful (unary inner) := by
  refine .look_bind fun start => .bind (.repeatTaking [] fun ops c goOn c₁ hs ht => ?_)
    fun _ => .bind (power_lawful hi) fun _ => counted_lawful _ _ _
  obtain ⟨op, -, rfl⟩ := Option.map_eq_some_iff.1 hs
  exact .take ht

theorem binary_lawful {tier : Tier} {operand : Parser Expr} (hoperand : Lawful operand) :
    Lawful (binary tier operand) := by
  refine .bind hoperand fun first => .repeatTaking first fun left c goOn c₁ hs ht => ?_
  obtain ⟨op, -, rfl⟩ := Option.map_eq_some_iff.1 hs
  exact Cursor.Leads.ends (.take ht) (Lawful.bind hoperand (fun _ => .pure _) c₁)

theorem listed_lawful {p : Punct} {node : Span → List Expr → Expr} {operand : Parser Expr}
    (hoperand : Lawful operand) : Lawful (listed p node operand) := by
  refine .bind (.separated hoperand (atPunct_lawful fun _ => .pure _)) fun ⟨first, rest⟩ => ?_
  dsimp only
  split
  · exact .pure _
  · exact .look_bind fun _ => .pure _

theorem assignment_lawful (hi : inner.Lawful) : Lawful (assignment inner) := by
  refine .bind (listed_lawful (listed_lawful (binary_lawful (binary_lawful (binary_lawful
    (unary_lawful hi)))))) fun target => .look_bind fun b => ?_
  split
  · exact .bind (.map .take) fun _ => .bind hi.expression fun _ => .pure _
  · exact .pure _

theorem level_lawful (n : Nat) : (level n).Lawful := by
  induction n with
  | zero => exact ⟨.fail _, .fail _⟩
  | succ n ih => exact ⟨assignment_lawful ih, unary_lawful ih⟩

end Grammar
end WqSource
