import WqSource.Grammar.Expression
import WqSource.Proofs.Alone.Primary

/-!
# Copies of expressions

Every tier of the grammar goes on by the current token, and ends where the tokens do. So what it
reads, it reads again from a cut cursor. That is so for every level, and a level that allows more
nesting reads no less.

## Main statements

* `level_copied`: every level.
-/

namespace WqSource
open Grammar WqSource.Parser

theorem Cursor.Sees.atAdjacentBracket {c d : Cursor} (h : c.Sees d) :
    d.atAdjacentBracket = c.atAdjacentBracket := by
  simp only [Cursor.atAdjacentBracket, Cursor.looksAt, h.current, h.lastEnd]

namespace Grammar
variable {n k j : Nat} {c : Cursor} {inner inner' : Inner} {t : Token}

/-! ## Chains -/

theorem index_copies (hi : inner.Copied inner') : Copies n 1 (index inner t) (index inner' t) c :=
  .bind_left (items_copies hi.expression) fun _ _ _ => .spanFrom_bind fun _ => .pure

theorem chained_copies {base : Expr} {suffixes : List Suffix} :
    Copies n 0 (chained base suffixes) (chained base suffixes) c := by
  unfold chained
  split
  · exact .pure
  · exact .spanFrom_bind fun _ => .pure

/-- Index brackets, and whatever else may come. -/
theorem together_atAdjacentBracket {suffixes : List Suffix}
    {o o' : Option (Token → Parser (List Suffix))} (hi : inner.Copied inner')
    (ho : Together n 0 c o o') :
    Together n 0 c
      (if c.atAdjacentBracket then some fun t => return suffixes ++ [← index inner t] else o)
      (if c.atAdjacentBracket then some fun t => return suffixes ++ [← index inner' t] else o') := by
  split
  · next hbracket =>
    have hopen : c.looksAt .openBracket = true := (Bool.and_eq_true_iff.1 hbracket).1
    exact .goOn (Copies.ne_atEnd hopen) fun _ _ =>
      .lax (.bind_left (index_copies hi) fun _ _ _ => .pure)
  · exact ho

theorem indexed_copies {base : Expr} (hi : inner.Copied inner') :
    Copies n 0 (indexed inner base) (indexed inner' base) c :=
  .bind_left (.repeatTaking (fun _ _ _ h => by simp only [h.atAdjacentBracket])
    fun _ _ => together_atAdjacentBracket hi .stop) fun _ _ _ => chained_copies

theorem raised_copies {base : Expr} (hi : inner.Copied inner') :
    Copies n 0 (raised inner base) (raised inner' base) c :=
  .looksAt_bind (fun hcaret => .discard_take_bind (Copies.ne_atEnd hcaret) fun c₁ _ =>
    .lax (.bind_left (hi.exponent n c₁) fun _ _ _ => .pure)) fun _ => .pure

theorem counted_copies {start : Position} {ops : List UnaryOp} {operand : Expr} :
    Copies n 0 (counted start ops operand) (counted start ops operand) c := by
  unfold counted
  split
  · exact .pure
  · exact .spanFrom_bind fun _ => .pure

/-- An argument without signs is a primary with what is behind it. -/
theorem argument?_of_ne_hash (inner : Inner) {kind : Token.Kind} (hk : kind ≠ .punct .hash) :
    argument? inner kind = (primary? inner kind).map fun goOn t =>
      (do raised inner (← indexed inner (← goOn t))) := by
  unfold argument?
  split
  · exact absurd rfl hk
  · rfl

/-- The signs of counting in front of an argument, behind the first one. -/
theorem counts_copies {ops : List UnaryOp} :
    Copies n 0 (repeatTaking (fun ops => atPunct .hash fun _ => return ops ++ [.count]) ops)
      (repeatTaking (fun ops => atPunct .hash fun _ => return ops ++ [.count]) ops) c :=
  .repeatTaking (fun _ => Copies.looks_looksAt) fun _ _ => Copies.together_looksAt fun _ _ => .pure

/-- What goes on behind the first token of an argument. -/
theorem argument?_together (hi : inner.Copied inner') :
    Together n 0 c (argument? inner c.current.kind) (argument? inner' c.current.kind) := by
  by_cases hhash : c.looksAt .hash = true
  · have hk : c.current.kind = .punct .hash := by simpa [Cursor.looksAt] using hhash
    rw [hk]
    refine .goOn (Copies.ne_atEnd hhash) fun c₁ _ => ?_
    refine .bind_left counts_copies fun ops c₂ _ => ?_
    refine .lax (.bind_left (primary_copies hi) fun base c₃ _ => ?_)
    exact .bind_left (indexed_copies hi) fun _ _ _ => .bind_left (raised_copies hi)
      fun _ _ _ => counted_copies
  · have hk : c.current.kind ≠ .punct .hash := by simpa [Cursor.looksAt] using hhash
    rw [argument?_of_ne_hash inner hk, argument?_of_ne_hash inner' hk]
    have htogether := primary?_together (n := n) (c := c) hi
    generalize primary? inner c.current.kind = o at htogether
    generalize primary? inner' c.current.kind = o' at htogether
    cases htogether with
    | stop => exact .stop
    | goOn hend hk =>
      refine .goOn hend fun c₁ ht => .bind_left (hk c₁ ht) fun _ _ _ => ?_
      exact .bind_left (indexed_copies hi) fun _ _ _ => raised_copies hi

theorem chain_copies (hi : inner.Copied inner') : Copies n 1 (chain inner) (chain inner') c := by
  refine .bind_left (primary_copies hi) fun base c₁ _ => .bind_left (.repeatTaking ?_ ?_)
    fun _ _ _ => chained_copies
  · intro _ c d h
    simp only [h.atAdjacentBracket, h.current]
  · intro suffixes c
    refine together_atAdjacentBracket hi ?_
    have htogether := argument?_together (n := n) (c := c) hi
    generalize argument? inner c.current.kind = o at htogether
    generalize argument? inner' c.current.kind = o' at htogether
    cases htogether with
    | stop => exact .stop
    | goOn hend hk => exact .goOn hend fun c₁ ht => .bind_left (hk c₁ ht) fun _ _ _ => .pure

/-! ## Operators -/

theorem power_copies (hi : inner.Copied inner') : Copies n 1 (power inner) (power inner') c :=
  .bind_left (chain_copies hi) fun _ _ _ => raised_copies hi

/-- Going on by the kind of the current token, in the same way. -/
theorem together_map {α β : Type} {next : Token.Kind → Option β} {go go' : β → Token → Parser α}
    (hnone : next .endOfInput = none)
    (hgo : ∀ b c₁, Copies n 0 (go b c.current) (go' b c.current) c₁) :
    Together n 0 c ((next c.current.kind).map go) ((next c.current.kind).map go') := by
  cases hnext : next c.current.kind with
  | none => exact .stop
  | some b =>
    have hne : c.current.kind ≠ .endOfInput := by
      intro hk
      rw [hk, hnone] at hnext
      cases hnext
    exact .goOn (by simpa [Cursor.atEnd] using hne) fun c₁ _ => hgo b c₁

/-- The signs in front of an operand. -/
theorem signs_copies {ops : List UnaryOp} :
    Copies n 0
      (repeatTaking (fun ops c => (unaryOp? c.current.kind).map fun op _ => return ops ++ [op]) ops)
      (repeatTaking (fun ops c => (unaryOp? c.current.kind).map fun op _ => return ops ++ [op]) ops)
      c :=
  .repeatTaking (fun _ _ _ h => by simp only [h.current])
    fun _ _ => together_map rfl fun _ _ => .pure

theorem unary_copies (hi : inner.Copied inner') : Copies n 1 (unary inner) (unary inner') c := by
  refine .look_bind (fun i d hi hd => by rw [(hd.sees (by omega)).current]) ?_
  refine .bind_right signs_copies fun ops c₁ _ => ?_
  exact .bind_left (power_copies hi) fun _ _ _ => counted_copies

/-- What goes on behind a left operand. -/
def further (tier : Tier) (operand : Parser Expr) (left : Expr) (c : Cursor) :
    Option (Token → Parser Expr) :=
  (tier.op? c.current.kind).map fun op _ => do
    let right ← operand
    return .binary (left.span.merge right.span) op left right

theorem binary_eq (tier : Tier) (operand : Parser Expr) :
    binary tier operand = operand >>= repeatTaking (further tier operand) :=
  rfl

theorem looks_further (tier : Tier) (operand : Parser Expr) (left : Expr) :
    Looks (further tier operand left) := by
  intro c d h
  simp only [further, h.current]

theorem further_together (tier : Tier) {operand operand' : Parser Expr} {left : Expr}
    (h : ∀ n c, Copies n 1 operand operand' c) :
    Together n 0 c (further tier operand left c) (further tier operand' left c) :=
  together_map (by cases tier <;> rfl)
    fun op c₁ => .lax (.bind_left (h n c₁) fun _ _ _ => .pure)

theorem binary_copies (tier : Tier) {operand operand' : Parser Expr}
    (h : ∀ n c, Copies n 1 operand operand' c) :
    Copies n 1 (binary tier operand) (binary tier operand') c :=
  .bind_left (h n c) fun _ _ _ =>
    .repeatTaking (looks_further tier operand') fun _ _ => further_together tier h

theorem listed_copies {p : Punct} {node : Span → List Expr → Expr} {operand operand' : Parser Expr}
    (h : ∀ n c, Copies n 1 operand operand' c) :
    Copies n 1 (listed p node operand) (listed p node operand') c := by
  refine .bind_left (.separated (h n) Copies.looks_looksAt
    (fun _ => Copies.together_looksAt fun _ _ => .pure) fun _ _ _ _ _ => rfl) fun es c₁ _ => ?_
  dsimp only
  split
  · exact .pure
  · exact .spanFrom_bind fun _ => .pure

theorem multiplicative_copies (hi : inner.Copied inner') (n : Nat) (c : Cursor) :
    Copies n 1 (multiplicative inner) (multiplicative inner') c :=
  binary_copies .multiplicative fun _ _ => unary_copies hi

theorem additive_copies (hi : inner.Copied inner') (n : Nat) (c : Cursor) :
    Copies n 1 (additive inner) (additive inner') c :=
  binary_copies .additive (multiplicative_copies hi)

theorem comparison_copies (hi : inner.Copied inner') (n : Nat) (c : Cursor) :
    Copies n 1 (comparison inner) (comparison inner') c :=
  binary_copies .comparison (additive_copies hi)

theorem join_copies (hi : inner.Copied inner') (n : Nat) (c : Cursor) :
    Copies n 1 (join inner) (join inner') c :=
  listed_copies (comparison_copies hi)

theorem pipe_copies (hi : inner.Copied inner') (n : Nat) (c : Cursor) :
    Copies n 1 (pipe inner) (pipe inner') c :=
  listed_copies (join_copies hi)

theorem assignment_copies (hi : inner.Copied inner') (n : Nat) (c : Cursor) :
    Copies n 1 (assignment inner) (assignment inner') c :=
  .bind_left (pipe_copies hi n c) fun _ _ _ =>
    .looksAt_bind (fun hcolon => .discard_take_bind (Copies.ne_atEnd hcolon) fun c₂ _ =>
      .lax (.bind_left (hi.expression n c₂) fun _ _ _ => .pure)) fun _ => .pure

/-! ## Levels -/

/-- What is read with little nesting allowed is read with more. -/
theorem level_copied (h : k ≤ j) : (level k).Copied (level j) := by
  induction k generalizing j with
  | zero => exact ⟨fun _ _ => .fail, fun _ _ => .fail⟩
  | succ k ih =>
    obtain ⟨i, rfl⟩ : ∃ i, j = i + 1 := ⟨j - 1, by omega⟩
    have hi := ih (Nat.le_of_succ_le_succ h)
    exact ⟨assignment_copies hi, fun _ _ => unary_copies hi⟩

end Grammar
end WqSource
