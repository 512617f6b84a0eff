import WqSource.Proofs.Origin.Primary
import WqSource.Proofs.Spans.Operator

/-!
# Where operands come from

Every operand was read by the parser of some tier, from its first token through its last one. So
it stands alone, even a left operand that was only put together while the loop of its tier went
on, or an argument that a larger chain goes on behind.

## Main definitions

* `Tracing`: what the parser of an operand does.

## Main statements

* `argument_stands`, `chain_stands`, `unary_stands`, `binary_tracing`, `listed_tracing`,
  `assignment_stands`: the tiers.
* `level_traced`: every level.
-/

namespace WqSource.Grammar
open WqSource.Parser

variable {n : Nat} {inner : Inner} {c c₁ : Cursor} {base operand e : Expr}

/-! ## Chains -/

theorem index_finds (hi : inner.Traced n) (hc : c.Placed n) (hend : c.atEnd = false)
    (ht : c.take = (.ok c.current, c₁)) :
    (index inner c.current).Ensures c₁ fun s c' => c.Finds [.suffix s] c' := by
  have h₁ := Cursor.Finds.take hend ht
  refine Ensures.bind ((items_finds (fun c hc => hi.finds hc) (h₁.placed hc)).mono fun es c₂ h₂ =>
    Ensures.look_bind (Ensures.pure ?_))
  rw [← List.map_eq_flatMap] at h₂
  obtain ⟨k, hk⟩ := h₂.advances
  have hadvances := (Cursor.Advances.single hend ht).trans hk
  exact .single ⟨rfl, ⟨1 + k, by omega, hadvances⟩, by simp⟩ (h₁.behind h₂).nodes

/-- The parts of what has been found. -/
theorem parts_of_finds (h : c.Finds [.expression e] c₁) : ∀ p ∈ e.parts, p.From c :=
  (Node.from_iff.1 (h.nodes _ (List.mem_singleton_self _))).2

theorem chained_parts {suffixes : List Suffix}
    (h : c.Finds (.expression base :: suffixes.map .suffix) c₁) :
    (chained base suffixes).Ensures c₁ fun e _ => ∀ p ∈ e.parts, p.From c := by
  unfold chained
  split
  · next hempty =>
    cases List.isEmpty_iff.1 hempty
    exact Ensures.pure (parts_of_finds h)
  · exact Ensures.look_bind (Ensures.pure h.nodes)

theorem indexed_parts (hi : inner.Traced n) (hc : c.Placed n)
    (h : c.Finds [.expression base] c₁) :
    (indexed inner base).Ensures c₁ fun e _ => ∀ p ∈ e.parts, p.From c := by
  refine Ensures.bind ((Ensures.repeatTaking (I := fun suffixes c' =>
    c.Finds (.expression base :: suffixes.map .suffix) c') h ?_).mono fun suffixes c' hs =>
      chained_parts hs.1)
  intro suffixes c₂ goOn c₃ hI hn ht
  split at hn
  · next hbracket =>
    cases hn
    have hend : c₂.atEnd = false := ne_atEnd_of_looksAt (Bool.and_eq_true_iff.1 hbracket).1
    exact Ensures.bind ((index_finds hi (hI.placed hc) hend ht).mono fun s c₄ h₄ =>
      Ensures.pure (by simpa using hI.trans h₄))
  · cases hn

theorem raised_parts (hi : inner.Traced n) (hc : c.Placed n)
    (h : c.Finds [.expression base] c₁) :
    (raised inner base).Ensures c₁ fun e _ => ∀ p ∈ e.parts, p.From c := by
  refine Ensures.look_bind ?_
  split
  · next hcaret =>
    refine Ensures.bind (Ensures.discard_take fun c₂ ht => ?_)
    have h₂ := h.before (.take (ne_atEnd_of_looksAt hcaret) ht)
    exact Ensures.bind ((hi.exponent c₂ (h₂.placed hc)).mono fun exponent c₃ h₃ =>
      Ensures.pure (h₂.trans h₃.finds).nodes)
  · exact Ensures.pure (parts_of_finds h)

theorem indexed_stands (hi : inner.Traced n) (hc : c.Placed n) :
    (do indexed inner (← primary inner)).Ensures c c.Stands := by
  have hyields : (do indexed inner (← primary inner)).Ensures c fun e c' =>
      c.Yields n (.expression e) c' :=
    Ensures.bind ((primary_yields hi.spanned hc).mono fun _ _ h => indexed_yields hi.spanned hc h)
  have hcopies : Copies 0 1 (do indexed inner (← primary inner))
      (do indexed widest (← primary widest)) c :=
    .bind_left (primary_copies hi.copied) fun _ _ _ => indexed_copies hi.copied
  have halone : (do indexed inner (← primary inner)).Ensures c c.Alone :=
    hcopies.alone fun _ _ h => assignment_of_indexed h
  have hparts : (do indexed inner (← primary inner)).Ensures c fun e _ =>
      ∀ p ∈ e.parts, p.From c :=
    Ensures.bind ((primary_stands hi hc).mono fun _ _ h => indexed_parts hi hc h.finds)
  refine ((hyields.and halone).and hparts).mono ?_
  rintro e c' ⟨⟨hyields, halone⟩, hparts⟩
  exact .of_yields hyields halone hparts

theorem raised_stands (hi : inner.Traced n) (hc : c.Placed n) :
    (do raised inner (← indexed inner (← primary inner))).Ensures c c.Stands := by
  have hyields : (do raised inner (← indexed inner (← primary inner))).Ensures c fun e c' =>
      c.Yields n (.expression e) c' :=
    Ensures.bind ((primary_yields hi.spanned hc).mono fun _ _ h =>
      raised_indexed_yields hi.spanned hc h)
  have hcopies : Copies 0 1 (do raised inner (← indexed inner (← primary inner)))
      (do raised widest (← indexed widest (← primary widest))) c :=
    .bind_left (primary_copies hi.copied) fun _ _ _ =>
      .bind_left (indexed_copies hi.copied) fun _ _ _ => raised_copies hi.copied
  have halone : (do raised inner (← indexed inner (← primary inner))).Ensures c c.Alone :=
    hcopies.alone fun _ _ h => assignment_of_raised h
  have hparts : (do raised inner (← indexed inner (← primary inner))).Ensures c fun e _ =>
      ∀ p ∈ e.parts, p.From c := by
    intro e c' hrun
    obtain ⟨base, c₁, hprimary, hrest⟩ := exists_of_run_bind hrun
    obtain ⟨x, c₂, hindexed, hraised⟩ := exists_of_run_bind hrest
    have hx : (do indexed inner (← primary inner)).run c = (.ok x, c₂) := by
      rw [run_bind, hprimary]
      exact hindexed
    exact raised_parts hi hc (indexed_stands hi hc x c₂ hx).finds e c' hraised
  refine ((hyields.and halone).and hparts).mono ?_
  rintro e c' ⟨⟨hyields, halone⟩, hparts⟩
  exact .of_yields hyields halone hparts

theorem counted_parts {start : Position} {ops : List UnaryOp}
    (h : c.Finds [.expression operand] c₁) :
    (counted start ops operand).Ensures c₁ fun e _ => ∀ p ∈ e.parts, p.From c := by
  unfold counted
  split
  · exact Ensures.pure (parts_of_finds h)
  · exact Ensures.look_bind (Ensures.pure h.nodes)

/-! ## Arguments -/

theorem argument_yields (hi : inner.Spanned n) (hc : c.Placed n) :
    (argument inner).Ensures c fun e c' => c.Yields n (.expression e) c' :=
  Ensures.choose fun _ _ hs ht => argument?_yields hi hc ht hs

theorem argument_copies (hi : inner.Copied widest) :
    Copies n 1 (argument inner) (argument widest) c :=
  .choose (fun c d h => by simp only [h.current]) (argument?_together hi)

theorem argument_parts (hi : inner.Traced n) (hc : c.Placed n) :
    (argument inner).Ensures c fun e _ => ∀ p ∈ e.parts, p.From c := by
  intro e c' hrun
  by_cases hhash : c.current.kind = .punct .hash
  · have hlook : c.looksAt .hash = true := by simp [Cursor.looksAt, hhash]
    rw [run_argument_hash hhash] at hrun
    revert e c' hrun
    refine Ensures.bind (Ensures.take fun c₁ ht => ?_)
    have h₁ := Cursor.Finds.take (ne_atEnd_of_looksAt hlook) ht
    refine Ensures.bind ((counts_copies (n := 0)).finds.mono fun ops c₂ h₂ => ?_)
    have h₂ := h₁.behind h₂
    intro e c' hrun
    obtain ⟨base, c₃, hprimary, hrest⟩ := exists_of_run_bind hrun
    obtain ⟨x, c₄, hindexed, hrest⟩ := exists_of_run_bind hrest
    obtain ⟨operand, c₅, hraised, hcounted⟩ := exists_of_run_bind hrest
    have hoperand : (do raised inner (← indexed inner (← primary inner))).run c₂ =
        (.ok operand, c₅) := by
      rw [run_bind, hprimary]
      dsimp only
      rw [run_bind, hindexed]
      exact hraised
    have h₅ := h₂.behind (raised_stands hi (h₂.placed hc) operand c₅ hoperand).finds
    exact counted_parts h₅ e c' hcounted
  · rw [run_argument hhash] at hrun
    exact (raised_stands hi hc e c' hrun).parts

theorem argument_stands (hi : inner.Traced n) (hc : c.Placed n) :
    (argument inner).Ensures c c.Stands := by
  have halone := (argument_copies (c := c) hi.copied).alone fun _ _ h => assignment_of_argument h
  refine (((argument_yields hi.spanned hc).and halone).and (argument_parts hi hc)).mono ?_
  rintro e c' ⟨⟨hyields, halone⟩, hparts⟩
  exact .of_yields hyields halone hparts

/-- What a choice ensures, its continuation does. -/
theorem ensures_of_choose {α : Type} {next : Cursor → Option (Token → Parser α)}
    {expected : Expectation} {goOn : Token → Parser α} {Q : α → Cursor → Prop}
    (h : (choose next expected).Ensures c Q) (hn : next c = some goOn)
    (ht : c.take = (.ok c.current, c₁)) : (goOn c.current).Ensures c₁ Q := by
  intro a c' ha
  refine h a c' ?_
  rw [choose, run_bind, run_look]
  dsimp only
  rw [hn]
  simp only [run_bind, run_take, ht, ha]

theorem chain_parts (hi : inner.Traced n) (hc : c.Placed n) :
    (chain inner).Ensures c fun e _ => ∀ p ∈ e.parts, p.From c := by
  refine Ensures.bind ((primary_stands hi hc).mono fun base c₁ h₁ => Ensures.bind
    ((Ensures.repeatTaking (I := fun suffixes c' =>
      c.Finds (.expression base :: suffixes.map .suffix) c') h₁.finds ?_).mono fun suffixes c' hs =>
        chained_parts hs.1))
  intro suffixes c₂ goOn c₃ hI hn ht
  have hc₂ := hI.placed hc
  split at hn
  · next hbracket =>
    cases hn
    have hend : c₂.atEnd = false := ne_atEnd_of_looksAt (Bool.and_eq_true_iff.1 hbracket).1
    exact Ensures.bind ((index_finds hi hc₂ hend ht).mono fun s c₄ h₄ =>
      Ensures.pure (by simpa using hI.trans h₄))
  · obtain ⟨goOn', hargument, rfl⟩ := Option.map_eq_some_iff.1 hn
    refine Ensures.bind ((ensures_of_choose (argument_stands hi hc₂) hargument ht).mono
      fun arg c₄ h₄ => Ensures.pure ?_)
    have hsuffix : c₂.Finds [.suffix (.apply arg)] c₄ :=
      .single ⟨h₄.covers.span, h₄.covers.advances, by simp⟩ h₄.finds.nodes
    simpa using hI.trans hsuffix

theorem chain_stands (hi : inner.Traced n) (hc : c.Placed n) :
    (chain inner).Ensures c c.Stands := by
  have halone := (chain_copies (c := c) hi.copied).alone fun _ _ h => assignment_of_chain h
  refine (((chain_yields hi.spanned hc).and halone).and (chain_parts hi hc)).mono ?_
  rintro e c' ⟨⟨hyields, halone⟩, hparts⟩
  exact .of_yields hyields halone hparts

/-! ## Operators -/

theorem power_stands (hi : inner.Traced n) (hc : c.Placed n) :
    (power inner).Ensures c c.Stands := by
  have halone := (power_copies (c := c) hi.copied).alone fun _ _ h => assignment_of_power h
  have hparts : (power inner).Ensures c fun e _ => ∀ p ∈ e.parts, p.From c :=
    Ensures.bind ((chain_stands hi hc).mono fun _ _ h => raised_parts hi hc h.finds)
  refine (((power_yields hi.spanned hc).and halone).and hparts).mono ?_
  rintro e c' ⟨⟨hyields, halone⟩, hparts⟩
  exact .of_yields hyields halone hparts

theorem unary_stands (hi : inner.Traced n) (hc : c.Placed n) :
    (unary inner).Ensures c c.Stands := by
  have halone := (unary_copies (c := c) hi.copied).alone fun _ _ h => assignment_of_unary h
  have hparts : (unary inner).Ensures c fun e _ => ∀ p ∈ e.parts, p.From c := by
    refine Ensures.look_bind (Ensures.bind ((signs_copies (n := 0)).finds.mono
      fun ops c₁ h₁ => ?_))
    exact Ensures.bind ((power_stands hi (h₁.placed hc)).mono fun operand c₂ h₂ =>
      counted_parts (h₁.behind h₂.finds))
  refine (((unary_yields hi.spanned hc).and halone).and hparts).mono ?_
  rintro e c' ⟨⟨hyields, halone⟩, hparts⟩
  exact .of_yields hyields halone hparts

/-- What the parser of an operand does, and the same parser where nothing is around it. -/
structure Tracing (n : Nat) (p p' : Parser Expr) : Prop where
  copies : ∀ m c, Copies m 1 p p' c
  yields : Operand n p
  stands : ∀ c : Cursor, c.Placed n → p.Ensures c c.Stands

/-- Every left operand was read by the loop up to there. -/
theorem binary_tracing (tier : Tier) {p p' : Parser Expr} (h : Tracing n p p')
    (hfinish : ∀ d e, (binary tier p').Finishes d e → (assignment widest).Finishes d e) :
    Tracing n (binary tier p) (binary tier p') := by
  refine ⟨fun _ _ => binary_copies tier h.copies, binary_yields tier h.yields, fun c hc => ?_⟩
  rw [binary_eq]
  have hfirst : p.Ensures c fun e c₁ => c.Stands e c₁ ∧ c.Yields n (.expression e) c₁ ∧
      Passes (further tier p') (binary tier p') c e c₁ :=
    (h.stands c hc).and ((h.yields c hc).and (Passes.first (h.copies 0 c)))
  refine Ensures.bind (hfirst.mono fun first c₁ h₁ => (Ensures.repeatTaking (I := fun left c' =>
    c.Stands left c' ∧ c.Yields n (.expression left) c' ∧
      Passes (further tier p') (binary tier p') c left c') h₁ ?_).mono fun e c' he => he.1.1)
  rintro left c₂ goOn c₃ ⟨hstands, hyields, hpasses⟩ hn ht
  have htogether : Together 0 0 c₂ (further tier p left c₂) (further tier p' left c₂) :=
    further_together tier h.copies
  obtain ⟨h₃, -⟩ := htogether.finds hn ht
  rw [hn] at htogether
  have hright : (goOn c₂.current).Ensures c₃ fun e c₄ =>
      c.Yields n (.expression e) c₄ ∧ ∀ q ∈ e.parts, q.From c := by
    obtain ⟨op, -, rfl⟩ := Option.map_eq_some_iff.1 hn
    have h₃ := hstands.finds.before h₃
    have hc₃ := h₃.placed hc
    refine Ensures.bind (((h.yields c₃ hc₃).and (h.stands c₃ hc₃)).mono
      fun right c₄ ⟨hright, h₄⟩ => Ensures.pure ⟨hyields.pair ht hright rfl rfl, ?_⟩)
    exact (h₃.trans h₄.finds).nodes
  refine ((hpasses.goOn (looks_further tier p' left) htogether ht).and hright).mono ?_
  rintro e c₄ ⟨hpasses, hyields, hparts⟩
  exact ⟨.of_yields hyields (hpasses.alone hfinish) hparts, hyields, hpasses⟩

theorem listed_tracing {mark : Punct} {node : Span → List Expr → Expr} {p p' : Parser Expr}
    (hnode : ∀ s es, (node s es).span = s ∧ (node s es).parts = es.map .expression)
    (h : Tracing n p p')
    (hfinish : ∀ d e, (listed mark node p').Finishes d e → (assignment widest).Finishes d e) :
    Tracing n (listed mark node p) (listed mark node p') := by
  have hcopies (m : Nat) (c : Cursor) : Copies m 1 (listed mark node p) (listed mark node p') c :=
    listed_copies h.copies
  refine ⟨hcopies, listed_yields hnode h.yields, fun c hc => ?_⟩
  have hparts : (listed mark node p).Ensures c fun e _ => ∀ q ∈ e.parts, q.From c := by
    refine Ensures.bind ((separated_finds (f := fun e => [.expression e])
      (fun c hc => (h.stands c hc).mono fun _ _ he => he.finds)
      (fun _ => Copies.together_looksAt fun _ _ => .pure) hc).mono ?_)
    rintro ⟨first, rest⟩ c₁ h₁
    rw [← List.map_eq_flatMap] at h₁
    dsimp only
    split
    · next hempty =>
      cases List.isEmpty_iff.1 hempty
      exact Ensures.pure (parts_of_finds h₁)
    · refine Ensures.look_bind (Ensures.pure ?_)
      rw [(hnode ..).2]
      exact h₁.nodes
  refine (((listed_yields hnode h.yields c hc).and ((hcopies 0 c).alone hfinish)).and hparts).mono ?_
  rintro e c' ⟨⟨hyields, halone⟩, hparts⟩
  exact .of_yields hyields halone hparts

theorem unary_tracing (hi : inner.Traced n) : Tracing n (unary inner) (unary widest) :=
  ⟨fun _ _ => unary_copies hi.copied, fun _ hc => unary_yields hi.spanned hc,
    fun _ hc => unary_stands hi hc⟩

theorem multiplicative_tracing (hi : inner.Traced n) :
    Tracing n (multiplicative inner) (multiplicative widest) :=
  binary_tracing .multiplicative (unary_tracing hi) fun _ _ h => assignment_of_multiplicative h

theorem additive_tracing (hi : inner.Traced n) : Tracing n (additive inner) (additive widest) :=
  binary_tracing .additive (multiplicative_tracing hi) fun _ _ h => assignment_of_additive h

theorem comparison_tracing (hi : inner.Traced n) :
    Tracing n (comparison inner) (comparison widest) :=
  binary_tracing .comparison (additive_tracing hi) fun _ _ h => assignment_of_comparison h

theorem join_tracing (hi : inner.Traced n) : Tracing n (join inner) (join widest) :=
  listed_tracing (fun _ _ => ⟨rfl, rfl⟩) (comparison_tracing hi) fun _ _ h => assignment_of_join h

theorem pipe_tracing (hi : inner.Traced n) : Tracing n (pipe inner) (pipe widest) :=
  listed_tracing (fun _ _ => ⟨rfl, rfl⟩) (join_tracing hi) fun _ _ h => assignment_of_pipe h

theorem assignment_stands (hi : inner.Traced n) (hc : c.Placed n) :
    (assignment inner).Ensures c c.Stands := by
  have halone := (assignment_copies hi.copied 0 c).alone fun _ _ h => h
  have hparts : (assignment inner).Ensures c fun e _ => ∀ p ∈ e.parts, p.From c := by
    refine Ensures.bind (((pipe_tracing hi).stands c hc).mono fun target c₁ h₁ =>
      Ensures.look_bind ?_)
    split
    · next hcolon =>
      refine Ensures.bind (Ensures.discard_take fun c₂ ht => ?_)
      have h₂ := h₁.finds.before (.take (ne_atEnd_of_looksAt hcolon) ht)
      exact Ensures.bind ((hi.expression c₂ (h₂.placed hc)).mono fun value c₃ h₃ =>
        Ensures.pure (h₂.trans h₃.finds).nodes)
    · exact Ensures.pure h₁.parts
  refine (((assignment_yields hi.spanned c hc).and halone).and hparts).mono ?_
  rintro e c' ⟨⟨hyields, halone⟩, hparts⟩
  exact .of_yields hyields halone hparts

/-! ## Levels -/

/-- What is read at any level is what was read there, and stands alone. -/
theorem level_traced {k : Nat} (h : k < maxNesting) : (level k).Traced n := by
  have hcopied {k : Nat} (h : k < maxNesting) : (level k).Copied widest :=
    level_copied (Nat.le_sub_one_of_lt h)
  induction k with
  | zero =>
    exact ⟨hcopied h, level_spanned n 0, fun _ _ => Ensures.fail, fun _ _ => Ensures.fail⟩
  | succ k ih =>
    have hi := ih (Nat.lt_of_succ_lt h)
    exact ⟨hcopied h, level_spanned n _, fun _ hc => assignment_stands hi hc,
      fun _ hc => unary_stands hi hc⟩

/-- So is what is read where nothing is around it. -/
theorem expression_stands (hc : c.Placed n) : expression.Ensures c c.Stands :=
  assignment_stands (level_traced (k := maxNesting - 1) (by decide)) hc

end WqSource.Grammar
