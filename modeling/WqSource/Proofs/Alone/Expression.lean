import WqSource.Proofs.Alone.Operator

/-!
# Expressions up to the end

What a parser of one tier reads up to the end of the tokens is an expression: the tiers around it
find no operator there, and those inside of it none in front. So a node that was read as part of
another is an expression by itself if its tokens are cut off behind it.

## Main definitions

* `Parser.Finishes`: a parser comes to the end.
* `Cursor.Alone`: so many tokens make an expression by themselves.
* `Parser.Passes`: a place between two rounds of a loop.

## Main statements

* `Parser.Copies.alone`, `Parser.Passes.alone`: what is copied up to the end.
* `assignment_of_unary`, `unary_of_power`, `power_of_chain`, `chain_of_indexed`,
  `unary_of_argument`: the tiers.
-/

namespace WqSource
open Grammar WqSource.Parser

namespace Parser
variable {α β : Type} {a b : α} {c d d' d₁ : Cursor}

/-- The parser has this result, and comes to the end of the tokens. -/
def Finishes (p : Parser α) (d : Cursor) (a : α) : Prop :=
  ∃ d', p.run d = (.ok a, d') ∧ d'.atEnd = true

theorem Finishes.bind {p : Parser α} {f : α → Parser β} {b : β} (h : p.Finishes d a)
    (hf : ∀ d', d'.atEnd = true → (f a).Finishes d' b) : (p >>= f).Finishes d b := by
  obtain ⟨d', ha, hend⟩ := h
  obtain ⟨d₁, hb, hend₁⟩ := hf d' hend
  exact ⟨d₁, by rw [run_bind, ha]; exact hb, hend₁⟩

theorem Finishes.pure (hend : d.atEnd = true) : (Pure.pure a : Parser α).Finishes d a :=
  ⟨d, rfl, hend⟩

/-- A loop does not go on at the end. -/
theorem Finishes.repeatTaking {next : α → Cursor → Option (Token → Parser α)}
    (hend : d.atEnd = true) : (repeatTaking next a).Finishes d a := by
  refine ⟨d, ?_, hend⟩
  change rounds next a d = _
  rw [rounds_eq, if_pos hend]

theorem looksAt_of_atEnd {p : Punct} (hend : d.atEnd = true) : d.looksAt p = false := by
  have hk : d.current.kind = .endOfInput := by simpa [Cursor.atEnd] using hend
  simp [Cursor.looksAt, hk]

/-- One round of a loop. -/
theorem run_repeatTaking_goOn {next : α → Cursor → Option (Token → Parser α)} {k : Token → Parser α}
    (hend : d.atEnd = false) (hn : next a d = some k) (ht : d.take = (.ok d.current, d₁))
    (hk : (k d.current).run d₁ = (.ok b, d')) :
    (repeatTaking next a).run d = (repeatTaking next b).run d' := by
  change rounds next a d = _
  rw [rounds_eq, if_neg (by simp [hend]), hn]
  simp only [run_bind, run_take, ht, hk]

/-- A loop that goes on where another one does, and does not go on where that one stops. -/
theorem run_repeatTaking_of_agree {next next' : α → Cursor → Option (Token → Parser α)}
    (h : (repeatTaking next a).run d = (.ok b, d'))
    (hgoOn : ∀ a d k, next a d = some k → next' a d = some k)
    (hstop : d'.atEnd = true ∨ next' b d' = none) :
    (repeatTaking next' a).run d = (.ok b, d') := by
  induction hsize : d.size using Nat.strongRecOn generalizing a d with
  | ind size ih =>
    subst hsize
    have hsame (hab : a = b) (hdd : d = d') : (repeatTaking next' a).run d = (.ok b, d') := by
      subst hab hdd
      rcases hstop with hend | hnone
      · change rounds next' a d = _
        rw [rounds_eq, if_pos hend]
      · exact run_repeatTaking_stop hnone
    change rounds next a d = _ at h
    rw [rounds_eq] at h
    cases hend : d.atEnd with
    | true =>
      rw [if_pos hend] at h
      cases h
      exact hsame rfl rfl
    | false =>
      rw [if_neg (by simp [hend])] at h
      cases hn : next a d with
      | none =>
        rw [hn] at h
        cases h
        exact hsame rfl rfl
      | some k =>
        rw [hn] at h
        simp only [run_bind, run_take] at h
        cases ht : d.take with
        | mk r d₁ =>
          cases r with
          | error e => simp [ht] at h
          | ok t =>
            obtain ⟨rfl, -⟩ := Cursor.take_ok ht
            cases hk : (k d.current).run d₁ with
            | mk r d₂ =>
              cases r with
              | error e => simp [ht, hk] at h
              | ok a' =>
                simp only [ht, hk] at h
                have hlt := Cursor.size_lt_of_take hend ht
                rw [run_repeatTaking_goOn hend (hgoOn a d k hn) ht hk]
                exact ih _ (Nat.lt_of_le_of_lt (size_le_of_run hk) hlt) h rfl

end Parser

namespace Grammar
variable {e : Expr} {d d' : Cursor} {inner : Inner}

/-! ## The loose tiers -/

theorem binary_finishes (tier : Tier) {operand : Parser Expr} (h : operand.Finishes d e) :
    (binary tier operand).Finishes d e :=
  h.bind fun _ hend => .repeatTaking hend

theorem listed_finishes {p : Punct} {node : Span → List Expr → Expr} {operand : Parser Expr}
    (h : operand.Finishes d e) : (listed p node operand).Finishes d e := by
  have hseparated : (separated operand (atPunct p fun _ => pure ()) fun _ => false).Finishes d
      (e, []) :=
    h.bind fun _ hend => (Finishes.repeatTaking hend).bind fun _ hend => .pure hend
  exact hseparated.bind fun _ hend => .pure hend

theorem assignment_of_pipe (h : (pipe inner).Finishes d e) : (assignment inner).Finishes d e := by
  refine h.bind fun d' hend => ?_
  have hlook : (look (·.looksAt .colon)).Finishes d' false :=
    ⟨d', by rw [run_look, looksAt_of_atEnd hend], hend⟩
  exact hlook.bind fun _ hend => .pure hend

theorem assignment_of_join (h : (join inner).Finishes d e) : (assignment inner).Finishes d e :=
  assignment_of_pipe (listed_finishes h)

theorem assignment_of_comparison (h : (comparison inner).Finishes d e) :
    (assignment inner).Finishes d e :=
  assignment_of_join (listed_finishes h)

theorem assignment_of_additive (h : (additive inner).Finishes d e) :
    (assignment inner).Finishes d e :=
  assignment_of_comparison (binary_finishes .comparison h)

theorem assignment_of_multiplicative (h : (multiplicative inner).Finishes d e) :
    (assignment inner).Finishes d e :=
  assignment_of_additive (binary_finishes .additive h)

theorem assignment_of_unary (h : (unary inner).Finishes d e) : (assignment inner).Finishes d e :=
  assignment_of_multiplicative (binary_finishes .multiplicative h)

/-! ## The tight tiers -/

theorem raised_finishes (hend : d.atEnd = true) : (raised inner e).Finishes d e := by
  have hlook : (look (·.looksAt .caret)).Finishes d false :=
    ⟨d, by rw [run_look, looksAt_of_atEnd hend], hend⟩
  exact hlook.bind fun _ hend => .pure hend

theorem power_of_chain (h : (chain inner).Finishes d e) : (power inner).Finishes d e :=
  h.bind fun _ hend => raised_finishes hend

/-- No primary begins with a sign. -/
theorem unaryOp?_eq_none {r : Expr × Cursor} (h : (primary inner).run d = (.ok r.1, r.2)) :
    unaryOp? d.current.kind = none := by
  have hprimary : (primary inner).Ensures d fun _ _ => unaryOp? d.current.kind = none := by
    refine Ensures.choose fun goOn c₁ hn _ => Ensures.mono (Q := fun _ _ => True)
      (fun _ _ _ => trivial) fun _ _ _ => ?_
    generalize d.current.kind = k at hn
    cases k with
    | punct p => cases p <;> first | rfl | cases hn
    | _ => rfl
  exact hprimary r.1 r.2 h

/-- What is in front of a result. -/
theorem exists_of_run_bind {α β : Type} {p : Parser α} {f : α → Parser β} {b : β}
    (h : (p >>= f).run d = (.ok b, d')) :
    ∃ a d₁, p.run d = (.ok a, d₁) ∧ (f a).run d₁ = (.ok b, d') := by
  rw [run_bind] at h
  split at h
  · next a d₁ ha => exact ⟨a, d₁, ha, h⟩
  · cases h

theorem unary_of_power (h : (power inner).Finishes d e) : (unary inner).Finishes d e := by
  obtain ⟨d', hpower, hend⟩ := h
  obtain ⟨base, d₁, hchain, -⟩ := exists_of_run_bind hpower
  obtain ⟨first, d₂, hprimary, -⟩ := exists_of_run_bind hchain
  have hnone := unaryOp?_eq_none (r := (first, d₂)) hprimary
  refine ⟨d', ?_, hend⟩
  rw [unary, run_bind, run_look]
  dsimp only
  rw [run_bind, run_repeatTaking_stop (by rw [hnone]; rfl)]
  dsimp only
  rw [run_bind, hpower]
  rfl

/-- A primary with its index brackets is a chain, at the end or in front of an exponent. -/
theorem chain_of_indexed (h : (do indexed inner (← primary inner)).run d = (.ok e, d'))
    (hstop : d'.atEnd = true ∨ d'.looksAt .caret = true) : (chain inner).run d = (.ok e, d') := by
  obtain ⟨base, d₁, hprimary, hindexed⟩ := exists_of_run_bind h
  obtain ⟨suffixes, d₂, hloop, hchained⟩ := exists_of_run_bind hindexed
  have hkeeps : d' = d₂ := by
    unfold chained at hchained
    split at hchained <;> cases hchained <;> rfl
  subst hkeeps
  rw [chain, run_bind, hprimary]
  dsimp only
  rw [run_bind, run_repeatTaking_of_agree hloop ?_ ?_]
  · exact hchained
  · intro suffixes d k hk
    split at hk
    · next hbracket => rw [if_pos hbracket]; exact hk
    · cases hk
  · refine hstop.imp_right fun hcaret => ?_
    have hk : d'.current.kind = .punct .caret := by simpa [Cursor.looksAt] using hcaret
    have hbracket : d'.atAdjacentBracket = false := by
      simp [Cursor.atAdjacentBracket, Cursor.looksAt, hk]
    rw [hbracket, hk]
    rfl

/-- So is a primary with its index brackets and its exponent a power, at the end. -/
theorem power_of_raised
    (h : (do raised inner (← indexed inner (← primary inner))).run d = (.ok e, d'))
    (hend : d'.atEnd = true) : (power inner).run d = (.ok e, d') := by
  obtain ⟨base, d₁, hprimary, hrest⟩ := exists_of_run_bind h
  obtain ⟨x, d₂, hindexed, hraised⟩ := exists_of_run_bind hrest
  have hboth : (do indexed inner (← primary inner)).run d = (.ok x, d₂) := by
    rw [run_bind, hprimary]
    exact hindexed
  have hchain : (chain inner).run d = (.ok x, d₂) := by
    refine chain_of_indexed hboth ?_
    cases hcaret : d₂.looksAt .caret with
    | true => exact .inr rfl
    | false =>
      rw [raised, run_bind, run_look, hcaret] at hraised
      cases hraised
      exact .inl hend
  rw [power, run_bind, hchain]
  exact hraised

/-! ## Arguments -/

/-- An argument next to its function. -/
def argument (inner : Inner) : Parser Expr :=
  choose (fun c => argument? inner c.current.kind) .expression

/-- Without a sign in front, an argument is a primary with what is behind it. -/
theorem run_argument (hne : d.current.kind ≠ .punct .hash) :
    (argument inner).run d = (do raised inner (← indexed inner (← primary inner))).run d := by
  rw [argument, choose, run_bind, run_look, run_bind, primary, choose, run_bind, run_look]
  simp only [argument?_of_ne_hash inner hne]
  cases primary? inner d.current.kind with
  | none => rfl
  | some goOn =>
    simp only [Option.map_some, run_bind, run_take]
    cases d.take with
    | mk r d₁ =>
      cases r with
      | error => rfl
      | ok t => rfl

/-- With signs in front, an argument is what is behind the first one. -/
theorem run_argument_hash (hhash : d.current.kind = .punct .hash) :
    (argument inner).run d = (do
      let t ← take
      let ops ← repeatTaking (fun ops => atPunct .hash fun _ => return ops ++ [.count]) [.count]
      let operand ← raised inner (← indexed inner (← primary inner))
      counted t.span.start ops operand : Parser Expr).run d := by
  rw [argument, choose, run_bind, run_look]
  simp only [hhash]
  rfl

/-- An argument is an operand with its signs, at the end. -/
theorem unary_of_argument (h : (argument inner).Finishes d e) : (unary inner).Finishes d e := by
  obtain ⟨d', hrun, hend⟩ := h
  by_cases hhash : d.current.kind = .punct .hash
  · rw [run_argument_hash hhash] at hrun
    obtain ⟨t, d₁, ht, hrest⟩ := exists_of_run_bind hrun
    obtain ⟨rfl, -⟩ := Cursor.take_ok ht
    obtain ⟨ops, d₂, hops, hrest⟩ := exists_of_run_bind hrest
    obtain ⟨base, d₃, hprimary, hrest⟩ := exists_of_run_bind hrest
    obtain ⟨x, d₄, hindexed, hrest⟩ := exists_of_run_bind hrest
    obtain ⟨operand, d₅, hraised, hcounted⟩ := exists_of_run_bind hrest
    have hkeeps : d' = d₅ := by
      unfold counted at hcounted
      split at hcounted <;> cases hcounted <;> rfl
    subst hkeeps
    have hpower : (power inner).run d₂ = (.ok operand, d') := by
      refine power_of_raised ?_ hend
      rw [run_bind, hprimary]
      dsimp only
      rw [run_bind, hindexed]
      exact hraised
    have hnone := unaryOp?_eq_none (r := (base, d₃)) hprimary
    refine ⟨d', ?_, hend⟩
    rw [unary, run_bind, run_look]
    dsimp only
    have hfirst : (pure [.count] : Parser (List UnaryOp)).run d₁ = (.ok [.count], d₁) := rfl
    rw [run_bind, run_repeatTaking_goOn (by simp [Cursor.atEnd, hhash]) (by rw [hhash]; rfl) ht
      hfirst, run_repeatTaking_of_agree hops ?_ (.inr (by rw [hnone]; rfl))]
    · dsimp only
      rw [run_bind, hpower]
      exact hcounted
    · intro ops d k hk
      unfold atPunct at hk
      split at hk
      · next hlook =>
        have hkind : d.current.kind = .punct .hash := by simpa [Cursor.looksAt] using hlook
        rw [hkind]
        exact hk
      · cases hk
  · rw [run_argument hhash] at hrun
    exact unary_of_power ⟨d', power_of_raised hrun hend, hend⟩

/-! ## From every tier -/

theorem assignment_of_power (h : (power inner).Finishes d e) : (assignment inner).Finishes d e :=
  assignment_of_unary (unary_of_power h)

theorem assignment_of_chain (h : (chain inner).Finishes d e) : (assignment inner).Finishes d e :=
  assignment_of_power (power_of_chain h)

theorem assignment_of_primary (h : (primary inner).Finishes d e) :
    (assignment inner).Finishes d e := by
  refine assignment_of_chain (h.bind fun _ hend => ?_)
  exact (Finishes.repeatTaking hend).bind fun _ hend => .pure hend

theorem assignment_of_indexed (h : (do indexed inner (← primary inner)).Finishes d e) :
    (assignment inner).Finishes d e := by
  obtain ⟨d', hrun, hend⟩ := h
  exact assignment_of_chain ⟨d', chain_of_indexed hrun (.inl hend), hend⟩

theorem assignment_of_raised
    (h : (do raised inner (← indexed inner (← primary inner))).Finishes d e) :
    (assignment inner).Finishes d e := by
  obtain ⟨d', hrun, hend⟩ := h
  exact assignment_of_power ⟨d', power_of_raised hrun hend, hend⟩

theorem assignment_of_argument (h : (argument inner).Finishes d e) :
    (assignment inner).Finishes d e :=
  assignment_of_unary (unary_of_argument h)

/-! ## Nodes by themselves -/

/-- What is inside an expression that is inside no other. -/
def widest : Inner := level (maxNesting - 1)

end Grammar

/-- So many tokens between the two cursors, one at least, are this expression even if there are
no others behind them. -/
def Cursor.Alone (c : Cursor) (e : Expr) (c' : Cursor) : Prop :=
  ∃ k, 0 < k ∧ c.Advances k c' ∧ ∀ d, c.Cut k d → expression.Finishes d e

namespace Parser
variable {α : Type} {a b : α} {e : Expr} {c c₁ c₂ c₃ : Cursor}

/-- What is copied by a parser that finds expressions up to the end. -/
theorem Copies.alone {p p' : Parser Expr} (h : Copies 0 1 p p' c)
    (hp : ∀ d e, p'.Finishes d e → (assignment widest).Finishes d e) :
    p.Ensures c fun e c' => c.Alone e c' := by
  refine Ensures.mono h fun e c' ⟨k, hk, hadvances, hcut⟩ => ⟨k, hk, hadvances, fun d hd => ?_⟩
  obtain ⟨d', hrun, hend⟩ := hcut 0 d (Nat.le_refl 0) hd
  cases hend with
  | ended _ hend => exact hp d e ⟨d', hrun, hend⟩

/-- In the midst of a loop, between two of its rounds: a cut cursor leads to the same place. -/
def Passes (next : α → Cursor → Option (Token → Parser α)) (p : Parser α) (c : Cursor) (a : α)
    (c₁ : Cursor) : Prop :=
  ∃ i, 0 < i ∧ c.Advances i c₁ ∧ ∀ j d, c.Cut (i + j) d →
    ∃ d₁, c₁.Cut j d₁ ∧ p.run d = (repeatTaking next a).run d₁

namespace Passes
variable {next : α → Cursor → Option (Token → Parser α)} {p : Parser α}

theorem first {q q' : Parser α} (h : Copies 0 1 q q' c) :
    q.Ensures c fun a c₁ => Passes next (q' >>= repeatTaking next) c a c₁ := by
  refine Ensures.mono h fun a c₁ ⟨i, hi, hadvances, hcut⟩ => ⟨i, hi, hadvances, fun j d hd => ?_⟩
  obtain ⟨d₁, hrun, hd₁⟩ := hcut j d (Nat.zero_le j) hd
  exact ⟨d₁, hd₁, by rw [run_bind, hrun]⟩

theorem goOn {k : Token → Parser α} (h : Passes next p c a c₁) (hlooks : Looks (next a))
    (hnext : Together 0 0 c₁ (some k) (next a c₁)) (ht : c₁.take = (.ok c₁.current, c₂)) :
    (k c₁.current).Ensures c₂ fun b c₃ => Passes next p c b c₃ := by
  intro b c₃ hb
  obtain ⟨i, hi, hadvances, hcut⟩ := h
  generalize hnext' : next a c₁ = o at hnext
  cases hnext with
  | @goOn _ k' hend hk =>
    obtain ⟨m, -, hadvances', hcut'⟩ := hk c₂ ht b c₃ hb
    refine ⟨i + 1 + m, by omega, (hadvances.take hend ht).trans hadvances', fun j d hd => ?_⟩
    rw [show i + 1 + m + j = i + (m + j + 1) by omega] at hd
    obtain ⟨d₁, hd₁, hrun⟩ := hcut _ d hd
    obtain ⟨d₂, ht', hd₂⟩ := hd₁.take ht
    obtain ⟨d₃, hb', hd₃⟩ := hcut' j d₂ (Nat.zero_le j) hd₂
    have hsees := hd₁.sees (Nat.succ_pos _)
    have hend' : d₁.atEnd = false := by rw [Cursor.atEnd, hsees.current]; exact hend
    have hnext'' : next a d₁ = some k' := by rw [hlooks c₁ d₁ hsees, hnext']
    rw [← hsees.current] at ht' hb'
    exact ⟨d₃, hd₃, by rw [hrun, run_repeatTaking_goOn hend' hnext'' ht' hb']⟩

/-- What has been found between two rounds is found if the tokens end there. -/
theorem alone {p : Parser Expr} {next : Expr → Cursor → Option (Token → Parser Expr)}
    (h : Passes next p c e c₁)
    (hp : ∀ d e, p.Finishes d e → (assignment widest).Finishes d e) : c.Alone e c₁ := by
  obtain ⟨i, hi, hadvances, hcut⟩ := h
  refine ⟨i, hi, hadvances, fun d hd => hp d e ?_⟩
  obtain ⟨d₁, hd₁, hrun⟩ := hcut 0 d hd
  cases hd₁ with
  | ended _ hend =>
    obtain ⟨d', hloop, hend'⟩ : (repeatTaking next e).Finishes d₁ e := .repeatTaking hend
    exact ⟨d', by rw [hrun, hloop], hend'⟩

end Passes
end Parser
end WqSource
