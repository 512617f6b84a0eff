import WqSource.Proofs.Alike.Operator

/-!
# Two runs of programs

Two programs are read statement by statement, and errors in them are found and recovered from
alike. At the seam the first text ends, and the second goes on behind its line feed as a program
of its own.

## Main definitions

* `Outcome.Alike`: the same statements apart from places, and the same kind of failure.
* `TopLevelAlike`: how the statements of two programs compare.

## Main statements

* `topLevel_alike`: two runs over the statements of a program.
-/

namespace WqSource
open Grammar WqSource.Parser

variable {α β : Type} {m : Comparison} {c c' c₁ : Cursor}

/-! ## Where no expression begins -/

theorem Parser.run_bind_error {p : Parser α} {f : α → Parser β} {e : ParseError}
    (h : p.run c = (.error e, c₁)) : (p >>= f).run c = (.error e, c₁) := by
  rw [run_bind, h]

namespace Grammar
variable {inner : Inner}

/-- A parser fails at the current token for want of an expression. -/
def Wants (p : Parser α) (c : Cursor) : Prop := p.run c = (.error (c.unexpected .expression), c)

theorem primary_wants (hk : c.current.kind.startsPrimary = false) : Wants (primary inner) c := by
  have hnone : primary? inner c.current.kind = none := by
    rw [← Option.not_isSome_iff_eq_none, isSome_primary?, hk]
    simp
  unfold Wants primary choose
  rw [run_bind, run_look]
  dsimp only
  rw [hnone, run_fail]

theorem unary_wants (hk : c.current.kind.startsExpression = false) : Wants (unary inner) c := by
  obtain ⟨⟨hprimary, hhash⟩, hminus⟩ : (c.current.kind.startsPrimary = false ∧
      c.current.kind ≠ .punct .hash) ∧ c.current.kind ≠ .punct .minus := by
    simpa [Token.Kind.startsExpression, Token.Kind.startsArgument] using hk
  have hpower : Wants (power inner) c := run_bind_error (run_bind_error (primary_wants hprimary))
  have hnone : unaryOp? c.current.kind = none := by
    unfold unaryOp?
    split
    · next h => exact absurd h hminus
    · next h => exact absurd h hhash
    · rfl
  unfold Wants unary
  rw [run_bind, run_look]
  dsimp only
  rw [run_bind]
  rw [run_repeatTaking_stop (by rw [hnone]; rfl)]
  exact run_bind_error hpower

theorem assignment_wants (hk : c.current.kind.startsExpression = false) :
    Wants (assignment inner) c := by
  have hmultiplicative : Wants (multiplicative inner) c := run_bind_error (unary_wants hk)
  have hcomparison : Wants (comparison inner) c := run_bind_error (run_bind_error hmultiplicative)
  have hjoin : Wants (join inner) c := run_bind_error (run_bind_error hcomparison)
  exact run_bind_error (run_bind_error (run_bind_error hjoin))

/-- No statement begins with an opening bracket. -/
theorem statement_wants {n : Nat} (hopen : c.looksAt .openBracket = true) :
    Wants (statement (level (n + 1))) c := by
  have hk := Cursor.looksAt_iff.1 hopen
  unfold Wants statement
  rw [run_bind, run_look]
  dsimp only
  rw [hk]
  exact run_bind_error (assignment_wants (by rw [hk]; rfl))

end Grammar

/-! ## Recovery -/

/-- Both have read the same apart from places, and both have failed with the same kind of error
or neither has. -/
structure Outcome.Alike (m : Comparison) (o o' : Outcome (List Statement)) : Prop where
  result : o.result.map Statement.erase = o'.result.map Statement.erase
  failure : Option.Rel (ParseError.Alike m) o.failure o'.failure

namespace Grammar

/-- What two runs of a part of a program give. -/
def PartsAlike (m : Comparison) (r r' : Except ParseError (Outcome (List Statement)) × Cursor) :
    Prop :=
  ∃ o o' c c', r = (.ok o, c) ∧ r' = (.ok o', c') ∧ o.Alike m o' ∧ c.Matches m c'

/-- Skipping one token after another. -/
theorem run_skipWhile (test : Cursor → Bool) (c : Cursor) :
    (skipWhile test).run c =
      if c.atEnd || !test c then (.ok (), c) else
        match c.take with
        | (.error e, c₁) => (.error e, c₁)
        | (.ok _, c₁) => (skipWhile test).run c₁ := by
  change rounds _ () c = _
  rw [rounds_eq]
  cases c.atEnd with
  | true => rfl
  | false =>
    cases htest : test c with
    | false => simp
    | true =>
      simp only [if_true, Bool.false_eq_true, if_false, Bool.not_true, Bool.or_false, run_bind,
        run_take]
      split <;> next ht => simp only [ht] <;> rfl

/-- Both skip to the same place, or both meet the same fault on the way. -/
theorem synchronize_alike (h : c.Matches m c') :
    (∃ c₁ c₁', synchronize.run c = (.ok (), c₁) ∧ synchronize.run c' = (.ok (), c₁') ∧
      c₁.Matches m c₁') ∨
      ∃ e e' c₁ c₁', synchronize.run c = (.error (.lexical e), c₁) ∧
        synchronize.run c' = (.error (.lexical e'), c₁') ∧ e.fault = e'.fault ∧
          c₁.Matches m c₁' := by
  induction hsize : c.size using Nat.strongRecOn generalizing c c' with
  | ind n ih =>
    subst hsize
    unfold synchronize
    rw [run_skipWhile, run_skipWhile _ c']
    rcases h.place with hlevel | hseam
    · have hstop : (c.atEnd || !!(c.atSeparator && c.depth == 0)) =
          (c'.atEnd || !!(c'.atSeparator && c'.depth == 0)) := by
        rw [Cursor.atEnd, Cursor.atEnd, Cursor.atSeparator, Cursor.atSeparator, hlevel.kind,
          h.depth_eq]
      by_cases hc : (c.atEnd || !!(c.atSeparator && c.depth == 0)) = true
      · rw [if_pos hc, if_pos (hstop ▸ hc)]
        exact .inl ⟨c, c', rfl, rfl, h⟩
      · rw [if_neg hc, if_neg (hstop ▸ hc)]
        have hend : c.atEnd = false := by
          cases hend : c.atEnd with
          | false => rfl
          | true => simp [hend] at hc
        rcases h.take hlevel with ⟨c₁, c₁', ht, ht', h₁⟩ | ⟨e, e', c₁, c₁', ht, ht', he, h₁⟩
        · rw [ht, ht']
          exact ih _ (Cursor.size_lt_of_take hend ht) h₁.toMatches rfl
        · rw [ht, ht']
          exact .inr ⟨e, e', c₁, c₁', rfl, rfl, he, h₁⟩
    · have hc' : c'.depth = 0 := h.depth_eq.trans hseam.depth
      rw [if_pos (by
          rcases Token.Kind.endsLine_iff.1 hseam.endsLine with hk | hk <;>
            simp [Cursor.atEnd, Cursor.atSeparator, hk, hseam.depth, Token.Kind.isSeparator]),
        if_pos (by simp [Cursor.atSeparator, hseam.newline, hc', Token.Kind.isSeparator])]
      exact .inl ⟨c, c', rfl, rfl, h⟩

theorem afterError_alike {recover : Bool} {read read' : List Statement} {e e' : ParseError}
    (hread : read.map Statement.erase = read'.map Statement.erase) (he : e.Alike m e')
    (h : c.Matches m c') :
    PartsAlike m ((afterError recover read e).run c) ((afterError recover read' e').run c') := by
  have hstop : PartsAlike m (.ok ⟨read, some e⟩, c) (.ok ⟨read', some e'⟩, c') :=
    ⟨_, _, _, _, rfl, rfl, ⟨hread, .some he⟩, h⟩
  cases he with
  | lexical hfault =>
    rw [run_afterError_lexical, run_afterError_lexical]
    exact hstop
  | grammar hexpected hfound =>
    cases recover with
    | false => exact hstop
    | true =>
      simp only [afterError, run_bind, run_note, run_attempt]
      rcases synchronize_alike (h.note (.failure (.grammar hexpected hfound))) with
        ⟨c₁, c₁', hs, hs', h₁⟩ | ⟨e, e', c₁, c₁', hs, hs', he, h₁⟩
      · rw [hs, hs']
        exact ⟨_, _, _, _, rfl, rfl, ⟨hread, .none⟩, h₁⟩
      · rw [hs, hs']
        exact ⟨_, _, _, _, rfl, rfl, ⟨hread, .some (.lexical he)⟩, h₁⟩

/-! ## Statements -/

theorem atStatementEnd_alike (h : c.Matches m c') : atStatementEnd c = atStatementEnd c' :=
  h.congr (fun k => k.isSeparator || k == .endOfInput) rfl

theorem optionalStatement_alike (recover : Bool) (h : c.Matches m c') :
    PartsAlike m ((optionalStatement recover).run c) ((optionalStatement recover).run c') := by
  rw [run_optionalStatement, run_optionalStatement, ← atStatementEnd_alike h]
  split
  · exact ⟨_, _, _, _, rfl, rfl, ⟨rfl, .none⟩, h⟩
  · by_cases hopen : c.looksAt .openBracket = true
    · have hwants : Wants (statement (level maxNesting)) c := statement_wants hopen
      have hwants' : Wants (statement (level maxNesting)) c' :=
        statement_wants (h.looksAt .openBracket ▸ hopen)
      rw [hwants, hwants']
      exact afterError_alike rfl (h.unexpected .expression) h
    · have hsame := statement_same (level_alike m maxNesting)
        (h.alike (Bool.not_eq_true _ ▸ hopen))
      generalize (statement (level maxNesting)).run c = r at hsame ⊢
      generalize (statement (level maxNesting)).run c' = r' at hsame ⊢
      cases hsame with
      | error he h₁ => exact afterError_alike rfl he h₁
      | ok hs h₁ =>
        dsimp only
        rw [← atStatementEnd_alike h₁.toMatches]
        split
        · exact ⟨_, _, _, _, rfl, rfl, ⟨by simp [hs], .none⟩, h₁.toMatches⟩
        · exact afterError_alike (by simp [hs]) (h₁.unexpected .separator) h₁.toMatches

/-- How the statements of two programs compare: they are the same throughout, which they can be
across a seam only if an error stops both in front of it; or they are the same up to the seam,
and the second program goes on from there. -/
inductive TopLevelAlike (m : Comparison) (recover : Bool) :
    Outcome (List Statement) × Cursor → Outcome (List Statement) × Cursor → Prop where
  | same {o o' : Outcome (List Statement)} {c c' : Cursor} : o.Alike m o' → c.Matches m c' →
    (o.failure = none → m.seam = none) → TopLevelAlike m recover (o, c) (o', c')
  | seam {read read' : List Statement} {c c₀ c₀' : Cursor} :
    read.map Statement.erase = read'.map Statement.erase → c₀.Matches m c₀' → c₀.AtSeam m c₀' →
    c.problems = c₀.problems → TopLevelAlike m recover (⟨read, none⟩, c)
      (⟨read' ++ (topLevel recover c₀').1.result, (topLevel recover c₀').1.failure⟩,
        (topLevel recover c₀').2)

variable {recover : Bool}

/-- Behind a part that is read without failure a program goes on as from the place behind it. -/
theorem topLevel_of_ok {items : List Statement}
    (h : (optionalStatement recover).run c = (.ok ⟨items, none⟩, c₁)) :
    topLevel recover c = (⟨items ++ (topLevel recover c₁).1.result,
      (topLevel recover c₁).1.failure⟩, (topLevel recover c₁).2) := by
  have hend := optionalStatement_atStatementEnd _ _ h rfl
  unfold topLevel
  rw [collect_ok h, collect_ok (run_optionalStatement_atStatementEnd hend)]
  by_cases hlast : c₁.atEnd = true
  · simp [hlast]
  · have hsep : c₁.atSeparator = true := by simp_all [atStatementEnd]
    rw [if_neg hlast, if_neg hlast, if_pos hsep, if_pos hsep]
    rcases c₁.take with ⟨e | t, c₂⟩ <;> simp

/-- At the seam the first program ends. -/
theorem topLevel_atSeam (recover : Bool) (h : c.AtSeam m c') :
    ∃ c₁, topLevel recover c = (⟨[], none⟩, c₁) ∧ c₁.problems = c.problems := by
  rcases Token.Kind.endsLine_iff.1 h.endsLine with hk | hk
  · obtain ⟨place, hahead⟩ := h.ended
    have htake : c.take = (.ok c.current, c.shift (.ending place) (.ended place)) := by
      simp [Cursor.take, hahead, TokenStream.next]
    rw [topLevel_atSeparator (by rw [Cursor.atSeparator, hk]; rfl), htake]
    exact ⟨_, topLevel_atEnd rfl, rfl⟩
  · exact ⟨c, topLevel_atEnd (by simp [Cursor.atEnd, hk]), rfl⟩

theorem TopLevelAlike.append {items items' : List Statement}
    {r r' : Outcome (List Statement) × Cursor}
    (hitems : items.map Statement.erase = items'.map Statement.erase)
    (h : TopLevelAlike m recover r r') :
    TopLevelAlike m recover (⟨items ++ r.1.result, r.1.failure⟩, r.2)
      (⟨items' ++ r'.1.result, r'.1.failure⟩, r'.2) := by
  cases h with
  | same ho hc hnone =>
    exact .same ⟨by rw [List.map_append, List.map_append, hitems, ho.result], ho.failure⟩ hc hnone
  | seam hread h hseam hproblems =>
    rw [← List.append_assoc]
    exact .seam (by rw [List.map_append, List.map_append, hitems, hread]) h hseam hproblems

/-- From places where statements may end, two programs go on alike if they do behind the
separators there. -/
theorem topLevel_alike_of_ended (h : c.Matches m c') (hend : atStatementEnd c = true)
    (hrest : ∀ c₁ c₁', c.atEnd = false → c.take = (.ok c.current, c₁) → c₁.Matches m c₁' →
      TopLevelAlike m recover (topLevel recover c₁) (topLevel recover c₁')) :
    TopLevelAlike m recover (topLevel recover c) (topLevel recover c') := by
  rcases h.place with hlevel | hseam
  · by_cases hlast : c.atEnd = true
    · have hlast' : c'.atEnd = true := by rwa [Cursor.atEnd, ← hlevel.kind]
      rw [topLevel_atEnd hlast, topLevel_atEnd hlast']
      exact .same ⟨rfl, .none⟩ h fun _ => hlevel.atEnd (eq_of_beq hlast)
    · have hsep : c.atSeparator = true := by simp_all [atStatementEnd]
      have hsep' : c'.atSeparator = true := by rwa [Cursor.atSeparator, ← hlevel.kind]
      rw [topLevel_atSeparator hsep, topLevel_atSeparator hsep']
      rcases h.take hlevel with ⟨c₁, c₁', ht, ht', h₁⟩ | ⟨e, e', c₁, c₁', ht, ht', he, h₁⟩
      · rw [ht, ht']
        exact hrest c₁ c₁' (Bool.not_eq_true _ ▸ hlast) ht h₁.toMatches
      · rw [ht, ht']
        exact .same ⟨rfl, .some (.lexical he)⟩ h₁ (by simp)
  · obtain ⟨c₁, htop, hproblems⟩ := topLevel_atSeam recover hseam
    have halike : TopLevelAlike m recover (⟨[], none⟩, c₁) (⟨[] ++ (topLevel recover c').1.result,
        (topLevel recover c').1.failure⟩, (topLevel recover c').2) := .seam rfl h hseam hproblems
    rwa [← htop] at halike

/-- Two programs are read alike, up to the seam if there is one. -/
theorem topLevel_alike (recover : Bool) (h : c.Matches m c') :
    TopLevelAlike m recover (topLevel recover c) (topLevel recover c') := by
  induction hsize : c.size using Nat.strongRecOn generalizing c c' with
  | ind n ih =>
    subst hsize
    obtain ⟨o, o', c₁, c₁', hrun, hrun', ho, h₁⟩ := optionalStatement_alike recover h
    obtain ⟨items, failure⟩ := o
    obtain ⟨items', failure'⟩ := o'
    obtain ⟨hitems, hfailure⟩ := ho
    cases hfailure with
    | some he =>
      rw [topLevel, topLevel, collect_failed hrun, collect_failed hrun']
      exact .same ⟨hitems, .some he⟩ h₁ (by simp)
    | none =>
      rw [topLevel_of_ok hrun, topLevel_of_ok hrun']
      refine .append hitems (topLevel_alike_of_ended h₁
        (optionalStatement_atStatementEnd _ _ hrun rfl) fun c₂ c₂' hlast ht h₂ => ih _ ?_ h₂ rfl)
      exact Nat.lt_of_lt_of_le (Cursor.size_lt_of_take hlast ht) (size_le_of_run hrun)

/-! ## Programs -/

/-- Both read the same shebang line, or both meet the same fault behind it. -/
theorem shebang_alike (h : c.Matches m c') :
    (∃ text c₁ c₁', shebang.run c = (.ok text, c₁) ∧ shebang.run c' = (.ok text, c₁') ∧
      c₁.Matches m c₁') ∨
      ∃ e e' c₁ c₁', shebang.run c = (.error (.lexical e), c₁) ∧
        shebang.run c' = (.error (.lexical e'), c₁') ∧ e.fault = e'.fault ∧
          c₁.Matches m c₁' := by
  by_cases hk : ∃ text, c.current.kind = .shebang text
  · obtain ⟨text, hk⟩ := hk
    have hlevel := h.level (by rw [hk]; rfl)
    rw [run_shebang hk, run_shebang (hlevel.kind ▸ hk)]
    rcases h.take hlevel with ⟨c₁, c₁', ht, ht', h₁⟩ | ⟨e, e', c₁, c₁', ht, ht', he, h₁⟩
    · rw [ht, ht']
      exact .inl ⟨_, _, _, rfl, rfl, h₁.toMatches⟩
    · rw [ht, ht']
      exact .inr ⟨_, _, _, _, rfl, rfl, he, h₁⟩
  · have hk' : ∀ text, c'.current.kind ≠ .shebang text := by
      intro text htext
      rcases h.kind with hsame | hseam
      · exact hk ⟨text, hsame.trans htext⟩
      · rw [hseam.newline] at htext
        cases htext
    rw [run_shebang_of_ne fun text htext => hk ⟨text, htext⟩, run_shebang_of_ne hk']
    exact .inl ⟨none, c, c', rfl, rfl, h⟩

/-- Two programs have the same shebang line and are read alike behind it, or both stop at the
same fault there. -/
theorem program_alike (recover : Bool) (h : c.Matches m c') :
    (∃ text span span' r r', program recover c = (⟨⟨text, r.1.result, span⟩, r.1.failure⟩, r.2) ∧
      program recover c' = (⟨⟨text, r'.1.result, span'⟩, r'.1.failure⟩, r'.2) ∧
        TopLevelAlike m recover r r') ∨
      ∃ e e' span span' c₁ c₁', program recover c = (⟨⟨none, [], span⟩, some (.lexical e)⟩, c₁) ∧
        program recover c' = (⟨⟨none, [], span'⟩, some (.lexical e')⟩, c₁') ∧
          e.fault = e'.fault ∧ c₁.Matches m c₁' := by
  unfold program
  rcases shebang_alike h with ⟨text, c₁, c₁', hs, hs', h₁⟩ | ⟨e, e', c₁, c₁', hs, hs', he, h₁⟩
  · rw [hs, hs']
    exact .inl ⟨_, _, _, _, _, rfl, rfl, topLevel_alike recover h₁⟩
  · rw [hs, hs']
    exact .inr ⟨_, _, _, _, _, _, rfl, rfl, he, h₁⟩

end Grammar
end WqSource
