import WqSource.Proofs.Alike.Program
import WqSource.Proofs.Alone.Program
import WqSource.Proofs.Recovery.Resume

/-!
# One expression as a program

A text can be read as one expression, or as a program of which the expression is the only
statement. The one way skips line feeds around the expression and then wants the end. The other
way skips semicolons, too, and it may find a shebang line or a line for the host. Both skip in the
same way, and what they read in between is read by the same parser. So they differ in the
semicolons only, and in those that are outside all brackets: an expression closes the brackets
that it opens and takes a semicolon only where one is open.

## Main definitions

* `Token.dividesAt`: semicolons outside brackets.
* `Cursor.HoldsOnly`: something that is all there is up to the end.
* `Grammar.readSingle`: a text read as one expression.
* `Grammar.OnlyExpression`: a text that is one expression as a program.

## Main statements

* `Cursor.StandsAt.inside`: what is taken without semicolons outside brackets.
* `topLevel_holdsOnly`, `single_holdsOnly`: what the two ways of reading come to.
* `readSingle_iff`: how they compare.
-/

namespace WqSource
open Grammar WqSource.Parser

/-! ## Semicolons outside brackets -/

namespace Token

/-- Whether the token with the given index is a semicolon outside all brackets. -/
def dividesAt (ts : List Token) (i : Nat) : Bool :=
  ts[i]?.any (·.kind == .punct .semicolon) && depthAt ts i == 0

end Token

namespace Cursor
variable {ts : List Token} {i j k : Nat} {c c' : Cursor}

theorem StandsAt.dividesAt_eq (h : c.StandsAt ts i) :
    Token.dividesAt ts i = (c.looksAt .semicolon && c.depth == 0) := by
  rw [Token.dividesAt, h.getElem?, ← h.depth]
  rfl

/-- There is no semicolon at the end of the input or behind it. -/
theorem StandsAt.dividesAt_atEnd (h : c.StandsAt ts i) (hend : c.atEnd = true) (hik : i ≤ k) :
    Token.dividesAt ts k = false := by
  rcases hik.eq_or_lt with rfl | hlt
  · have hk : c.current.kind = .endOfInput := by simpa [Cursor.atEnd] using hend
    simp [h.dividesAt_eq, Cursor.looksAt, hk]
  · have hlast := congrArg List.length h.tokens
    rw [if_pos hend, List.length_drop, List.length_singleton] at hlast
    have hnone : ts[k]? = none := List.getElem?_eq_none (by omega)
    simp [Token.dividesAt, hnone]

/-- Where semicolons are taken inside brackets only, none of the tokens that are passed divides. -/
theorem StandsAt.inside (h : c.StandsAt ts i) (hc : c.TakesInside c') :
    ∃ j, i ≤ j ∧ c'.StandsAt ts j ∧ ∀ k, i ≤ k → k < j → Token.dividesAt ts k = false := by
  induction hc with
  | refl => exact ⟨i, le_rfl, h, by omega⟩
  | @take b d t _ ht hsemicolon ih =>
    obtain ⟨j, hij, hj, hbefore⟩ := ih
    obtain ⟨rfl, -⟩ := take_ok ht
    cases hend : b.atEnd with
    | true =>
      -- Taking the end leads nowhere.
      exact ⟨j, hij, hj.take_atEnd hend ht, hbefore⟩
    | false =>
      refine ⟨j + 1, by omega, hj.take hend ht, fun k hik hkj => ?_⟩
      rcases Nat.lt_succ_iff_lt_or_eq.1 hkj with hkj | rfl
      · exact hbefore k hik hkj
      · rw [hj.dividesAt_eq, Bool.and_eq_false_iff]
        by_cases hk : b.looksAt .semicolon = true
        · have hopen := hsemicolon (looksAt_iff.1 hk)
          exact .inr (by simp; omega)
        · exact .inl (by simpa using hk)
  | note p _ ih =>
    obtain ⟨j, hij, hj, hbefore⟩ := ih
    exact ⟨j, hij, hj.note p, hbefore⟩

/-- If semicolons are taken inside brackets only up to the end, no token from here on divides. -/
theorem StandsAt.undivided (h : c.StandsAt ts i) (hc : c.TakesInside c') (hend : c'.atEnd = true)
    (hik : i ≤ k) : Token.dividesAt ts k = false := by
  obtain ⟨j, -, hj, hbefore⟩ := h.inside hc
  by_cases hkj : k < j
  · exact hbefore k hik hkj
  · exact hj.dividesAt_atEnd hend (by omega)

/-- From the first cursor on there is only what the parser reads, with what is skipped on both
sides of it. The second cursor is at the end. -/
def HoldsOnly {α : Type} (c : Cursor) (skip : Parser Unit) (item : Parser α) (a : α)
    (c' : Cursor) : Prop :=
  ∃ c₁ c₂, skip.run c = (.ok (), c₁) ∧ item.run c₁ = (.ok a, c₂) ∧
    skip.run c₂ = (.ok (), c') ∧ c'.atEnd = true

theorem HoldsOnly.atEnd {α : Type} {skip : Parser Unit} {item : Parser α} {a : α}
    (h : c.HoldsOnly skip item a c') : c'.atEnd = true := by
  obtain ⟨c₁, c₂, -, -, -, hend⟩ := h
  exact hend

end Cursor

/-! ## Skipping -/

namespace Grammar
variable {c c' c₁ : Cursor} {test : Cursor → Bool}

theorem run_skipWhile_stop (h : c.atEnd = true ∨ test c = false) :
    (skipWhile test).run c = (.ok (), c) := by
  rw [run_skipWhile, if_pos]
  rcases h with h | h <;> simp [h]

theorem run_skipWhile_take {t : Token} (hend : c.atEnd = false) (htest : test c = true)
    (ht : c.take = (.ok t, c₁)) : (skipWhile test).run c = (skipWhile test).run c₁ := by
  rw [run_skipWhile, if_neg (by simp [hend, htest]), ht]

/-- Where line feeds end in front of something else than a semicolon, so do separators. -/
theorem skipSeparators_of_skipNewlines (h : skipNewlines.run c = (.ok (), c'))
    (hc' : c'.atSeparator = false) : skipSeparators.run c = (.ok (), c') := by
  have hskip : skipNewlines.Ensures c fun _ c' =>
      skipSeparators.run c = skipSeparators.run c' ∧ _ :=
    Ensures.skipWhile (I := fun b => skipSeparators.run c = skipSeparators.run b) rfl ?_
  · rw [(hskip _ _ h).1]
    exact run_skipWhile_stop (.inr hc')
  · intro b b₁ hb hnewline ht
    have hseparator := Cursor.atSeparator_of_atNewline hnewline
    rw [hb]
    exact run_skipWhile_take (Cursor.atEnd_of_atSeparator hseparator) hseparator ht

variable {ts : List Token} {i : Nat}

/-- Outside brackets, where no token divides, separators are line feeds. -/
theorem skipNewlines_of_skipSeparators (hc : c.StandsAt ts i) (hdepth : c.depth = 0)
    (hundivided : ∀ k, Token.dividesAt ts k = false) (h : skipSeparators.run c = (.ok (), c')) :
    skipNewlines.run c = (.ok (), c') := by
  have hskip : skipSeparators.Ensures c fun _ c' =>
      ((∃ j, c'.StandsAt ts j) ∧ c'.depth = 0 ∧ skipNewlines.run c = skipNewlines.run c') ∧ _ :=
    Ensures.skipWhile (I := fun b => (∃ j, b.StandsAt ts j) ∧ b.depth = 0 ∧
      skipNewlines.run c = skipNewlines.run b) ⟨⟨i, hc⟩, hdepth, rfl⟩ ?_
  · obtain ⟨⟨-, -, hrun⟩, hlast⟩ := hskip _ _ h
    rw [hrun]
    refine run_skipWhile_stop (hlast.imp_right fun hseparator => ?_)
    cases hnewline : c'.atNewline with
    | false => rfl
    | true =>
      rw [Cursor.atSeparator_of_atNewline hnewline] at hseparator
      cases hseparator
  · rintro b b₁ ⟨⟨j, hj⟩, hb, hrun⟩ hseparator ht
    have hend := Cursor.atEnd_of_atSeparator hseparator
    -- As no bracket is open, a semicolon here would divide.
    have hnewline : b.atNewline = true := by
      have hsemicolon : b.looksAt .semicolon = false := by
        simpa [hj.dividesAt_eq, hb] using hundivided j
      rw [Cursor.atSeparator] at hseparator
      rw [Cursor.looksAt] at hsemicolon
      rw [Cursor.atNewline]
      generalize b.current.kind = k at *
      cases k <;> simp_all [Token.Kind.isSeparator]
    refine ⟨⟨j + 1, hj.take hend ht⟩, ?_, ?_⟩
    · rw [Cursor.depth_separator ht (isWord_of_atSeparator hseparator), hb]
    · rw [hrun]
      exact run_skipWhile_take hend hnewline ht

/-! ## The two ways of reading -/

variable {e : Expr} {s : Statement}

/-- No statement begins where one may end. -/
theorem statement_starts :
    (statement (level maxNesting)).Ensures c fun _ _ => atStatementEnd c = false := by
  refine Ensures.look_bind ?_
  split
  · next payload hk =>
    refine Ensures.bind (Ensures.take fun c₁ _ => Ensures.pure ?_)
    simp [atStatementEnd, Cursor.atSeparator, Cursor.atEnd, hk, Token.Kind.isSeparator]
  · exact ensures_of_first (expression_starts.mono fun _ _ hstarts =>
      atStatementEnd_of_startsExpression hstarts.first)

/-- A statement that is an expression is read as one. -/
theorem run_expression (h : (statement (level maxNesting)).run c = (.ok (.expression e), c')) :
    expression.run c = (.ok e, c') := by
  have hstatement : (statement (level maxNesting)).Ensures c fun s c' =>
      ∀ e, s = .expression e → expression.run c = (.ok e, c') := by
    refine Ensures.look_bind ?_
    split
    · exact Ensures.bind (Ensures.take fun c₁ _ => Ensures.pure nofun)
    · refine Ensures.bind fun x c₁ hx => Ensures.pure fun e he => ?_
      cases he
      exact hx
  exact hstatement _ _ h e rfl

/-- Separators in front of a program are skipped, and a fault among them ends it. -/
theorem topLevel_eq (recover : Bool) (c : Cursor) :
    topLevel recover c =
      match skipSeparators.run c with
      | (.error x, c₁) => (⟨[], some x⟩, c₁)
      | (.ok _, c₁) => topLevel recover c₁ := by
  have hends := @skipWhile_ends (·.atSeparator) (fun b => topLevel recover c = topLevel recover b)
    c rfl fun b b₁ hb _ hseparator ht => by rw [hb, topLevel_atSeparator hseparator, ht]
  rw [skipSeparators]
  rcases hrun : (skipWhile (·.atSeparator)).run c with ⟨x | _, c₁⟩ <;> rw [hrun] at hends
  · obtain ⟨b, hb, hseparator, ht⟩ := hends
    rw [hb, topLevel_atSeparator hseparator, ht]
  · exact hends.1

theorem skipSeparators_ends :
    skipSeparators.Ensures c fun _ c' => c'.atEnd = true ∨ c'.atSeparator = false :=
  (Ensures.skipWhile (I := fun _ => True) trivial fun _ _ _ _ _ => trivial).mono fun _ _ h => h.2

/-- A program without errors is at the end behind the separators in front of it, or it begins with
a statement there. -/
theorem topLevel_cases {ss : List Statement} (h : topLevel false c = (⟨ss, none⟩, c')) :
    ∃ c₁, skipSeparators.run c = (.ok (), c₁) ∧
      (ss = [] ∧ c' = c₁ ∧ c₁.atEnd = true ∨
        ∃ s ss' c₂, ss = s :: ss' ∧ (statement (level maxNesting)).run c₁ = (.ok s, c₂) ∧
          topLevel false c₂ = (⟨ss', none⟩, c')) := by
  rw [topLevel_eq] at h
  rcases hskip : skipSeparators.run c with ⟨x | _, c₁⟩ <;> rw [hskip] at h <;> dsimp only at h
  · cases h
  refine ⟨c₁, rfl, ?_⟩
  cases hend : c₁.atEnd with
  | true =>
    rw [topLevel_atEnd hend] at h
    cases h
    exact .inl ⟨rfl, rfl, rfl⟩
  | false =>
    have hlast := skipSeparators_ends _ _ hskip
    have hstart : atStatementEnd c₁ = false := by simp_all [atStatementEnd]
    obtain ⟨⟨items, _ | x⟩, c₂, hpart⟩ := optionalStatement_ok false c₁
    · rcases optionalStatement_clean hpart with ⟨-, rfl⟩ | ⟨s, rfl, hs⟩
      · rw [optionalStatement_atStatementEnd _ _ hpart rfl] at hstart
        cases hstart
      · rw [topLevel_of_ok hpart] at h
        rcases hmore : topLevel false c₂ with ⟨⟨ss', failure⟩, c₃⟩
        rw [hmore] at h
        cases h
        exact .inr ⟨s, ss', c₂, rfl, hs, hmore⟩
    · rw [topLevel, collect_failed hpart] at h
      cases h

/-- A program without statements and errors is nothing but separators. -/
theorem topLevel_nil :
    topLevel false c = (⟨[], none⟩, c') ↔
      skipSeparators.run c = (.ok (), c') ∧ c'.atEnd = true := by
  constructor
  · intro h
    obtain ⟨c₁, hskip, ⟨-, rfl, hend⟩ | ⟨s, ss, c₂, hss, -⟩⟩ := topLevel_cases h
    · exact ⟨hskip, hend⟩
    · cases hss
  · rintro ⟨hskip, hend⟩
    rw [topLevel_eq, hskip]
    exact topLevel_atEnd hend

/-- A program of one statement has nothing but separators around it. -/
theorem topLevel_holdsOnly :
    topLevel false c = (⟨[s], none⟩, c') ↔
      c.HoldsOnly skipSeparators (statement (level maxNesting)) s c' := by
  constructor
  · intro h
    obtain ⟨c₁, hskip, ⟨hss, -⟩ | ⟨s', ss, c₂, hss, hs, hmore⟩⟩ := topLevel_cases h <;> cases hss
    obtain ⟨hskip', hend⟩ := topLevel_nil.1 hmore
    exact ⟨c₁, c₂, hskip, hs, hskip', hend⟩
  · rintro ⟨c₁, c₂, hskip, hs, hskip', hend⟩
    have hstop : atStatementEnd c₂ = true := by
      by_contra hstop
      obtain ⟨hseparator, hend₂⟩ : c₂.atSeparator = false ∧ c₂.atEnd = false := by
        simpa [atStatementEnd] using hstop
      have hstay : skipSeparators.run c₂ = (.ok (), c₂) := run_skipWhile_stop (.inr hseparator)
      obtain rfl : c₂ = c' := (Prod.mk.inj (hstay.symm.trans hskip')).2
      rw [hend] at hend₂
      cases hend₂
    have hpart : (optionalStatement false).run c₁ = (.ok ⟨[s], none⟩, c₂) := by
      rw [run_optionalStatement, statement_starts _ _ hs, hs]
      simp [hstop]
    have hmore := topLevel_nil.2 ⟨hskip', hend⟩
    rw [topLevel_eq, hskip]
    dsimp only
    rw [topLevel_of_ok hpart, hmore]
    rfl

/-- What is read as one expression has no semicolons outside its brackets. -/
theorem inside_of_holdsOnly (hc : c.Legal) (h : c.HoldsOnly skipNewlines expression e c') :
    c.TakesInside c' := by
  obtain ⟨c₁, c₂, hskip, he, hskip', -⟩ := h
  have hfirst := (skipNewlines_passes _ _ hskip).1
  obtain ⟨⟨m, -, hreads⟩, -⟩ := (level_sound maxNesting).expression c₁ (hfirst.legal hc) _ _ he
  have hlast := (skipNewlines_passes _ _ hskip').1
  exact (hfirst.inside.trans hreads.passes.inside).trans hlast.inside

/-- Reading one expression succeeds where line feeds are all there is around it. -/
theorem single_holdsOnly {ps : List Problem} (hc : c.StandsAt ts i) (hlegal : c.Legal) :
    (∃ c', single.run c = (.ok e, c') ∧ c'.problems = ps) ↔
      ∃ c', c.HoldsOnly skipNewlines expression e c' ∧ c'.problems = ps := by
  constructor
  · rintro ⟨c', h, hps⟩
    have hsingle : single.Ensures c fun e c' => ∃ c₁, c.HoldsOnly skipNewlines expression e c₁ ∧
        c₁.problems = c'.problems := by
      refine Ensures.bind fun _ c₁ hskip => Ensures.bind fun e c₂ he =>
        Ensures.bind fun _ c₃ hskip' => Ensures.look_bind ?_
      split
      · next hend =>
        refine Ensures.bind (Ensures.discard_take fun c₄ ht => Ensures.pure ?_)
        exact ⟨c₃, ⟨c₁, c₂, hskip, he, hskip', hend⟩, (Cursor.problems_take ht).symm⟩
      · exact Ensures.fail
    obtain ⟨c₁, hholds, hproblems⟩ := hsingle _ _ h
    exact ⟨c₁, hholds, hproblems.trans hps⟩
  · rintro ⟨c', hholds, hps⟩
    obtain ⟨j, -, hj, -⟩ := hc.inside (inside_of_holdsOnly hlegal hholds)
    obtain ⟨c₁, c₂, hskip, he, hskip', hend⟩ := hholds
    obtain ⟨place, -, hahead⟩ := hj.atEnd hend
    have ht : c'.take = (.ok c'.current, c'.shift (.ending place) (.ended place)) := by
      rw [Cursor.take, hahead]
      rfl
    refine ⟨_, ?_, (Cursor.problems_take ht).trans hps⟩
    simp only [single, run_bind, hskip, he, hskip', run_look, hend, if_true, run_discard_take, ht]
    rfl

/-- Around an expression separators are line feeds exactly if no token divides. -/
theorem holdsOnly_iff (hc : c.StandsAt ts 0) (hlegal : c.Legal) :
    c.HoldsOnly skipNewlines expression e c' ↔
      c.HoldsOnly skipSeparators (statement (level maxNesting)) (.expression e) c' ∧
        ∀ k, Token.dividesAt ts k = false := by
  constructor
  · intro h
    have hundivided (k : Nat) : Token.dividesAt ts k = false :=
      hc.undivided (inside_of_holdsOnly hlegal h) h.atEnd (Nat.zero_le k)
    obtain ⟨c₁, c₂, hskip, he, hskip', hend⟩ := h
    have hstart := (expression_starts _ _ he).first
    have hfirst : c₁.atSeparator = false := by
      have hstop := atStatementEnd_of_startsExpression hstart
      simp only [atStatementEnd, Bool.or_eq_false_iff] at hstop
      exact hstop.1
    have hlast : c'.atSeparator = false := by
      by_contra hseparator
      rw [Cursor.atEnd_of_atSeparator (by simpa using hseparator)] at hend
      cases hend
    exact ⟨⟨c₁, c₂, skipSeparators_of_skipNewlines hskip hfirst, run_statement hstart he,
      skipSeparators_of_skipNewlines hskip' hlast, hend⟩, hundivided⟩
  · rintro ⟨⟨c₁, c₂, hskip, hs, hskip', hend⟩, hundivided⟩
    have hnewlines := skipNewlines_of_skipSeparators hc hc.depth hundivided hskip
    have hfirst := (skipNewlines_passes _ _ hnewlines).1
    obtain ⟨i, -, hi, -⟩ := hc.inside hfirst.inside
    have he := run_expression hs
    obtain ⟨⟨m, -, hreads⟩, -⟩ :=
      (level_sound maxNesting).expression c₁ (hfirst.legal hlegal) _ _ he
    obtain ⟨j, -, hj, -⟩ := hi.inside hreads.passes.inside
    have hdepth : c₂.depth = 0 := by
      rw [hreads.passes.depth_eq, hfirst.depth_eq]
      exact hc.depth
    exact ⟨c₁, c₂, hnewlines, he, skipNewlines_of_skipSeparators hj hdepth hundivided hskip', hend⟩

/-! ## Texts -/

/-- Reads a text as one expression, and notes what it is warned of. -/
def readSingle (source : String) : Except ParseError (Expr × List Problem) :=
  match Cursor.ofString source with
  | .error x => .error x
  | .ok c =>
    match single.run c with
    | (.error x, _) => .error x
    | (.ok e, c') => .ok (e, c'.problems)

/-- As a program, the text is the expression and nothing else, and no semicolon among its tokens is
outside brackets. -/
structure OnlyExpression (source : String) (recover : Bool) (e : Expr) : Prop where
  errors : (parse source recover).errors = []
  shebang : (parse source recover).program.shebang = none
  statements : (parse source recover).program.statements = [.expression e]
  undivided : ∃ ts, tokenize source = .ok ts ∧ ∀ k, Token.dividesAt ts k = false

variable {source : String} {ps : List Problem}

theorem readSingle_eq_ok :
    readSingle source = .ok (e, ps) ↔ ∃ c, Cursor.ofString source = .ok c ∧
      ∃ c', single.run c = (.ok e, c') ∧ c'.problems = ps := by
  unfold readSingle
  rcases Cursor.ofString source with x | c
  · simp
  · rcases hrun : single.run c with ⟨x | e', c'⟩ <;> simp [hrun]

/-- Without failure and without a shebang line, a program begins with its statements. -/
theorem run_shebang_of_program (hfailure : (program false c).1.failure = none)
    (hshebang : (program false c).1.result.shebang = none) : shebang.run c = (.ok none, c) := by
  refine run_shebang_of_ne fun text hk => ?_
  rcases ht : c.take with ⟨x | t, c₁⟩
  · simp [program, run_shebang hk, ht] at hfailure
  · simp [program, run_shebang hk, ht] at hshebang

/-- An expression does not begin with a shebang line. -/
theorem run_shebang_of_topLevel (h : topLevel false c = (⟨[.expression e], none⟩, c')) :
    shebang.run c = (.ok none, c) := by
  refine run_shebang_of_ne fun text hk => ?_
  obtain ⟨c₁, c₂, hskip, hs, -⟩ := topLevel_holdsOnly.1 h
  have hstay : skipSeparators.run c = (.ok (), c) :=
    run_skipWhile_stop (.inr (by rw [Cursor.atSeparator, hk]; rfl))
  obtain rfl : c = c₁ := (Prod.mk.inj (hstay.symm.trans hskip)).2
  have hstart := (expression_starts _ _ (run_expression hs)).first
  rw [hk] at hstart
  cases hstart

/-- A text that is one expression as a program, by its statements. -/
theorem parse_expression_iff (hc : Cursor.ofString source = .ok c) :
    ((parse source false).errors = [] ∧ (parse source false).program.shebang = none ∧
        (parse source false).program.statements = [.expression e] ∧
          (parse source false).problems = ps) ↔
      ∃ c', topLevel false c = (⟨[.expression e], none⟩, c') ∧ c'.problems = ps := by
  rw [errors_parse hc, parse_eq_found hc]
  constructor
  · rintro ⟨hnone, hshebang, hstatements, hproblems⟩
    have hfailure : (program false c).1.failure = none := by simpa using hnone
    have hrun := run_shebang_of_program hfailure hshebang
    rcases htop : topLevel false c with ⟨⟨ss, failure⟩, c'⟩
    simp only [found, program, hrun, htop] at hfailure hstatements hproblems
    subst hfailure hstatements
    exact ⟨c', rfl, by simpa using hproblems⟩
  · rintro ⟨c', htop, hproblems⟩
    simp [found, program, run_shebang_of_topLevel htop, htop, hproblems]

/-- A text is read as one expression exactly if it is one as a program and no semicolon of it is
outside brackets. It is the same expression, spans included, and what is noted is the same. -/
theorem readSingle_iff (source : String) (recover : Bool) (e : Expr) (ps : List Problem) :
    readSingle source = .ok (e, ps) ↔
      OnlyExpression source recover e ∧ (parse source recover).problems = ps := by
  rw [readSingle_eq_ok]
  constructor
  · rintro ⟨c, hc, h⟩
    have hstands := Cursor.standsAt_ofString hc
    have hlegal := legal_ofString hc
    obtain ⟨c', hholds, hproblems⟩ := (single_holdsOnly hstands hlegal).1 h
    obtain ⟨hholds, hundivided⟩ := (holdsOnly_iff hstands hlegal).1 hholds
    obtain ⟨herrors, hshebang, hstatements, hproblems⟩ :=
      (parse_expression_iff hc).2 ⟨c', topLevel_holdsOnly.2 hholds, hproblems⟩
    obtain ⟨ts, htokens⟩ := tokenize_of_errors_eq_nil herrors
    rw [leadingTokens_of_tokenize htokens] at hundivided
    have hsame : parse source false = parse source recover := parse_eq_of_errors_eq_nil herrors
    rw [hsame] at herrors hshebang hstatements hproblems
    exact ⟨⟨herrors, hshebang, hstatements, ts, htokens, hundivided⟩, hproblems⟩
  · rintro ⟨⟨herrors, hshebang, hstatements, ts, htokens, hundivided⟩, hproblems⟩
    have hsame : parse source recover = parse source false := parse_eq_of_errors_eq_nil herrors
    rw [hsame] at herrors hshebang hstatements hproblems
    rcases hc : Cursor.ofString source with x | c
    · rw [parse_eq_read, read, hc] at herrors
      cases herrors
    · have hstands := Cursor.standsAt_ofString hc
      rw [leadingTokens_of_tokenize htokens] at hstands
      have hlegal := legal_ofString hc
      obtain ⟨c', htop, hproblems⟩ :=
        (parse_expression_iff hc).1 ⟨herrors, hshebang, hstatements, hproblems⟩
      have hholds := (holdsOnly_iff hstands hlegal).2 ⟨topLevel_holdsOnly.1 htop, hundivided⟩
      exact ⟨c, rfl, (single_holdsOnly hstands hlegal).2 ⟨c', hholds, hproblems⟩⟩

/-- A semicolon belongs to an expression inside brackets only, though a program may end with one. -/
example : (readSingle "(1;2)\n").isOk = true ∧ (readSingle "(1;2);").isOk = false ∧
    (parse "(1;2);" false).errors.isEmpty = true := by
  decide +kernel

end Grammar
end WqSource
