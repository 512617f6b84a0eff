import WqSource.Proofs.Alike.Operator
import WqSource.Proofs.Origin.Program
import WqSource.Proofs.Sound.Words
import WqSource.Proofs.Token.Slice
import WqSource.Proofs.Token.Spelled

/-!
# Expressions stand alone

The text of an expression is an expression, whatever the expression is part of. Its tokens are
the same when they are all there is, although what is around them decides how deep they stand in
brackets, whether a line begins with them and what touches them. From the same tokens the same is
read, as what parsers have read does not depend on what is behind it.

## Main definitions

* `Parsed.IsExpression`: a text that is an expression, and nothing else.

## Main statements

* `parse_slice`: every expression of every program.
-/

namespace WqSource
open Grammar WqSource.Parser
open Token.Kind (dropEmptyParams)

/-! ## The first two tokens -/

namespace Cursor
variable {c : Cursor}

/-- An expression may begin here, and behind a sign of counting there, too. -/
structure Starts (c : Cursor) : Prop where
  first : c.current.kind.startsExpression = true
  second : c.current.kind = .punct .hash → ∀ c₁, c.take = (.ok c.current, c₁) →
    c₁.current.kind.startsExpression = true

end Cursor

namespace Grammar
variable {c d : Cursor} {inner : Inner} {e : Expr}

/-- What the first part of a parser shows, all of it shows. -/
theorem ensures_of_first {α β : Type} {p : Parser α} {f : α → Parser β} {Q : Prop}
    (h : p.Ensures c fun _ _ => Q) : (p >>= f).Ensures c fun _ _ => Q :=
  Ensures.bind (h.mono fun _ _ hq _ _ _ => hq)

theorem primary_starts : (primary inner).Ensures c fun _ _ => c.current.kind.startsPrimary = true := by
  refine Ensures.choose fun goOn c₁ hn _ _ _ _ => ?_
  rw [← isSome_primary? inner, hn]
  rfl

theorem startsExpression_of_unaryOp? {k : Token.Kind} {op : UnaryOp} (h : unaryOp? k = some op) :
    k.startsExpression = true := by
  unfold unaryOp? at h
  split at h <;> cases h <;> rfl

theorem unary_starts : (unary inner).Ensures c fun _ _ => c.Starts := by
  refine Ensures.look_bind (Ensures.bind ((Ensures.repeatTaking (I := fun _ c' => c' = c ∨
    c.current.kind.startsExpression = true ∧ ∀ c₁, c.take = (.ok c.current, c₁) →
      c' = c₁ ∨ c₁.current.kind.startsExpression = true) (.inl rfl) ?_).mono fun ops c' hops => ?_))
  · intro ops c₁ goOn c₂ hI hn ht
    obtain ⟨op, hop, rfl⟩ := Option.map_eq_some_iff.1 hn
    have hsign := startsExpression_of_unaryOp? hop
    refine Ensures.pure (.inr ?_)
    rcases hI with rfl | ⟨hfirst, hsecond⟩
    · refine ⟨hsign, fun c₃ ht₃ => .inl ?_⟩
      rw [ht] at ht₃
      exact (Prod.mk.inj ht₃).2
    · refine ⟨hfirst, fun c₃ ht₃ => .inr ?_⟩
      rcases hsecond c₃ ht₃ with rfl | hsecond
      · exact hsign
      · exact hsecond
  · have hpower : (power inner).Ensures c' fun _ _ => c'.current.kind.startsPrimary = true :=
      ensures_of_first (ensures_of_first primary_starts)
    refine ensures_of_first (hpower.mono fun _ _ hprimary => ?_)
    have hoperand := Token.Kind.startsExpression_of_startsPrimary hprimary
    rcases hops.1 with rfl | ⟨hfirst, hsecond⟩
    · refine ⟨hoperand, fun hhash => ?_⟩
      rw [hhash] at hprimary
      cases hprimary
    · refine ⟨hfirst, fun _ c₁ ht => ?_⟩
      rcases hsecond c₁ ht with rfl | hsecond
      · exact hoperand
      · exact hsecond

theorem assignment_starts : (assignment inner).Ensures c fun _ _ => c.Starts := by
  have hproduct : (multiplicative inner).Ensures c fun _ _ => c.Starts :=
    ensures_of_first unary_starts
  have hcomparison : (comparison inner).Ensures c fun _ _ => c.Starts :=
    ensures_of_first (ensures_of_first hproduct)
  have hjoin : (join inner).Ensures c fun _ _ => c.Starts :=
    ensures_of_first (ensures_of_first hcomparison)
  exact ensures_of_first (ensures_of_first (ensures_of_first hjoin))

/-- Where an expression is read, its first tokens begin one. -/
theorem expression_starts : expression.Ensures c fun _ _ => c.Starts :=
  assignment_starts

end Grammar

/-! ## Tokens of an expression -/

namespace TokenStream
variable {P : Nat → Token → Prop} {k depth : Nat} {s s' : TokenStream} {ts : List Token}

/-- What holds of all tokens holds of those that are left. -/
theorem Each.cut (h : s.Each P depth) (hcut : s.Cut k s')
    (hend : ∀ depth place, P depth (.ending place)) : s'.Each P depth := by
  induction hcut generalizing depth with
  | ended => exact hend _ _
  | token _ _ ih => exact ⟨h.1, ih h.2⟩

theorem fault?_ofTokens (ts : List Token) : (ofTokens ts).fault? = none := by
  induction ts with
  | nil => rfl
  | cons t ts ih => exact ih

theorem leading_ofTokens (ts : List Token) : (ofTokens ts).leading = ts ++ [.ending .start] := by
  induction ts with
  | nil => rfl
  | cons t ts ih => exact congrArg (t :: ·) ih

theorem endsLast_ofTokens (h : ∀ t ∈ ts, t.kind ≠ .endOfInput) : (ofTokens ts).EndsLast := by
  induction ts with
  | nil => trivial
  | cons t ts ih =>
    obtain ⟨ht, hts⟩ := List.forall_mem_cons.1 h
    exact ⟨ht, ih hts⟩

end TokenStream

namespace Token.Kind
variable {k : Kind} {ks : List Kind}

/-- Only brackets are left out. -/
theorem mem_dropEmptyParams (h : k ∈ ks) (hk : ∀ p, k ≠ punct p) : k ∈ dropEmptyParams ks := by
  fun_induction dropEmptyParams ks with
  | case1 ks ih =>
    simp only [List.mem_cons] at h ⊢
    rcases h with rfl | rfl | rfl | h
    · exact absurd rfl (hk _)
    · exact absurd rfl (hk _)
    · exact absurd rfl (hk _)
    · exact .inr (ih h)
  | case2 l ks _ ih =>
    rcases List.mem_cons.1 h with rfl | h
    · exact List.mem_cons_self
    · exact List.mem_cons_of_mem _ (ih h)
  | case3 => exact h

end Token.Kind

namespace Grammar
variable {d : Cursor} {e : Expr} {ts : List Token}

/-- There are no lines for the host in an expression. -/
theorem kind_ne_magic (hd : d.Legal) (hproblems : d.problems = []) (hahead : d.ahead = .ofTokens ts)
    (hends : ∀ t ∈ d.current :: ts, t.kind ≠ .endOfInput) (h : expression.Finishes d e) :
    ∀ t ∈ d.current :: ts, ∀ payload, t.kind ≠ .magic payload := by
  obtain ⟨d', hrun, hend⟩ := h
  obtain ⟨⟨m, hm, hreads⟩, -⟩ := (level_sound maxNesting).expression d hd e d' hrun
  obtain ⟨hfirst, hothers⟩ := List.forall_mem_cons.1 hends
  have hfacing : d.Facing none d.left := by
    refine ⟨?_, List.mem_cons_self, fun t ht => List.mem_cons_of_mem _ ht, ?_, fun hatEnd => ?_, ?_⟩
    · rw [hahead]
      exact TokenStream.fault?_ofTokens ts
    · rw [hahead]
      exact TokenStream.endsLast_ofTokens hothers
    · exact absurd (by simpa [Cursor.atEnd] using hatEnd) hfirst
    · simp [hproblems]
  obtain ⟨-, hwords⟩ := hreads.passes.gives.words_left hfacing hend
  intro t ht payload hk
  have hleft : t ∈ d.left := by
    rw [Cursor.left, hahead, TokenStream.leading_ofTokens, ← List.cons_append]
    exact List.mem_append_left _ ht
  have hessence : Token.Kind.magic payload ∈ Token.essence d.left := by
    refine List.mem_map.2 ⟨t.kind, ?_, by rw [hk]; rfl⟩
    exact List.mem_filter.2 ⟨List.mem_map_of_mem hleft, by rw [hk]; exact Token.Kind.isWord_magic _⟩
  have hword := Token.Kind.mem_dropEmptyParams hessence (by simp)
  rw [hwords] at hword
  have hcode := (Expr.balanced hreads.regular).code _ (List.mem_filter.1 hword).1
  cases hcode

end Grammar

/-! ## Slices -/

theorem Token.Kind.Lexeme.eq_hash {k : Token.Kind} {tail : List Char}
    (h : k.Lexeme ('#' :: tail)) : k = .punct .hash ∧ tail = [] := by
  generalize hcs : '#' :: tail = cs at h
  cases h with
  | integer hdigits =>
    obtain ⟨c, ds, rfl, hc⟩ := hdigits.head
    cases hcs
    cases hc
  | float hwhole =>
    obtain ⟨c, ds, rfl, hc⟩ := hwhole.head
    cases hcs
    cases hc
  | word hword =>
    obtain ⟨c, ds, rfl, hc⟩ := hword.head
    cases hcs
    exact absurd hc (by decide +kernel)
  | newline hfeeds =>
    obtain ⟨ds, rfl⟩ := hfeeds.head
    cases hcs
  | punct p =>
    cases p <;> cases hcs
    exact ⟨rfl, rfl⟩
  | symbol | string | character | control | magic => cases hcs

/-- The tokens of an expression in their text: the first one behind a gap, and the others. -/
structure Cursor.Row (source : String) (b : Cursor) (l : Lexer) (gap lexeme text : List Char)
    (ts : List Token) (l' : Lexer) : Prop where
  inText : l.InText source
  finds : l.Finds gap lexeme (text ++ l'.rest) b.current.kind
  current : b.current = l.tokenBehind gap lexeme b.current.kind
  ahead : b.ahead = (l.moved gap lexeme (text ++ l'.rest) b.current.kind).stream
  others : (l.moved gap lexeme (text ++ l'.rest) b.current.kind).FindsAll ts text l'

namespace Cursor
variable {source : String} {k : Nat} {b b' : Cursor} {l l' : Lexer} {gap lexeme text : List Char}
  {ts : List Token}

/-- What a cursor takes from where an expression may begin. -/
theorem InText.row (h : b.InText source) (hstart : b.current.kind.startsExpression = true)
    (hadvances : b.Advances (k + 1) b') :
    ∃ l gap lexeme text ts l', b.Row source l gap lexeme text ts l' ∧ ts.length = k ∧
      b'.lastEnd = l'.position := by
  obtain ⟨l, l₁, hl, hnext, hahead⟩ := h.reading
  have hnone : l.shebang? = none := by
    cases hline : l.shebang? with
    | none => rfl
    | some line =>
      obtain ⟨hnext', -⟩ := Lexer.next_of_shebang hline
      rw [hnext'] at hnext
      rw [← Except.ok.inj (Prod.mk.inj hnext).1] at hstart
      cases hstart
  obtain ⟨ts, text, l', l₁', hlength, hall, -, -, hfirst, hlast⟩ :=
    Lexer.findsAll_of_advances hnext hahead hnone hadvances
  cases hall with
  | nil => cases hlength
  | @cons _ _ gap lexeme rest text kind ts hfinds hall =>
    have hcurrent : l.tokenBehind gap lexeme kind = b.current := Option.some.inj hfirst
    obtain rfl : kind = b.current.kind := congrArg Token.kind hcurrent
    have hrest : rest = text ++ l'.rest := hall.leadsTo.rest
    subst hrest
    rw [hfinds.next hnone] at hnext
    obtain rfl : l.moved gap lexeme _ _ = l₁ := (Prod.mk.inj hnext).2
    refine ⟨l, gap, lexeme, text, ts, l', ⟨hl, hfinds, hcurrent.symm, hahead, hall⟩, ?_,
      (hlast (Nat.succ_pos k))⟩
    simpa using hlength

namespace Row

/-- The row by itself, with so many brackets open. -/
def cursor (b : Cursor) (ts : List Token) (depth : Nat) : Cursor :=
  ⟨b.current, .ofTokens ts, b.lastEnd, depth, []⟩

theorem cut (h : b.Row source l gap lexeme text ts l') (depth : Nat) :
    b.Cut (ts.length + 1) (cursor b ts depth) := by
  have hend : b.atEnd = false := by simpa [Cursor.atEnd] using h.finds.lexeme.kind_ne.1
  refine .token ⟨rfl, rfl⟩ hend ?_
  rw [h.ahead]
  exact h.others.cut h.finds.shebang?_moved

/-- The text of the row. -/
theorem slice_eq (h : b.Row source l gap lexeme text ts l') (hlast : b'.lastEnd = l'.position) :
    Span.slice ⟨b.current.span.start, b'.lastEnd⟩ source = String.ofList (lexeme ++ text) := by
  have hrest : l.rest = gap ++ ((lexeme ++ text) ++ l'.rest) := by
    rw [h.finds.rest_eq, List.append_assoc]
  have hslice := h.inText.slice hrest
  have hothers : l'.position = ((l.position.after gap).after lexeme).after text :=
    h.others.leadsTo.position
  have hstart : l.position.after gap = b.current.span.start :=
    (congrArg (·.span.start) h.current).symm
  rwa [Position.after_append, ← hothers, ← hlast, hstart] at hslice

/-- A slice does not begin with a shebang line, as no expression has a `!` behind its first sign. -/
theorem shebang?_eq_none (h : b.Row source l gap lexeme text ts l')
    (hstarts : (cursor b ts 0).Starts) :
    (Lexer.ofString (String.ofList (lexeme ++ text))).shebang? = none := by
  simp only [Lexer.shebang?, Lexer.ofString, String.toList_ofList]
  split
  · next cs _ hcs =>
    exfalso
    have hlexeme := h.finds.lexeme
    obtain ⟨c, tail, rfl⟩ := List.exists_cons_of_ne_nil hlexeme.ne_nil
    obtain ⟨rfl, hcs⟩ := List.cons.inj hcs
    obtain ⟨hk, rfl⟩ := hlexeme.eq_hash
    have hcs : text = '!' :: cs := List.cons.inj hcs |>.2
    have hothers := h.others
    rw [hcs] at hothers
    generalize hl₁ : l.moved _ _ _ _ = l₁ at hothers
    generalize htext : '!' :: cs = text' at hothers
    cases hothers with
    | nil => cases htext
    | @cons _ _ gap' lexeme' rest' text'' kind ts hfinds hall =>
      have hsecond : kind.startsExpression = true := hstarts.second hk _ rfl
      obtain ⟨c, tail, rfl, -, hc⟩ := hfinds.lexeme.head_of_startsExpression hsecond
      have hgap := hfinds.gap
      cases gap' with
      | nil =>
        obtain ⟨rfl, -⟩ := List.cons.inj htext
        simp at hc
      | cons g gap' =>
        obtain ⟨rfl, -⟩ := List.cons.inj htext
        generalize hg : '!' :: gap' = gap'' at hgap
        cases hgap with
        | blanks hspaces =>
          have hblank := (hspaces '!' (by rw [← hg]; exact List.mem_cons_self)).1
          exact absurd hblank (by decide +kernel)
        | @comment spaces _ hspaces =>
          cases spaces with
          | nil => cases hg
          | cons s spaces =>
            obtain ⟨rfl, -⟩ := List.cons.inj hg
            exact absurd (hspaces '!' List.mem_cons_self).1 (by decide +kernel)
  · rfl

/-- In front of the slice there is the row again. -/
theorem exists_cursor (h : b.Row source l gap lexeme text ts l')
    (hcode : ∀ t ∈ b.current :: ts, ∀ payload, t.kind ≠ .magic payload)
    (hstarts : (cursor b ts 0).Starts) :
    ∃ c, Cursor.ofString (String.ofList (lexeme ++ text)) = .ok c ∧
      (cursor b ts 0).Alike ⟨none, [], []⟩ 0 c ∧ c.current.kind = b.current.kind ∧
        c.problems = [] := by
  have hnone := h.shebang?_eq_none hstarts
  generalize hm : Lexer.ofString (String.ofList (lexeme ++ text)) = m at hnone
  have hrest : m.rest = lexeme ++ text := by
    rw [← hm]
    exact String.toList_ofList
  obtain ⟨hfirst, hothers⟩ := List.forall_mem_cons.1 hcode
  have hfinds : m.Finds [] lexeme text b.current.kind :=
    ⟨hrest, isGap_nil, h.finds.lexeme, h.finds.ends.of_append, fun p hp => absurd hp (hfirst p)⟩
  have hk : b.current.kind ≠ .endOfInput := h.finds.lexeme.kind_ne.1
  have hstream := Lexer.stream_of_next (hfinds.next hnone) hk
  have hahead := h.others.alike hothers (m := m.moved [] lexeme text b.current.kind) rfl
    hfinds.shebang?_moved (b.current.kind.depthAfter 0)
  have hopen : (cursor b ts 0).looksAt .openBracket = false := by
    have hstart : b.current.kind.startsExpression = true := hstarts.first
    refine beq_eq_false_iff_ne.2 fun hopen => ?_
    change b.current.kind = _ at hopen
    rw [hopen] at hstart
    cases hstart
  refine ⟨⟨m.tokenBehind [] lexeme b.current.kind, (m.moved [] lexeme text b.current.kind).stream,
    .start, 0, []⟩, ?_, ?_, rfl, rfl⟩
  · rw [Cursor.ofString, hm, hstream]
    rfl
  · have hstop : (cursor b ts 0).current.span.stop.offset =
        (l.moved gap lexeme (text ++ l'.rest) b.current.kind).position.offset := by
      change b.current.span.stop.offset = _
      rw [h.current]
      rfl
    rw [← hstop] at hahead
    have hmatches : (cursor b ts 0).Matches ⟨none, [], []⟩
        ⟨m.tokenBehind [] lexeme b.current.kind, (m.moved [] lexeme text b.current.kind).stream,
          .start, 0, []⟩ :=
      ⟨.inl ⟨rfl, fun _ => rfl, hahead⟩, rfl, [], [], rfl, rfl, .nil⟩
    exact hmatches.alike hopen

end Row
end Cursor

/-- The text is an expression that differs from the given one in places only, and nothing else. -/
structure Parsed.IsExpression (e : Expr) (p : Parsed) : Prop where
  errors : p.errors = []
  shebang : p.program.shebang = none
  statements : ∃ e', p.program.statements = [.expression e'] ∧ e'.erase = e.erase

namespace Grammar
variable {source : String} {c c' b b' : Cursor} {e e' : Expr}

theorem atStatementEnd_of_startsExpression (hstart : c.current.kind.startsExpression = true) :
    atStatementEnd c = false := by
  rw [atStatementEnd, Cursor.atSeparator, Cursor.atEnd]
  generalize c.current.kind = k at hstart
  cases k with
  | punct p => cases p <;> first | rfl | cases hstart
  | newline | endOfInput => cases hstart
  | _ => rfl

theorem run_statement (hstart : c.current.kind.startsExpression = true)
    (h : expression.run c = (.ok e, c')) :
    (statement (level maxNesting)).run c = (.ok (.expression e), c') := by
  rw [statement, run_bind, run_look]
  dsimp only
  split
  · next payload hk =>
    rw [hk] at hstart
    cases hstart
  · have hlevel : (level maxNesting).expression.run c = (.ok e, c') := h
    rw [run_bind, hlevel]
    rfl

/-- A text of which an expression is all there is. -/
theorem isExpression_of_run (hc : Cursor.ofString source = .ok c)
    (hstart : c.current.kind.startsExpression = true) (h : expression.run c = (.ok e', c'))
    (hend : c'.atEnd = true) (herase : e'.erase = e.erase) :
    (parse source false).IsExpression e := by
  have hwarned : c'.Warned := by
    have hends := (warned_ofString hc).ends ((level_lawful maxNesting).expression c)
    rwa [show ((level maxNesting).expression.run c) = _ from h] at hends
  have hoptional : (optionalStatement false).run c = (.ok ⟨[.expression e'], none⟩, c') := by
    rw [run_optionalStatement, atStatementEnd_of_startsExpression hstart, run_statement hstart h]
    simp [atStatementEnd, hend]
  have htop : topLevel false c = (⟨[.expression e'], none⟩, c') := by
    rw [topLevel, collect_ok hoptional, if_pos hend]
  have hshebang : shebang.run c = (.ok none, c) := by
    refine run_shebang_of_ne fun text hk => ?_
    rw [hk] at hstart
    cases hstart
  have hprogram : program false c =
      (⟨⟨none, [.expression e'], ⟨.start, c'.current.span.stop⟩⟩, none⟩, c') := by
    rw [program, hshebang]
    simp only [htop]
  rw [parse_eq_found hc, hprogram]
  refine ⟨?_, rfl, e', rfl, herase⟩
  rw [errors_found hwarned]
  rfl

/-- What stands alone between two cursors is the text between them. -/
theorem isExpression_of_alone (htext : b.InText source) (hlegal : b.Legal) (h : b.Alone e b') :
    (parse (Span.slice ⟨b.current.span.start, b'.lastEnd⟩ source) false).IsExpression e := by
  obtain ⟨k, hk, hadvances, halone⟩ := h
  obtain ⟨k, rfl⟩ : ∃ i, k = i + 1 := ⟨k - 1, by omega⟩
  have hstart : b.current.kind.startsExpression = true := by
    obtain ⟨d, hd⟩ := hadvances.exists_cut
    obtain ⟨d', hrun, -⟩ := halone d hd
    have hstarts := (expression_starts e d' hrun).first
    rwa [(hd.sees (Nat.succ_pos k)).current] at hstarts
  obtain ⟨l, gap, lexeme, text, ts, l', hrow, rfl, hlast⟩ := htext.row hstart hadvances
  have hfinishes (depth : Nat) := halone _ (hrow.cut depth)
  have hcode : ∀ t ∈ b.current :: ts, ∀ payload, t.kind ≠ .magic payload := by
    have hcut : b.ahead.Cut ts.length (.ofTokens ts) := by
      rw [hrow.ahead]
      exact hrow.others.cut hrow.finds.shebang?_moved
    have hlegal' : (Cursor.Row.cursor b ts b.depth).Legal :=
      ⟨hlegal.1, TokenStream.Each.cut hlegal.2 hcut fun _ _ _ => nofun⟩
    have hends : ∀ t ∈ b.current :: ts, t.kind ≠ .endOfInput :=
      List.forall_mem_cons.2 ⟨hrow.finds.lexeme.kind_ne.1, hrow.others.kind_ne⟩
    exact kind_ne_magic (d := Cursor.Row.cursor b ts b.depth) hlegal' rfl rfl hends
      (hfinishes b.depth)
  obtain ⟨d', hrun, hend⟩ := hfinishes 0
  have hstarts := expression_starts e d' hrun
  obtain ⟨c, hc, halike, hkind, -⟩ := hrow.exists_cursor hcode hstarts
  have hsame := (level_alike ⟨none, [], []⟩ maxNesting).expression halike
  change Same _ Expr.erase 0 (expression.run _) (expression.run c) at hsame
  rw [hrun] at hsame
  generalize hrun' : expression.run c = r at hsame
  cases hsame with
  | @ok _ e' _ c' herase halike' =>
    have hend' : c'.atEnd = true := by
      rcases halike'.place with hlevel | hseam
      · rw [Cursor.atEnd, ← hlevel.kind]
        exact hend
      · cases hseam.seam
    rw [hrow.slice_eq hlast]
    exact isExpression_of_run hc (by rw [hkind]; exact hstart) hrun' hend' herase.symm

/-- The text of every expression in a program is that expression. -/
theorem parse_slice (source : String) (recover again : Bool) (s : Statement)
    (hs : s ∈ (parse source recover).program.statements) (e : Expr)
    (he : (Node.expression e).Within (.statement s)) :
    (parse (e.span.slice source) again).IsExpression e := by
  obtain ⟨c, htext, hlegal, hfrom⟩ := parse_from source recover s hs
  rcases hfrom _ he with ⟨b, hb⟩ | ⟨i, b, b', hadvances, hcovers⟩
  · cases hb
  · have hslice := isExpression_of_alone (htext.advances hadvances)
      (Cursor.Each.reaches hlegal hadvances.reaches) (hcovers.alone e rfl)
    rw [← hcovers.span] at hslice
    exact (parse_eq_of_errors_eq_nil hslice.errors) ▸ hslice

/-- The exponent of a power is an expression of its own, behind a comment and in a text with an
error, too. -/
theorem parse_slice_exponent :
    ∃ s ∈ (parse "//é\n2^-3 )" true).program.statements, ∃ span base exponent,
      s = .expression (.power span base exponent) ∧
        (parse (exponent.span.slice "//é\n2^-3 )") false).IsExpression exponent := by
  have hpower : (parse "//é\n2^-3 )" true).program.statements.any
      (fun s => s.expression?.any (·.rank == .power)) = true := by
    decide +kernel
  obtain ⟨s, hs, hrank⟩ := List.any_eq_true.1 hpower
  cases s with
  | magic => cases hrank
  | expression x =>
    cases x with
    | power span base exponent =>
      have hexponent : (Node.expression exponent).Within
          (.statement (.expression (.power span base exponent))) :=
        .part (List.mem_singleton_self _) (.part (by simp [Node.parts, Expr.parts]) (.refl _))
      exact ⟨_, hs, span, base, exponent, rfl,
        parse_slice "//é\n2^-3 )" true false _ hs exponent hexponent⟩
    | binary span op => cases op <;> cases hrank
    | _ => cases hrank

end Grammar
end WqSource
