import WqSource.Proofs.Complete.Operator
import WqSource.Proofs.Sound.Program

/-!
# Programs that are written are read back

The statements of a program are written on lines of their own, and the shebang on the first
one. Read again they give the same statements, and there is nothing to find fault with.

## Main definitions

* `Program.kinds`: the tokens a program is written with.

## Main statements

* `parse_rereads`.
-/

namespace WqSource
open Grammar WqSource.Parser
open Token.Kind (front StartsExpression)

/-- The tokens of statements, with line feeds between them. -/
def Statement.listKinds (ss : List Statement) : List Token.Kind :=
  [.newline].intercalate (ss.map Statement.kinds)

/-- The tokens of a program. -/
def Program.kinds (p : Program) : List Token.Kind := Piece.kinds p.pieces

theorem Program.kinds_eq (p : Program) :
    p.kinds = [.newline].intercalate
      ((p.shebang.map fun text => [.shebang text]).toList ++ p.statements.map Statement.kinds) := by
  unfold kinds pieces
  rw [Piece.kinds_intercalate, List.map_append, List.map_map]
  cases p.shebang <;> rfl

namespace Grammar
variable {c : Cursor} {ks : List Token.Kind}

theorem atStatementEnd_views (hc : c.Views ks) :
    atStatementEnd c = ((front ks).isSeparator || front ks == .endOfInput) := by
  rw [atStatementEnd, hc.atSeparator, Cursor.atEnd, hc.kind]

/-- A statement of a program is read back in front of a line feed, or of the end. -/
theorem optionalStatement_rereads {s : Statement} (hs : s.Regular)
    (hks : front ks = .newline ∨ front ks = .endOfInput) (hc : c.Views (s.kinds ++ ks)) :
    ∃ s' c', (optionalStatement false).run c = (.ok ⟨[s'], none⟩, c') ∧ s'.erase = s.erase ∧
      c'.Views ks := by
  have hjoins : (front ks).joinsAt? true = none := by rcases hks with h | h <;> rw [h] <;> rfl
  obtain ⟨s', c', hrun, hs', hc'⟩ : (statement (level maxNesting)).Succeeds c fun s' c' =>
      s'.erase = s.erase ∧ c'.Views ks := by
    cases s with
    | expression e =>
      exact statement_rereads (level_complete maxNesting) ⟨maxDepth, rfl, hs⟩ hjoins c hc
    | magic span payload =>
      obtain ⟨c', ht, hc'⟩ := hc.take
      have hk : c.current.kind = .magic payload := hc.kind
      refine Succeeds.look_bind ?_
      rw [hk]
      exact Succeeds.bind (Succeeds.take ht (Succeeds.pure ⟨rfl, hc'⟩))
  have hstart : atStatementEnd c = false := by
    rw [atStatementEnd_views hc]
    cases s with
    | expression e =>
      obtain ⟨k, ls, hk, hstart, -⟩ := Expr.kinds_eq_cons hs
      have hword := Token.Kind.isWord_of_startsExpression hstart
      simpa [hk, Token.Kind.isWord] using hword
    | magic => rfl
  have hend : atStatementEnd c' = true := by
    rw [atStatementEnd_views hc']
    rcases hks with h | h <;> rw [h] <;> rfl
  exact ⟨s', c', by rw [run_optionalStatement, if_neg (by simp [hstart]), hrun]; exact if_pos hend,
    hs', hc'⟩

/-- Where nothing stands but a line feed or the end, there is no statement. -/
theorem optionalStatement_none (hks : front ks = .newline ∨ front ks = .endOfInput)
    (hc : c.Views ks) : (optionalStatement false).run c = (.ok ⟨[], none⟩, c) := by
  rw [run_optionalStatement, if_pos]
  rw [atStatementEnd_views hc]
  rcases hks with h | h <;> rw [h] <;> rfl

/-- A part of a program and a line feed behind it are collected, and the rest is. -/
theorem topLevel_newline {items : List Statement} {c₁ : Cursor}
    (hrun : (optionalStatement false).run c = (.ok ⟨items, none⟩, c₁))
    (hc₁ : c₁.Views (.newline :: ks)) :
    ∃ c₂, c₂.Views ks ∧ (topLevel false c).1 =
      ⟨items ++ (topLevel false c₂).1.result, (topLevel false c₂).1.failure⟩ := by
  obtain ⟨c₂, ht, hc₂⟩ := hc₁.take
  refine ⟨c₂, hc₂, ?_⟩
  rw [topLevel, collect_ok hrun, if_neg (by simp [hc₁.atEnd_eq_false]),
    if_pos (by simp [hc₁.atSeparator, Token.Kind.isSeparator]), ht]
  rfl

theorem topLevel_end {items : List Statement} {c₁ : Cursor}
    (hrun : (optionalStatement false).run c = (.ok ⟨items, none⟩, c₁)) (hc₁ : c₁.Views []) :
    (topLevel false c).1 = ⟨items, none⟩ := by
  rw [topLevel, collect_ok hrun, if_pos (show c₁.atEnd = true from hc₁)]

/-- Behind the last part of a program a line feed may stand. -/
theorem topLevel_last {items : List Statement} {c₁ : Cursor} (hks : ks = [] ∨ ks = [.newline])
    (hrun : (optionalStatement false).run c = (.ok ⟨items, none⟩, c₁)) (hc₁ : c₁.Views ks) :
    (topLevel false c).1 = ⟨items, none⟩ := by
  rcases hks with rfl | rfl
  · exact topLevel_end hrun hc₁
  · obtain ⟨c₂, hc₂, hall⟩ := topLevel_newline hrun hc₁
    rw [hall, topLevel_end (optionalStatement_none (.inr rfl) hc₂) hc₂, List.append_nil]

theorem front_of_last (hks : ks = [] ∨ ks = [.newline]) :
    front ks = .newline ∨ front ks = .endOfInput := by
  rcases hks with rfl | rfl
  · exact .inr rfl
  · exact .inl rfl

theorem listKinds_cons (s : Statement) (ss : List Statement) :
    Statement.listKinds (s :: ss) =
      s.kinds ++ (ss.map Statement.kinds).flatMap ([.newline] ++ ·) :=
  intercalate_cons_eq_flatMap _ _ _

theorem topLevel_rereads {ss : List Statement} (hss : ∀ s ∈ ss, s.Regular)
    (hks : ks = [] ∨ ks = [.newline]) (hc : c.Views (Statement.listKinds ss ++ ks)) :
    (topLevel false c).1.failure = none ∧
      (topLevel false c).1.result.map Statement.erase = ss.map Statement.erase := by
  induction ss generalizing c with
  | nil =>
    have hc : c.Views ks := hc
    rw [topLevel_last hks (optionalStatement_none (front_of_last hks) hc) hc]
    exact ⟨rfl, rfl⟩
  | cons s ss ih =>
    rw [listKinds_cons, List.append_assoc] at hc
    cases ss with
    | nil =>
      obtain ⟨s', c₁, hrun, hs', hc₁⟩ :=
        optionalStatement_rereads (hss s (by simp)) (front_of_last hks) hc
      rw [topLevel_last hks hrun hc₁]
      exact ⟨rfl, by simp [hs']⟩
    | cons t ts =>
      obtain ⟨s', c₁, hrun, hs', hc₁⟩ := optionalStatement_rereads (hss s (by simp)) (.inl rfl) hc
      obtain ⟨c₂, hc₂, hall⟩ := topLevel_newline hrun hc₁
      obtain ⟨hfailure, hresult⟩ := ih (fun s h => hss s (by simp [h])) (c := c₂) (by
        rw [listKinds_cons]
        exact hc₂)
      rw [hall]
      exact ⟨hfailure, by simp [hs', hresult]⟩

/-- The first token of a statement is no shebang. -/
theorem front_ne_shebang {ss : List Statement} (hss : ∀ s ∈ ss, s.Regular)
    (hks : ks = [] ∨ ks = [.newline]) (text : String) :
    front (Statement.listKinds ss ++ ks) ≠ .shebang text := by
  intro hk
  cases ss with
  | nil =>
    have hk : front ks = .shebang text := hk
    rcases front_of_last hks with h | h <;> cases h.symm.trans hk
  | cons s ss =>
    rw [listKinds_cons, List.append_assoc] at hk
    cases s with
    | expression e =>
      have he : e.Regular maxDepth := hss (.expression e) (by simp)
      obtain ⟨k, ls, hkinds, hstart, -⟩ := Expr.kinds_eq_cons he
      rw [Statement.kinds_expression, hkinds, List.cons_append, Token.Kind.front_cons] at hk
      rw [hk] at hstart
      cases hstart
    | magic => cases hk

/-- A program is read back from its tokens, and a line feed may stand behind it. -/
theorem program_rereads {p : Program} (hp : ∀ s ∈ p.statements, s.Regular)
    (hks : ks = [] ∨ ks = [.newline]) (hc : c.Views (p.kinds ++ ks)) :
    (program false c).1.failure = none ∧ (program false c).1.result.erase = p.erase := by
  obtain ⟨shebang?, statements, span⟩ := p
  rw [Program.kinds_eq] at hc
  -- The line feed behind the shebang is where a statement might end.
  obtain ⟨text, c₁, hrun, rfl, hrest⟩ : shebang.Succeeds c fun text c₁ => text = shebang? ∧
      (topLevel false c₁).1.failure = none ∧
        (topLevel false c₁).1.result.map Statement.erase = statements.map Statement.erase := by
    refine Succeeds.look_bind ?_
    cases shebang? with
    | none =>
      have hc : c.Views (Statement.listKinds statements ++ ks) := hc
      split
      · next text h =>
        rw [hc.kind] at h
        exact absurd h (front_ne_shebang hp hks text)
      · exact Succeeds.pure ⟨rfl, topLevel_rereads hp hks hc⟩
    | some text =>
      simp only [Option.map_some, Option.toList_some, intercalate_cons_eq_flatMap,
        List.cons_append, List.nil_append] at hc
      have hk : c.current.kind = .shebang text := hc.kind
      rw [hk]
      refine Succeeds.bind (Succeeds.discard_take_views hc fun c₁ hc₁ => Succeeds.pure ⟨rfl, ?_⟩)
      cases statements with
      | nil =>
        have hc₁ : c₁.Views ks := hc₁
        rw [topLevel_last hks (optionalStatement_none (front_of_last hks) hc₁) hc₁]
        exact ⟨rfl, rfl⟩
      | cons s ss =>
        obtain ⟨c₂, hc₂, hall⟩ := topLevel_newline
          (optionalStatement_none (.inl rfl) hc₁) hc₁
        rw [hall]
        refine topLevel_rereads hp hks ?_
        rw [listKinds_cons]
        exact hc₂
  simp only [program, hrun]
  exact ⟨hrest.1, by simp [Program.erase, hrest.2]⟩

/-- If the tokens of a text are those of a program, it is read from the text, and there are
no errors. -/
theorem parse_rereads {source : String} {p : Program} (hp : ∀ s ∈ p.statements, s.Regular)
    (hks : ks = [] ∨ ks = [.newline]) (hsource : Cursor.ofString source = .ok c)
    (hc : c.Views (p.kinds ++ ks)) :
    (parse source false).errors = [] ∧ (parse source false).program.erase = p.erase := by
  obtain ⟨hfailure, hresult⟩ := program_rereads hp hks hc
  refine ⟨by rw [errors_parse hsource, hfailure]; rfl, ?_⟩
  rw [parse_eq_read]
  unfold read
  rw [hsource]
  exact hresult

end Grammar
end WqSource
