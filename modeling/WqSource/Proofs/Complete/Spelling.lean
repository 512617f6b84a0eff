import WqSource.Proofs.Complete.Text

/-!
# Texts are put together from parts

A text spells tokens in front of another one if it is their lexemes, each behind a gap, and none
of them runs on into what is behind it. Spelled texts are put side by side, so a text is read
part by part, and each part is known only by how it goes together with its neighbours.

Expressions, in any layout, are parts that go together with every mark behind them but a point.

## Main definitions

* `Spells`: the tokens of a text in front of another.
* `Part`: a text that can stand between marks.

## Main statements

* `Spells.append`, `Spells.shows`.
* `Expr.Regular.part`, `Expr.Regular.shows`: expressions.
-/

namespace WqSource
open Piece (Beside)

variable {rest text text' lexeme : List Char} {k : Token.Kind} {ks ks' : List Token.Kind}

/-! ## Spelled texts -/

/-- In front of `rest` the text is lexemes of the given kinds, each behind a gap. No line for the
host is among them, and opening brackets touch what is in front of them. -/
inductive Spells (rest : List Char) : List Char → List Token.Kind → Prop where
  | nil : Spells rest [] []
  | cons {gap lexeme text : List Char} {k : Token.Kind} {ks : List Token.Kind} :
    IsGap (lexeme ++ (text ++ rest)) gap → k.Lexeme lexeme → k.EndsBefore (text ++ rest) →
      (k = .punct .openBracket → gap = []) → (∀ payload, k ≠ .magic payload) →
        Spells rest text ks → Spells rest (gap ++ (lexeme ++ text)) (k :: ks)

/-- A lexeme in front of what does not make it longer. -/
theorem Spells.token (hlexeme : k.Lexeme lexeme) (hends : k.EndsBefore rest)
    (hmagic : ∀ payload, k ≠ .magic payload) : Spells rest lexeme [k] := by
  have hcons : Spells rest ([] ++ (lexeme ++ [])) [k] :=
    .cons isGap_nil hlexeme hends (fun _ => rfl) hmagic .nil
  simpa using hcons

theorem Spells.punct {p : Punct} (hends : (Token.Kind.punct p).EndsBefore rest) :
    Spells rest p.spelling.toList [.punct p] :=
  .token (.punct p) hends nofun

/-- Spelled texts are put side by side. -/
theorem Spells.append (h : Spells (text' ++ rest) text ks) (h' : Spells rest text' ks') :
    Spells rest (text ++ text') (ks ++ ks') := by
  induction h with
  | nil => exact h'
  | @cons gap lexeme text k ks hgap hlexeme hends hopen hmagic _ ih =>
    rw [← List.append_assoc text] at hgap hends
    have hcons := Spells.cons hgap hlexeme hends hopen hmagic ih
    simpa only [List.append_assoc, List.cons_append] using hcons

/-- What is spelled is what a lexer shows. -/
theorem Spells.shows (h : Spells [] text ks) {l : Lexer} (hrest : l.rest = text)
    (hshebang : l.shebang? = none) : l.stream.Shows ks l.position.offset := by
  induction h generalizing l with
  | nil =>
    have hgap : IsGap [] l.rest := by
      rw [hrest]
      exact isGap_nil
    rw [Lexer.stream_eq, Lexer.next_of_isGap hgap hshebang]
    exact .ended _ _
  | @cons gap lexeme text k ks hgap hlexeme hends hopen hmagic _ ih =>
    rw [List.append_nil] at hgap hends
    have hfinds : l.Finds gap lexeme text k :=
      ⟨hrest, hgap, hlexeme, hends, fun payload hk => absurd hk (hmagic payload)⟩
    have hne : k ≠ .endOfInput := hlexeme.kind_ne.1
    rw [Lexer.stream_of_next (hfinds.next hshebang) hne]
    refine .token (t := l.tokenBehind gap lexeme k) hne ?_ (ih rfl hfinds.shebang?_moved)
    intro hbracket
    rw [hopen hbracket]
    rfl

/-- A cursor in front of a spelled text views its tokens. -/
theorem Spells.views (h : Spells [] text ks) (hsign : text.head? ≠ some '#') :
    ∃ c, Cursor.ofString (String.ofList text) = .ok c ∧ c.Views ks := by
  have hrest : (Lexer.ofString (String.ofList text)).rest = text := String.toList_ofList
  have hshebang : (Lexer.ofString (String.ofList text)).shebang? = none :=
    Lexer.shebang?_eq_none_of_rest fun tail htail => by
      rw [hrest] at htail
      exact hsign (by rw [htail]; rfl)
  exact Cursor.views_of_shows (h.shows hrest hshebang)

/-! ## Parts -/

/-- What may stand behind an expression: a mark that is no point, or nothing. -/
def Closes (rest : List Char) : Prop := ∀ c ∈ rest.head?, c ∈ marks ∧ c ≠ '.'

theorem closes_nil : Closes [] := nofun

theorem closes_cons {c : Char} (hc : c ∈ marks ∧ c ≠ '.') : Closes (c :: rest) := by
  intro d hd
  obtain rfl := Option.some.inj hd
  exact hc

/-- The text begins a token, and line feeds in front of it do not run on into it. -/
def Begins (text : List Char) : Prop :=
  ∃ c tail, text = c :: tail ∧ isSpace c = false ∧ c ≠ '/' ∧ c ≠ '\n'

theorem begins_mark {c : Char} (hc : c ∈ marks) (hslash : c ≠ '/') (hnewline : c ≠ '\n') :
    Begins (c :: rest) :=
  ⟨c, rest, rfl, isSpace_of_mem_marks hc, hslash, hnewline⟩

theorem Begins.append (h : Begins text) : Begins (text ++ rest) := by
  obtain ⟨c, tail, rfl, hc⟩ := h
  exact ⟨c, tail ++ rest, rfl, hc⟩

theorem Begins.newline_endsBefore (h : Begins rest) : Token.Kind.newline.EndsBefore rest := by
  obtain ⟨c, tail, rfl, hspace, hc⟩ := h
  exact Token.Kind.endsBefore_newline hspace hc

/-- A text of tokens that begins where it is put, and ends in front of every mark but a point. -/
structure Part (text : List Char) (ks : List Token.Kind) : Prop where
  begins : Begins text
  spells : ∀ rest, Closes rest → Spells rest text ks

/-! ## Expressions -/

/-- What ends an expression is not made longer by what may stand behind it. -/
theorem Token.Kind.endsBefore_of_closes (hk : k.endsExpression = true) (h : Closes rest) :
    k.EndsBefore rest := by
  cases rest with
  | nil => exact endsBefore_nil
  | cons c tail => exact endsBefore_of_endsExpression hk (.inr (h c rfl))

/-- Pieces that stand side by side spell their tokens, behind blanks, too. -/
theorem spells_of_pieces {ps : List Piece} (hchain : ps.IsChain Beside) (hgap : .gap ∉ ps)
    (hvalid : ∀ k ∈ Piece.kinds ps, k.Valid ∧ k.isCode = true)
    (hlast : ∃ k, ps.getLast? = some (.token k) ∧ k.EndsBefore rest) {gap : List Char}
    (hspaces : ∀ c ∈ gap, c = ' ') (hopen : ∀ qs, ps = .punct .openBracket :: qs → gap = []) :
    Spells rest (gap ++ ps.flatMap Layout.compact.characters) (Piece.kinds ps) := by
  induction ps generalizing gap with
  | nil =>
    obtain ⟨k, hk, -⟩ := hlast
    cases hk
  | cons p ps ih =>
    have hgap' : .gap ∉ ps := fun h => hgap (List.mem_cons_of_mem _ h)
    have hlast' (hne : ps ≠ []) : ∃ k, ps.getLast? = some (.token k) ∧ k.EndsBefore rest := by
      obtain ⟨q, qs, rfl⟩ := List.exists_cons_of_ne_nil hne
      simpa [List.getLast?_cons_cons] using hlast
    cases p with
    | gap => exact absurd (List.mem_cons_self ..) hgap
    | blank =>
      have hne : ps ≠ [] := by
        rintro rfl
        obtain ⟨k, hk, -⟩ := hlast
        cases hk
      have hmore : ∀ c ∈ gap ++ [' '], c = ' ' := List.forall_mem_append.2 ⟨hspaces, by simp⟩
      have htail := ih hchain.tail hgap' hvalid (hlast' hne) hmore fun qs hqs => by
        subst hqs
        exact absurd rfl ((List.isChain_cons.1 hchain).1 _ rfl)
      rw [List.append_assoc] at htail
      exact htail
    | token k =>
      obtain ⟨⟨hk, hcode⟩, hvalid'⟩ := List.forall_mem_cons.1 hvalid
      have hreadBack : k.readBack = k := by
        cases k <;> first | rfl | cases hcode
      have hlexeme := hk.lexeme (by rintro text rfl; cases hcode)
      rw [hreadBack] at hlexeme
      have hgapBlank : IsGap (k.spelling ++ (ps.flatMap Layout.compact.characters ++ rest)) gap :=
        isGap_of_spaces hspaces
      have hmagic (payload : String) : k ≠ .magic payload := by
        rintro rfl
        cases hcode
      have hbracket (h : k = .punct .openBracket) : gap = [] := hopen ps (by rw [h])
      rw [List.flatMap_cons, Piece.kinds_token]
      cases ps with
      | nil =>
        obtain ⟨k', hk', hends⟩ := hlast
        cases hk'
        exact .cons hgapBlank hlexeme hends hbracket hmagic .nil
      | cons q qs =>
        have hnone : ∀ c ∈ ([] : List Char), c = ' ' := by simp
        have htail := ih hchain.tail hgap' hvalid' (hlast' (by simp)) hnone fun _ _ => rfl
        have hbeside := (List.isChain_cons.1 hchain).1 q rfl
        refine .cons hgapBlank hlexeme ?_ hbracket hmagic htail
        rw [List.flatMap_cons, List.append_assoc]
        cases q with
        | token k' => exact hbeside.1 (hvalid' k' List.mem_cons_self).1 _
        | blank => exact hbeside _
        | gap => exact absurd (by simp) hgap'

/-- Expressions are parts, in every layout. -/
theorem Expr.Regular.part {n : Nat} {e : Expr} (he : e.Regular n)
    (hvalid : ∀ k ∈ e.kinds, k.Valid) (l : Layout) : Part (e.text l).toList e.kinds := by
  have hrun := Expr.phrase (l := l) he
  have hkinds : Piece.kinds (l.solid e.pieces) = e.kinds := Layout.kinds_solid l e.pieces
  have htext : (e.text l).toList = (l.solid e.pieces).flatMap Layout.compact.characters :=
    l.rest_write e.pieces
  rw [htext, ← hkinds]
  have hcode := (Expr.balanced he).code
  have hall : ∀ k ∈ Piece.kinds (l.solid e.pieces), k.Valid ∧ k.isCode = true := by
    intro k hk
    rw [hkinds] at hk
    exact ⟨hvalid k hk, hcode k hk⟩
  refine ⟨?_, fun rest hrest => ?_⟩
  · obtain ⟨q, hq, k, rfl, hk⟩ := hrun.head
    obtain ⟨ps, hps⟩ := List.head?_eq_some_iff.1 hq
    rw [hps] at hall ⊢
    obtain ⟨c, tail, hspelling, hspace, hc⟩ := (hall k List.mem_cons_self).1.spelling_eq_cons hk
    simp only [List.mem_cons, List.not_mem_nil, or_false, not_or] at hc
    rw [List.flatMap_cons, show Layout.compact.characters (.token k) = k.spelling from rfl,
      hspelling]
    exact ⟨c, _, rfl, hspace, hc.2.1, hc.2.2.2.2⟩
  · obtain ⟨q, hq, k, rfl, hk⟩ := hrun.last
    have hends := Token.Kind.endsBefore_of_closes hk hrest
    have hlast : ∃ k, (l.solid e.pieces).getLast? = some (.token k) ∧ k.EndsBefore rest :=
      ⟨k, Option.mem_def.1 hq, hends⟩
    have hnone : ∀ c ∈ ([] : List Char), c = ' ' := by simp
    exact spells_of_pieces hrun.chain Layout.gap_notMem_solid hall hlast hnone fun _ _ => rfl

/-- The tokens of the text of a regular tree are its own, however many levels it has. -/
theorem Expr.Regular.shows {n : Nat} {e : Expr} (he : e.Regular n)
    (hvalid : ∀ k ∈ e.kinds, k.Valid) (l : Layout) :
    (Lexer.ofString (e.text l)).stream.Shows e.kinds 0 := by
  have hkinds : ∀ k ∈ Piece.kinds (l.solid e.pieces), k.Valid ∧ ∀ text, k ≠ .shebang text := by
    intro k hk
    rw [Layout.kinds_solid] at hk
    refine ⟨hvalid k hk, ?_⟩
    rintro text rfl
    cases (Expr.balanced he).code _ hk
  have hnone := shebang?_of_pieces (Expr.phrase (l := l) he).chain Layout.gap_notMem_solid hkinds
    (l.rest_write e.pieces)
  exact ((he.part hvalid l).spells [] closes_nil).shows rfl hnone

end WqSource
