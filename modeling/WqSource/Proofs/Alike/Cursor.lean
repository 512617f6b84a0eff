import WqSource.Proofs.Grammar.Faults

/-!
# Two texts with the same tokens

Two cursors are alike if the same kinds of token lie ahead of them, if an opening bracket
touches what is in front of it for both or for neither, and if they have noted the same. The
places of the tokens may differ, and so may what was noted before the two were compared.

The first text may also end where the second has a line feed with more behind it. Outside
all brackets that makes little difference: a statement ends there in both. `Comparison.seam`
is what the second text has behind that line feed.

## Main definitions

* `Comparison`: what two parses are allowed to differ in.
* `TokenStream.Alike`, `Cursor.Matches`, `Cursor.Alike`: the same ahead.
* `Problem.Alike`: the same noted.

## Main statements

* `Cursor.Matches.take`: both cursors take their tokens, or meet the same fault.
-/

namespace WqSource

/-- Line feeds of the second text where the first one ends. -/
structure Seam where
  /-- The byte where they end. -/
  stop : Nat
  /-- What is behind them. -/
  ahead : TokenStream

/-- What two parses are allowed to differ in. -/
structure Comparison where
  /-- Where the first text ends and the second goes on, if it does. -/
  seam : Option Seam
  /-- What the first parse has noted before. -/
  before : List Problem
  /-- What the second parse has noted before. -/
  before' : List Problem

/-- Whether nothing on a line stands behind the token. -/
def Token.Kind.endsLine : Token.Kind → Bool
  | newline | endOfInput => true
  | _ => false

theorem Token.Kind.endsLine_iff {k : Token.Kind} :
    k.endsLine = true ↔ k = .newline ∨ k = .endOfInput := by
  cases k <;> simp [endsLine]

/-! ## Tokens ahead -/

/-- Two streams have the same kinds of token and the same faults, up to the seam if there is
one. The streams start at the given depth, behind tokens that end at the given bytes. -/
inductive TokenStream.Alike (seam : Option Seam) :
    Nat → Nat → Nat → TokenStream → TokenStream → Prop where
  | ended {depth stop stop' : Nat} (place place' : Position) :
    seam = none → Alike seam depth stop stop' (.ended place) (.ended place')
  | stuck {depth stop stop' : Nat} {e e' : LexError} :
    seam = none → e.fault = e'.fault → Alike seam depth stop stop' (.stuck e) (.stuck e')
  | fault {depth stop stop' : Nat} {e e' : LexError} {rest rest' : TokenStream} :
    e.fault = e'.fault → Alike seam depth stop stop' rest rest' →
      Alike seam depth stop stop' (.fault e rest) (.fault e' rest')
  | token {depth stop stop' : Nat} {t t' : Token} {rest rest' : TokenStream} :
    t.kind = t'.kind → t.kind ≠ .endOfInput →
      (t.kind = .punct .openBracket →
        (t.span.start.offset = stop ↔ t'.span.start.offset = stop')) →
      Alike seam (t.kind.depthAfter depth) t.span.stop.offset t'.span.stop.offset rest rest' →
        Alike seam depth stop stop' (.token t rest) (.token t' rest')
  /-- The first text ends, and the second has a line feed there. -/
  | seam {stop stop' : Nat} {t' : Token} {rest' : TokenStream} (place : Position) :
    seam = some ⟨t'.span.stop.offset, rest'⟩ → t'.kind = .newline →
      Alike seam 0 stop stop' (.ended place) (.token t' rest')
  /-- The first text ends behind line feeds, which the second one has, too. -/
  | seamLine {stop stop' : Nat} {t t' : Token} {rest' : TokenStream} (place : Position) :
    seam = some ⟨t'.span.stop.offset, rest'⟩ → t.kind = .newline → t'.kind = .newline →
      Alike seam 0 stop stop' (.token t (.ended place)) (.token t' rest')

/-- Two tokens and what is ahead of them, that are the same up to the seam. -/
def TokenStream.AlikeBehind (seam : Option Seam) (depth : Nat) (t t' : Token)
    (rest rest' : TokenStream) : Prop :=
  t.kind = t'.kind ∧ (t.kind = .endOfInput → seam = none) ∧
      Alike seam (t.kind.depthAfter depth) t.span.stop.offset t'.span.stop.offset rest rest' ∨
    depth = 0 ∧ t.kind.endsLine = true ∧ (∃ place, rest = .ended place) ∧ t'.kind = .newline ∧
      seam = some ⟨t'.span.stop.offset, rest'⟩

/-- Of two streams that are alike, the same is read next. -/
theorem TokenStream.Alike.next {seam : Option Seam} {depth stop stop' : Nat}
    {s s' : TokenStream} (h : Alike seam depth stop stop' s s') :
    (∃ t t' rest rest', s.next = (.ok t, rest) ∧ s'.next = (.ok t', rest') ∧
      AlikeBehind seam depth t t' rest rest' ∧ (t.kind = .punct .openBracket →
        (t.span.start.offset = stop ↔ t'.span.start.offset = stop'))) ∨
      ∃ e e' rest rest', s.next = (.error e, rest) ∧ s'.next = (.error e', rest') ∧
        e.fault = e'.fault ∧ Alike seam depth stop stop' rest rest' := by
  cases h with
  | ended place place' hseam =>
    exact .inl ⟨_, _, _, _, rfl, rfl, .inl ⟨rfl, fun _ => hseam, .ended _ _ hseam⟩, by
      simp [Token.ending]⟩
  | stuck hseam he => exact .inr ⟨_, _, _, _, rfl, rfl, he, .stuck hseam he⟩
  | fault he h => exact .inr ⟨_, _, _, _, rfl, rfl, he, h⟩
  | token hk hend htouch h =>
    exact .inl ⟨_, _, _, _, rfl, rfl, .inl ⟨hk, fun he => absurd he hend, h⟩, htouch⟩
  | seam place hseam hk =>
    exact .inl ⟨_, _, _, _, rfl, rfl, .inr ⟨rfl, rfl, ⟨place, rfl⟩, hk, hseam⟩, by
      simp [Token.ending]⟩
  | seamLine place hseam hk hk' =>
    exact .inl ⟨_, _, _, _, rfl, rfl, .inr ⟨rfl, by simp [hk, Token.Kind.endsLine],
      ⟨place, rfl⟩, hk', hseam⟩, by simp [hk]⟩

/-! ## What is noted -/

/-- Two errors are of the same kind. What they find may differ at the seam. -/
inductive ParseError.Alike (m : Comparison) : ParseError → ParseError → Prop where
  | lexical {e e' : LexError} : e.fault = e'.fault → Alike m (.lexical e) (.lexical e')
  | grammar {g g' : GrammarError} : g.expected = g'.expected →
    (g.found = g'.found ∨
      m.seam ≠ none ∧ g.found.endsLine = true ∧ g'.found.endsLine = true) →
      Alike m (.grammar g) (.grammar g')

/-- Two problems are of the same kind. -/
inductive Problem.Alike (m : Comparison) : Problem → Problem → Prop where
  | failure {e e' : ParseError} : e.Alike m e' → Alike m (.failure e) (.failure e')
  | legacySpelling (name word : String) (s s' : Span) :
    Alike m (.legacySpelling name word s) (.legacySpelling name word s')

namespace Cursor

/-- The two cursors are at the seam: the first one at the end of its text or in front of its
last line feeds, the second one in front of a line feed. -/
structure AtSeam (m : Comparison) (c c' : Cursor) : Prop where
  depth : c.depth = 0
  endsLine : c.current.kind.endsLine = true
  ended : ∃ place, c.ahead = .ended place
  newline : c'.current.kind = .newline
  seam : m.seam = some ⟨c'.current.span.stop.offset, c'.ahead⟩

/-- The current tokens are of the same kind, and the same is ahead. -/
structure Level (m : Comparison) (c c' : Cursor) : Prop where
  kind : c.current.kind = c'.current.kind
  atEnd : c.current.kind = .endOfInput → m.seam = none
  ahead : TokenStream.Alike m.seam (c.current.kind.depthAfter c.depth) c.current.span.stop.offset
    c'.current.span.stop.offset c.ahead c'.ahead

/-- The same is ahead of both cursors, and both have noted the same since they are compared. -/
structure Matches (m : Comparison) (c c' : Cursor) : Prop where
  place : c.Level m c' ∨ c.AtSeam m c'
  depth_eq : c'.depth = c.depth
  problems : ∃ ps ps', c.problems = m.before ++ ps ∧ c'.problems = m.before' ++ ps' ∧
    List.Forall₂ (Problem.Alike m) ps ps'

/-- The cursors match with so many brackets open, and an opening bracket that either looks at
touches the token in front of it for both or for neither. -/
structure Alike (m : Comparison) (depth : Nat) (c c' : Cursor) : Prop extends
    Matches m c c' where
  bracket : c.atAdjacentBracket = c'.atAdjacentBracket
  here : c.depth = depth

namespace Matches
variable {m : Comparison} {c c' : Cursor}

/-- The current tokens are of the same kind, or the cursors are at the seam. -/
theorem kind (h : c.Matches m c') : c.current.kind = c'.current.kind ∨ c.AtSeam m c' :=
  h.place.imp_left Level.kind

/-- In front of a token that does not end its line the cursors are not at the seam. -/
theorem level (h : c.Matches m c') (hk : c.current.kind.endsLine = false) : c.Level m c' := by
  rcases h.place with hlevel | hseam
  · exact hlevel
  · rw [hseam.endsLine] at hk
    cases hk

/-- Inside brackets the cursors are not at the seam. -/
theorem level_of_pos (h : c.Matches m c') (hd : 0 < c.depth) : c.Level m c' := by
  rcases h.place with hlevel | hseam
  · exact hlevel
  · have := hseam.depth
    omega

/-- What is not different at the end of a line is not different for the two cursors. -/
theorem congr {α : Type} (h : c.Matches m c') (f : Token.Kind → α)
    (hf : f .endOfInput = f .newline) : f c.current.kind = f c'.current.kind := by
  rcases h.kind with hk | hseam
  · rw [hk]
  · rw [hseam.newline]
    rcases Token.Kind.endsLine_iff.1 hseam.endsLine with hk | hk
    · rw [hk]
    · rw [hk, hf]

theorem looksAt (h : c.Matches m c') (p : Punct) : c.looksAt p = c'.looksAt p :=
  h.congr (· == .punct p) rfl

theorem unexpected (h : c.Matches m c') (expected : Expectation) :
    (c.unexpected expected).Alike m (c'.unexpected expected) := by
  refine .grammar rfl ?_
  rcases h.kind with hk | hseam
  · exact .inl hk
  · exact .inr ⟨by simp [hseam.seam], hseam.endsLine, by simp [hseam.newline, Token.Kind.endsLine]⟩

/-- In front of anything but an opening bracket there is no more to ask. -/
theorem alike (h : c.Matches m c') (hopen : c.looksAt .openBracket = false) :
    c.Alike m c.depth c' := by
  refine ⟨h, ?_, rfl⟩
  rw [atAdjacentBracket, atAdjacentBracket, ← h.looksAt, hopen, Bool.false_and, Bool.false_and]

/-- Behind matching cursors there are alike ones. -/
theorem shift {t t' : Token} {rest rest' : TokenStream} (h : c.Matches m c')
    (hk : c.current.kind = c'.current.kind)
    (hbehind : TokenStream.AlikeBehind m.seam (c.current.kind.depthAfter c.depth) t t' rest rest')
    (htouch : t.kind = .punct .openBracket →
      (t.span.start.offset = c.current.span.stop.offset ↔
        t'.span.start.offset = c'.current.span.stop.offset)) :
    (c.shift t rest).Alike m (c.current.kind.depthAfter c.depth) (c'.shift t' rest') := by
  have hplace : (c.shift t rest).Level m (c'.shift t' rest') ∨
      (c.shift t rest).AtSeam m (c'.shift t' rest') := by
    rcases hbehind with ⟨hkind, hend, hrest⟩ | ⟨hd, hends, hended, hnewline, hseam⟩
    · exact .inl ⟨hkind, hend, hrest⟩
    · exact .inr ⟨hd, hends, hended, hnewline, hseam⟩
  have hdepth : (c'.shift t' rest').depth = (c.shift t rest).depth := by
    change c'.current.kind.depthAfter c'.depth = c.current.kind.depthAfter c.depth
    rw [← hk, h.depth_eq]
  have hmatches : (c.shift t rest).Matches m (c'.shift t' rest') := ⟨hplace, hdepth, h.problems⟩
  refine ⟨hmatches, ?_, rfl⟩
  rw [atAdjacentBracket, atAdjacentBracket, ← hmatches.looksAt]
  by_cases hopen : t.kind = .punct .openBracket
  · simp [Cursor.looksAt, Cursor.shift, htouch hopen, Bool.beq_eq_decide_eq]
  · have hopen : (t.kind == .punct .openBracket) = false := beq_eq_false_iff_ne.2 hopen
    simp only [Cursor.looksAt, Cursor.shift, hopen, Bool.false_and]

/-- Both cursors take their tokens, or both meet the same fault. -/
theorem take (h : c.Matches m c') (hlevel : c.Level m c') :
    (∃ c₁ c₁', c.take = (.ok c.current, c₁) ∧ c'.take = (.ok c'.current, c₁') ∧
      c₁.Alike m (c.current.kind.depthAfter c.depth) c₁') ∨
      ∃ e e' c₁ c₁', c.take = (.error (.lexical e), c₁) ∧ c'.take = (.error (.lexical e'), c₁') ∧
        e.fault = e'.fault ∧ c₁.Matches m c₁' := by
  rcases hlevel.ahead.next with ⟨t, t', rest, rest', hn, hn', hbehind, htouch⟩ |
    ⟨e, e', rest, rest', hn, hn', he, hrest⟩
  · refine .inl ⟨c.shift t rest, c'.shift t' rest', ?_, ?_, h.shift hlevel.kind hbehind htouch⟩
    · simp [Cursor.take, hn]
    · simp [Cursor.take, hn']
  · refine .inr ⟨e, e', { c with ahead := rest }, { c' with ahead := rest' }, ?_, ?_, he,
      ⟨.inl ⟨hlevel.kind, hlevel.atEnd, hrest⟩, h.depth_eq, h.problems⟩⟩
    · simp [Cursor.take, hn]
    · simp [Cursor.take, hn']

/-- Both cursors see the same behind their tokens, or both meet the same fault. -/
theorem peek (h : c.Matches m c') (hlevel : c.Level m c')
    (hd : 0 < c.current.kind.depthAfter c.depth) :
    (∃ k, c.peek = (.ok k, c) ∧ c'.peek = (.ok k, c')) ∨
      ∃ e e' c₁ c₁', c.peek = (.error (.lexical e), c₁) ∧ c'.peek = (.error (.lexical e'), c₁') ∧
        e.fault = e'.fault ∧ c₁.Matches m c₁' := by
  rcases hlevel.ahead.next with ⟨t, t', rest, rest', hn, hn', hbehind, -⟩ |
    ⟨e, e', rest, rest', hn, hn', he, hrest⟩
  · rcases hbehind with ⟨hk, -⟩ | ⟨hzero, -⟩
    · refine .inl ⟨t.kind, ?_, ?_⟩
      · simp [Cursor.peek, hn]
      · simp [Cursor.peek, hn', hk]
    · omega
  · refine .inr ⟨e, e', { c with ahead := rest }, { c' with ahead := rest' }, ?_, ?_, he,
      ⟨.inl ⟨hlevel.kind, hlevel.atEnd, hrest⟩, h.depth_eq, h.problems⟩⟩
    · simp [Cursor.peek, hn]
    · simp [Cursor.peek, hn']

theorem note {p p' : Problem} (h : c.Matches m c') (hp : p.Alike m p') :
    (c.note p).Matches m (c'.note p') := by
  obtain ⟨ps, ps', hps, hps', hall⟩ := h.problems
  refine ⟨?_, h.depth_eq, ps ++ [p], ps' ++ [p'], ?_, ?_, ?_⟩
  · rcases h.place with hlevel | hseam
    · exact .inl ⟨hlevel.kind, hlevel.atEnd, hlevel.ahead⟩
    · exact .inr ⟨hseam.depth, hseam.endsLine, hseam.ended, hseam.newline, hseam.seam⟩
  · simp [Cursor.note, hps]
  · simp [Cursor.note, hps']
  · exact List.rel_append hall (.cons hp .nil)

end Matches

theorem Alike.note {m : Comparison} {depth : Nat} {c c' : Cursor} {p p' : Problem}
    (h : c.Alike m depth c') (hp : p.Alike m p') : (c.note p).Alike m depth (c'.note p') :=
  ⟨h.toMatches.note hp, h.bracket, h.here⟩

end Cursor
end WqSource
