import WqSource.Proofs.Token.Spelled
import WqSource.Proofs.Tree.Words
import Mathlib.Data.List.Chain

/-!
# Written trees do not run together

In a layout a tree is tokens and blanks. Side by side stand only tokens of which the first one
ends in front of the second, so that no two of them run together, and in front of an opening
bracket of arguments there is never a blank.

A run of pieces is known by its first and its last one, and runs are put together where these
may stand side by side. The tree of an expression is a run that begins with what begins
expressions and ends with what ends them.

## Main definitions

* `Layout.solid`: the pieces of a layout, without gaps.
* `Piece.Beside`, `Layout.Run`: pieces that may stand side by side.

## Main statements

* `Expr.phrase`: expressions.
-/

namespace WqSource
open Piece (enclosed semicolon)

/-! ## Pieces side by side -/

namespace Layout
variable {l : Layout} {ps qs : List Piece}

/-- What a piece is in a layout, if it is anything. -/
def fill : Layout → Piece → Option Piece
  | pretty, .gap => some .blank
  | compact, .gap => none
  | _, p => some p

/-- The tokens and blanks that pieces are in a layout. -/
def solid (l : Layout) (ps : List Piece) : List Piece := ps.filterMap l.fill

@[simp] theorem solid_nil : l.solid [] = [] := rfl

@[simp] theorem solid_append : l.solid (ps ++ qs) = l.solid ps ++ l.solid qs :=
  List.filterMap_append

@[simp] theorem solid_token (k : Token.Kind) :
    l.solid (.token k :: ps) = .token k :: l.solid ps := by
  cases l <;> rfl

@[simp] theorem solid_blank : l.solid (.blank :: ps) = .blank :: l.solid ps := by
  cases l <;> rfl

theorem gap_notMem_solid : .gap ∉ l.solid ps := by
  intro h
  obtain ⟨p, -, hp⟩ := List.mem_filterMap.1 h
  cases l <;> cases p <;> simp [fill] at hp

/-- The tokens of pieces are the same in every layout. -/
theorem kinds_solid (l : Layout) (ps : List Piece) : Piece.kinds (l.solid ps) = Piece.kinds ps := by
  rw [Piece.kinds, solid, List.filterMap_filterMap, Piece.kinds]
  congr 1
  funext p
  cases l <;> cases p <;> rfl

/-- Without gaps, the text of pieces is the same in every layout. -/
theorem flatMap_solid (l : Layout) (ps : List Piece) :
    (l.solid ps).flatMap compact.characters = ps.flatMap l.characters := by
  induction ps with
  | nil => rfl
  | cons p ps ih =>
    rw [List.flatMap_cons, ← ih]
    cases l <;> cases p <;> rfl

end Layout

/-- Whether two pieces may stand side by side. A hash stands in front of its operand only, so
that it does not begin a shebang line. -/
def Piece.Beside : Piece → Piece → Prop
  | token k, token k' => k.Parts k' ∧ (k = .punct .hash → k'.startsExpression = true)
  | token k, blank => ∀ rest, k.EndsBefore (' ' :: rest)
  | blank, token k => k ≠ .punct .openBracket
  | blank, blank => True
  | gap, _ | _, gap => False

theorem Piece.beside_of_parts {k k' : Token.Kind} (h : k.Parts k') (hk : k ≠ .punct .hash) :
    (token k).Beside (token k') :=
  ⟨h, fun hash => absurd hash hk⟩

/-- Brackets end in front of everything. -/
theorem Piece.beside_of_ends (o : Punct) (h : ∀ rest, (Token.Kind.punct o).EndsBefore rest)
    (ho : o ≠ .hash) (k : Token.Kind) : (punct o).Beside (token k) :=
  beside_of_parts (fun _ _ => h _) (by simpa using ho)

/-- In a layout the pieces may stand side by side. Of the first and the last of them the given
properties hold. -/
structure Layout.Run (l : Layout) (First Last : Piece → Prop) (ps : List Piece) : Prop where
  head : ∃ p ∈ (l.solid ps).head?, First p
  last : ∃ p ∈ (l.solid ps).getLast?, Last p
  chain : (l.solid ps).IsChain Piece.Beside

namespace Layout.Run
variable {l : Layout} {First Last First' Last' : Piece → Prop} {ps qs sep : List Piece} {p : Piece}

theorem mono (h : l.Run First Last ps) (hfirst : ∀ p, First p → First' p)
    (hlast : ∀ p, Last p → Last' p) : l.Run First' Last' ps := by
  obtain ⟨⟨p, hp, hhead⟩, ⟨q, hq, hback⟩, hchain⟩ := h
  exact ⟨⟨p, hp, hfirst p hhead⟩, ⟨q, hq, hlast q hback⟩, hchain⟩

theorem congr (h : l.Run First Last ps) (heq : l.solid ps = l.solid qs) : l.Run First Last qs := by
  obtain ⟨hhead, hlast, hchain⟩ := h
  exact ⟨heq ▸ hhead, heq ▸ hlast, heq ▸ hchain⟩

theorem token (k : Token.Kind) : l.Run (· = .token k) (· = .token k) [.token k] :=
  ⟨by simp, by simp, by simp⟩

theorem blank : l.Run (· = .blank) (· = .blank) [.blank] := ⟨by simp, by simp, by simp⟩

/-- Runs are put together where the last piece of the one and the first of the other may stand
side by side. -/
theorem append (h : l.Run First Last ps) (h' : l.Run First' Last' qs)
    (hbeside : ∀ p q, Last p → First' q → p.Beside q) : l.Run First Last' (ps ++ qs) := by
  obtain ⟨⟨a, ha, hfirst⟩, ⟨b, hb, hlast⟩, hchain⟩ := h
  obtain ⟨⟨a', ha', hfirst'⟩, ⟨b', hb', hlast'⟩, hchain'⟩ := h'
  refine ⟨⟨a, ?_, hfirst⟩, ⟨b', ?_, hlast'⟩, ?_⟩
  · rw [solid_append, List.head?_append, Option.mem_def.1 ha]
    rfl
  · rw [solid_append, List.getLast?_append, Option.mem_def.1 hb']
    rfl
  · rw [solid_append, List.isChain_append]
    refine ⟨hchain, hchain', fun x hx y hy => ?_⟩
    obtain rfl := Option.mem_unique hb hx
    obtain rfl := Option.mem_unique ha' hy
    exact hbeside b a' hlast hfirst'

/-- Runs with a separator between every two. -/
theorem intercalate {pss : List (List Piece)} (hne : pss ≠ [])
    (h : ∀ ps ∈ pss, l.Run First Last ps) (hsep : l.Run First' Last' sep)
    (hfront : ∀ p q, Last p → First' q → p.Beside q)
    (hback : ∀ p q, Last' p → First q → p.Beside q) : l.Run First Last (sep.intercalate pss) := by
  obtain ⟨ps, pss, rfl⟩ := List.exists_cons_of_ne_nil hne
  have hfirst := h ps (by simp)
  replace h : ∀ qs ∈ pss, l.Run First Last qs := fun qs hqs => h qs (by simp [hqs])
  rw [intercalate_cons_eq_flatMap]
  clear hne
  induction pss generalizing ps with
  | nil => simpa using hfirst
  | cons qs pss ih =>
    rw [List.flatMap_cons, ← List.append_assoc, ← List.append_assoc]
    have hnext := (hfirst.append hsep hfront).append (h qs (by simp)) hback
    exact ih _ hnext fun rs hrs => h rs (by simp [hrs])

/-- A run in brackets, or nothing. -/
theorem enclosed {o c : Punct} (h : ps = [] ∨ l.Run First Last ps)
    (ho : ∀ rest, (Token.Kind.punct o).EndsBefore rest) (hhash : o ≠ .hash)
    (hfront : ∀ p, First p → (Piece.punct o).Beside p)
    (hback : ∀ p, Last p → p.Beside (Piece.punct c)) :
    l.Run (· = .punct o) (· = .punct c) (enclosed o c ps) := by
  rw [Piece.enclosed]
  rcases h with rfl | h
  · refine append (token (.punct o)) (token (.punct c)) ?_
    rintro p q rfl rfl
    exact Piece.beside_of_ends o ho hhash _
  · refine append (append (token (.punct o)) h ?_) (token (.punct c)) ?_
    · rintro p q rfl hq
      exact hfront q hq
    · rintro p q hp rfl
      exact hback p hp

end Layout.Run

/-! ## Phrases -/

namespace Piece

/-- A token that begins expressions. -/
def Starts (p : Piece) : Prop := ∃ k : Token.Kind, p = token k ∧ k.startsExpression = true

/-- A token that ends expressions. -/
def Ends (p : Piece) : Prop := ∃ k : Token.Kind, p = token k ∧ k.endsExpression = true

/-- What may stand behind expressions. -/
def Follows (p : Piece) : Prop := ∀ k : Token.Kind, k.endsExpression = true → (token k).Beside p

/-- What may stand in front of expressions. -/
def Precedes (p : Piece) : Prop := ∀ k : Token.Kind, k.startsExpression = true → p.Beside (token k)

theorem Ends.beside {p q : Piece} (hp : p.Ends) (hq : q.Follows) : p.Beside q := by
  obtain ⟨k, rfl, hk⟩ := hp
  exact hq k hk

theorem Precedes.beside {p q : Piece} (hp : p.Precedes) (hq : q.Starts) : p.Beside q := by
  obtain ⟨k, rfl, hk⟩ := hq
  exact hp k hk

theorem follows_punct {p : Punct} (hp : p ≠ .dot) : (punct p).Follows :=
  fun _ hk => beside_of_parts (Token.Kind.parts_punct hk hp) (by rintro rfl; cases hk)

theorem follows_blank : blank.Follows :=
  fun _ hk _ => Token.Kind.endsBefore_of_endsExpression hk (.inl rfl)

theorem follows_newline : (token .newline).Follows :=
  fun _ hk => beside_of_parts (Token.Kind.parts_newline hk) (by rintro rfl; cases hk)

theorem precedes_punct (p : Punct) : (punct p).Precedes :=
  fun _ hk => ⟨Token.Kind.punct_parts p hk, fun _ => hk⟩

theorem precedes_newline : (token .newline).Precedes :=
  fun _ hk => beside_of_parts (Token.Kind.newline_parts hk) nofun

theorem precedes_blank : blank.Precedes := by
  rintro k hk rfl
  cases hk

end Piece

open Piece (Starts Ends Follows Precedes)

namespace Layout
variable {l : Layout} {ps qs m : List Piece} {p : Punct}

/-- Pieces that begin and end as expressions do. -/
abbrev Phrase (l : Layout) (ps : List Piece) : Prop := l.Run Starts Ends ps

/-- Pieces that may stand between expressions. -/
abbrev Link (l : Layout) (ps : List Piece) : Prop := l.Run Follows Precedes ps

theorem Phrase.link (h : l.Phrase ps) (hm : l.Link m) (h' : l.Phrase qs) :
    l.Phrase (ps ++ m ++ qs) :=
  (h.append hm fun _ _ => Ends.beside).append h' fun _ _ => Precedes.beside

theorem Phrase.intercalate {pss : List (List Piece)} (hne : pss ≠ [])
    (h : ∀ ps ∈ pss, l.Phrase ps) (hm : l.Link m) : l.Phrase (m.intercalate pss) :=
  Run.intercalate hne h hm (fun _ _ => Ends.beside) fun _ _ => Precedes.beside

/-- A token that is all of an expression. -/
theorem Phrase.token {k : Token.Kind} (hstart : k.startsExpression = true)
    (hend : k.endsExpression = true) : l.Phrase [.token k] := by
  refine (Run.token k).mono ?_ ?_
  · rintro p rfl
    exact ⟨k, rfl, hstart⟩
  · rintro p rfl
    exact ⟨k, rfl, hend⟩

/-- Operators in front of an operand. -/
theorem Phrase.ops (ops : List UnaryOp) (h : l.Phrase ps) :
    l.Phrase (ops.map (.punct ·.punct) ++ ps) := by
  induction ops with
  | nil => exact h
  | cons op ops ih =>
    have hop : l.Run Starts Precedes [.punct op.punct] := by
      refine (Run.token _).mono ?_ ?_
      · rintro p rfl
        exact ⟨_, rfl, op.startsExpression_punct⟩
      · rintro p rfl
        exact Piece.precedes_punct _
    exact hop.append ih fun _ _ => Precedes.beside

theorem link_punct (hp : p ≠ .dot) : l.Link [.punct p] := by
  refine (Run.token _).mono ?_ ?_
  · rintro q rfl
    exact Piece.follows_punct hp
  · rintro q rfl
    exact Piece.precedes_punct p

theorem link_newline : l.Link [.token .newline] := by
  refine (Run.token _).mono ?_ ?_
  · rintro q rfl
    exact Piece.follows_newline
  · rintro q rfl
    exact Piece.precedes_newline

theorem link_blank : l.Link [.blank] := by
  refine Run.blank.mono ?_ ?_
  · rintro q rfl
    exact Piece.follows_blank
  · rintro q rfl
    exact Piece.precedes_blank

theorem run_punct_gap (p : Punct) : l.Run (· = .punct p) Precedes [.punct p, .gap] := by
  cases l with
  | compact =>
    have hrun : compact.Run (· = .punct p) Precedes [.punct p] := by
      refine (Run.token _).mono (fun _ => id) ?_
      rintro q rfl
      exact Piece.precedes_punct p
    exact hrun.congr rfl
  | pretty =>
    have hrun : pretty.Run (· = .punct p) Precedes ([.punct p] ++ [.blank]) := by
      refine (Run.token _).append (Run.blank.mono (fun _ => id) ?_) ?_
      · rintro q rfl
        exact Piece.precedes_blank
      · rintro q r rfl rfl
        exact fun _ => Token.Kind.endsBefore_punct (by decide)
    exact hrun.congr rfl

/-- A mark with a gap behind it. -/
theorem link_punct_gap (hp : p ≠ .dot) : l.Link [.punct p, .gap] := by
  refine (run_punct_gap p).mono ?_ fun _ => id
  rintro q rfl
  exact Piece.follows_punct hp

/-- A mark with gaps on both sides. -/
theorem link_gap_punct_gap (hp : p ≠ .dot) (hbracket : p ≠ .openBracket) :
    l.Link [.gap, .punct p, .gap] := by
  cases l with
  | compact => exact (link_punct hp).congr rfl
  | pretty =>
    have hlink : pretty.Link ([.blank] ++ [.punct p, .gap]) := by
      refine (Run.blank.mono ?_ fun _ => id).append (run_punct_gap p) ?_
      · rintro q rfl
        exact Piece.follows_blank
      · rintro q r rfl rfl
        exact fun hk => hbracket (Token.Kind.punct.inj hk)
    exact hlink.congr rfl

theorem link_semicolon : l.Link semicolon := link_punct_gap (by decide)

/-- Pieces of an expression in brackets, or nothing. -/
theorem Phrase.enclosed (o : Punct) {c : Punct} (h : ps = [] ∨ l.Phrase ps)
    (ho : ∀ rest, (Token.Kind.punct o).EndsBefore rest) (hhash : o ≠ .hash) (hc : c ≠ .dot) :
    l.Run (· = .punct o) (· = .punct c) (enclosed o c ps) :=
  Run.enclosed h ho hhash (fun _ => (Piece.precedes_punct o).beside)
    fun _ hp => hp.beside (Piece.follows_punct hc)

/-- Pieces between brackets that are all of an expression. -/
theorem Run.phrase {o c : Punct} (h : l.Run (· = .punct o) (· = .punct c) ps)
    (ho : (Token.Kind.punct o).startsExpression = true)
    (hc : (Token.Kind.punct c).endsExpression = true) : l.Phrase ps := by
  refine h.mono ?_ ?_
  · rintro p rfl
    exact ⟨_, rfl, ho⟩
  · rintro p rfl
    exact ⟨_, rfl, hc⟩

end Layout

/-! ## Trees -/

section Trees
variable {l : Layout}

/-- Statements of a branch, with what may stand between expressions between every two. -/
theorem Branch.phrase {b : Branch} {m : List Piece} (hb : b.WellShaped)
    (h : ∀ e ∈ b.expressions, l.Phrase e.pieces) (hm : l.Link m) : l.Phrase (b.pieces m) := by
  rw [Branch.pieces_eq]
  refine Layout.Phrase.intercalate (by simpa using hb.1) ?_ hm
  intro ps hps
  obtain ⟨s, hs, rfl⟩ := List.mem_map.1 hps
  obtain ⟨e, he⟩ := Option.isSome_iff_exists.1 (hb.2 s hs)
  have hphrase := h e (List.mem_filterMap.2 ⟨s, hs, he⟩)
  cases s with
  | expression => cases he; exact hphrase
  | magic => cases he

/-- Expressions with semicolons between them, if there are any. -/
theorem Expr.listPieces_phrase {es : List Expr} (h : ∀ e ∈ es, l.Phrase e.pieces) :
    Expr.listPieces semicolon es = [] ∨ l.Phrase (Expr.listPieces semicolon es) := by
  cases es with
  | nil => exact .inl rfl
  | cons e es =>
    rw [Expr.listPieces_eq]
    exact .inr (Layout.Phrase.intercalate (by simp) (by simpa using h) Layout.link_semicolon)

/-- Index brackets and arguments may stand behind expressions. -/
theorem Suffix.run (s : Suffix) (hindices : ∀ e ∈ s.indices, l.Phrase e.pieces)
    (hargument : ∀ e ∈ s.argument?, l.Phrase e.pieces) : l.Run Piece.Follows Ends s.pieces := by
  cases s with
  | index span args =>
    refine (Layout.Phrase.enclosed .openBracket (c := .closeBracket)
      (Expr.listPieces_phrase hindices) (fun _ => trivial) (by decide) (by decide)).mono ?_ ?_
    · rintro p rfl
      exact Piece.follows_punct (by decide)
    · rintro p rfl
      exact ⟨_, rfl, rfl⟩
  | apply arg => exact Layout.link_blank.append (hargument arg rfl) fun _ _ => Precedes.beside

/-- Suffixes behind their base. -/
theorem Layout.Phrase.suffixes {ps : List Piece} {ss : List Suffix} (h : l.Phrase ps)
    (hss : ∀ s ∈ ss, l.Run Piece.Follows Ends s.pieces) :
    l.Phrase (ps ++ Suffix.listPieces ss) := by
  induction ss generalizing ps with
  | nil => simpa [Suffix.listPieces] using h
  | cons s ss ih =>
    rw [Suffix.listPieces, ← List.append_assoc]
    exact ih (h.append (hss s (by simp)) fun _ _ => Ends.beside) fun t ht => hss t (by simp [ht])

/-- Parameters in their brackets. -/
theorem Param.run {params : List Param} (h : params ≠ []) :
    l.Run (· = .punct .openBracket) (· = .punct .closeBracket) (Param.listPieces params) := by
  obtain ⟨p, ps, rfl⟩ := List.exists_cons_of_ne_nil h
  refine Layout.Phrase.enclosed .openBracket (.inr ?_) (fun _ => trivial) (by decide) (by decide)
  refine Layout.Phrase.intercalate (by simp) ?_ Layout.link_semicolon
  intro qs hqs
  obtain ⟨q, -, rfl⟩ := List.mem_map.1 hqs
  exact Layout.Phrase.token rfl rfl

/-- An entry is a symbol, a colon and a value. -/
theorem Entry.phrase {e : Entry} (h : l.Phrase e.value.pieces) : l.Phrase e.pieces := by
  obtain ⟨key, span, value⟩ := e
  have hkey : l.Phrase [.token (.symbol key)] := Layout.Phrase.token rfl rfl
  exact hkey.link (Layout.link_punct_gap (p := .colon) (by decide)) h

/-- Brackets behind what begins a form. -/
theorem Layout.Run.form {First Last : Piece → Prop} {ps : List Piece} {pre : List Piece}
    (hpre : l.Run First Last pre) (hfirst : ∀ p, First p → Starts p)
    (hlast : ∀ p, Last p → p.Beside (.punct .openBracket)) (h : l.Phrase ps) :
    l.Phrase (pre ++ Piece.enclosed .openBracket .closeBracket ps) := by
  refine (hpre.mono hfirst fun _ => id).append
    ((Layout.Phrase.enclosed .openBracket (.inr h) (fun _ => trivial) (by decide) (by decide)).mono
      (fun _ => id) ?_) ?_
  · rintro p rfl
    exact ⟨_, rfl, rfl⟩
  · rintro p q hp rfl
    exact hlast p hp

/-- Entries with semicolons between them, if there are any. -/
theorem Entry.listPieces_phrase {es : List Entry} (h : ∀ e ∈ es, l.Phrase e.value.pieces) :
    Entry.listPieces es = [] ∨ l.Phrase (Entry.listPieces es) := by
  cases es with
  | nil => exact .inl rfl
  | cons e es =>
    rw [Entry.listPieces_eq]
    refine .inr (Layout.Phrase.intercalate (by simp) ?_ Layout.link_semicolon)
    intro ps hps
    obtain ⟨x, hx, rfl⟩ := List.mem_map.1 hps
    exact Entry.phrase (h x hx)

/-- Parameters and a body in braces, each of them optional. -/
theorem Layout.Run.braces (params : List Param) {body : Option Branch}
    (h : ∀ b ∈ body, l.Phrase (b.pieces semicolon)) :
    l.Run (· = .punct .openBrace) (· = .punct .closeBrace)
      (Piece.enclosed .openBrace .closeBrace <| Param.listPieces params ++
        body.elim [] fun b => (if params.isEmpty then [] else [.blank]) ++ b.pieces semicolon) := by
  by_cases hparams : params = []
  · subst hparams
    refine Layout.Phrase.enclosed .openBrace ?_ (fun _ => trivial) (by decide) (by decide)
    cases body with
    | none => exact .inl rfl
    | some b => exact .inr (h b rfl)
  · have hbrackets := Param.run (l := l) hparams
    have hempty : params.isEmpty = false := by simpa using hparams
    cases body with
    | none =>
      refine Layout.Run.enclosed (.inr (hbrackets.congr (by simp))) (fun _ => trivial)
        (by decide) ?_ ?_
      · rintro p rfl
        exact Piece.beside_of_ends .openBrace (fun _ => trivial) (by decide) _
      · rintro p rfl
        exact Piece.beside_of_ends .closeBracket (fun _ => trivial) (by decide) _
    | some b =>
      have hall := (hbrackets.append Layout.link_blank ?_).append (h b rfl)
        fun _ _ => Precedes.beside
      · rw [Option.elim_some, hempty, if_neg (by decide), ← List.append_assoc]
        refine Layout.Run.enclosed (.inr hall) (fun _ => trivial) (by decide) ?_
          fun _ hp => hp.beside (Piece.follows_punct (by decide))
        rintro p rfl
        exact Piece.beside_of_ends .openBrace (fun _ => trivial) (by decide) _
      · rintro p q rfl hq
        exact hq _ rfl

theorem Literal.endsExpression_kind (v : Literal) : v.kind.endsExpression = true := by
  cases v <;> rfl

/-- A regular tree is written as a phrase in every layout. -/
theorem Expr.phrase {n : Nat} {e : Expr} (he : e.Regular n) : l.Phrase e.pieces := by
  refine he.induction (P := fun e => l.Phrase e.pieces) fun e hshape operands nested => ?_
  -- Between a condition and an arm there is a semicolon.
  have headed {condition : Expr} {arm : Branch} (hcondition : l.Phrase condition.pieces)
      (hshape : arm.WellShaped) (harm : ∀ x ∈ arm.expressions, l.Phrase x.pieces) :
      l.Phrase (condition.pieces ++ semicolon ++ arm.pieces semicolon) :=
    hcondition.link Layout.link_semicolon (Branch.phrase hshape harm Layout.link_semicolon)
  -- A name or a mark is what a form begins with.
  have begins {k : Token.Kind} (hstart : k.startsExpression = true)
      (hk : (Piece.token k).Beside (.punct .openBracket)) {ps : List Piece} (hps : l.Phrase ps) :
      l.Phrase (.token k :: enclosed .openBracket .closeBracket ps) := by
    refine (Layout.Run.token k).form ?_ ?_ hps
    · rintro p rfl
      exact ⟨k, rfl, hstart⟩
    · rintro p rfl
      exact hk
  -- A control word has a blank behind it.
  have worded (w : ControlWord) {x : Expr} (hx : l.Phrase x.pieces) :
      l.Phrase (.token (.control w) :: .blank :: x.pieces) :=
    (Layout.Phrase.token (k := .control w) rfl rfl).link Layout.link_blank hx
  cases e with
  | assignment s target value =>
    exact (operands target (by simp [Expr.operands])).link (Layout.link_punct_gap (by decide))
      (nested value (by simp [Expr.nested]))
  | pipe s stages =>
    rw [pieces, listPieces_eq]
    refine Layout.Phrase.intercalate ?_ (by simpa [Expr.operands] using operands)
      (Layout.link_gap_punct_gap (by decide) (by decide))
    obtain ⟨hlength, -⟩ := hshape
    rintro hnil
    simp [List.map_eq_nil_iff.1 hnil] at hlength
  | join s elements =>
    rw [pieces, listPieces_eq]
    refine Layout.Phrase.intercalate ?_ (by simpa [Expr.operands] using operands)
      (Layout.link_punct_gap (by decide))
    obtain ⟨hlength, -⟩ := hshape
    rintro hnil
    simp [List.map_eq_nil_iff.1 hnil] at hlength
  | binary s op left right =>
    refine (operands left (by simp [Expr.operands])).link (Layout.link_gap_punct_gap ?_ ?_)
      (operands right (by simp [Expr.operands]))
    · cases op <;> decide
    · cases op <;> decide
  | unary s ops operand => exact .ops ops (operands operand (by simp [Expr.operands]))
  | power s base exponent =>
    have hlink := (operands base (by simp [Expr.operands])).link
      (Layout.link_punct (p := .caret) (by decide)) (nested exponent (by simp [Expr.nested]))
    simpa [pieces] using hlink
  | chain s base suffixes =>
    refine (operands base (by simp [Expr.operands])).suffixes fun t ht => t.run ?_ ?_
    · exact fun x hx => nested x (List.mem_flatMap.2 ⟨t, ht, hx⟩)
    · exact fun x hx => operands x (List.mem_cons_of_mem _ (List.mem_filterMap.2 ⟨t, ht, hx⟩))
  | literal s v =>
    exact .token (Token.Kind.startsExpression_of_startsPrimary v.startsPrimary_kind)
      v.endsExpression_kind
  | name s name reserved =>
    rw [pieces]
    cases reserved <;> exact .token rfl rfl
  | function s params body =>
    have hbody : ∀ b ∈ body, l.Phrase (b.pieces semicolon) := by
      rintro b rfl
      exact Branch.phrase (hshape b rfl) nested Layout.link_semicolon
    have hbraces := (Layout.Run.braces params hbody).phrase rfl rfl
    cases body <;> exact hbraces
  | unit s =>
    exact (Layout.Phrase.enclosed .openParen (.inl rfl) (fun _ => trivial) (by decide)
      (by decide)).phrase rfl rfl
  | list s items =>
    exact (Layout.Phrase.enclosed .openParen (listPieces_phrase nested) (fun _ => trivial)
      (by decide) (by decide)).phrase rfl rfl
  | dict s entries =>
    have hentries : ∀ x ∈ entries, l.Phrase x.value.pieces :=
      fun x hx => nested _ (List.mem_map_of_mem hx)
    exact (Layout.Phrase.enclosed .openParen (Entry.listPieces_phrase hentries) (fun _ => trivial)
      (by decide) (by decide)).phrase rfl rfl
  | conditional s condition thenArm elseArm =>
    obtain ⟨hthen, helse⟩ := hshape
    have hcondition := nested condition (by simp [Expr.nested])
    have hfirst := hcondition.link Layout.link_semicolon
      (Branch.phrase hthen (fun x hx => nested x (by simp [Expr.nested, hx])) Layout.link_newline)
    have hboth := hfirst.link Layout.link_semicolon
      (Branch.phrase helse (fun x hx => nested x (by simp [Expr.nested, hx])) Layout.link_semicolon)
    exact begins (k := .punct .dollar) rfl
      (Piece.beside_of_ends .dollar (fun _ => trivial) (by decide) _) hboth
  | guarded s condition arm =>
    have hpre : l.Run (· = .punct .dollar) (· = .punct .dot) ([.punct .dollar] ++ [.punct .dot]) := by
      refine (Layout.Run.token _).append (Layout.Run.token _) ?_
      rintro p q rfl rfl
      exact Piece.beside_of_ends .dollar (fun _ => trivial) (by decide) _
    refine hpre.form ?_ ?_ (headed (nested condition (by simp [Expr.nested])) hshape
      fun x hx => nested x (by simp [Expr.nested, hx]))
    · rintro p rfl
      exact ⟨_, rfl, rfl⟩
    · rintro p rfl
      exact Piece.beside_of_ends .dot (fun _ => trivial) (by decide) _
  | whileLoop s condition body | countLoop s condition body =>
    exact begins rfl (Piece.follows_punct (by decide) _ rfl)
      (headed (nested condition (by simp [Expr.nested])) hshape
        fun x hx => nested x (by simp [Expr.nested, hx]))
  | returning s value =>
    cases value with
    | none => exact .token rfl rfl
    | some x => exact worded .returning (nested x (by simp [Expr.nested]))
  | breaking | continuing => exact .token rfl rfl
  | asserting s claim => exact worded .asserting (nested claim (by simp [Expr.nested]))
  | trying s attempt => exact worded .trying (nested attempt (by simp [Expr.nested]))

end Trees
end WqSource
