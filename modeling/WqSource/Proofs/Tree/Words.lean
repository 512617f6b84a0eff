import WqSource.Proofs.Tree.Shape
import WqSource.Tree.Layout
import Mathlib.Data.List.Basic

/-!
# The tokens a tree is written with

Blanks and gaps aside, the pieces of a tree are tokens. All of them in order are its
kinds; its words are those that do not merely separate statements and items. The words of a
tree are what it has in common with every text that it can be read from.

## Main definitions

* `Piece.kinds`, `Expr.kinds`: the tokens.
* `Token.Kind.isWord`, `Expr.words`: the tokens that are no separators.

## Main statements

* `Expr.Within.kinds_subset`: the tokens of what is inside.
-/

namespace WqSource
open Piece (enclosed semicolon)

section Lists
variable {α β : Type}

/-- Lists with a separator between every two are the first list and each other one behind a
separator. -/
theorem intercalate_cons_eq_flatMap (sep l : List α) (ls : List (List α)) :
    sep.intercalate (l :: ls) = l ++ ls.flatMap (sep ++ ·) := by
  induction ls generalizing l with
  | nil => simp
  | cons m ls ih => simp [ih m]

theorem filterMap_intercalate (f : α → Option β) (sep : List α) (ls : List (List α)) :
    (sep.intercalate ls).filterMap f = (sep.filterMap f).intercalate (ls.map (·.filterMap f)) := by
  cases ls with
  | nil => rfl
  | cons l ls =>
    simp only [List.map_cons, intercalate_cons_eq_flatMap, List.filterMap_append,
      List.filterMap_flatMap, List.flatMap_map]

theorem filter_intercalate (p : α → Bool) (sep : List α) (ls : List (List α)) :
    (sep.intercalate ls).filter p = (sep.filter p).intercalate (ls.map (·.filter p)) := by
  simp only [← List.filterMap_eq_filter, filterMap_intercalate]

theorem map_intercalate (f : α → β) (sep : List α) (ls : List (List α)) :
    (sep.intercalate ls).map f = (sep.map f).intercalate (ls.map (·.map f)) := by
  cases ls with
  | nil => rfl
  | cons l ls =>
    simp only [List.map_cons, intercalate_cons_eq_flatMap, List.map_append, List.map_flatMap,
      List.flatMap_map]

theorem subset_intercalate {sep l : List α} {ls : List (List α)} (h : l ∈ ls) :
    l ⊆ sep.intercalate ls := by
  cases ls with
  | nil => cases h
  | cons m ls =>
    rw [intercalate_cons_eq_flatMap]
    intro a ha
    rcases List.mem_cons.1 h with rfl | h
    · exact List.mem_append_left _ ha
    · exact List.mem_append_right _ (List.mem_flatMap.2 ⟨l, h, List.mem_append_right _ ha⟩)

theorem mem_intercalate {a : α} {sep : List α} {ls : List (List α)} (h : a ∈ sep.intercalate ls) :
    a ∈ sep ∨ ∃ l ∈ ls, a ∈ l := by
  cases ls with
  | nil => cases h
  | cons l ls =>
    rw [intercalate_cons_eq_flatMap, List.mem_append, List.mem_flatMap] at h
    rcases h with h | ⟨m, hm, h⟩
    · exact .inr ⟨l, by simp, h⟩
    · rcases List.mem_append.1 h with h | h
      · exact .inl h
      · exact .inr ⟨m, by simp [hm], h⟩

theorem intercalate_nil_eq_flatten (ls : List (List α)) :
    ([] : List α).intercalate ls = ls.flatten := by
  cases ls with
  | nil => rfl
  | cons l ls => simp [intercalate_cons_eq_flatMap]

end Lists

/-! ## Kinds -/

namespace Piece

/-- The token that a piece is, if it is one. -/
def kind? : Piece → Option Token.Kind
  | token k => some k
  | blank | gap => none

/-- The tokens among pieces. -/
def kinds (pieces : List Piece) : List Token.Kind := pieces.filterMap kind?

@[simp] theorem kinds_nil : kinds [] = [] := rfl

@[simp] theorem kinds_token (k : Token.Kind) (ps : List Piece) :
    kinds (token k :: ps) = k :: kinds ps := rfl

@[simp] theorem kinds_blank (ps : List Piece) : kinds (blank :: ps) = kinds ps := rfl

@[simp] theorem kinds_gap (ps : List Piece) : kinds (gap :: ps) = kinds ps := rfl

@[simp] theorem kinds_append (ps qs : List Piece) : kinds (ps ++ qs) = kinds ps ++ kinds qs :=
  List.filterMap_append

@[simp] theorem kinds_enclosed (opening closing : Punct) (ps : List Piece) :
    kinds (enclosed opening closing ps) =
      .punct opening :: (kinds ps ++ [.punct closing]) := by
  simp [enclosed]

@[simp] theorem kinds_semicolon : kinds semicolon = [.punct .semicolon] := rfl

theorem kinds_intercalate (sep : List Piece) (ls : List (List Piece)) :
    kinds (sep.intercalate ls) = (kinds sep).intercalate (ls.map kinds) :=
  filterMap_intercalate kind? sep ls

end Piece

/-- The tokens of an expression. -/
def Expr.kinds (e : Expr) : List Token.Kind := Piece.kinds e.pieces

/-- The tokens of a suffix. -/
def Suffix.kinds (s : Suffix) : List Token.Kind := Piece.kinds s.pieces

/-- The tokens of an entry. -/
def Entry.kinds (e : Entry) : List Token.Kind := Piece.kinds e.pieces

/-- The tokens of a statement. -/
def Statement.kinds (s : Statement) : List Token.Kind := Piece.kinds s.pieces

/-- The tokens of statements, with the given ones between every two. -/
def Branch.kinds (sep : List Token.Kind) (b : Branch) : List Token.Kind :=
  sep.intercalate (b.statements.map Statement.kinds)

/-- The tokens of parameters and of their brackets, if there are any. -/
def Param.listKinds (params : List Param) : List Token.Kind :=
  if params.isEmpty then []
  else .punct .openBracket ::
    ([.punct .semicolon].intercalate (params.map fun p => [.identifier p.name]) ++
      [.punct .closeBracket])

theorem Expr.listPieces_eq (sep : List Piece) (es : List Expr) :
    Expr.listPieces sep es = sep.intercalate (es.map Expr.pieces) := by
  induction es with
  | nil => rfl
  | cons e es ih => cases es <;> simp_all [Expr.listPieces]

theorem Entry.listPieces_eq (es : List Entry) :
    Entry.listPieces es = semicolon.intercalate (es.map Entry.pieces) := by
  induction es with
  | nil => rfl
  | cons e es ih => cases es <;> simp_all [Entry.listPieces]

theorem Suffix.listPieces_eq (ss : List Suffix) :
    Suffix.listPieces ss = ss.flatMap Suffix.pieces := by
  induction ss with
  | nil => rfl
  | cons s ss ih => simp [Suffix.listPieces, ih]

theorem Statement.listPieces_eq (sep : List Piece) (ss : List Statement) :
    Statement.listPieces sep ss = sep.intercalate (ss.map Statement.pieces) := by
  induction ss with
  | nil => rfl
  | cons s ss ih => cases ss <;> simp_all [Statement.listPieces]

theorem Branch.pieces_eq (sep : List Piece) (b : Branch) :
    b.pieces sep = sep.intercalate (b.statements.map Statement.pieces) := by
  cases b
  exact Statement.listPieces_eq _ _

@[simp] theorem Piece.kinds_listPieces (sep : List Piece) (es : List Expr) :
    Piece.kinds (Expr.listPieces sep es) = (Piece.kinds sep).intercalate (es.map Expr.kinds) := by
  rw [Expr.listPieces_eq, Piece.kinds_intercalate, List.map_map]
  rfl

@[simp] theorem Piece.kinds_entries (es : List Entry) :
    Piece.kinds (Entry.listPieces es) =
      [.punct .semicolon].intercalate (es.map Entry.kinds) := by
  rw [Entry.listPieces_eq, Piece.kinds_intercalate, List.map_map]
  rfl

@[simp] theorem Piece.kinds_suffixes (ss : List Suffix) :
    Piece.kinds (Suffix.listPieces ss) = ss.flatMap Suffix.kinds := by
  rw [Suffix.listPieces_eq]
  exact List.filterMap_flatMap

@[simp] theorem Piece.kinds_branch (sep : List Piece) (b : Branch) :
    Piece.kinds (b.pieces sep) = b.kinds (Piece.kinds sep) := by
  rw [Branch.pieces_eq, Piece.kinds_intercalate, List.map_map]
  rfl

@[simp] theorem Piece.kinds_params (params : List Param) :
    Piece.kinds (Param.listPieces params) = Param.listKinds params := by
  unfold Param.listPieces Param.listKinds
  split
  · rfl
  · rw [Piece.kinds_enclosed, Piece.kinds_intercalate, List.map_map]
    rfl

namespace Expr

/-! The tokens of every form, from those of its parts. -/

variable (s : Span)

@[simp] theorem kinds_assignment (target value : Expr) :
    (assignment s target value).kinds = target.kinds ++ .punct .colon :: value.kinds := by
  simp [kinds, pieces]

@[simp] theorem kinds_pipe (stages : List Expr) :
    (pipe s stages).kinds = [.punct .pipe].intercalate (stages.map kinds) := by
  simp [kinds, pieces]

@[simp] theorem kinds_join (elements : List Expr) :
    (join s elements).kinds = [.punct .comma].intercalate (elements.map kinds) := by
  simp [kinds, pieces]

@[simp] theorem kinds_binary (op : BinaryOp) (left right : Expr) :
    (binary s op left right).kinds = left.kinds ++ .punct op.punct :: right.kinds := by
  simp [kinds, pieces]

@[simp] theorem kinds_unary (ops : List UnaryOp) (operand : Expr) :
    (unary s ops operand).kinds = ops.map (.punct ·.punct) ++ operand.kinds := by
  simp only [kinds, pieces, Piece.kinds_append]
  congr 1
  induction ops with
  | nil => rfl
  | cons op ops ih => simp [ih]

@[simp] theorem kinds_power (base exponent : Expr) :
    (power s base exponent).kinds = base.kinds ++ .punct .caret :: exponent.kinds := by
  simp [kinds, pieces]

@[simp] theorem kinds_chain (base : Expr) (suffixes : List Suffix) :
    (chain s base suffixes).kinds = base.kinds ++ suffixes.flatMap Suffix.kinds := by
  simp [kinds, pieces]

@[simp] theorem kinds_literal (value : Literal) : (literal s value).kinds = [value.kind] := rfl

@[simp] theorem kinds_name (name : String) (reserved : Bool) :
    (Expr.name s name reserved).kinds =
      [if reserved then .builtin name else .identifier name] := rfl

@[simp] theorem kinds_function (params : List Param) (body : Option Branch) :
    (function s params body).kinds =
      .punct .openBrace :: (Param.listKinds params ++
        body.elim [] (Branch.kinds [.punct .semicolon]) ++ [.punct .closeBrace]) := by
  cases body with
  | none => simp [kinds, pieces]
  | some b => cases params <;> simp [kinds, pieces]

@[simp] theorem kinds_unit : (unit s).kinds = [.punct .openParen, .punct .closeParen] := rfl

@[simp] theorem kinds_list (items : List Expr) :
    (list s items).kinds =
      .punct .openParen ::
        ([.punct .semicolon].intercalate (items.map kinds) ++ [.punct .closeParen]) := by
  simp [kinds, pieces]

@[simp] theorem kinds_dict (entries : List Entry) :
    (dict s entries).kinds =
      .punct .openParen ::
        ([.punct .semicolon].intercalate (entries.map Entry.kinds) ++ [.punct .closeParen]) := by
  simp [kinds, pieces]

@[simp] theorem kinds_conditional (condition : Expr) (thenArm elseArm : Branch) :
    (conditional s condition thenArm elseArm).kinds =
      .punct .dollar :: .punct .openBracket ::
        (condition.kinds ++ .punct .semicolon :: (thenArm.kinds [.newline] ++
          .punct .semicolon :: (elseArm.kinds [.punct .semicolon] ++ [.punct .closeBracket]))) := by
  simp [kinds, pieces]

@[simp] theorem kinds_guarded (condition : Expr) (arm : Branch) :
    (guarded s condition arm).kinds =
      .punct .dollar :: .punct .dot :: .punct .openBracket ::
        (condition.kinds ++ .punct .semicolon ::
          (arm.kinds [.punct .semicolon] ++ [.punct .closeBracket])) := by
  simp [kinds, pieces]

@[simp] theorem kinds_whileLoop (condition : Expr) (body : Branch) :
    (whileLoop s condition body).kinds =
      .identifier "W" :: .punct .openBracket ::
        (condition.kinds ++ .punct .semicolon ::
          (body.kinds [.punct .semicolon] ++ [.punct .closeBracket])) := by
  simp [kinds, pieces]

@[simp] theorem kinds_countLoop (count : Expr) (body : Branch) :
    (countLoop s count body).kinds =
      .identifier "N" :: .punct .openBracket ::
        (count.kinds ++ .punct .semicolon ::
          (body.kinds [.punct .semicolon] ++ [.punct .closeBracket])) := by
  simp [kinds, pieces]

@[simp] theorem kinds_returning (value : Option Expr) :
    (returning s value).kinds = .control .returning :: value.elim [] kinds := by
  cases value <;> simp [kinds, pieces]

@[simp] theorem kinds_breaking : (breaking s).kinds = [.control .breaking] := rfl

@[simp] theorem kinds_continuing : (continuing s).kinds = [.control .continuing] := rfl

@[simp] theorem kinds_asserting (claim : Expr) :
    (asserting s claim).kinds = .control .asserting :: claim.kinds := by
  simp [kinds, pieces]

@[simp] theorem kinds_trying (attempt : Expr) :
    (trying s attempt).kinds = .control .trying :: attempt.kinds := by
  simp [kinds, pieces]

end Expr

@[simp] theorem Suffix.kinds_index (s : Span) (args : List Expr) :
    (Suffix.index s args).kinds =
      .punct .openBracket ::
        ([.punct .semicolon].intercalate (args.map Expr.kinds) ++ [.punct .closeBracket]) := by
  simp [kinds, pieces]

@[simp] theorem Suffix.kinds_apply (arg : Expr) : (Suffix.apply arg).kinds = arg.kinds := by
  simp [kinds, pieces, Expr.kinds]

@[simp] theorem Entry.kinds_mk (key : String) (span : Span) (value : Expr) :
    (Entry.mk key span value).kinds = .symbol key :: .punct .colon :: value.kinds := by
  simp [kinds, pieces, Expr.kinds]

@[simp] theorem Statement.kinds_expression (e : Expr) :
    (Statement.expression e).kinds = e.kinds := rfl

@[simp] theorem Statement.kinds_magic (s : Span) (payload : String) :
    (Statement.magic s payload).kinds = [.magic payload] := rfl

/-! ## The tokens of parts -/

theorem Branch.kinds_subset {b : Branch} {x : Expr} (hx : x ∈ b.expressions)
    (sep : List Token.Kind) : x.kinds ⊆ b.kinds sep := by
  obtain ⟨s, hs, hsx⟩ := List.mem_filterMap.1 hx
  cases s with
  | magic => cases hsx
  | expression e =>
    cases hsx
    exact subset_intercalate (List.mem_map.2 ⟨_, hs, Statement.kinds_expression x⟩)

theorem Suffix.kinds_subset {s : Suffix} {x : Expr} (hx : x ∈ s.argument?.toList ++ s.indices) :
    x.kinds ⊆ s.kinds := by
  cases s with
  | index span args =>
    have hx : x ∈ args := hx
    rw [kinds_index]
    refine List.subset_cons_of_subset _ (List.subset_append_of_subset_left _ ?_)
    exact subset_intercalate (List.mem_map_of_mem hx)
  | apply arg =>
    obtain rfl : x = arg := by simpa [argument?, indices] using hx
    rw [kinds_apply]
    exact fun _ h => h

namespace Expr
variable {e x : Expr} {n : Nat}

/-- The tokens of the parts of an expression are among its own. -/
theorem kinds_subset_of_part (hx : x ∈ e.operands ++ e.nested) : x.kinds ⊆ e.kinds := by
  have among {es : List Expr} (hx : x ∈ es) (sep : List Token.Kind) :
      x.kinds ⊆ sep.intercalate (es.map kinds) :=
    subset_intercalate (List.mem_map_of_mem hx)
  have branch {b : Branch} (hx : x ∈ b.expressions) (sep : List Token.Kind) :
      x.kinds ⊆ b.kinds sep :=
    Branch.kinds_subset hx sep
  cases e with
  | chain s base suffixes =>
    have hx : x = base ∨ ∃ s ∈ suffixes, x ∈ s.argument?.toList ++ s.indices := by
      simp only [operands, nested, List.cons_append, List.mem_cons, List.mem_append,
        List.mem_filterMap, List.mem_flatMap] at hx
      grind
    rw [kinds_chain]
    rcases hx with rfl | ⟨suffix, hs, hx⟩
    · exact List.subset_append_left ..
    · intro k hk
      exact List.mem_append_right _ (List.mem_flatMap.2 ⟨suffix, hs, Suffix.kinds_subset hx hk⟩)
  | function s ps body =>
    cases body with
    | none => cases hx
    | some b =>
      have hb := branch (b := b) hx [.punct .semicolon]
      intro k hk
      simp [hb hk]
  | dict s entries =>
    obtain ⟨⟨key, span, value⟩, hentry, rfl⟩ := List.mem_map.1 hx
    have hvalue : value.kinds ⊆ (Entry.mk key span value).kinds := by simp
    have hkinds : (Entry.mk key span value).kinds ⊆
        [.punct .semicolon].intercalate (entries.map Entry.kinds) :=
      subset_intercalate (List.mem_map_of_mem hentry)
    intro k hk
    simp [hkinds (hvalue hk)]
  | returning s value =>
    cases value with
    | none => cases hx
    | some value =>
      obtain rfl : x = value := by simpa [operands, nested] using hx
      simp
  | literal | name | unit | breaking | continuing => cases hx
  | _ =>
    simp only [operands, nested, List.nil_append, List.append_nil, List.cons_append,
      List.mem_append, List.mem_cons, List.not_mem_nil, or_false] at hx
    simp only [kinds_assignment, kinds_pipe, kinds_join, kinds_binary, kinds_unary, kinds_power,
      kinds_list, kinds_conditional, kinds_guarded, kinds_whileLoop, kinds_countLoop,
      kinds_asserting, kinds_trying]
    grind

/-- The tokens of what is inside an expression are among its own. -/
theorem Within.kinds_subset (h : x.Within n e) : x.kinds ⊆ e.kinds := by
  induction h with
  | refl => exact fun _ h => h
  | operand hmem _ ih =>
    exact List.Subset.trans ih (kinds_subset_of_part (List.mem_append_left _ hmem))
  | nested hmem _ ih =>
    exact List.Subset.trans ih (kinds_subset_of_part (List.mem_append_right _ hmem))

end Expr

/-! ## Words -/

/-- Whether a token is more than a separator of statements and items, or the end. -/
def Token.Kind.isWord (k : Token.Kind) : Bool := !(k.isSeparator || k == .endOfInput)

/-- The tokens among some that are words. -/
def Token.Kind.words (ks : List Token.Kind) : List Token.Kind := ks.filter Token.Kind.isWord

/-- The words of an expression. -/
def Expr.words (e : Expr) : List Token.Kind := Token.Kind.words e.kinds

/-- The words of a suffix. -/
def Suffix.words (s : Suffix) : List Token.Kind := Token.Kind.words s.kinds

/-- The words of an entry. -/
def Entry.words (e : Entry) : List Token.Kind := Token.Kind.words e.kinds

/-- The words of a statement. -/
def Statement.words (s : Statement) : List Token.Kind := Token.Kind.words s.kinds

/-- The words of a branch, whatever stands between its statements. -/
def Branch.words (b : Branch) : List Token.Kind := b.statements.flatMap Statement.words

/-- The words of parameters and of their brackets. -/
def Param.listWords (params : List Param) : List Token.Kind :=
  if params.isEmpty then []
  else .punct .openBracket :: (params.map (.identifier ·.name) ++ [.punct .closeBracket])

namespace Token.Kind

@[simp] theorem words_nil : words [] = [] := rfl

@[simp] theorem words_append (ks ls : List Token.Kind) : words (ks ++ ls) = words ks ++ words ls :=
  List.filter_append ..

theorem words_cons {k : Token.Kind} (hk : k.isWord = true) (ks : List Token.Kind) :
    words (k :: ks) = k :: words ks :=
  List.filter_cons_of_pos hk

theorem words_cons_separator {k : Token.Kind} (hk : k.isWord = false) (ks : List Token.Kind) :
    words (k :: ks) = words ks :=
  List.filter_cons_of_neg (by simp [hk])

theorem words_intercalate (sep : List Token.Kind) (ls : List (List Token.Kind)) :
    words (sep.intercalate ls) = (words sep).intercalate (ls.map words) :=
  filter_intercalate isWord sep ls

/-- Separators between lists leave no words. -/
theorem words_intercalate_separators {α : Type} {sep : List Token.Kind} (hsep : words sep = [])
    (as : List α) (f : α → List Token.Kind) :
    words (sep.intercalate (as.map f)) = as.flatMap fun a => words (f a) := by
  rw [words_intercalate, hsep, intercalate_nil_eq_flatten, List.map_map]
  rfl

@[simp] theorem isWord_punct (p : Punct) : (punct p).isWord = (p != .semicolon) := by
  cases p <;> rfl

@[simp] theorem isWord_control (w : ControlWord) : (control w).isWord = true := by
  simp [isWord, isSeparator]

@[simp] theorem isWord_identifier (s : String) : (identifier s).isWord = true := by
  simp [isWord, isSeparator]

@[simp] theorem isWord_builtin (s : String) : (builtin s).isWord = true := by
  simp [isWord, isSeparator]

@[simp] theorem isWord_symbol (s : String) : (symbol s).isWord = true := by
  simp [isWord, isSeparator]

@[simp] theorem isWord_magic (s : String) : (magic s).isWord = true := by
  simp [isWord, isSeparator]

@[simp] theorem isWord_newline : newline.isWord = false := by
  simp [isWord, isSeparator]

end Token.Kind

@[simp] theorem Literal.isWord_kind (v : Literal) : v.kind.isWord = true := by cases v <;> rfl

@[simp] theorem BinaryOp.punct_ne_semicolon (op : BinaryOp) : op.punct ≠ .semicolon := by
  cases op <;> decide

@[simp] theorem UnaryOp.punct_ne_semicolon (op : UnaryOp) : op.punct ≠ .semicolon := by
  cases op <;> decide

theorem Branch.words_kinds {sep : List Token.Kind} (hsep : Token.Kind.words sep = [])
    (b : Branch) : Token.Kind.words (b.kinds sep) = b.words :=
  Token.Kind.words_intercalate_separators hsep _ _

theorem Param.words_listKinds (params : List Param) :
    Token.Kind.words (Param.listKinds params) = Param.listWords params := by
  unfold Param.listKinds Param.listWords
  split
  · rfl
  · rw [Token.Kind.words_cons (by simp), Token.Kind.words_append,
      Token.Kind.words_intercalate_separators (by rfl)]
    simp [Token.Kind.words_cons, List.map_eq_flatMap]

namespace Expr

/-! The words of every form, from those of its parts. -/

variable (s : Span)

open Token.Kind (words_cons words_cons_separator words_intercalate_separators)

theorem words_assignment (target value : Expr) :
    (assignment s target value).words = target.words ++ .punct .colon :: value.words := by
  simp [words, words_cons]

theorem words_pipe (stages : List Expr) :
    (pipe s stages).words = [.punct .pipe].intercalate (stages.map words) := by
  rw [words, kinds_pipe, Token.Kind.words_intercalate, List.map_map]
  rfl

theorem words_join (elements : List Expr) :
    (join s elements).words = [.punct .comma].intercalate (elements.map words) := by
  rw [words, kinds_join, Token.Kind.words_intercalate, List.map_map]
  rfl

theorem words_binary (op : BinaryOp) (left right : Expr) :
    (binary s op left right).words = left.words ++ .punct op.punct :: right.words := by
  simp [words, words_cons]

theorem words_unary (ops : List UnaryOp) (operand : Expr) :
    (unary s ops operand).words = ops.map (.punct ·.punct) ++ operand.words := by
  rw [words, kinds_unary, Token.Kind.words_append]
  congr 1
  exact List.filter_eq_self.2 fun k hk => by
    obtain ⟨op, -, rfl⟩ := List.mem_map.1 hk
    simp

theorem words_power (base exponent : Expr) :
    (power s base exponent).words = base.words ++ .punct .caret :: exponent.words := by
  simp [words, words_cons]

theorem words_chain (base : Expr) (suffixes : List Suffix) :
    (chain s base suffixes).words = base.words ++ suffixes.flatMap Suffix.words := by
  rw [words, kinds_chain, Token.Kind.words_append]
  congr 1
  exact List.filter_flatMap

theorem words_literal (value : Literal) : (literal s value).words = [value.kind] := by
  simp [words, words_cons]

theorem words_name (name : String) (reserved : Bool) :
    (Expr.name s name reserved).words =
      [if reserved then .builtin name else .identifier name] := by
  cases reserved <;> rfl

theorem words_function (params : List Param) (body : Option Branch) :
    (function s params body).words =
      .punct .openBrace ::
        (Param.listWords params ++ (body.elim [] Branch.words ++ [.punct .closeBrace])) := by
  rw [words, kinds_function, words_cons (by simp), Token.Kind.words_append,
    Token.Kind.words_append, Param.words_listKinds, List.append_assoc]
  cases body with
  | none => rfl
  | some b => simp [Branch.words_kinds, words_cons_separator, words_cons]

theorem words_unit : (unit s).words = [.punct .openParen, .punct .closeParen] := rfl

theorem words_list (items : List Expr) :
    (list s items).words =
      .punct .openParen :: (items.flatMap words ++ [.punct .closeParen]) := by
  rw [words, kinds_list, words_cons (by simp), Token.Kind.words_append,
    words_intercalate_separators (by rfl)]
  rfl

theorem words_dict (entries : List Entry) :
    (dict s entries).words =
      .punct .openParen :: (entries.flatMap Entry.words ++ [.punct .closeParen]) := by
  rw [words, kinds_dict, words_cons (by simp), Token.Kind.words_append,
    words_intercalate_separators (by rfl)]
  rfl

theorem words_conditional (condition : Expr) (thenArm elseArm : Branch) :
    (conditional s condition thenArm elseArm).words =
      .punct .dollar :: .punct .openBracket ::
        (condition.words ++ (thenArm.words ++ (elseArm.words ++ [.punct .closeBracket]))) := by
  simp [words, words_cons, words_cons_separator, Branch.words_kinds]

theorem words_guarded (condition : Expr) (arm : Branch) :
    (guarded s condition arm).words =
      .punct .dollar :: .punct .dot :: .punct .openBracket ::
        (condition.words ++ (arm.words ++ [.punct .closeBracket])) := by
  simp [words, words_cons, words_cons_separator, Branch.words_kinds]

theorem words_whileLoop (condition : Expr) (body : Branch) :
    (whileLoop s condition body).words =
      .identifier "W" :: .punct .openBracket ::
        (condition.words ++ (body.words ++ [.punct .closeBracket])) := by
  simp [words, words_cons, words_cons_separator, Branch.words_kinds]

theorem words_countLoop (count : Expr) (body : Branch) :
    (countLoop s count body).words =
      .identifier "N" :: .punct .openBracket ::
        (count.words ++ (body.words ++ [.punct .closeBracket])) := by
  simp [words, words_cons, words_cons_separator, Branch.words_kinds]

theorem words_returning (value : Option Expr) :
    (returning s value).words = .control .returning :: value.elim [] words := by
  cases value <;> simp [words, words_cons]

theorem words_breaking : (breaking s).words = [.control .breaking] := rfl

theorem words_continuing : (continuing s).words = [.control .continuing] := rfl

theorem words_asserting (claim : Expr) :
    (asserting s claim).words = .control .asserting :: claim.words := by
  simp [words, words_cons]

theorem words_trying (attempt : Expr) :
    (trying s attempt).words = .control .trying :: attempt.words := by
  simp [words, words_cons]

end Expr

theorem Suffix.words_index (s : Span) (args : List Expr) :
    (Suffix.index s args).words =
      .punct .openBracket :: (args.flatMap Expr.words ++ [.punct .closeBracket]) := by
  rw [words, kinds_index, Token.Kind.words_cons (by simp), Token.Kind.words_append,
    Token.Kind.words_intercalate_separators (by rfl)]
  rfl

theorem Suffix.words_apply (arg : Expr) : (Suffix.apply arg).words = arg.words := by
  simp [words, Expr.words]

theorem Entry.words_mk (key : String) (span : Span) (value : Expr) :
    (Entry.mk key span value).words = .symbol key :: .punct .colon :: value.words := by
  simp [words, Token.Kind.words_cons, Expr.words]

theorem Statement.words_expression (e : Expr) : (Statement.expression e).words = e.words := rfl

theorem Statement.words_magic (s : Span) (payload : String) :
    (Statement.magic s payload).words = [.magic payload] := rfl

/-! ## The first token -/

theorem Token.Kind.startsExpression_of_startsPrimary {k : Token.Kind}
    (h : k.startsPrimary = true) : k.startsExpression = true := by
  simp [startsExpression, startsArgument, h]

theorem Token.Kind.isWord_of_startsExpression {k : Token.Kind}
    (h : k.startsExpression = true) : k.isWord = true := by
  cases k with
  | newline | endOfInput => cases h
  | punct p => cases p <;> first | rfl | cases h
  | _ => simp [isWord, isSeparator]

theorem Literal.startsPrimary_kind (v : Literal) : v.kind.startsPrimary = true := by
  cases v <;> rfl

theorem UnaryOp.startsExpression_punct (op : UnaryOp) :
    (Token.Kind.punct op.punct).startsExpression = true := by
  cases op <;> rfl

namespace Expr

theorem chain_le_rank_of_isIndexed {e : Expr} (h : e.isIndexed = true) :
    .chain ≤ e.rank := by
  cases e with
  | binary s op => cases op <;> simp [isIndexed, rank, BinaryOp.rank] at h
  | _ => simp [isIndexed, rank] at h ⊢ <;> decide

/-- A regular tree begins with a token that begins expressions. If it has no operators in
front and none between operands, that token begins primaries. -/
theorem kinds_eq_cons {n : Nat} {e : Expr} (he : e.Regular n) :
    ∃ k ks, e.kinds = k :: ks ∧ k.startsExpression = true ∧
      (.power ≤ e.rank → k.startsPrimary = true) := by
  induction e using induction_parts with
  | h e operands nested =>
  obtain ⟨hshape, hoperands, -⟩ := regular_iff.1 he
  have first {x : Expr} (hx : x ∈ e.operands) := operands x hx (hoperands x hx)
  cases e with
  | assignment s target value =>
    obtain ⟨k, ks, hk, hstart, -⟩ := first (x := target) (by simp [Expr.operands])
    refine ⟨k, ks ++ .punct .colon :: value.kinds, by simp [hk], hstart, fun h => ?_⟩
    exact absurd h (by simp only [rank]; decide)
  | pipe s stages | join s stages =>
    obtain ⟨hlength, -⟩ := hshape
    obtain ⟨e, es, rfl⟩ := List.exists_cons_of_length_pos (show 0 < stages.length by omega)
    obtain ⟨k, ks, hk, hstart, -⟩ := first (x := e) (by simp [Expr.operands])
    simp only [kinds_pipe, kinds_join, List.map_cons, intercalate_cons_eq_flatMap, hk,
      List.cons_append]
    refine ⟨_, _, rfl, hstart, fun h => ?_⟩
    exact absurd h (by simp only [rank]; decide)
  | binary s op left right =>
    obtain ⟨k, ks, hk, hstart, -⟩ := first (x := left) (by simp [Expr.operands])
    refine ⟨k, ks ++ .punct op.punct :: right.kinds, by simp [hk], hstart, fun h => ?_⟩
    exact absurd h (by simp only [rank]; cases op <;> decide)
  | unary s ops operand =>
    obtain ⟨op, ops, rfl⟩ := List.exists_cons_of_ne_nil hshape.1
    refine ⟨.punct op.punct, _, by simp; rfl, op.startsExpression_punct, fun h => ?_⟩
    exact absurd h (by simp only [rank]; decide)
  | power s base exponent =>
    obtain ⟨hbase, -, -⟩ := hshape
    obtain ⟨k, ks, hk, hstart, hprimary⟩ := first (x := base) (by simp [Expr.operands])
    have hrank : .power ≤ base.rank := le_trans (by decide) (chain_le_rank_of_isIndexed hbase)
    exact ⟨k, ks ++ .punct .caret :: exponent.kinds, by simp [hk], hstart,
      fun _ => hprimary hrank⟩
  | chain s base suffixes =>
    obtain ⟨hbase, -⟩ := hshape
    obtain ⟨k, ks, hk, hstart, hprimary⟩ := first (x := base) (by simp [Expr.operands])
    exact ⟨k, ks ++ suffixes.flatMap Suffix.kinds, by simp [hk], hstart,
      fun _ => hprimary (by rw [hbase]; decide)⟩
  | literal s v =>
    have h := v.startsPrimary_kind
    exact ⟨v.kind, [], rfl, Token.Kind.startsExpression_of_startsPrimary h, fun _ => h⟩
  | name s name reserved =>
    exact ⟨_, [], kinds_name .., by cases reserved <;> rfl, fun _ => by cases reserved <;> rfl⟩
  | function => exact ⟨_, _, kinds_function .., rfl, fun _ => rfl⟩
  | unit => exact ⟨_, _, kinds_unit .., rfl, fun _ => rfl⟩
  | list => exact ⟨_, _, kinds_list .., rfl, fun _ => rfl⟩
  | dict => exact ⟨_, _, kinds_dict .., rfl, fun _ => rfl⟩
  | conditional => exact ⟨_, _, kinds_conditional .., rfl, fun _ => rfl⟩
  | guarded => exact ⟨_, _, kinds_guarded .., rfl, fun _ => rfl⟩
  | whileLoop => exact ⟨_, _, kinds_whileLoop .., rfl, fun _ => rfl⟩
  | countLoop => exact ⟨_, _, kinds_countLoop .., rfl, fun _ => rfl⟩
  | returning => exact ⟨_, _, kinds_returning .., rfl, fun _ => rfl⟩
  | breaking => exact ⟨_, _, kinds_breaking .., rfl, fun _ => rfl⟩
  | continuing => exact ⟨_, _, kinds_continuing .., rfl, fun _ => rfl⟩
  | asserting => exact ⟨_, _, kinds_asserting .., rfl, fun _ => rfl⟩
  | trying => exact ⟨_, _, kinds_trying .., rfl, fun _ => rfl⟩

/-- The first word of a regular tree begins expressions. -/
theorem words_eq_cons {n : Nat} {e : Expr} (he : e.Regular n) :
    ∃ k ks, e.words = k :: ks ∧ k.startsExpression = true := by
  obtain ⟨k, ks, hk, hstart, -⟩ := kinds_eq_cons he
  exact ⟨k, Token.Kind.words ks,
    by rw [words, hk, Token.Kind.words_cons (Token.Kind.isWord_of_startsExpression hstart)],
    hstart⟩

end Expr
end WqSource
