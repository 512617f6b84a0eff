import WqSource.Token.Spelling
import WqSource.Tree

/-!
# The layout of trees

A tree is written as a sequence of pieces: tokens, blanks that keep tokens apart, and gaps,
which are there to please the eye. A layout says what a gap is. No parentheses are added,
because the tree has a node for every pair of them.

In the first arm of a conditional, statements stand on lines of their own, since a
semicolon would end the arm. Everywhere else inside an expression they are divided by
semicolons.

## Main definitions

* `Expr.pieces`, `Program.pieces`: a tree as tokens with blanks between them.
* `Layout`, `Layout.write`: the two layouts, and the text of pieces.
-/

namespace WqSource

/-- What a tree is written with. -/
inductive Piece where
  | token (k : Token.Kind)
  /-- A blank in every layout. -/
  | blank
  /-- A blank in a layout for readers. -/
  | gap
  deriving DecidableEq

namespace Piece

/-- An operator, separator or bracket. -/
abbrev punct (p : Punct) : Piece := token (.punct p)

/-- Pieces between the given brackets. -/
def enclosed (opening closing : Punct) (inside : List Piece) : List Piece :=
  punct opening :: inside ++ [punct closing]

/-- A semicolon between two items. -/
def semicolon : List Piece := [punct .semicolon, gap]

end Piece

open Piece (enclosed semicolon)

/-- The pieces of parameters, in their brackets. Without parameters there are no brackets
either. -/
def Param.listPieces (params : List Param) : List Piece :=
  if params.isEmpty then []
  else enclosed .openBracket .closeBracket
    (semicolon.intercalate (params.map fun p => [.token (.identifier p.name)]))

mutual

/-- The pieces of an expression. -/
def Expr.pieces : Expr → List Piece
  | .assignment _ target value => target.pieces ++ [.punct .colon, .gap] ++ value.pieces
  | .pipe _ stages => Expr.listPieces [.gap, .punct .pipe, .gap] stages
  | .join _ elements => Expr.listPieces [.punct .comma, .gap] elements
  | .binary _ op left right => left.pieces ++ [.gap, .punct op.punct, .gap] ++ right.pieces
  | .unary _ ops operand => ops.map (.punct ·.punct) ++ operand.pieces
  | .power _ base exponent => base.pieces ++ .punct .caret :: exponent.pieces
  | .chain _ base suffixes => base.pieces ++ Suffix.listPieces suffixes
  | .literal _ value => [.token value.kind]
  | .name _ name reserved => [.token (if reserved then .builtin name else .identifier name)]
  | .function _ params body =>
    enclosed .openBrace .closeBrace <|
      Param.listPieces params ++
        match body with
        | none => []
        | some body => (if params.isEmpty then [] else [.blank]) ++ body.pieces semicolon
  | .unit _ => enclosed .openParen .closeParen []
  | .list _ items => enclosed .openParen .closeParen (Expr.listPieces semicolon items)
  | .dict _ entries => enclosed .openParen .closeParen (Entry.listPieces entries)
  | .conditional _ condition thenArm elseArm =>
    .punct .dollar :: enclosed .openBracket .closeBracket
      (condition.pieces ++ semicolon ++ thenArm.pieces [.token .newline] ++ semicolon ++
        elseArm.pieces semicolon)
  | .guarded _ condition arm =>
    .punct .dollar :: .punct .dot :: enclosed .openBracket .closeBracket
      (condition.pieces ++ semicolon ++ arm.pieces semicolon)
  | .whileLoop _ condition body =>
    .token (.identifier "W") :: enclosed .openBracket .closeBracket
      (condition.pieces ++ semicolon ++ body.pieces semicolon)
  | .countLoop _ count body =>
    .token (.identifier "N") :: enclosed .openBracket .closeBracket
      (count.pieces ++ semicolon ++ body.pieces semicolon)
  | .returning _ none => [.token (.control .returning)]
  | .returning _ (some value) => .token (.control .returning) :: .blank :: value.pieces
  | .breaking _ => [.token (.control .breaking)]
  | .continuing _ => [.token (.control .continuing)]
  | .asserting _ claim => .token (.control .asserting) :: .blank :: claim.pieces
  | .trying _ attempt => .token (.control .trying) :: .blank :: attempt.pieces

/-- The pieces of expressions with a separator between every two. -/
def Expr.listPieces (separator : List Piece) : List Expr → List Piece
  | [] => []
  | [e] => e.pieces
  | e :: es => e.pieces ++ separator ++ Expr.listPieces separator es

/-- The pieces of a suffix. Index brackets touch what they index. -/
def Suffix.pieces : Suffix → List Piece
  | .index _ args => enclosed .openBracket .closeBracket (Expr.listPieces semicolon args)
  | .apply arg => .blank :: arg.pieces

/-- The pieces of suffixes. -/
def Suffix.listPieces : List Suffix → List Piece
  | [] => []
  | s :: ss => s.pieces ++ Suffix.listPieces ss

/-- The pieces of an entry. -/
def Entry.pieces : Entry → List Piece
  | .mk key _ value => [.token (.symbol key), .punct .colon, .gap] ++ value.pieces

/-- The pieces of entries. -/
def Entry.listPieces : List Entry → List Piece
  | [] => []
  | [e] => e.pieces
  | e :: es => e.pieces ++ semicolon ++ Entry.listPieces es

/-- The pieces of statements with a separator between every two. -/
def Branch.pieces (separator : List Piece) : Branch → List Piece
  | .mk _ statements => Statement.listPieces separator statements

/-- The pieces of a statement. -/
def Statement.pieces : Statement → List Piece
  | .expression e => e.pieces
  | .magic _ payload => [.token (.magic payload)]

/-- The pieces of statements with a separator between every two. -/
def Statement.listPieces (separator : List Piece) : List Statement → List Piece
  | [] => []
  | [s] => s.pieces
  | s :: ss => s.pieces ++ separator ++ Statement.listPieces separator ss

end

/-- The pieces of a program: the shebang line and every statement on a line of its own. -/
def Program.pieces (p : Program) : List Piece :=
  let lines := (p.shebang.map fun text => [Piece.token (.shebang text)]).toList ++
    p.statements.map Statement.pieces
  [Piece.token .newline].intercalate lines

/-- The layouts a tree can be written in. -/
inductive Layout where
  /-- With a blank in every gap. -/
  | pretty
  /-- With no more blanks than it takes. -/
  | compact
  deriving DecidableEq

namespace Layout

/-- What stands in a gap. -/
def gap : Layout → List Char
  | pretty => [' ']
  | compact => []

/-- The characters of a piece. -/
def characters (l : Layout) : Piece → List Char
  | .token k => k.spelling
  | .blank => [' ']
  | .gap => l.gap

/-- The text of pieces. -/
def write (l : Layout) (pieces : List Piece) : String :=
  String.ofList (pieces.flatMap l.characters)

end Layout

/-- The text of an expression. -/
def Expr.text (l : Layout) (e : Expr) : String := l.write e.pieces

/-- The text of a statement. -/
def Statement.text (l : Layout) (s : Statement) : String := l.write s.pieces

/-- The text of a program. -/
def Program.text (l : Layout) (p : Program) : String := l.write p.pieces

end WqSource
