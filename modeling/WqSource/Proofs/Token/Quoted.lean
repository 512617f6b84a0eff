import WqSource.Proofs.Token.Spelled
import WqSource.Proofs.Token.Tiling
import WqSource.Tree.Layout

/-!
# Literals between quotes are read back

Strings and characters are written between quotes, with a backslash in front of whatever cannot
stand there bare. The quote that closes such a literal is the first bare one, so the text behind
it has no say in what the literal is: a lexer reads the literal that was written, stops behind
the quote, and goes on with what stands there.

## Main definitions

* `ReadsAs`: a text that is read as one token, in front of whatever text.

## Main statements

* `readsAs_quoted`: the texts of strings and characters.
-/

namespace WqSource

variable {k : Token.Kind} {text : String}

/-- The tokens that stand between quotes. -/
inductive Token.Kind.IsQuoted : Token.Kind → Prop where
  | string (value : String) : IsQuoted (.string value)
  | character (value : Char) : IsQuoted (.character value)

/-- The token that is the given text, at the start of a text. -/
def Token.atStart (text : String) (k : Token.Kind) : Token :=
  ⟨k, text, ⟨.start, Position.start.after text.toList⟩⟩

/-- A lexer in front of `tail`, behind a text that leaves no bracket open and ends no line. -/
def Lexer.behindText (text tail : String) : Lexer :=
  ⟨tail.toList, Position.start.after text.toList, 0, false⟩

/-- The text is one token, and it stays that token in front of whatever text, with which reading
goes on. -/
structure ReadsAs (text : String) (k : Token.Kind) : Prop where
  /-- The text on its own. -/
  alone : tokenize text = .ok [.atStart text k, .ending (Position.start.after text.toList)]
  /-- The first read from the text with another one behind it. -/
  next : ∀ tail, (Lexer.ofString (text ++ tail)).next =
    (.ok (.atStart text k), Lexer.behindText text tail)
  /-- All reads from the text with another one behind it. -/
  tokens : ∀ tail, tokenize (text ++ tail) =
    (Lexer.behindText text tail).stream.tokens.map (.atStart text k :: ·)

namespace Token.Kind.IsQuoted

theorem ne_endOfInput (h : k.IsQuoted) : k ≠ .endOfInput := by
  cases h <;> nofun

/-- What is written between quotes is the lexeme of what is meant. -/
theorem lexeme (h : k.IsQuoted) : k.Lexeme k.spelling := by
  cases h with
  | string value => exact (show (Token.Kind.string value).Valid from trivial).lexeme nofun
  | character value => exact (show (Token.Kind.character value).Valid from trivial).lexeme nofun

/-- A lexer finds a string or a character where its text begins, whatever is behind that. -/
theorem finds (h : k.IsQuoted) (tail : String) :
    (Lexer.ofString (String.ofList k.spelling ++ tail)).Finds [] k.spelling tail.toList k where
  rest_eq := by simp [Lexer.ofString]
  gap := isGap_nil
  lexeme := h.lexeme
  ends := by cases h <;> trivial
  magic := by
    intro payload hk
    cases h <;> cases hk

/-- A quote begins no shebang line. -/
theorem shebang?_eq_none (h : k.IsQuoted) (tail : String) :
    (Lexer.ofString (String.ofList k.spelling ++ tail)).shebang? = none := by
  apply Lexer.shebang?_eq_none_of_rest
  intro more hmore
  cases h <;> simp [Lexer.ofString, Token.Kind.spelling] at hmore

theorem next (h : k.IsQuoted) (tail : String) :
    (Lexer.ofString (String.ofList k.spelling ++ tail)).next =
      (.ok (.atStart (String.ofList k.spelling) k),
        Lexer.behindText (String.ofList k.spelling) tail) := by
  rw [(h.finds tail).next (h.shebang?_eq_none tail)]
  simp only [Token.atStart, Lexer.behindText, String.toList_ofList]
  cases h <;> rfl

theorem tokens (h : k.IsQuoted) (tail : String) :
    tokenize (String.ofList k.spelling ++ tail) =
      (Lexer.behindText (String.ofList k.spelling) tail).stream.tokens.map
        (.atStart (String.ofList k.spelling) k :: ·) := by
  rw [tokenize, Lexer.stream_of_next (h.next tail) h.ne_endOfInput, TokenStream.tokens]

end Token.Kind.IsQuoted

/-- Behind the last text only the end is left to read. -/
theorem Lexer.stream_behindText_empty (text : String) :
    (behindText text "").stream = .ended (Position.start.after text.toList) := by
  have hshebang : (behindText text "").shebang? = none :=
    shebang?_eq_none_of_rest fun _ => nofun
  rw [stream_eq, next_of_isGap isGap_nil hshebang]
  rfl

theorem Token.Kind.IsQuoted.readsAs (h : k.IsQuoted) : ReadsAs (String.ofList k.spelling) k where
  alone := by
    have hempty := h.tokens ""
    rwa [String.append_empty, Lexer.stream_behindText_empty] at hempty
  next := h.next
  tokens := h.tokens

/-- The text of a string or a character literal, in every layout, is read as that literal and
nothing else, and it stays so in front of every text: behind a blank or anything else, reading
goes on with the first character that does not belong to the literal. -/
theorem readsAs_quoted {v : Literal} (hv : v.kind.IsQuoted) (span : Span) (l : Layout) :
    ReadsAs ((Expr.literal span v).text l) v.kind := by
  have htext : (Expr.literal span v).text l = String.ofList v.kind.spelling := by
    simp [Expr.text, Expr.pieces, Layout.write, Layout.characters]
  rw [htext]
  exact hv.readsAs

/-- A string with a quote, a run of backslashes in front of its end, and controls. -/
theorem readsAs_quoted_backslashes :
    (Literal.string "'\"\n\x00\\\\").kind.IsQuoted ∧
      ReadsAs ((Expr.literal default (.string "'\"\n\x00\\\\")).text .compact)
        (.string "'\"\n\x00\\\\") :=
  ⟨.string _, readsAs_quoted (v := .string "'\"\n\x00\\\\") (.string _) default .compact⟩

/-- Each kind of literal escapes its own quote and leaves the other one bare. -/
example : (Expr.literal default (.string "'\"\n\x00\\")).text .compact = "\"'\\\"\\n\\0\\\\\"" ∧
    (Expr.literal default (.character '\'')).text .compact = "'\\''" ∧
      (Expr.literal default (.character '"')).text .compact = "'\"'" := by
  decide

end WqSource
