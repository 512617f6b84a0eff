import WqSource.Proofs.Token.Place
import WqSource.Proofs.Token.Tiling

/-!
# Lexemes are slices

A lexeme is the text that its token was read from, byte by byte: what stands in the span of the
token. Runs of line feeds have the blank lines and comments between them in their lexeme, and
lines for the host have their carriage return. Only a shebang line leaves it out, although its
span does not.

## Main definitions

* `Token.Kind.kept`: what a lexeme keeps of the text in its span.

## Main statements

* `Lexer.Tiled.lexeme_eq`: the lexemes of tiles.
* `tokenize_lexemes`: the lexemes of a text.
-/

namespace WqSource

variable {source : String} {ts : List Token} {k : Token.Kind} {gap lexeme rest : List Char}

/-- What a lexeme keeps of the text in its span: all of it, but that a shebang line is without the
carriage return it may end with. -/
def Token.Kind.kept : Token.Kind → String → String
  | shebang _, text => String.ofList (dropReturn text.toList)
  | _, text => text

theorem Token.Kind.kept_of_ne_shebang (hk : ∀ text, k ≠ .shebang text) (text : String) :
    k.kept text = text := by
  unfold kept
  split
  · next line => exact absurd rfl (hk line)
  · rfl

namespace Lexer
variable {l : Lexer}

theorem Finds.leadsTo (h : l.Finds gap lexeme rest k) :
    l.LeadsTo (gap ++ lexeme) (l.moved gap lexeme rest k) where
  rest := by rw [h.rest_eq, ← List.append_assoc]; rfl
  position := (Position.after_append _ _ _).symm

/-- The lexeme of a tile is the text in its span. -/
theorem Tiled.lexeme_eq (h : l.Tiled ts) (hl : l.InText source) :
    ∀ t ∈ ts, t.lexeme = t.span.slice source := by
  induction h with
  | @ending l =>
    -- The end of the text is behind the last gap, and there is nothing in it.
    have hrest : l.rest = l.rest ++ ([] ++ []) := by simp
    rw [List.forall_mem_singleton]
    exact (hl.slice hrest).symm
  | token hfinds _ ih =>
    exact List.forall_mem_cons.2 ⟨(hl.slice hfinds.rest_eq).symm, ih (hl.leadsTo hfinds.leadsTo)⟩

end Lexer

/-- The lexeme of every token is the text in its span, except that a shebang line is without the
carriage return at its end. -/
theorem tokenize_lexemes (h : tokenize source = .ok ts) :
    ∀ t ∈ ts, t.lexeme = t.kind.kept (t.span.slice source) := by
  have hsource := Lexer.inText_ofString source
  have htiles {l : Lexer} {us : List Token} (hl : l.InText source) (htiled : l.Tiled us) :
      ∀ t ∈ us, t.lexeme = t.kind.kept (t.span.slice source) := by
    intro t ht
    rw [Token.Kind.kept_of_ne_shebang (htiled.kind_ne_shebang t ht)]
    exact htiled.lexeme_eq hl t ht
  rcases tiled_of_tokenize h with htiled | ⟨line, tail, hline, rfl, htiled⟩
  · exact htiles hsource htiled
  · obtain ⟨hfront, -⟩ := Lexer.shebang?_front hline
    refine List.forall_mem_cons.2 ⟨?_, htiles (hsource.skip hfront) htiled⟩
    have hrest : (Lexer.ofString source).rest =
        [] ++ (line ++ (Lexer.ofString source).rest.drop line.length) :=
      (List.prefix_iff_eq_append.1 hfront).symm
    have hslice : ((Lexer.ofString source).nextShebang line).1.span.slice source =
        String.ofList line := hsource.slice hrest
    change String.ofList (dropReturn line) = String.ofList (dropReturn
      (((Lexer.ofString source).nextShebang line).1.span.slice source).toList)
    rw [hslice, String.toList_ofList]

/-- A shebang line with a carriage return at its end, and line feeds with a comment between them.
The lexeme of the shebang line is not the text in its span. -/
theorem tokenize_lexemes_return :
    ∃ ts, tokenize "#!a\r\nx\n//\n" = .ok ts ∧
      (∀ t ∈ ts, t.lexeme = t.kind.kept (t.span.slice "#!a\r\nx\n//\n")) ∧
        ∃ t ∈ ts, t.lexeme = "#!a" ∧ t.span.slice "#!a\r\nx\n//\n" = "#!a\r" := by
  have hok : (tokenize "#!a\r\nx\n//\n").toOption.any (·.any fun t =>
      t.lexeme = "#!a" ∧ t.span.slice "#!a\r\nx\n//\n" = "#!a\r") = true := by
    decide +kernel
  cases h : tokenize "#!a\r\nx\n//\n" with
  | error e =>
    rw [h] at hok
    cases hok
  | ok ts =>
    rw [h] at hok
    obtain ⟨t, ht, hlexeme⟩ := List.any_eq_true.1 hok
    exact ⟨ts, rfl, tokenize_lexemes h, t, ht, by simpa using hlexeme⟩

end WqSource
