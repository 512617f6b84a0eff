import WqSource.Proofs.Token.Tiling
import WqSource.Proofs.Tree.Words

/-!
# Texts without words

A text says nothing if there are only blanks, semicolons and comments in it. That is so if and
only if it has tokens and they are all separators: nothing else vanishes from a text, and nothing
in a comment is read, whatever quotes and brackets there are in it.

Both directions come from one fact. A gap, and the lexeme of a separator, can be put in front of
a text or taken away without a difference to whether it says something.

## Main definitions

* `Blank`: the texts that say nothing.

## Main statements

* `Lexer.blank_iff_tiled`: their tokens.
-/

namespace WqSource

variable {c : Char} {cs rest gap lexeme spaces text : List Char} {k : Token.Kind} {ts : List Token}

/-- A text of blanks, semicolons and comments, each of which runs to the end of its line. -/
inductive Blank : List Char → Prop where
  | nil : Blank []
  | blank {c : Char} {cs : List Char} : Unicode.isBlank c = true → Blank cs → Blank (c :: cs)
  | semicolon {cs : List Char} : Blank cs → Blank (';' :: cs)
  | comment {text cs : List Char} : '\n' ∉ text → (∀ c ∈ cs.head?, c = '\n') → Blank cs →
    Blank ('/' :: '/' :: (text ++ cs))

/-! ## What can be put in front -/

theorem blank_cons_iff (hc : Unicode.isBlank c = true ∨ c = ';') : Blank (c :: cs) ↔ Blank cs := by
  constructor
  · intro h
    cases h with
    | blank _ h => exact h
    | semicolon h => exact h
    | comment =>
      have hslash : ¬(Unicode.isBlank '/' = true ∨ '/' = ';') := by decide
      exact absurd hc hslash
  · intro h
    rcases hc with hc | rfl
    · exact .blank hc h
    · exact .semicolon h

/-- Blank text begins with a blank, a semicolon or a comment. -/
theorem not_blank_cons (hblank : Unicode.isBlank c = false) (hc : c ≠ ';' ∧ c ≠ '/') :
    ¬Blank (c :: cs) := by
  intro h
  cases h with
  | blank h => simp [hblank] at h
  | semicolon => exact hc.1 rfl
  | comment => exact hc.2 rfl

theorem blank_append_iff (h : ∀ c ∈ spaces, Unicode.isBlank c = true) :
    Blank (spaces ++ cs) ↔ Blank cs := by
  induction spaces with
  | nil => exact Iff.rfl
  | cons c spaces ih =>
    obtain ⟨hc, hspaces⟩ := List.forall_mem_cons.1 h
    rw [List.cons_append, blank_cons_iff (.inl hc), ih hspaces]

/-- A text is divided in one way only into a line and what is behind it. -/
theorem append_of_line_inj {line line' rest' : List Char} (hline : '\n' ∉ line)
    (hrest : ∀ c ∈ rest.head?, c = '\n') (hline' : '\n' ∉ line')
    (hrest' : ∀ c ∈ rest'.head?, c = '\n') (h : line ++ rest = line' ++ rest') : rest = rest' := by
  rw [← (line_append hline hrest).2, h, (line_append hline' hrest').2]

theorem blank_comment_iff (htext : '\n' ∉ text) (hcs : ∀ c ∈ cs.head?, c = '\n') :
    Blank ('/' :: '/' :: (text ++ cs)) ↔ Blank cs := by
  constructor
  · generalize hall : '/' :: '/' :: (text ++ cs) = all
    intro h
    cases h with
    | nil | semicolon => cases hall
    | blank hc =>
      obtain ⟨rfl, -⟩ := List.cons.inj hall
      have hslash : Unicode.isBlank '/' = false := by decide
      simp [hslash] at hc
    | comment htext' hcs' h =>
      simp only [List.cons.injEq, true_and] at hall
      rwa [append_of_line_inj htext hcs htext' hcs' hall]
  · exact .comment htext hcs

theorem IsGap.blank_iff (h : IsGap rest gap) : Blank (gap ++ rest) ↔ Blank rest := by
  cases h with
  | blanks hspaces => exact blank_append_iff fun c hc => (hspaces c hc).1
  | comment hspaces htext hrest =>
    rw [List.append_assoc, blank_append_iff fun c hc => (hspaces c hc).1]
    exact blank_comment_iff htext hrest

theorem isBlank_newline : Unicode.isBlank '\n' = true := by decide

theorem LineFeeds.blank_iff (h : LineFeeds cs) : Blank (cs ++ rest) ↔ Blank rest := by
  induction h with
  | single => exact blank_cons_iff (.inl isBlank_newline)
  | @more gap cs hgap _ ih =>
    have hsplit : gap ++ '\n' :: (cs ++ rest) =
        trivia (gap ++ '\n' :: (cs ++ rest)) ++ '\n' :: (cs ++ rest) := by
      rw [trivia_append, hgap]
    have hisGap := (isGap_trivia hsplit).1
    rw [trivia_append, hgap] at hisGap
    rw [List.cons_append, List.append_assoc, blank_cons_iff (.inl isBlank_newline)]
    exact hisGap.blank_iff.trans ih

/-! ## Tokens -/

theorem wordKind_isWord (word : String) : (wordKind word).isWord = true := by
  unfold wordKind
  repeat' split
  all_goals rfl

/-- The lexeme of a separator says nothing. -/
theorem Token.Kind.Lexeme.blank_iff (h : k.Lexeme lexeme) (hk : k.isWord = false) :
    Blank (lexeme ++ rest) ↔ Blank rest := by
  cases h with
  | newline hfeeds => exact hfeeds.blank_iff
  | punct p =>
    obtain rfl : p = .semicolon := by simpa using hk
    exact blank_cons_iff (.inr rfl)
  | word hword hkind => simp [← hkind, wordKind_isWord] at hk
  | _ => cases hk

namespace Lexer
variable {l : Lexer}

/-- A lexer has nothing but blank text in front of it behind a separator if and only if it has
so in front of it. -/
theorem Finds.blank_iff (h : l.Finds gap lexeme rest k) (hk : k.isWord = false) :
    Blank l.rest ↔ Blank rest := by
  rw [h.rest_eq, h.gap.blank_iff, h.lexeme.blank_iff hk]

/-- Blank text is tokens, all of which are separators. -/
theorem tiled_of_blank (h : Blank l.rest) :
    ∃ ts, l.Tiled ts ∧ ∀ t ∈ ts, t.kind.isWord = false := by
  induction hsize : l.rest.length using Nat.strongRecOn generalizing l with
  | ind n ih =>
    subst hsize
    -- A separator is read, and what is behind it is shorter.
    have separator {gap lexeme rest : List Char} {k : Token.Kind}
        (hsplit : l.rest = gap ++ (lexeme ++ rest)) (hgap : IsGap (lexeme ++ rest) gap)
        (hlexeme : k.Lexeme lexeme) (hends : k.EndsBefore rest) (hk : k.isWord = false) :
        ∃ ts, l.Tiled ts ∧ ∀ t ∈ ts, t.kind.isWord = false := by
      have hmagic : ∀ payload, k = .magic payload → l.atHostLine = true := by
        rintro payload rfl
        cases hk
      have hfinds : l.Finds gap lexeme rest k := ⟨hsplit, hgap, hlexeme, hends, hmagic⟩
      have hlt : rest.length < l.rest.length := by
        have hpos := List.length_pos_iff.2 hlexeme.ne_nil
        rw [hsplit]
        simp only [List.length_append]
        omega
      obtain ⟨ts, htiled, hts⟩ :=
        ih _ hlt (l := l.moved gap lexeme rest k) ((hfinds.blank_iff hk).1 h) rfl
      exact ⟨_, .token hfinds htiled, List.forall_mem_cons.2 ⟨hk, hts⟩⟩
    obtain ⟨behind, hsplit⟩ : ∃ behind, l.rest = trivia l.rest ++ behind :=
      ⟨_, (trivia_append_drop l.rest).symm⟩
    obtain ⟨hgap, htrivia⟩ := isGap_trivia hsplit
    obtain ⟨hspace, hcomment⟩ := trivia_eq_nil_iff.1 htrivia
    rw [hsplit, hgap.blank_iff] at h
    cases h with
    | nil =>
      have hall : l.rest = trivia l.rest := by rwa [List.append_nil] at hsplit
      rw [← hall] at hgap
      exact ⟨_, .ending hgap, by simp [Token.ending, Token.Kind.isWord]⟩
    | @blank c cs hc _ =>
      obtain rfl : c = '\n' := by
        by_contra hne
        simp [isSpace, hc, hne] at hspace
      have hfront : newlines ('\n' :: cs) ++ ('\n' :: cs).drop (newlines ('\n' :: cs)).length =
          '\n' :: cs := List.prefix_iff_eq_append.1 (newlines_front _)
      rw [← hfront] at hsplit hgap
      exact separator hsplit hgap (.newline (newlines_lexeme cs))
        (newlines_endsBefore hfront.symm) rfl
    | semicolon => exact separator hsplit hgap (.punct .semicolon) trivial rfl
    | comment => exact absurd rfl (hcomment _)

theorem Tiled.blank (h : l.Tiled ts) (hts : ∀ t ∈ ts, t.kind.isWord = false) : Blank l.rest := by
  induction h with
  | ending hgap =>
    have hblank := hgap.blank_iff.2 .nil
    rwa [List.append_nil] at hblank
  | token hfinds _ ih =>
    obtain ⟨hk, hts⟩ := List.forall_mem_cons.1 hts
    exact (hfinds.blank_iff hk).2 (ih hts)

/-- A text is blank if and only if it is made of tokens that are no words. -/
theorem blank_iff_tiled :
    Blank l.rest ↔ ∃ ts, l.Tiled ts ∧ ∀ t ∈ ts, t.kind.isWord = false :=
  ⟨tiled_of_blank, fun ⟨_, htiled, hts⟩ => htiled.blank hts⟩

end Lexer
end WqSource
