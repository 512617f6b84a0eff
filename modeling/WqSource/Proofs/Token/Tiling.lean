import WqSource.Proofs.Token.Reading
import Mathlib.Data.List.Chain

/-!
# Tokens tile their text

Reads in a row find one token behind the other, each behind a gap, until only a gap is left.
`Lexer.Tiled` says so of the tokens that are ahead of a lexer, and says what they are: a lexer
has these tokens ahead if and only if the text is made of them.

What holds of the tokens of a text is read off the tiles. They are in order, nothing but gaps is
between them, and no two runs of line feeds are next to each other, because such a run takes the
next one with it.

## Main definitions

* `Lexer.Tiled`: the tokens that are ahead of a lexer.
* `Tiling`: how the tokens of a text stand in it.

## Main statements

* `Lexer.tiled_iff`: what is ahead of a lexer is what its text is made of.
* `tokenize_tiling`: the tokens of a text.
-/

namespace WqSource

variable {k : Token.Kind} {lexeme : List Char} {ts : List Token}

/-! ## Lexemes -/

namespace Token.Kind

theorem Lexeme.ne_nil (h : k.Lexeme lexeme) : lexeme ≠ [] := by
  cases h with
  | integer hdigits => exact hdigits.1
  | float => simp
  | word hword =>
    obtain ⟨c, cs, rfl, -⟩ := hword.head
    exact List.cons_ne_nil _ _
  | newline hfeeds =>
    obtain ⟨cs, rfl⟩ := hfeeds.head
    exact List.cons_ne_nil _ _
  | punct p => cases p <;> exact List.cons_ne_nil _ _
  | symbol | string | character | control | magic => exact List.cons_ne_nil _ _

/-- Some kinds are not read from a text behind a gap. -/
theorem Lexeme.kind_ne (h : k.Lexeme lexeme) :
    k ≠ .endOfInput ∧ ∀ text, k ≠ .shebang text := by
  cases h with
  | word hword hk =>
    refine ⟨fun hend => ?_, (wordKind_ne hk).2⟩
    rw [hend, wordKind] at hk
    repeat' split at hk
    all_goals cases hk
  | _ => simp

/-- Line feeds are read where there is one. -/
theorem Lexeme.head_of_newline (h : Lexeme .newline lexeme) : ∃ tail, lexeme = '\n' :: tail := by
  cases h with
  | word hword hk => exact absurd hk fun hk => (wordKind_ne hk).1 rfl
  | newline hfeeds => exact hfeeds.head

end Token.Kind

/-! ## Tiles -/

namespace Lexer
variable {l l' : Lexer} {gap rest : List Char} {t : Token}

theorem shebang?_eq_none (h : l.position.offset ≠ 0) : l.shebang? = none := by
  simp only [shebang?]
  split
  · exact absurd ‹_› h
  · rfl

theorem Finds.offset_lt (h : l.Finds gap lexeme rest k) :
    l.position.offset ≤ (l.position.after gap).offset ∧
      (l.position.after gap).offset < (l.moved gap lexeme rest k).position.offset :=
  ⟨Position.offset_le_after _ _, Position.offset_lt_after h.lexeme.ne_nil⟩

/-- Behind a token there is no shebang line. -/
theorem Finds.shebang?_moved (h : l.Finds gap lexeme rest k) :
    (l.moved gap lexeme rest k).shebang? = none := by
  apply shebang?_eq_none
  have hlt := h.offset_lt.2
  omega

/-- Behind a shebang line there is no other one. -/
theorem shebang?_skip {line : List Char} (h : l.shebang? = some line) :
    (l.skip line).shebang? = none := by
  apply shebang?_eq_none
  have hlt := Position.offset_lt_after (p := l.position) (shebang?_front h).2
  simp only [skip]
  omega

/-- The tokens that a text is made of, each behind a gap, through the end of the text. -/
inductive Tiled : Lexer → List Token → Prop where
  | ending {l : Lexer} : IsGap [] l.rest → Tiled l [.ending (l.position.after l.rest)]
  | token {l : Lexer} {gap lexeme rest : List Char} {k : Token.Kind} {ts : List Token} :
    l.Finds gap lexeme rest k → Tiled (l.moved gap lexeme rest k) ts →
      Tiled l (l.tokenBehind gap lexeme k :: ts)

theorem Tiled.tokens_eq (h : l.Tiled ts) (hshebang : l.shebang? = none) :
    l.stream.tokens = .ok ts := by
  induction h with
  | ending hgap =>
    rw [stream_eq, next_of_isGap hgap hshebang]
    rfl
  | token hfinds _ ih =>
    rw [stream_of_next (hfinds.next hshebang) hfinds.lexeme.kind_ne.1, TokenStream.tokens,
      ih hfinds.shebang?_moved]
    rfl

theorem tiled_of_tokens (h : l.stream.tokens = .ok ts) (hshebang : l.shebang? = none) :
    l.Tiled ts := by
  fun_induction stream l generalizing ts with
  | case1 l t ht hk =>
    obtain ⟨hgap, hending⟩ := isGap_of_next (Prod.ext ht rfl) hk
    obtain rfl : [Token.ending t.span.start] = ts := Except.ok.inj h
    rw [hending]
    exact .ending hgap
  | case2 l t ht hk ih =>
    have hnext : l.next = (.ok t, l.next.2) := Prod.ext ht rfl
    obtain ⟨gap, lexeme, hfinds, htoken, hmoved⟩ := finds_of_next hnext hshebang hk
    rw [hmoved] at h ih
    cases htail : (l.moved gap lexeme l.next.2.rest t.kind).stream.tokens with
    | error e =>
      rw [TokenStream.tokens, htail] at h
      cases h
    | ok tail =>
      rw [TokenStream.tokens, htail] at h
      obtain rfl : t :: tail = ts := Except.ok.inj h
      rw [htoken]
      exact .token hfinds (ih htail hfinds.shebang?_moved)
  | case3 | case4 => cases h

/-- The tokens ahead of a lexer are those that its text is made of. -/
theorem tiled_iff (hshebang : l.shebang? = none) : l.Tiled ts ↔ l.stream.tokens = .ok ts :=
  ⟨fun h => h.tokens_eq hshebang, fun h => tiled_of_tokens h hshebang⟩

end Lexer

/-- A text is made of tokens, but for a shebang line in front of them. -/
theorem tiled_of_tokenize {source : String} (h : tokenize source = .ok ts) :
    (Lexer.ofString source).Tiled ts ∨ ∃ line tail,
      (Lexer.ofString source).shebang? = some line ∧
        ts = ((Lexer.ofString source).nextShebang line).1 :: tail ∧
        ((Lexer.ofString source).skip line).Tiled tail := by
  rw [tokenize] at h
  generalize Lexer.ofString source = l at *
  cases hshebang : l.shebang? with
  | none => exact .inl (Lexer.tiled_of_tokens h hshebang)
  | some line =>
    obtain ⟨hnext, -⟩ := Lexer.next_of_shebang hshebang
    rw [Lexer.stream_of_next hnext (by simp [Lexer.nextShebang]), TokenStream.tokens] at h
    cases htail : (l.skip line).stream.tokens with
    | error e =>
      rw [htail] at h
      cases h
    | ok tail =>
      rw [htail] at h
      exact .inr ⟨line, tail, rfl, (Except.ok.inj h).symm,
        Lexer.tiled_of_tokens htail (Lexer.shebang?_skip hshebang)⟩

/-! ## What is read off the tiles -/

/-- From one byte of a text to another there is nothing but a gap. -/
def GapBetween (source : List Char) (first last : Nat) : Prop :=
  ∃ front gap behind, source = front ++ (gap ++ behind) ∧ byteLength front = first ∧
    byteLength (front ++ gap) = last ∧ IsGap behind gap

/-- How the tokens of a text stand in it. -/
structure Tiling (source : List Char) (ts : List Token) : Prop where
  /-- The last token is the end of the text, and the only one without text. -/
  ending : ∃ before place, ts = before ++ [.ending place] ∧ place.offset = byteLength source ∧
    ∀ t ∈ before, t.kind ≠ .endOfInput ∧ t.span.start.offset < t.span.stop.offset
  /-- Tokens stand one behind the other. -/
  ordered : ts.Pairwise fun t t' => t.span.stop.offset ≤ t'.span.start.offset
  /-- In front of the first token there is a gap. -/
  front : ∀ t ∈ ts.head?, GapBetween source 0 t.span.start.offset
  /-- Between two tokens there is a gap. -/
  gaps : ts.IsChain fun t t' => GapBetween source t.span.stop.offset t'.span.start.offset
  /-- Line feeds are not next to line feeds. -/
  newlines : ts.IsChain fun t t' => t.kind = .newline → t'.kind ≠ .newline
  /-- Only the first token is a shebang line, and only at the start of the text. -/
  shebang_tail : ∀ t ∈ ts.tail, ∀ text, t.kind ≠ .shebang text
  shebang_head : ∀ t ∈ ts.head?, ∀ text, t.kind = .shebang text → t.span.start.offset = 0
  /-- No more tokens than characters, but for the end. -/
  count : ts.length ≤ source.length + 1

namespace Lexer.Tiled
variable {l : Lexer} {t : Token} {source before : List Char}

theorem ending_last (h : l.Tiled ts) :
    ∃ before place, ts = before ++ [.ending place] ∧
      place.offset = l.position.offset + byteLength l.rest ∧
      ∀ t ∈ before, t.kind ≠ .endOfInput ∧ t.span.start.offset < t.span.stop.offset := by
  induction h with
  | ending => exact ⟨[], _, rfl, Position.offset_after _ _, nofun⟩
  | token hfinds _ ih =>
    obtain ⟨before, place, rfl, hplace, hbefore⟩ := ih
    refine ⟨_ :: before, place, rfl, ?_, ?_⟩
    · rw [hplace, hfinds.rest_eq]
      simp only [moved, Position.offset_after, byteLength_append]
      omega
    · simp only [List.forall_mem_cons]
      exact ⟨⟨hfinds.lexeme.kind_ne.1, hfinds.offset_lt.2⟩, hbefore⟩

theorem le_start (h : l.Tiled ts) : ∀ t ∈ ts, l.position.offset ≤ t.span.start.offset := by
  induction h with
  | ending => simpa [Token.ending] using Position.offset_le_after _ _
  | token hfinds _ ih =>
    obtain ⟨hle, hlt⟩ := hfinds.offset_lt
    simp only [List.forall_mem_cons]
    exact ⟨hle, fun t ht => by have := ih t ht; omega⟩

theorem ordered (h : l.Tiled ts) :
    ts.Pairwise fun t t' => t.span.stop.offset ≤ t'.span.start.offset := by
  induction h with
  | ending => exact List.pairwise_singleton _ _
  | token _ htiled ih => exact List.pairwise_cons.2 ⟨htiled.le_start, ih⟩

theorem gaps (h : l.Tiled ts) (hsource : source = before ++ l.rest)
    (hbefore : byteLength before = l.position.offset) :
    (∀ t ∈ ts.head?, GapBetween source l.position.offset t.span.start.offset) ∧
      ts.IsChain fun t t' => GapBetween source t.span.stop.offset t'.span.start.offset := by
  induction h generalizing before with
  | @ending l hgap =>
    refine ⟨?_, List.isChain_singleton _⟩
    rintro t ⟨⟩
    refine ⟨before, l.rest, [], by simpa using hsource, hbefore, ?_, hgap⟩
    rw [byteLength_append, hbefore]
    exact (Position.offset_after _ _).symm
  | @token l gap lexeme rest k ts hfinds _ ih =>
    have hsplit : source = before ++ gap ++ lexeme ++ rest := by
      rw [hsource, hfinds.rest_eq]
      simp only [List.append_assoc]
    have hlength : byteLength (before ++ gap ++ lexeme) =
        (l.moved gap lexeme rest k).position.offset := by
      simp only [moved, Position.offset_after, byteLength_append, hbefore]
    obtain ⟨hfront, hgaps⟩ := ih hsplit hlength
    refine ⟨?_, List.isChain_cons.2 ⟨hfront, hgaps⟩⟩
    rintro t ⟨⟩
    refine ⟨before, gap, lexeme ++ rest, by simpa using hsplit, hbefore, ?_, hfinds.gap⟩
    rw [byteLength_append, hbefore]
    exact (Position.offset_after _ _).symm

/-- Behind line feeds that are read the next token is none. -/
theorem head_ne_newline (h : l.Tiled ts) (hends : Token.Kind.newline.EndsBefore l.rest) :
    ∀ t ∈ ts.head?, t.kind ≠ .newline := by
  cases h with
  | ending => rintro t ⟨⟩; nofun
  | @token _ gap lexeme rest k ts hfinds =>
    rintro t ⟨⟩ hk
    obtain rfl : k = .newline := hk
    obtain ⟨tail, rfl⟩ := hfinds.lexeme.head_of_newline
    have htrivia := hfinds.gap.trivia_eq (hfinds.lexeme.trivia_eq hfinds.ends)
    rw [← hfinds.rest_eq] at htrivia
    refine hends (tail ++ rest) ?_
    rw [htrivia, hfinds.rest_eq, List.drop_left]
    rfl

theorem newlines (h : l.Tiled ts) :
    ts.IsChain fun t t' => t.kind = .newline → t'.kind ≠ .newline := by
  induction h with
  | ending => exact List.isChain_singleton _
  | @token l gap lexeme rest k ts hfinds htiled ih =>
    refine List.isChain_cons.2 ⟨fun t ht hk => ?_, ih⟩
    obtain rfl : k = .newline := hk
    exact htiled.head_ne_newline hfinds.ends t ht

theorem kind_ne_shebang (h : l.Tiled ts) : ∀ t ∈ ts, ∀ text, t.kind ≠ .shebang text := by
  induction h with
  | ending => simp [Token.ending]
  | token hfinds _ ih => exact List.forall_mem_cons.2 ⟨hfinds.lexeme.kind_ne.2, ih⟩

theorem length_le (h : l.Tiled ts) : ts.length ≤ l.rest.length + 1 := by
  induction h with
  | ending => simp
  | token hfinds _ ih =>
    have hpos := List.length_pos_iff.2 hfinds.lexeme.ne_nil
    rw [hfinds.rest_eq]
    simp only [moved, List.length_append, List.length_cons] at ih ⊢
    omega

end Lexer.Tiled

/-- The tokens of a text tile it. -/
theorem tokenize_tiling {source : String} (h : tokenize source = .ok ts) :
    Tiling source.toList ts := by
  rcases tiled_of_tokenize h with htiled | ⟨line, tail, hline, rfl, htiled⟩
  · have hsource : source.toList = [] ++ (Lexer.ofString source).rest := rfl
    obtain ⟨hfront, hgaps⟩ := htiled.gaps hsource rfl
    obtain ⟨before, place, hts, hplace, hbefore⟩ := htiled.ending_last
    have hshebang := htiled.kind_ne_shebang
    exact {
      ending := ⟨before, place, hts, by simpa [Lexer.ofString, Position.start] using hplace, hbefore⟩
      ordered := htiled.ordered
      front := hfront
      gaps := hgaps
      newlines := htiled.newlines
      shebang_tail := fun t ht => hshebang t (List.mem_of_mem_tail ht)
      shebang_head := fun t ht text hk => absurd hk (hshebang t (List.mem_of_mem_head? ht) text)
      count := htiled.length_le }
  · -- The shebang line is one more token, behind no gap.
    obtain ⟨-, -, hrest, -⟩ := Lexer.next_of_shebang hline
    have hne := (Lexer.shebang?_front hline).2
    generalize hl : (Lexer.ofString source).skip line = l at hrest htiled
    have hposition : l.position = Position.start.after line := by
      rw [← hl]
      rfl
    have hoffset : byteLength line = l.position.offset := by
      rw [hposition, Position.offset_after]
      exact (Nat.zero_add _).symm
    have hsource : source.toList = line ++ l.rest := hrest
    obtain ⟨before, place, hts, hplace, hbefore⟩ := htiled.ending_last
    obtain ⟨hfront, hgaps⟩ := htiled.gaps hsource hoffset
    obtain ⟨t, ht⟩ : ∃ t, ((Lexer.ofString source).nextShebang line).1 = t := ⟨_, rfl⟩
    have hkind : t.kind ≠ .endOfInput ∧ t.kind ≠ .newline := by simp [← ht, Lexer.nextShebang]
    have hstart : t.span.start.offset = 0 := by rw [← ht]; rfl
    have hstop : t.span.stop = l.position := by rw [← ht, ← hl]; rfl
    have hlt : 0 < l.position.offset := by
      rw [hposition]
      exact Position.offset_lt_after (p := .start) hne
    rw [ht]
    refine {
      ending := ⟨t :: before, place, by rw [hts]; rfl, ?_, ?_⟩
      ordered := List.pairwise_cons.2 ⟨?_, htiled.ordered⟩
      front := ?_
      gaps := List.isChain_cons.2 ⟨by rwa [hstop], hgaps⟩
      newlines := List.isChain_cons.2 ⟨fun _ _ hk => absurd hk hkind.2, htiled.newlines⟩
      shebang_tail := htiled.kind_ne_shebang
      shebang_head := ?_
      count := ?_ }
    · rw [hplace, hsource, byteLength_append, hoffset]
    · simp only [List.forall_mem_cons]
      exact ⟨⟨hkind.1, by rwa [hstart, hstop]⟩, hbefore⟩
    · rw [hstop]
      exact htiled.le_start
    · rintro t' ⟨⟩
      exact ⟨[], [], source.toList, rfl, rfl, hstart.symm, isGap_nil⟩
    · rintro t' ⟨⟩ - -
      exact hstart
    · have hcount := htiled.length_le
      have hpos := List.length_pos_iff.2 hne
      have hlength := congrArg List.length hsource
      simp only [String.length_toList, List.length_append, List.length_cons] at hlength ⊢
      omega

/-- A shebang line, and line feeds with a comment between them. -/
theorem tokenize_tiling_shebang :
    ∃ ts, tokenize "#!wq\nx /1 // y\n\n" = .ok ts ∧ Tiling "#!wq\nx /1 // y\n\n".toList ts := by
  have hok : (tokenize "#!wq\nx /1 // y\n\n").isOk = true := by decide +kernel
  cases h : tokenize "#!wq\nx /1 // y\n\n" with
  | error e =>
    rw [h] at hok
    cases hok
  | ok ts => exact ⟨ts, rfl, tokenize_tiling h⟩

end WqSource
