import WqSource.Proofs.Alike.Program
import WqSource.Proofs.Complete.Text
import WqSource.Proofs.Sound.Words
import WqSource.Proofs.Token.Blank

/-!
# The texts of empty programs

A parse tells nothing and finds no statement if and only if there is nothing in the text but
blanks, semicolons and comments, behind a shebang line perhaps. Whatever else stands in a text is
a word, and a word is in a statement or leads to an error.

## Main definitions

* `BlankSource`: a blank text, perhaps behind a shebang line.

## Main statements

* `parse_blank_iff`: the texts of empty programs.
-/

namespace WqSource
open Grammar WqSource.Parser
open Token.Kind (front)

variable {c : Cursor} {cs : List Char} {ks : List Token.Kind} {ts : List Token} {source : String}
  {recover : Bool}

/-- A shebang line, perhaps, and blank text behind it. -/
def BlankSource (cs : List Char) : Prop :=
  Blank cs ∨ ∃ line rest, cs = '#' :: '!' :: (line ++ rest) ∧ '\n' ∉ line ∧
    (∀ c ∈ rest.head?, c = '\n') ∧ Blank rest

/-! ## Blank text is an empty program -/

/-- Tokens that are no words are shown as separators. -/
theorem Lexer.Tiled.shows {l : Lexer} (h : l.Tiled ts) (hshebang : l.shebang? = none)
    (hts : ∀ t ∈ ts, t.kind.isWord = false) :
    ∃ ks, l.stream.Shows ks l.position.offset ∧ ∀ k ∈ ks, k.isSeparator = true := by
  induction h with
  | ending hgap =>
    rw [stream_eq, next_of_isGap hgap hshebang]
    exact ⟨[], .ended _ _, nofun⟩
  | @token l gap lexeme rest k ts hfinds _ ih =>
    obtain ⟨hk, hts⟩ := List.forall_mem_cons.1 hts
    obtain ⟨ks, hshows, hks⟩ := ih hfinds.shebang?_moved hts
    have hend : k ≠ .endOfInput := hfinds.lexeme.kind_ne.1
    have hk : k.isWord = false := hk
    rw [stream_of_next (hfinds.next hshebang) hend]
    refine ⟨k :: ks, .token (t := l.tokenBehind gap lexeme k) hend ?_ hshows,
      List.forall_mem_cons.2 ⟨?_, hks⟩⟩
    · intro hbracket
      have hbracket : k = .punct .openBracket := hbracket
      rw [hbracket] at hk
      cases hk
    · simpa [Token.Kind.isWord, hend] using hk

/-- The tokens of blank text are separators. -/
theorem Blank.shows (h : Blank source.toList) :
    ∃ ks, (Lexer.ofString source).stream.Shows ks 0 ∧ ∀ k ∈ ks, k.isSeparator = true := by
  have hshebang : (Lexer.ofString source).shebang? = none := by
    apply Lexer.shebang?_eq_none_of_rest
    intro tail htail
    have hsign : ¬Blank ('#' :: '!' :: tail) := not_blank_cons (by decide) (by decide)
    rw [← htail] at hsign
    exact hsign h
  obtain ⟨ts, htiled, hts⟩ := Lexer.tiled_of_blank (l := Lexer.ofString source) h
  exact htiled.shows hshebang hts

/-- The tokens of a shebang line and blank text behind it. -/
theorem shows_of_line {line rest : List Char}
    (hsource : source.toList = '#' :: '!' :: (line ++ rest)) (hline : '\n' ∉ line)
    (hrest : ∀ c ∈ rest.head?, c = '\n') (hblank : Blank rest) :
    ∃ text ks, (Lexer.ofString source).stream.Shows (.shebang text :: ks) 0 ∧
      ∀ k ∈ ks, k.isSeparator = true := by
  have hshebang := Lexer.shebang?_of_rest (l := Lexer.ofString source) rfl hsource hline hrest
  obtain ⟨hnext, -⟩ := Lexer.next_of_shebang hshebang
  have hbehind : ((Lexer.ofString source).skip ('#' :: '!' :: line)).rest = rest := by
    change source.toList.drop _ = rest
    rw [hsource]
    exact List.drop_left
  rw [← hbehind] at hblank
  obtain ⟨ts, htiled, hts⟩ := Lexer.tiled_of_blank hblank
  obtain ⟨ks, hshows, hks⟩ := htiled.shows (Lexer.shebang?_skip hshebang) hts
  have hkind : ((Lexer.ofString source).nextShebang ('#' :: '!' :: line)).1.kind ≠ .endOfInput := by
    simp [Lexer.nextShebang]
  rw [Lexer.stream_of_next hnext hkind]
  refine ⟨_, ks, .token hkind ?_ hshows, hks⟩
  intro hbracket
  cases hbracket

namespace Grammar

/-- Among separators there is no statement. -/
theorem topLevel_separators (recover : Bool) (hks : ∀ k ∈ ks, k.isSeparator = true)
    (hc : c.Views ks) : ∃ c', topLevel recover c = (⟨[], none⟩, c') ∧ c'.problems = c.problems := by
  induction ks generalizing c with
  | nil => exact ⟨c, topLevel_atEnd hc, rfl⟩
  | cons k ks ih =>
    obtain ⟨hk, hks⟩ := List.forall_mem_cons.1 hks
    have hseparator : c.atSeparator = true := by rw [hc.atSeparator, Token.Kind.front_cons, hk]
    obtain ⟨c₁, ht, hc₁⟩ := hc.take
    obtain ⟨c', hmore, hproblems⟩ := ih hks hc₁
    refine ⟨c', ?_, by rw [hproblems, Cursor.problems_take ht]⟩
    rw [topLevel_atSeparator hseparator, ht]
    exact hmore

/-- A shebang line, perhaps, and separators behind it are a program without statements. -/
theorem program_separators (recover : Bool) (line? : Option String)
    (hks : ∀ k ∈ ks, k.isSeparator = true)
    (hc : c.Views ((line?.map Token.Kind.shebang).toList ++ ks)) :
    ∃ c', program recover c = (⟨⟨line?, [], ⟨.start, c'.current.span.stop⟩⟩, none⟩, c') ∧
      c'.problems = c.problems := by
  obtain ⟨c₁, hrun, hc₁, hproblems⟩ : ∃ c₁, shebang.run c = (.ok line?, c₁) ∧ c₁.Views ks ∧
      c₁.problems = c.problems := by
    cases line? with
    | none =>
      have hc : c.Views ks := hc
      refine ⟨c, run_shebang_of_ne fun text htext => ?_, hc, rfl⟩
      rw [hc.kind] at htext
      cases ks with
      | nil => cases htext
      | cons k ks =>
        have hk := hks k List.mem_cons_self
        rw [show k = .shebang text from htext] at hk
        cases hk
    | some text =>
      obtain ⟨c₁, ht, hc₁⟩ := hc.take
      have hk : c.current.kind = .shebang text := hc.kind
      exact ⟨c₁, by rw [run_shebang hk, ht], hc₁, Cursor.problems_take ht⟩
  obtain ⟨c', htop, hproblems'⟩ := topLevel_separators recover hks hc₁
  refine ⟨c', ?_, hproblems'.trans hproblems⟩
  simp only [program, hrun, htop]

/-- A text of a shebang line, perhaps, and separators behind it is an empty program. -/
theorem parse_separators (recover : Bool) (line? : Option String)
    (hks : ∀ k ∈ ks, k.isSeparator = true)
    (h : (Lexer.ofString source).stream.Shows ((line?.map Token.Kind.shebang).toList ++ ks) 0) :
    (parse source recover).diagnostics = [] ∧ (parse source recover).program.statements = [] ∧
      (parse source recover).program.shebang = line? := by
  obtain ⟨c, hsource, hc⟩ := Cursor.views_of_shows h
  obtain ⟨c', hprogram, hproblems⟩ := program_separators recover line? hks hc
  rw [(Cursor.ordered_ofString hsource).2] at hproblems
  rw [parse_eq_read]
  unfold read
  simp [hsource, hprogram, Parsed.diagnostics, hproblems]

/-! ## Empty programs are blank text -/

/-- What is left of some tokens begins with the first word among them. -/
theorem head?_tidied (ls : List Token.Kind) :
    (Token.Kind.tidied ls).head? = (Token.Kind.words ls).head?.map Token.Kind.canonical := by
  rw [Token.Kind.tidied, Token.Kind.head?_dropEmptyParams, List.head?_map]

theorem tidied_shebang (text : String) (ls : List Token.Kind) :
    Token.Kind.tidied (.shebang text :: ls) = .shebang text :: Token.Kind.tidied ls := by
  rw [Token.Kind.tidied, Token.Kind.words_cons rfl, List.map_cons]
  exact Token.Kind.dropEmptyParams_cons (k := .shebang text) (by simp) _

/-- Where nothing is left of some tokens, there are no words among them. -/
theorem isWord_of_tidied (h : Token.Kind.tidied (ts.map Token.kind) = []) :
    ∀ t ∈ ts, t.kind.isWord = false := by
  have hhead := head?_tidied (ts.map Token.kind)
  rw [h] at hhead
  have hwords : Token.Kind.words (ts.map Token.kind) = [] := by simpa using hhead.symm
  intro t ht
  simpa using List.filter_eq_nil_iff.1 hwords t.kind (List.mem_map_of_mem ht)

/-- A text in which nothing is found is blank behind its shebang line. -/
theorem blankSource_of_parse (hdiagnostics : (parse source recover).diagnostics = [])
    (hstatements : (parse source recover).program.statements = []) :
    BlankSource source.toList ∧
      ((parse source recover).program.shebang = none → Blank source.toList) := by
  have herrors : (parse source recover).errors = [] := by simp [Parsed.errors, hdiagnostics]
  have hsame : parse source recover = parse source false := parse_eq_of_errors_eq_nil herrors
  rw [hsame] at herrors hstatements ⊢
  obtain ⟨ts, htokens, hwords⟩ := parse_words herrors
  rw [Program.words, hstatements, List.flatMap_nil, List.append_nil] at hwords
  rcases tiled_of_tokenize htokens with htiled | ⟨line, tail, hline, rfl, htiled⟩
  · -- Tokens behind gaps are no shebang lines, so that no word at all is left.
    have hnone : (parse source false).program.shebang = none := by
      by_contra hsome
      obtain ⟨text, htext⟩ := Option.ne_none_iff_exists'.1 hsome
      have hhead := head?_tidied (ts.map Token.kind)
      rw [hwords, htext] at hhead
      obtain ⟨k, hk, hcanonical⟩ := Option.map_eq_some_iff.1 hhead.symm
      obtain ⟨t, ht, rfl⟩ := List.mem_map.1 (List.mem_filter.1 (List.mem_of_mem_head? hk)).1
      have hshebang := htiled.kind_ne_shebang t ht text
      unfold Token.Kind.canonical at hcanonical
      split at hcanonical
      · cases hcanonical
      · exact hshebang hcanonical
    rw [hnone] at hwords
    have hblank := htiled.blank (isWord_of_tidied hwords)
    exact ⟨.inl hblank, fun _ => hblank⟩
  · -- The shebang line is the only word that is left.
    obtain ⟨-, -, hsplit, hfeed, hrest⟩ := Lexer.next_of_shebang hline
    rw [List.map_cons, Lexer.nextShebang, tidied_shebang] at hwords
    cases hshebang : (parse source false).program.shebang with
    | none =>
      rw [hshebang] at hwords
      cases hwords
    | some text =>
      rw [hshebang] at hwords
      have hblank := htiled.blank (isWord_of_tidied (List.cons.inj hwords).2)
      refine ⟨.inr ?_, fun hnone => absurd hnone (Option.some_ne_none _)⟩
      obtain ⟨cs, rfl⟩ := Lexer.exists_of_shebang? hline
      simp only [List.mem_cons, Char.reduceEq, false_or] at hfeed
      exact ⟨cs, _, hsplit, hfeed, hrest, hblank⟩

/-- A parse finds no statement and tells nothing if and only if the text is blank, perhaps behind
a shebang line. Without such a line it finds none. -/
theorem parse_blank_iff (source : String) (recover : Bool) :
    ((parse source recover).diagnostics = [] ∧ (parse source recover).program.statements = [] ↔
        BlankSource source.toList) ∧
      ((parse source recover).diagnostics = [] ∧
          (parse source recover).program.statements = [] ∧
            (parse source recover).program.shebang = none ↔ Blank source.toList) := by
  constructor
  · constructor
    · rintro ⟨hdiagnostics, hstatements⟩
      exact (blankSource_of_parse hdiagnostics hstatements).1
    · rintro (hblank | ⟨line, rest, hsource, hline, hrest, hblank⟩)
      · obtain ⟨ks, hshows, hks⟩ := hblank.shows
        obtain ⟨hdiagnostics, hstatements, -⟩ :=
          parse_separators recover none hks hshows
        exact ⟨hdiagnostics, hstatements⟩
      · obtain ⟨text, ks, hshows, hks⟩ := shows_of_line hsource hline hrest hblank
        obtain ⟨hdiagnostics, hstatements, -⟩ :=
          parse_separators recover (some text) hks hshows
        exact ⟨hdiagnostics, hstatements⟩
  · constructor
    · rintro ⟨hdiagnostics, hstatements, hshebang⟩
      exact (blankSource_of_parse hdiagnostics hstatements).2 hshebang
    · intro hblank
      obtain ⟨ks, hshows, hks⟩ := hblank.shows
      exact parse_separators recover none hks hshows

end Grammar
end WqSource
