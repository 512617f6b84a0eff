import WqSource.Proofs.Token.Lexeme

/-!
# What a lexer reads next

What a lexer has in front of it is a gap, the lexeme of a token and what is behind that, or it
is a gap alone and the end of the text. `Lexer.Finds` says so of a token, and says all that a
read needs to know. Reading follows from it, and it follows from reading.

## Main definitions

* `IsGap`: what may stand between two tokens.
* `Lexer.Finds`: a token in front of a lexer, behind a gap.

## Main statements

* `Lexer.Finds.next`, `Lexer.finds_of_next`: one read.
-/

namespace WqSource

variable {c : Char} {gap lexeme rest behind cs : List Char} {k : Token.Kind}

/-! ## Gaps -/

/-- What may stand between two tokens, in front of the given text: blanks that are no line
feeds, and perhaps a comment behind them, which runs to the end of the line. -/
inductive IsGap (behind : List Char) : List Char → Prop where
  | blanks {spaces : List Char} : (∀ c ∈ spaces, Unicode.isBlank c = true ∧ c ≠ '\n') →
    IsGap behind spaces
  | comment {spaces text : List Char} : (∀ c ∈ spaces, Unicode.isBlank c = true ∧ c ≠ '\n') →
    '\n' ∉ text → (∀ c ∈ behind.head?, c = '\n') → IsGap behind (spaces ++ '/' :: '/' :: text)

theorem isSpace_iff : isSpace c = true ↔ Unicode.isBlank c = true ∧ c ≠ '\n' := by
  simp [isSpace]

theorem takeWhile_of_head {p : Char → Bool} (h : ∀ c ∈ cs.head?, p c = false) :
    cs.takeWhile p = [] ∧ cs.dropWhile p = cs := by
  have hnone : ∀ c ∈ ([] : List Char), p c = true := by simp
  exact takeWhile_append_of_head hnone h

theorem comment_eq_nil (h : ∀ tail, cs ≠ '/' :: '/' :: tail) : comment cs = [] := by
  fun_cases comment cs with
  | case1 tail => exact absurd rfl (h tail)
  | case2 => rfl

theorem trivia_eq_nil_iff :
    trivia cs = [] ↔ (∀ c ∈ cs.head?, isSpace c = false) ∧ ∀ tail, cs ≠ '/' :: '/' :: tail := by
  constructor
  · intro h
    obtain ⟨hspaces, hcomment⟩ := List.append_eq_nil_iff.1 h
    have hhead : ∀ c ∈ cs.head?, isSpace c = false := by
      intro c hc
      cases cs with
      | nil => cases hc
      | cons d tail =>
        obtain rfl : d = c := by simpa using hc
        by_cases hd : isSpace d = true <;> simp_all
    refine ⟨hhead, ?_⟩
    rintro tail rfl
    rw [(takeWhile_of_head hhead).2] at hcomment
    cases hcomment
  · rintro ⟨hspace, hcomment⟩
    obtain ⟨htake, hdrop⟩ := takeWhile_of_head hspace
    rw [trivia, htake, hdrop, comment_eq_nil hcomment, List.append_nil]

/-- A gap is all the trivia in front of what begins with none. -/
theorem IsGap.trivia_eq (h : IsGap behind gap) (hbehind : trivia behind = []) :
    trivia (gap ++ behind) = gap := by
  obtain ⟨hspace, hcomment⟩ := trivia_eq_nil_iff.1 hbehind
  cases h with
  | blanks hspaces =>
    obtain ⟨htake, hdrop⟩ := takeWhile_append_of_head
      (fun c hc => isSpace_iff.2 (hspaces c hc)) hspace
    rw [trivia, htake, hdrop, comment_eq_nil hcomment, List.append_nil]
  | @comment spaces text hspaces htext hline =>
    have hslash : ∀ c ∈ ('/' :: '/' :: (text ++ behind)).head?, isSpace c = false := by
      rintro c ⟨⟩
      exact isSpace_of_mem_marks (by decide)
    obtain ⟨htake, hdrop⟩ := takeWhile_append_of_head
      (fun c hc => isSpace_iff.2 (hspaces c hc)) hslash
    have hrest : restOfLine (text ++ behind) = text := (line_append htext hline).1
    rw [List.append_assoc, List.cons_append, List.cons_append, trivia, htake, hdrop,
      WqSource.comment, hrest]

/-- The trivia at the front of a text are a gap. -/
theorem isGap_trivia (h : cs = trivia cs ++ behind) :
    IsGap behind (trivia cs) ∧ trivia behind = [] := by
  have hspaces : ∀ c ∈ cs.takeWhile isSpace, Unicode.isBlank c = true ∧ c ≠ '\n' :=
    fun c hc => isSpace_iff.1 (List.mem_takeWhile_imp hc)
  have hsplit := List.takeWhile_append_dropWhile (p := isSpace) (l := cs)
  have hhead := List.head?_dropWhile_not isSpace cs
  rw [trivia] at h ⊢
  generalize cs.takeWhile isSpace = spaces at *
  generalize cs.dropWhile isSpace = tail at *
  rw [← hsplit, List.append_assoc] at h
  have h := List.append_cancel_left h
  by_cases hcomment : ∃ text, tail = '/' :: '/' :: text
  · obtain ⟨text, rfl⟩ := hcomment
    simp only [comment, List.cons_append, List.cons.injEq, true_and] at h
    have hline := head_of_takeWhile h
    refine ⟨.comment hspaces (newline_notMem_restOfLine text) fun c hc => ?_, ?_⟩
    · simpa using hline c hc
    · refine trivia_eq_nil_iff.2 ⟨fun c hc => ?_, ?_⟩
      · obtain rfl : c = '\n' := by simpa using hline c hc
        exact isSpace_of_mem_marks (by decide)
      · rintro more rfl
        have hslash := hline '/' rfl
        cases hslash
  · have hnone : comment tail = [] := comment_eq_nil fun text ht => hcomment ⟨text, ht⟩
    rw [hnone, List.nil_append] at h
    subst h
    rw [hnone, List.append_nil]
    refine ⟨.blanks hspaces, trivia_eq_nil_iff.2 ⟨fun c hc => ?_, fun text ht => hcomment ⟨text, ht⟩⟩⟩
    rwa [Option.mem_def.1 hc] at hhead

theorem isGap_nil : IsGap behind [] := .blanks nofun

/-- Lexemes begin with no trivia. -/
theorem Token.Kind.Lexeme.trivia_eq (h : k.Lexeme lexeme) (hends : k.EndsBefore rest) :
    trivia (lexeme ++ rest) = [] := by
  -- A lexeme begins with a letter, a digit or a mark; only a slash might begin a comment.
  have begins {d : Char} {tail : List Char} (hd : isSpace d = false)
      (hslash : d = '/' → tail.head? ≠ some '/') : trivia (d :: tail) = [] := by
    rw [trivia_eq_nil_iff]
    constructor
    · rintro c ⟨⟩
      exact hd
    · rintro more hmore
      obtain ⟨rfl, rfl⟩ := List.cons.inj hmore
      exact hslash rfl rfl
  have mark {d : Char} {tail : List Char} (hd : d ∈ marks) (hne : d ≠ '/') :
      trivia (d :: tail) = [] :=
    begins (isSpace_of_mem_marks hd) fun he => absurd he hne
  have digits {ds tail : List Char} (hds : IsDigits ds) : trivia (ds ++ tail) = [] := by
    obtain ⟨d, ds, rfl, hd⟩ := hds.head
    refine begins (isSpace_of_isContinue (isContinue_of_isDigit hd)) ?_
    rintro rfl
    cases hd
  cases h with
  | integer hdigits => exact digits hdigits
  | float hwhole =>
    rw [List.append_assoc]
    exact digits hwhole
  | word hword =>
    obtain ⟨d, tail, rfl, hd⟩ := hword.head
    have hcontinue := Name.isContinue_of_isStart hd
    refine begins (isSpace_of_isContinue hcontinue) ?_
    rintro rfl
    exact absurd (isContinue_of_mem_marks (c := '/') (by decide)) (by simp [hcontinue])
  | newline hfeeds =>
    obtain ⟨tail, rfl⟩ := hfeeds.head
    exact mark (by decide) (by decide)
  | punct p =>
    cases p with
    | slash => exact begins (isSpace_of_mem_marks (by decide)) fun _ => hends.2
    | slashDot =>
      change trivia ('/' :: '.' :: rest) = []
      exact begins (isSpace_of_mem_marks (by decide)) fun _ => by simp
    | _ => exact mark (by decide) (by decide)
  | symbol | string | character | control | magic => exact mark (by decide) (by decide)

/-! ## Reads -/

namespace Lexer
variable {l l' : Lexer} {t : Token}

/-- The lexer has a gap in front of it, and a lexeme of the given kind behind that. -/
structure Finds (l : Lexer) (gap lexeme rest : List Char) (k : Token.Kind) : Prop where
  rest_eq : l.rest = gap ++ (lexeme ++ rest)
  gap : IsGap (lexeme ++ rest) gap
  lexeme : k.Lexeme lexeme
  ends : k.EndsBefore rest
  magic : ∀ payload, k = .magic payload → l.atHostLine = true

/-- A token that is read from a lexeme behind a gap. -/
def tokenBehind (l : Lexer) (gap lexeme : List Char) (k : Token.Kind) : Token :=
  ⟨k, String.ofList lexeme, l.position.after gap, (l.position.after gap).after lexeme⟩

/-- The lexer behind a lexeme behind a gap. -/
def moved (l : Lexer) (gap lexeme rest : List Char) (k : Token.Kind) : Lexer :=
  ⟨rest, (l.position.after gap).after lexeme, k.depthAfter l.depth, k == .newline⟩

theorem next_of_shebang_eq_none (h : l.shebang? = none) : l.next = l.skipTrivia.nextAt := by
  simp only [next, h]

theorem nextAt_of_read {taken : List Char}
    (h : scan l.atHostLine l.rest = .read taken (.ok k)) :
    l.nextAt = (.ok ⟨k, String.ofList taken, ⟨l.position, (l.skip taken).position⟩⟩,
      { l.skip taken with depth := k.depthAfter l.depth, lineStart := k == .newline }) := by
  simp only [nextAt, h]

/-- What a lexer finds is what it reads. -/
theorem Finds.next (h : l.Finds gap lexeme rest k) (hshebang : l.shebang? = none) :
    l.next = (.ok (l.tokenBehind gap lexeme k), l.moved gap lexeme rest k) := by
  have htrivia : trivia l.rest = gap := by
    rw [h.rest_eq]
    exact h.gap.trivia_eq (h.lexeme.trivia_eq h.ends)
  have hrest : l.skipTrivia.rest = lexeme ++ rest := by
    simp only [skipTrivia, skip, htrivia]
    rw [h.rest_eq, List.drop_left]
  have hposition : l.skipTrivia.position = l.position.after gap := by
    simp only [skipTrivia, skip, htrivia]
  have hscan : scan l.skipTrivia.atHostLine l.skipTrivia.rest = .read lexeme (.ok k) := by
    rw [hrest]
    exact h.lexeme.scan_eq h.ends h.magic
  rw [next_of_shebang_eq_none hshebang, nextAt_of_read hscan]
  simp [tokenBehind, moved, skip, hrest, hposition]
  rfl

/-- What a lexer reads is what it finds. -/
theorem finds_of_next (h : l.next = (.ok t, l')) (hshebang : l.shebang? = none)
    (hend : t.kind ≠ .endOfInput) :
    ∃ gap lexeme, l.Finds gap lexeme l'.rest t.kind ∧ t = l.tokenBehind gap lexeme t.kind ∧
      l' = l.moved gap lexeme l'.rest t.kind := by
  rw [next_of_shebang_eq_none hshebang, nextAt] at h
  split at h
  · cases h
    exact absurd rfl hend
  · cases h
  · next taken outcome hscan =>
    cases outcome with
    | error => cases h
    | ok k =>
      cases h
      have hfront := List.prefix_iff_eq_append.1 (scan_front hscan)
      have hsplit : l.rest = trivia l.rest ++ l.skipTrivia.rest := (trivia_append_drop l.rest).symm
      obtain ⟨hgap, htrivia⟩ := isGap_trivia hsplit
      obtain ⟨hlexeme, hends⟩ := lexeme_of_scan hscan hfront.symm
      refine ⟨trivia l.rest, taken, ⟨?_, ?_, hlexeme, hends htrivia, ?_⟩, rfl, rfl⟩
      · change l.rest = trivia l.rest ++ (taken ++ l.skipTrivia.rest.drop taken.length)
        rw [hfront]
        exact hsplit
      · change IsGap (taken ++ l.skipTrivia.rest.drop taken.length) _
        rwa [hfront]
      · rintro payload rfl
        exact (scan_valid hscan).2 payload rfl

/-- In front of nothing but a gap a lexer finds the end of the text. -/
theorem next_of_isGap (h : IsGap [] l.rest) (hshebang : l.shebang? = none) :
    l.next = (.ok (.ending (l.position.after l.rest)), l.skipTrivia) := by
  have htrivia : trivia l.rest = l.rest := by
    have hall := h.trivia_eq (by rfl)
    rwa [List.append_nil] at hall
  have hrest : l.skipTrivia.rest = [] := by
    simp only [skipTrivia, skip, htrivia, List.drop_length]
  rw [next_of_shebang_eq_none hshebang, nextAt, hrest, scan_nil]
  simp only [skipTrivia, skip, htrivia]

/-- The end of the text is what a lexer reads in front of nothing but a gap. -/
theorem isGap_of_next (h : l.next = (.ok t, l')) (hend : t.kind = .endOfInput) :
    IsGap [] l.rest ∧ t = .ending (l.position.after l.rest) := by
  cases hshebang : l.shebang? with
  | some line =>
    simp only [Lexer.next, hshebang] at h
    cases h
    cases hend
  | none =>
    rw [next_of_shebang_eq_none hshebang, nextAt] at h
    split at h
    · next hscan =>
      cases h
      have hnil : l.rest.drop (trivia l.rest).length = [] := eq_nil_of_scan_finished hscan
      have hall := trivia_append_drop l.rest
      rw [hnil, List.append_nil] at hall
      have hsplit : l.rest = trivia l.rest ++ [] := by rw [hall, List.append_nil]
      have hgap := (isGap_trivia hsplit).1
      simp only [hall] at hgap
      refine ⟨hgap, ?_⟩
      simp only [skipTrivia, skip, hall]
    · cases h
    · next taken outcome hscan =>
      cases outcome with
      | error => cases h
      | ok k =>
        cases h
        have hvalid := (scan_valid hscan).1
        rw [show k = .endOfInput from hend] at hvalid
        exact hvalid.elim

/-- A shebang line begins with a number sign and an exclamation mark. -/
theorem shebang?_eq_none_of_rest (h : ∀ tail, l.rest ≠ '#' :: '!' :: tail) : l.shebang? = none := by
  simp only [shebang?]
  split
  · exact absurd ‹_› (h _)
  · rfl

theorem exists_of_shebang? {line : List Char} (h : l.shebang? = some line) :
    ∃ cs, line = '#' :: '!' :: cs := by
  simp only [shebang?] at h
  split at h
  · exact ⟨_, (Option.some.inj h).symm⟩
  · cases h

/-- A shebang line is all of its line. -/
theorem shebang?_of_rest {line : List Char} (hoffset : l.position.offset = 0)
    (hrest : l.rest = '#' :: '!' :: (line ++ rest)) (hline : '\n' ∉ line)
    (hbehind : ∀ c ∈ rest.head?, c = '\n') : l.shebang? = some ('#' :: '!' :: line) := by
  simp only [shebang?, hoffset, hrest, (line_append hline hbehind).1]

/-- A shebang line begins the text, and it ends with its line. -/
theorem next_of_shebang {line : List Char} (h : l.shebang? = some line) :
    l.next = (.ok (l.nextShebang line).1, l.skip line) ∧ l.position.offset = 0 ∧
      l.rest = line ++ (l.skip line).rest ∧ '\n' ∉ line ∧
      ∀ c ∈ (l.skip line).rest.head?, c = '\n' := by
  have hsplit := (leadsTo_skip (shebang?_front h).1).rest
  have hnext : l.next = (.ok (l.nextShebang line).1, l.skip line) := by
    simp only [Lexer.next, h, nextShebang]
  simp only [shebang?] at h
  split at h
  · next cs hoffset hrest =>
    cases h
    rw [hrest] at hsplit
    have htail := (List.cons.inj (List.cons.inj hsplit).2).2
    refine ⟨hnext, hoffset, by rw [hrest]; exact hsplit, ?_, fun c hc => ?_⟩
    · simp [newline_notMem_restOfLine cs]
    · simpa using head_of_takeWhile htail c hc
  · cases h

end Lexer
end WqSource
