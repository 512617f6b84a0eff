import WqSource.Proofs.Alike.Layout
import WqSource.Proofs.Alike.Seam

/-!
# Line by line

With recovery, errors on one line do no harm to the lines below, however broken the line is: if
its brackets balance by their number, the text behind its line feed is parsed as it would be
alone.

## Main definitions

* `Parsed.Joins`: a parse that is two others, one behind the other.

## Main statements

* `parse_joins`.
-/

namespace WqSource
open Grammar WqSource.Parser

variable {source first second : String} {c c' : Cursor} {l : Lexer} {m : Comparison}

/-! ## Texts -/

/-- A text with a line feed and another one behind it. -/
theorem Lexer.ofString_followedBy (first second : String) :
    Lexer.ofString (first ++ "\n" ++ second) =
      (Lexer.ofString first).followedBy second.toList := by
  simp [Lexer.ofString, Lexer.followedBy]

/-- Behind the line feeds in front of a text a lexer reads what it does at the start of the text;
if that begins with line feeds, then what it does behind them. -/
theorem Lexer.behindSeam_cases (l : Lexer) (hshebang : (Lexer.ofString source).shebang? = none) :
    (Lexer.ofString source).SameText (l.behindSeam source.toList) ∨
      ∃ t l₁, (Lexer.ofString source).next = (.ok t, l₁) ∧ t.kind = .newline ∧
        l₁.SameText (l.behindSeam source.toList) := by
  by_cases hnewline : ∃ rest, source.toList.drop (trivia source.toList).length = '\n' :: rest
  · obtain ⟨rest, hrest⟩ := hnewline
    right
    unfold next
    rw [hshebang]
    have hskip : (Lexer.ofString source).skipTrivia.rest = '\n' :: rest := hrest
    unfold nextAt
    rw [hskip]
    refine ⟨_, _, rfl, rfl, ⟨?_, rfl, rfl⟩⟩
    simp only [behindSeam, behindNewlines_of_drop hrest]
    simp only [behindNewlines, skip, hskip]
  · left
    have hone := newlines_of_drop_ne fun rest h => hnewline ⟨rest, h⟩
    exact ⟨by simp [behindSeam, behindNewlines, hone, ofString], rfl, rfl⟩

/-- Behind the start of a text there is no shebang line. -/
theorem Lexer.stream_next_ne_shebang {t : Token} {ahead : TokenStream}
    (hshebang : l.shebang? = none) (h : l.stream.next = (.ok t, ahead)) (text : String) :
    t.kind ≠ .shebang text := by
  have hnext {t : Token} {l₁ : Lexer} (h : l.next = (.ok t, l₁)) : t.kind ≠ .shebang text := by
    unfold next nextAt at h
    rw [hshebang] at h
    dsimp only at h
    split at h
    · cases h
      nofun
    · cases h
    · next taken outcome hscan =>
      cases outcome with
      | error fault => cases h
      | ok kind =>
        cases h
        exact (scan_kind hscan).2 text
  rw [stream_eq] at h
  generalize l.next = r at *
  rcases r with ⟨e | u, l₁⟩
  · dsimp only at h
    split at h <;> cases h
  · dsimp only at h
    split at h <;> cases h
    · nofun
    · exact hnext rfl

/-! ## Behind the line feed -/

namespace Grammar

/-- A program without a shebang line is its statements. -/
theorem program_of_ne_shebang (recover : Bool) (hk : ∀ text, c.current.kind ≠ .shebang text) :
    ∃ span, program recover c =
      (⟨⟨none, (topLevel recover c).1.result, span⟩, (topLevel recover c).1.failure⟩,
        (topLevel recover c).2) := by
  unfold program
  rw [run_shebang_of_ne hk]
  exact ⟨_, rfl⟩

/-- Statements that are read behind others are those of a parse of their own. -/
structure GoesOnAs (p : Parsed) (before : List Problem)
    (r : Outcome (List Statement) × Cursor) : Prop where
  shebang : p.program.shebang = none
  statements : p.program.statements.map Statement.erase = r.1.result.map Statement.erase
  problems : ∃ ps, r.2.problems ++ r.1.failure.toList.map .failure = before ++ ps ∧
    List.Forall₂ (Problem.Alike ⟨none, [], before⟩) p.problems ps

theorem topLevel_goesOnAs {before : List Problem} (recover : Bool)
    (hc : Cursor.ofString source = .ok c) (hk : ∀ text, c.current.kind ≠ .shebang text)
    (h : c.Matches ⟨none, [], before⟩ c') :
    GoesOnAs (read source recover) before (topLevel recover c') := by
  obtain ⟨span, hprogram⟩ := program_of_ne_shebang recover hk
  have htop := topLevel_alike recover h
  rw [read, hc]
  dsimp only
  rw [hprogram]
  generalize topLevel recover c = r at *
  generalize topLevel recover c' = r' at *
  cases htop with
  | same ho h₁ _ =>
    obtain ⟨ps, ps', hps, hps', hall⟩ := problems_alike h₁ ho.failure
    refine ⟨rfl, ho.result, ps', hps', ?_⟩
    rw [hps]
    exact hall
  | seam _ _ hseam _ => cases hseam.seam

/-- A cursor of a longer text in front of the line feed that has the given text behind it. -/
structure AtLineFeed (source : String) (c : Cursor) : Prop where
  newline : c.current.kind = .newline
  depth : c.depth = 0
  ahead : ∃ l : Lexer, c.current.span.stop.offset = (l.behindSeam source.toList).position.offset ∧
    c.ahead = (l.behindSeam source.toList).stream

/-- Behind a line feed the statements are those of the text there. -/
theorem topLevel_atLineFeed (recover : Bool) (hshebang : (Lexer.ofString source).shebang? = none)
    (h : AtLineFeed source c) : GoesOnAs (read source recover) c.problems (topLevel recover c) := by
  obtain ⟨hnewline, hdepth, l, hstop, hahead⟩ := h
  have hmoved : (l.behindSeam source.toList).shebang? = none :=
    Lexer.shebang?_of_pos (Nat.zero_lt_of_lt (Position.offset_lt_after (by simp [newlines_ne_nil])))
  rcases l.behindSeam_cases hshebang with hsame | ⟨t, l₁, hnext, ht, hsame⟩
  · have halike := hsame.stream_alike hshebang hmoved (.inl ⟨rfl, rfl⟩)
    rw [topLevel_atSeparator (by rw [Cursor.atSeparator, hnewline]; rfl)]
    rcases halike.next with ⟨u, u', rest, rest', hu, hu', hbehind, -⟩ |
      ⟨e, e', rest, rest', he, he', hfault, -⟩
    · rcases hbehind with ⟨hkind, hend, hrest⟩ | ⟨-, -, -, -, hseam⟩
      · have hc : Cursor.ofString source = .ok ⟨u, rest, .start, 0, []⟩ := by
          rw [Cursor.ofString, hu]
        have htake : c.take = (.ok c.current, c.shift u' rest') := by
          rw [Cursor.take, hahead, hu']
        have hzero : (c.shift u' rest').depth = 0 := by
          simp [Cursor.shift, hnewline, hdepth, Token.Kind.depthAfter]
        rw [htake]
        exact topLevel_goesOnAs recover hc (Lexer.stream_next_ne_shebang hshebang hu)
          ⟨.inl ⟨hkind, hend, hrest⟩, hzero, [], [], rfl, (List.append_nil _).symm, .nil⟩
      · cases hseam
    · have hc : Cursor.ofString source = .error (.lexical e) := by rw [Cursor.ofString, he]
      have htake : c.take = (.error (.lexical e'), { c with ahead := rest' }) := by
        rw [Cursor.take, hahead, he']
      rw [read, hc, htake]
      exact ⟨rfl, rfl, [.failure (.lexical e')], rfl, .cons (.failure (.lexical hfault)) .nil⟩
  · have hk : t.kind ≠ .endOfInput := by simp [ht]
    have hc : Cursor.ofString source = .ok ⟨t, l₁.stream, .start, 0, []⟩ := by
      rw [Cursor.ofString, Lexer.stream_of_next hnext hk]
      rfl
    have hmoved₁ : l₁.shebang? = none := by
      have hlt := Lexer.offset_lt_next (l := Lexer.ofString source) (by simp [hnext, Lexer.isLast, hk])
      rw [hnext] at hlt
      exact Lexer.shebang?_of_pos (Nat.zero_lt_of_lt hlt)
    have hstop₁ : t.span.stop = l₁.position := by
      have hextent := (Lexer.next_extent (Lexer.ofString source)).stop t (by rw [hnext])
      rwa [hnext] at hextent
    have halike := hsame.stream_alike hmoved₁ hmoved (.inl ⟨rfl, rfl⟩)
    rw [← hahead, ← hstop, ← hstop₁, show l₁.depth = 0 from hsame.depth.symm] at halike
    refine topLevel_goesOnAs recover hc (by simp [ht]) ⟨.inl ⟨?_, ?_, ?_⟩, hdepth, [], [], rfl,
      (List.append_nil _).symm, .nil⟩
    · rw [ht, hnewline]
    · simp [ht]
    · simpa [ht, Token.Kind.depthAfter] using halike

/-! ## In front of the line feed -/

/-- A parse that recovers fails at no text that can be cut into tokens. -/
theorem program_failure_of_tokens {ts : List Token} (htokens : tokenize source = .ok ts)
    (hc : Cursor.ofString source = .ok c) : (program true c).1.failure = none := by
  have hfault := fault?_of_tokenize source
  rw [htokens] at hfault
  obtain ⟨-, hfailure⟩ := program_facing true (Cursor.facing_ofString hc)
  rw [hfault] at hfailure
  split at hfailure
  · next hnone => exact hnone
  · cases hfailure
  · cases hfailure.1

end Grammar

/-! ## Both -/

namespace Parsed

/-- The warnings among what a reader is told. -/
def warnings (p : Parsed) : List Diagnostic := p.diagnostics.filter fun d => !d.isError

/-- A parse has what two others have, one behind the other. -/
structure Joins (p first second : Parsed) : Prop where
  shebang : p.program.shebang = first.program.shebang
  statements : p.program.statements.map Statement.erase =
    (first.program.statements ++ second.program.statements).map Statement.erase
  errors : p.errors.length = first.errors.length + second.errors.length
  warnings : p.warnings.length = first.warnings.length + second.warnings.length

end Parsed

theorem Problem.Alike.isError {p p' : Problem} (h : p.Alike m p') : p.isError = p'.isError := by
  cases h <;> rfl

theorem Problem.map_isError {ps ps' : List Problem} (h : List.Forall₂ (Problem.Alike m) ps ps') :
    ps'.map Problem.isError = ps.map Problem.isError := by
  induction h with
  | nil => rfl
  | cons hp _ ih => rw [List.map_cons, List.map_cons, hp.isError, ih]

namespace Parsed
variable {p p₁ p₂ : Parsed}

theorem length_errors (p : Parsed) :
    p.errors.length = (p.problems.map Problem.isError).count true := by
  simp [errors, diagnostics, List.count_eq_countP, List.countP_map, ← List.countP_eq_length_filter,
    Function.comp_def]

theorem length_warnings (p : Parsed) :
    p.warnings.length = (p.problems.map Problem.isError).count false := by
  simp [warnings, diagnostics, List.count_eq_countP, List.countP_map,
    ← List.countP_eq_length_filter, Function.comp_def]

/-- Errors and warnings need not be counted if they stand in the same order. -/
theorem Joins.of_problems (hshebang : p.program.shebang = p₁.program.shebang)
    (hstatements : p.program.statements.map Statement.erase =
      (p₁.program.statements ++ p₂.program.statements).map Statement.erase)
    (h : p.problems.map Problem.isError =
      p₁.problems.map Problem.isError ++ p₂.problems.map Problem.isError) : p.Joins p₁ p₂ where
  shebang := hshebang
  statements := hstatements
  errors := by rw [length_errors, length_errors, length_errors, h, List.count_append]
  warnings := by rw [length_warnings, length_warnings, length_warnings, h, List.count_append]

end Parsed

namespace Grammar

/-- A program that ends at a line feed and what is behind that are two programs. -/
theorem program_joins (hsecond : (Lexer.ofString second).shebang? = none)
    (h : c.Matches ⟨some ⟨(l.behindSeam second.toList).position.offset,
      (l.behindSeam second.toList).stream⟩, [], []⟩ c')
    (hfailure : (program true c).1.failure = none) :
    (found (program true c')).Joins (found (program true c)) (read second true) := by
  rcases program_alike true h with ⟨text, span, span', r, r', hr, hr', htop⟩ |
    ⟨e, e', span, span', c₁, c₁', hr, -⟩
  · rw [hr] at hfailure ⊢
    rw [hr']
    cases htop with
    | same _ _ hnone => cases hnone hfailure
    | @seam read read' c₁ c₀ c₀' hread h₀ hseam hproblems =>
      obtain ⟨hstop, hahead⟩ := Seam.mk.inj (Option.some.inj hseam.seam)
      have hbehind := topLevel_atLineFeed true hsecond
        ⟨hseam.newline, h₀.depth_eq.trans hseam.depth, l, hstop.symm, hahead.symm⟩
      obtain ⟨ps₁, ps₁', hps₁, hps₁', hall₁⟩ := h₀.problems
      obtain ⟨ps₂, hps₂, hall₂⟩ := hbehind.problems
      refine .of_problems rfl (by simp [found, hread, hbehind.statements]) ?_
      have hproblems' : (found (⟨⟨text, read' ++ (topLevel true c₀').1.result, span'⟩,
          (topLevel true c₀').1.failure⟩, (topLevel true c₀').2)).problems = ps₁' ++ ps₂ := by
        rw [found, hps₂, hps₁']
        rfl
      have hproblems₁ : (found (⟨⟨text, read, span⟩, none⟩, c₁)).problems = ps₁ := by
        rw [found, hproblems, hps₁]
        exact List.append_nil _
      rw [hproblems', hproblems₁, List.map_append, Problem.map_isError hall₁,
        Problem.map_isError hall₂]
  · rw [hr] at hfailure
    cases hfailure

/-- With recovery, two texts with a line feed between are parsed as each of them is alone, if the
brackets of the first one balance by their number and the second one has no shebang line. -/
theorem parse_joins {ts : List Token} (htokens : tokenize first = .ok ts)
    (hdepth : depthBehind 0 ts = 0) (hsecond : ¬['#', '!'] <+: second.toList) :
    (parse (first ++ "\n" ++ second) true).Joins (parse first true) (parse second true) := by
  have hfault := fault?_of_tokenize first
  rw [htokens] at hfault
  have hleading : (Lexer.ofString first).stream.leading = ts := leadingTokens_of_tokenize htokens
  have hshebang : (Lexer.ofString second).shebang? = none := by
    unfold Lexer.shebang?
    split
    · next cs _ hrest => exact absurd ⟨cs, hrest.symm⟩ hsecond
    · rfl
  have halike := Lexer.stream_followedBy second.toList hfault (by rwa [hleading]) 0
  rcases halike.next with ⟨t, t', rest, rest', hn, hn', hbehind, -⟩ | ⟨e, -, rest, -, hn, -⟩
  · have hc : Cursor.ofString first = .ok ⟨t, rest, .start, 0, []⟩ := by rw [Cursor.ofString, hn]
    have hc' : Cursor.ofString (first ++ "\n" ++ second) = .ok ⟨t', rest', .start, 0, []⟩ := by
      rw [Cursor.ofString, Lexer.ofString_followedBy, hn']
    rw [parse_eq_read, parse_eq_read, parse_eq_read, read, hc', read.eq_def first, hc]
    refine program_joins (l := Lexer.ofString first) hshebang ⟨?_, rfl, [], [], rfl, rfl, .nil⟩
      (program_failure_of_tokens htokens hc)
    rcases hbehind with hlevel | ⟨hd, hends, hended, hnewline, hseam⟩
    · exact .inl ⟨hlevel.1, hlevel.2.1, hlevel.2.2⟩
    · exact .inr ⟨hd, hends, hended, hnewline, hseam⟩
  · rw [TokenStream.next_error hn] at hfault
    cases hfault

/-- Brackets that balance by their number only, with a line behind them that is in error, too. -/
theorem parse_joins_mismatched :
    ∃ ts, tokenize "f[(1])" = .ok ts ∧ depthBehind 0 ts = 0 ∧ ¬['#', '!'] <+: "g[2]; )".toList ∧
      (parse ("f[(1])" ++ "\n" ++ "g[2]; )") true).Joins (parse "f[(1])" true)
        (parse "g[2]; )" true) := by
  have htokens : (tokenize "f[(1])").toOption.map (depthBehind 0) = some 0 := by decide +kernel
  have hsecond : ¬['#', '!'] <+: "g[2]; )".toList := by decide +kernel
  obtain ⟨ts, hts, hdepth⟩ := Option.map_eq_some_iff.1 htokens
  cases hok : tokenize "f[(1])" with
  | error e =>
    rw [hok] at hts
    cases hts
  | ok us =>
    rw [hok] at hts
    cases hts
    exact ⟨ts, rfl, hdepth, hsecond, parse_joins hok hdepth hsecond⟩

end Grammar
end WqSource
