import WqSource.Proofs.Token.Run
import WqSource.Proofs.Token.Tiling

/-!
# Lines for the host

Whether a `!` begins a line for the host is a matter of the text and the tokens in front of it:
of its line there may be blanks only, and no bracket may be open. The lexer does not look back.
It remembers the number of open brackets, and whether the last token was line feeds, and
that is enough: no other token ends in a blank, and behind the tokens that take the rest of
their line there is no `!` on that line.

## Main definitions

* `BeginsHostLine`: where a line for the host may begin.
* `IsPayload`: the text of such a line.
* `ReadsBang`: what is read at a `!`.

## Main statements

* `Lexer.Remembers.next`: what a lexer remembers is kept by each read.
* `Lexer.read_bang`: what is read at a `!` behind tokens that were read.
-/

namespace WqSource

variable {c : Char} {cs gap lexeme front line rest : List Char} {k : Token.Kind} {t : Token}
  {ts : List Token} {hostLine : Bool}

/-- The characters between the last line feed and the end of a text. -/
def lastLine (cs : List Char) : List Char := (cs.reverse.takeWhile (· ≠ '\n')).reverse

/-- The number of brackets that tokens leave open. -/
def openBrackets (ts : List Token) : Nat := ts.foldl (fun depth t => t.kind.depthAfter depth) 0

/-- A line for the host may begin behind the given text, which has the given tokens. -/
structure BeginsHostLine (front : List Char) (ts : List Token) : Prop where
  blank : ∀ c ∈ lastLine front, Unicode.isBlank c = true
  closed : openBrackets ts = 0

/-- The text goes on with the payload, up to the end of the line, but for a carriage return. -/
def IsPayload (rest : List Char) (payload : String) : Prop :=
  ∃ line behind, rest = line ++ behind ∧ '\n' ∉ line ∧ (∀ c ∈ behind.head?, c = '\n') ∧
    (line = payload.toList ++ ['\r'] ∨ line = payload.toList ∧ line.getLast? ≠ some '\r')

/-- What is read at a `!` between the given texts, behind the given tokens. -/
structure ReadsBang (front rest : List Char) (ts : List Token) (r : Except LexError Token) :
    Prop where
  host_iff : (∃ t payload, r = .ok t ∧ t.kind = .magic payload) ↔
    rest.head? ≠ some '=' ∧ BeginsHostLine front ts
  payload : ∀ t payload, r = .ok t → t.kind = .magic payload → IsPayload rest payload
  unequal : rest.head? = some '=' → ∃ t, r = .ok t ∧ t.kind = .punct .bangEqual
  illegal : rest.head? ≠ some '=' → ¬BeginsHostLine front ts →
    ∃ e, r = .error e ∧ e.fault = .illegalCharacter '!'

/-! ## Lines -/

theorem lastLine_append (h : '\n' ∉ cs) : lastLine (front ++ cs) = lastLine front ++ cs := by
  have hall : ∀ c ∈ cs.reverse, (decide (c ≠ '\n')) = true := by
    intro c hc
    rw [decide_eq_true_eq]
    rintro rfl
    exact h (List.mem_reverse.1 hc)
  simp only [lastLine, List.reverse_append, List.takeWhile_append_of_pos hall, List.reverse_reverse]

theorem lastLine_of_newline (h : cs.getLast? = some '\n') : lastLine (front ++ cs) = [] := by
  obtain ⟨cs, rfl⟩ := List.getLast?_eq_some_iff.1 h
  simp [lastLine]

theorem mem_lastLine (h : cs.getLast? = some c) (hc : c ≠ '\n') : c ∈ lastLine (front ++ cs) := by
  obtain ⟨cs, rfl⟩ := List.getLast?_eq_some_iff.1 h
  simp [lastLine, hc]

/-! ## The last character of a lexeme -/

theorem isBlank_eq_false (hspace : isSpace c = false) (hc : c ≠ '\n') :
    Unicode.isBlank c = false := by
  simpa [isSpace, hc] using hspace

/-- No name and no number ends in a blank. -/
theorem getLast?_of_isContinue (hne : cs ≠ []) (h : ∀ c ∈ cs, Name.isContinue c = true) :
    ∃ c, cs.getLast? = some c ∧ Unicode.isBlank c = false := by
  refine ⟨cs.getLast hne, List.getLast?_eq_some_getLast hne, ?_⟩
  have hcontinue := h _ (List.getLast_mem hne)
  refine isBlank_eq_false (isSpace_of_isContinue hcontinue) fun hc => ?_
  rw [hc, isContinue_of_mem_marks (by decide)] at hcontinue
  cases hcontinue

theorem IsDigits.getLast? (h : IsDigits cs) :
    ∃ c, cs.getLast? = some c ∧ Unicode.isBlank c = false :=
  getLast?_of_isContinue h.1 fun c hc => isContinue_of_isDigit (h.2 c hc)

/-- A string literal that is closed ends with its quote. -/
theorem getLast?_stringBody (h : (stringBody cs).2 ≠ none) :
    (stringBody cs).1.getLast? = some '"' := by
  fun_induction stringBody cs with
  | case1 | case3 => exact absurd rfl h
  | case2 => rfl
  | case4 c cs r ih =>
    have hlast := ih (by simpa using h)
    simp [r, List.getLast?_cons, hlast]
  | case5 c cs _ _ _ r ih =>
    have hlast := ih (by simpa using h)
    simp [r, List.getLast?_cons, hlast]

theorem getLast?_characterBody (h : (characterBody cs).2 ≠ none) :
    (characterBody cs).1.getLast? = some '\'' := by
  unfold characterBody at h ⊢
  split <;> simp_all

theorem LineFeeds.getLast? (h : LineFeeds cs) : cs.getLast? = some '\n' := by
  induction h with
  | single => rfl
  | more _ _ ih =>
    rw [← List.cons_append, List.getLast?_append, ih]
    rfl

/-- No token ends in a blank, but for those that are read up to the end of their line. -/
theorem Token.Kind.Lexeme.getLast? (h : k.Lexeme lexeme) (hnewline : k ≠ .newline)
    (hmagic : ∀ payload, k ≠ .magic payload) :
    ∃ c, lexeme.getLast? = some c ∧ Unicode.isBlank c = false := by
  cases h with
  | integer hdigits => exact hdigits.getLast?
  | float _ hfraction =>
    obtain ⟨c, hc, hblank⟩ := hfraction.getLast?
    exact ⟨c, by simp [List.getLast?_cons, hc], hblank⟩
  | word hword =>
    obtain ⟨d, tail, rfl, -⟩ := hword.head
    exact getLast?_of_isContinue (List.cons_ne_nil _ _) hword.2
  | symbol hword =>
    obtain ⟨d, tail, rfl, -⟩ := hword.head
    obtain ⟨c, hc, hblank⟩ := getLast?_of_isContinue (List.cons_ne_nil _ _) hword.2
    exact ⟨c, by simpa [List.getLast?_cons] using hc, hblank⟩
  | @string body _ hbody =>
    have hlast : (stringBody body).1.getLast? = some '"' := getLast?_stringBody (by simp [hbody])
    rw [hbody] at hlast
    exact ⟨'"', by simp [List.getLast?_cons, hlast], by decide⟩
  | @character body _ hbody =>
    have hlast : (characterBody body).1.getLast? = some '\'' :=
      getLast?_characterBody (by simp [hbody])
    rw [hbody] at hlast
    exact ⟨'\'', by simp [List.getLast?_cons, hlast], by decide⟩
  | punct p => cases p <;> exact ⟨_, rfl, by decide⟩
  | control w => cases w <;> exact ⟨_, rfl, by decide⟩
  | newline => exact absurd rfl hnewline
  | magic => exact absurd rfl (hmagic _)

/-- Line feeds are read up to the last one. -/
theorem Token.Kind.Lexeme.getLast?_newline (h : Lexeme .newline lexeme) :
    lexeme.getLast? = some '\n' := by
  cases h with
  | word _ hk => exact absurd rfl (wordKind_ne hk).1
  | newline hfeeds => exact hfeeds.getLast?

/-! ## What a lexer remembers -/

namespace Lexer
variable {l l' : Lexer} {source : String} {count : Nat}

/-- What a lexer knows of the text in front of it and its tokens. It need not know of a line that
is at its end: no token begins there. -/
structure Remembers (front : List Char) (ts : List Token) (l : Lexer) : Prop where
  depth : l.depth = openBrackets ts
  line : (∀ c ∈ l.rest.head?, c = '\n') ∨ (l.lineStart = true ∧ lastLine front = []) ∨
    (l.lineStart = false ∧ ∃ c ∈ lastLine front, Unicode.isBlank c = false)

theorem remembers_ofString (source : String) : (ofString source).Remembers [] [] :=
  ⟨rfl, .inr (.inl ⟨rfl, rfl⟩)⟩

/-- A token that is read leaves a line in front of its end, or begins one, or does not end in a
blank. -/
theorem Remembers.next (h : l.Remembers front ts) (hnext : l.next = (.ok t, l')) :
    ∃ taken, l.LeadsTo taken l' ∧ l'.Remembers (front ++ taken) (ts ++ [t]) := by
  obtain ⟨taken, hleads⟩ := (next_extent l).leadsTo
  rw [hnext] at hleads
  refine ⟨taken, hleads, ?_, ?_⟩
  · rw [(next_reads hnext).depth_eq, h.depth, openBrackets, openBrackets, List.foldl_append]
    rfl
  · cases hshebang : l.shebang? with
    | some line =>
      obtain ⟨hline, -, -, -, hbehind⟩ := next_of_shebang hshebang
      rw [hnext] at hline
      obtain rfl := (Prod.mk.inj hline).2
      exact .inl hbehind
    | none =>
      by_cases hend : t.kind = .endOfInput
      · obtain ⟨hgap, -⟩ := isGap_of_next hnext hend
        rw [next_of_isGap hgap hshebang] at hnext
        obtain rfl := (Prod.mk.inj hnext).2
        have htrivia := hgap.trivia_eq rfl
        rw [List.append_nil] at htrivia
        exact .inl (by simp [skipTrivia, skip, htrivia])
      · obtain ⟨gap, lexeme, hfinds, -, hmoved⟩ := finds_of_next hnext hshebang hend
        have htaken : taken = gap ++ lexeme := by
          have hrest := hleads.rest
          rw [hfinds.rest_eq, ← List.append_assoc] at hrest
          exact (List.append_cancel_right hrest).symm
        rw [htaken, ← List.append_assoc]
        by_cases hmagic : ∃ payload, t.kind = .magic payload
        · obtain ⟨payload, hk⟩ := hmagic
          have hends := hfinds.ends
          rw [hk] at hends
          exact .inl hends
        · by_cases hk : t.kind = .newline
          · have hlexeme := hfinds.lexeme
            rw [hk] at hlexeme
            refine .inr (.inl ⟨?_, lastLine_of_newline hlexeme.getLast?_newline⟩)
            rw [hmoved]
            simpa [moved] using hk
          · obtain ⟨c, hc, hblank⟩ :=
              hfinds.lexeme.getLast? hk fun payload hp => hmagic ⟨payload, hp⟩
            refine .inr (.inr ⟨?_, c, mem_lastLine hc ?_, hblank⟩)
            · rw [hmoved]
              simpa [moved] using hk
            · rintro rfl
              cases hblank

/-- What a lexer remembers behind tokens that were read in a row. -/
theorem remembers_behind (h : (ofString source).steps count = ts.map Except.ok) :
    ∃ front, (ofString source).LeadsTo front ((ofString source).behind count) ∧
      ((ofString source).behind count).Remembers front ts := by
  rw [steps_eq_map] at h
  induction count generalizing ts with
  | zero =>
    obtain rfl : ts = [] := by simpa using h
    exact ⟨[], ⟨rfl, rfl⟩, remembers_ofString source⟩
  | succ count ih =>
    rw [List.range_succ, List.map_append] at h
    obtain ⟨before, last, rfl, hbefore, hlast⟩ := List.append_eq_map_iff.1 h
    obtain ⟨t, rfl, ht⟩ := List.map_eq_singleton_iff.1 hlast
    obtain ⟨front, hfront, hremembers⟩ := ih hbefore.symm
    obtain ⟨taken, htaken, hnext⟩ := hremembers.next (Prod.ext ht.symm rfl)
    exact ⟨front ++ taken, hfront.trans htaken, hnext⟩

/-! ## A `!` -/

/-- Behind a gap there is a `!`, and no comment in front of it. -/
theorem isBlank_of_gap {tail : List Char} (h : IsGap ('!' :: tail) gap) :
    '\n' ∉ gap ∧ ∀ c ∈ gap, Unicode.isBlank c = true := by
  cases h with
  | blanks hspaces => exact ⟨fun hmem => (hspaces _ hmem).2 rfl, fun c hc => (hspaces c hc).1⟩
  | comment _ _ hline => exact absurd (hline '!' rfl) (by decide)

/-- What a lexer remembers is what decides. -/
theorem Remembers.atHostLine_iff (h : l.Remembers front ts)
    (hrest : l.rest = gap ++ '!' :: rest) (hgap : IsGap ('!' :: rest) gap) :
    l.atHostLine = true ↔ BeginsHostLine (front ++ gap) ts := by
  obtain ⟨hnewline, hblank⟩ := isBlank_of_gap hgap
  have hinside : ¬∀ c ∈ l.rest.head?, c = '\n' := by
    intro hall
    rw [hrest] at hall
    cases gap with
    | nil => exact absurd (hall '!' rfl) (by decide)
    | cons c gap => exact hnewline (by simp [hall c rfl])
  have hline : l.lineStart = true ↔ ∀ c ∈ lastLine (front ++ gap), Unicode.isBlank c = true := by
    rw [lastLine_append hnewline]
    rcases h.line with hline | ⟨hstart, hnil⟩ | ⟨hstart, c, hc, hmark⟩
    · exact absurd hline hinside
    · simpa [hstart, hnil] using hblank
    · simp only [hstart, Bool.false_eq_true, false_iff]
      intro hall
      rw [hall c (by simp [hc])] at hmark
      cases hmark
  rw [atHostLine, Bool.and_eq_true, beq_iff_eq, hline, h.depth]
  constructor
  · intro h
    exact ⟨h.1, h.2⟩
  · intro h
    exact ⟨h.blank, h.closed⟩

end Lexer

/-- The three tokens and faults that begin with a `!`. -/
theorem scan_bang (hostLine : Bool) (rest : List Char) :
    scan hostLine ('!' :: rest) =
      if rest.head? = some '=' then .read ['!', '='] (.ok (.punct .bangEqual))
      else if hostLine then
        .read ('!' :: restOfLine rest) (.ok (.magic (String.ofList (dropReturn (restOfLine rest)))))
      else .illegal '!' := by
  by_cases hequal : rest.head? = some '='
  · obtain ⟨tail, rfl⟩ := List.head?_eq_some_iff.1 hequal
    rfl
  · have hpunct : scanPunct? ('!' :: rest) = none := by
      cases rest with
      | nil => rfl
      | cons c tail =>
        have hc : c ≠ '=' := fun he => hequal (congrArg some he)
        simp [scanPunct?, hc]
    rw [if_neg hequal, scan, hpunct]

/-- The rest of the line is the payload. -/
theorem isPayload_restOfLine (rest : List Char) :
    IsPayload rest (String.ofList (dropReturn (restOfLine rest))) := by
  refine ⟨restOfLine rest, rest.dropWhile (· != '\n'), ?_, newline_notMem_restOfLine rest, ?_, ?_⟩
  · exact (List.takeWhile_append_dropWhile).symm
  · intro c hc
    have hhead := List.head?_dropWhile_not (· != '\n') rest
    rw [Option.mem_def.1 hc] at hhead
    simpa using hhead
  · rw [String.toList_ofList]
    unfold dropReturn
    split
    · next hreturn =>
      obtain ⟨line, hline⟩ := List.getLast?_eq_some_iff.1 hreturn
      rw [hline, List.dropLast_concat]
      exact .inl rfl
    · next hreturn => exact .inr ⟨rfl, hreturn⟩

namespace Lexer
variable {source : String} {count : Nat}

/-- At a `!` behind tokens that were read, a line for the host is read where one may begin, and
nowhere else. -/
theorem read_bang (hreads : (ofString source).steps count = ts.map Except.ok)
    (hsource : source.toList = front ++ '!' :: rest)
    (hbang : ((ofString source).behind count).skipTrivia.rest = '!' :: rest) :
    ReadsBang front rest ts ((ofString source).read count) := by
  obtain ⟨before, hbefore, hremembers⟩ := remembers_behind hreads
  rw [read]
  generalize (ofString source).behind count = l at *
  have hrest : l.rest = trivia l.rest ++ '!' :: rest := by
    rw [← hbang]
    exact (trivia_append_drop l.rest).symm
  obtain ⟨hgap, -⟩ := isGap_trivia hrest
  have hfront : before ++ trivia l.rest = front := by
    have hall : source.toList = before ++ l.rest := hbefore.rest
    rw [hrest, ← List.append_assoc, hsource] at hall
    exact (List.append_cancel_right hall).symm
  have hhost : l.skipTrivia.atHostLine = true ↔ BeginsHostLine front ts := by
    rw [← hfront]
    exact hremembers.atHostLine_iff hrest hgap
  have hshebang : l.shebang? = none := shebang?_eq_none_of_rest fun tail htail => by
    have hsign : trivia ('#' :: '!' :: tail) = [] := by
      simp [trivia_eq_nil_iff, isSpace_of_mem_marks (c := '#') (by decide)]
    rw [htail, hsign] at hrest
    cases hrest
  rw [next_of_shebang_eq_none hshebang, nextAt, hbang, scan_bang]
  by_cases hequal : rest.head? = some '='
  · rw [if_pos hequal]
    refine ⟨by simp [hequal], ?_, fun _ => ⟨_, rfl, rfl⟩, fun h => absurd hequal h⟩
    rintro t payload ⟨⟩ ⟨⟩
  · rw [if_neg hequal]
    by_cases hbegins : BeginsHostLine front ts
    · rw [if_pos (hhost.2 hbegins)]
      refine ⟨by simp [hequal, hbegins], ?_, fun h => absurd h hequal, fun _ h => absurd hbegins h⟩
      rintro t payload ⟨⟩ ⟨⟩
      exact isPayload_restOfLine rest
    · rw [if_neg fun h => hbegins (hhost.1 h)]
      exact ⟨by simp [hbegins], by simp, fun h => absurd h hequal, fun _ _ => ⟨_, rfl, rfl⟩⟩

/-- A bracket that closes nothing, and a line for the host behind it. -/
theorem read_bang_behind_bracket :
    ReadsBang "]\n\t".toList "x\r".toList
      [⟨.punct .closeBracket, "]", ⟨⟨0, 1, 1⟩, ⟨1, 1, 2⟩⟩⟩,
        ⟨.newline, "\n", ⟨⟨1, 1, 2⟩, ⟨2, 2, 1⟩⟩⟩]
      ((ofString "]\n\t!x\r").read 2) :=
  read_bang (by decide +kernel) rfl (by decide +kernel)

end Lexer
end WqSource
