import WqSource.Proofs.Token.Valid

/-!
# How far a token reaches

Every read takes characters off the front of the text and moves over them, so that the place of
a lexer is the place behind all that was taken. A token is the characters it was read from: its
span ends where the lexer stands then, and it is empty at the end of the input only.

## Main definitions

* `Lexer.LeadsTo`: the characters between two lexers.
* `Lexer.Extent`: what a read takes, and where its token ends.

## Main statements

* `scan_front`: what is taken is the front of the text.
* `Lexer.next_extent`: one read.
-/

namespace WqSource

/-! ## Fronts of a text -/

theorem comment_front (cs : List Char) : comment cs <+: cs := by
  unfold comment
  split
  · simpa [restOfLine] using List.takeWhile_prefix (· != '\n')
  · exact List.nil_prefix

theorem trivia_front (cs : List Char) : trivia cs <+: cs := by
  have h := (List.prefix_append_right_inj (cs.takeWhile isSpace)).2
    (comment_front (cs.dropWhile isSpace))
  rwa [List.takeWhile_append_dropWhile] at h

/-- A text is the trivia at its front and what is behind them. -/
theorem trivia_append_drop (cs : List Char) : trivia cs ++ cs.drop (trivia cs).length = cs :=
  List.prefix_iff_eq_append.1 (trivia_front cs)

theorem newlines_front (cs : List Char) : newlines cs <+: cs := by
  fun_induction newlines cs with
  | case1 cs rest h ih =>
    rw [List.cons_prefix_cons]
    refine ⟨rfl, ?_⟩
    have hfront := (List.prefix_append_right_inj (trivia cs)).2 ih
    have htext : trivia cs ++ '\n' :: rest = cs := h ▸ trivia_append_drop cs
    rwa [htext] at hfront
  | case2 cs => simp
  | case3 => exact List.nil_prefix

theorem stringBody_front (cs : List Char) : (stringBody cs).1 <+: cs := by
  fun_induction stringBody cs with
  | case1 => exact List.nil_prefix
  | case2 => simp
  | case3 => exact List.prefix_refl _
  | case4 c cs r ih => simpa using ih
  | case5 c cs _ _ _ r ih => simpa using ih

theorem characterBody_front (cs : List Char) : (characterBody cs).1 <+: cs := by
  unfold characterBody
  split <;> simp

/-- The spelling of what is read as an operator, separator or bracket is there. -/
theorem scanPunct?_front {cs : List Char} {p : Punct} (h : scanPunct? cs = some p) :
    p.spelling.toList <+: cs := by
  unfold scanPunct? at h
  split at h <;> cases h <;> simp [Punct.spelling]

theorem scanControl?_front {cs : List Char} {w : ControlWord} (h : scanControl? cs = some w) :
    [w.letter] <+: cs := by
  unfold scanControl? at h
  split at h
  · next c cs =>
    split at h
    · cases h
    · unfold ControlWord.ofLetter? at h
      split at h <;> cases h <;> simp [ControlWord.letter]
  · cases h

/-- What is taken is the front of the text. -/
theorem scan_front {hostLine : Bool} {cs taken : List Char}
    {outcome : Except LexFault Token.Kind} (h : scan hostLine cs = .read taken outcome) :
    taken <+: cs := by
  cases scan_cases h with
  | punct hp => exact scanPunct?_front hp
  | newline => exact newlines_front cs
  | magic hcs =>
    rw [hcs, List.cons_prefix_cons]
    exact ⟨rfl, List.takeWhile_prefix _⟩
  | control hcs hw =>
    rw [hcs, List.cons_prefix_cons]
    exact ⟨rfl, scanControl?_front hw⟩
  | @string text _ _ hcs hbody | @openString text _ hcs hbody =>
    rw [hcs, List.cons_prefix_cons]
    exact ⟨rfl, by simpa [hbody] using stringBody_front text⟩
  | @character text _ _ hcs hbody | @openCharacter text _ hcs hbody =>
    rw [hcs, List.cons_prefix_cons]
    exact ⟨rfl, by simpa [hbody] using characterBody_front text⟩
  | symbol hcs =>
    rw [hcs, List.cons_prefix_cons]
    exact ⟨rfl, List.takeWhile_prefix _⟩
  | openSymbol hcs =>
    rw [hcs, List.cons_prefix_cons]
    exact ⟨rfl, List.nil_prefix⟩
  | word => exact List.takeWhile_prefix _
  | number _ hnumber =>
    cases hnumber with
    | @integer _ rest _ hcs => exact ⟨rest, hcs.symm⟩
    | @float _ _ rest _ hcs => exact ⟨rest, hcs.symm⟩

/-- Only an empty text has nothing at its front. -/
theorem eq_nil_of_scan_finished {hostLine : Bool} {cs : List Char}
    (h : scan hostLine cs = .finished) : cs = [] := by
  cases scan_cases h with
  | finished hcs => exact hcs
  | number _ hnumber => cases hnumber

theorem wordKind_ne {word : String} {k : Token.Kind} (h : wordKind word = k) :
    k ≠ .newline ∧ ∀ text, k ≠ .shebang text := by
  unfold wordKind at h
  repeat' split at h
  all_goals
    subst h
    exact ⟨by simp, by simp⟩

/-- Line feeds are read at a line feed only, and a shebang line is not what a scan reads. -/
theorem scan_kind {hostLine : Bool} {cs taken : List Char} {k : Token.Kind}
    (h : scan hostLine cs = .read taken (.ok k)) :
    (k = .newline → ∃ es, cs = '\n' :: es ∧ taken = newlines cs) ∧ ∀ text, k ≠ .shebang text := by
  cases scan_cases h with
  | punct | magic | control | string | character | symbol => exact ⟨nofun, nofun⟩
  | @newline rest hcs => exact ⟨fun _ => ⟨rest, hcs, rfl⟩, nofun⟩
  | word =>
    obtain ⟨hnewline, hshebang⟩ := wordKind_ne rfl
    exact ⟨fun hk => absurd hk hnewline, hshebang⟩
  | number _ hnumber =>
    cases hnumber with
    | integer _ _ _ _ hk =>
      obtain ⟨n, -, rfl⟩ := integerOf_ok hk
      exact ⟨nofun, nofun⟩
    | float _ _ _ _ hk =>
      obtain ⟨x, -, rfl⟩ := floatOf_ok hk
      exact ⟨nofun, nofun⟩

/-! ## Places -/

/-- The number of bytes of a text. -/
def byteLength (cs : List Char) : Nat := (String.ofList cs).utf8ByteSize

theorem byteLength_cons (c : Char) (cs : List Char) :
    byteLength (c :: cs) = c.utf8Size + byteLength cs := by
  rw [byteLength, String.ofList_cons, String.utf8ByteSize_append, String.utf8ByteSize_singleton,
    byteLength]

theorem byteLength_append (cs ds : List Char) :
    byteLength (cs ++ ds) = byteLength cs + byteLength ds := by
  rw [byteLength, String.ofList_append, String.utf8ByteSize_append, byteLength, byteLength]

theorem Position.offset_after (p : Position) (cs : List Char) :
    (p.after cs).offset = p.offset + byteLength cs := by
  induction cs generalizing p with
  | nil => rfl
  | cons c cs ih =>
    have hstep : (p.step c).offset = p.offset + c.utf8Size := by
      unfold step
      split <;> rfl
    rw [after_cons, ih, hstep, byteLength_cons, Nat.add_assoc]

theorem Position.offset_lt_after {p : Position} {cs : List Char} (h : cs ≠ []) :
    p.offset < (p.after cs).offset := by
  cases cs with
  | nil => exact absurd rfl h
  | cons c cs => exact Nat.lt_of_lt_of_le (offset_lt_step p c) (offset_le_after _ cs)

namespace Lexer

/-- The characters between two lexers. -/
structure LeadsTo (l : Lexer) (taken : List Char) (l' : Lexer) : Prop where
  rest : l.rest = taken ++ l'.rest
  position : l'.position = l.position.after taken

variable {l l' l'' : Lexer} {taken taken' : List Char} {t : Token}

theorem LeadsTo.trans (h : l.LeadsTo taken l') (h' : l'.LeadsTo taken' l'') :
    l.LeadsTo (taken ++ taken') l'' where
  rest := by rw [h.rest, h'.rest, List.append_assoc]
  position := by rw [h'.position, h.position, Position.after_append]

theorem leadsTo_skip (h : taken <+: l.rest) : l.LeadsTo taken (l.skip taken) :=
  ⟨(List.prefix_iff_eq_append.1 h).symm, rfl⟩

theorem leadsTo_skipTrivia (l : Lexer) : l.LeadsTo (trivia l.rest) l.skipTrivia :=
  leadsTo_skip (trivia_front l.rest)

theorem shebang?_front {line : List Char} (h : l.shebang? = some line) :
    line <+: l.rest ∧ line ≠ [] := by
  unfold shebang? at h
  split at h
  · next hrest =>
    cases h
    rw [hrest]
    exact ⟨by simpa [restOfLine] using List.takeWhile_prefix (· != '\n'), by simp⟩
  · cases h

/-- What a read takes, and the token if there is one. -/
structure Extent (l : Lexer) (r : Except LexError Token) (l' : Lexer) : Prop where
  leadsTo : ∃ taken, l.LeadsTo taken l'
  stop : ∀ t, r = .ok t → t.span.stop = l'.position
  nonempty : ∀ t, r = .ok t → t.kind ≠ .endOfInput → t.span.start.offset < t.span.stop.offset

theorem nextAt_extent (l : Lexer) : l.Extent l.nextAt.1 l.nextAt.2 := by
  unfold nextAt
  split
  · refine ⟨⟨[], rfl, rfl⟩, fun t ht => ?_, fun t ht hk => ?_⟩
    · cases ht
      rfl
    · cases ht
      exact absurd rfl hk
  · exact ⟨⟨[], rfl, rfl⟩, by simp, by simp⟩
  · next taken outcome hscan =>
    have hleads := leadsTo_skip (scan_front hscan)
    cases outcome with
    | error fault => exact ⟨⟨taken, hleads.rest, hleads.position⟩, by simp, by simp⟩
    | ok kind =>
      refine ⟨⟨taken, hleads.rest, hleads.position⟩, fun t ht => ?_, fun t ht _ => ?_⟩
      · cases ht
        rfl
      · cases ht
        exact Position.offset_lt_after (scan_read_ne_nil hscan)

/-- A read takes characters off the front of the text, and a token is what it was read from. -/
theorem next_extent (l : Lexer) : l.Extent l.next.1 l.next.2 := by
  unfold next
  split
  · next line hline =>
    obtain ⟨hfront, hne⟩ := shebang?_front hline
    refine ⟨⟨line, leadsTo_skip hfront⟩, fun t ht => ?_, fun t ht _ => ?_⟩
    · cases ht
      rfl
    · cases ht
      exact Position.offset_lt_after hne
  · obtain ⟨⟨taken, hleads⟩, hstop, hnonempty⟩ := nextAt_extent l.skipTrivia
    exact ⟨⟨_, (leadsTo_skipTrivia l).trans hleads⟩, hstop, hnonempty⟩

/-- The stream of a lexer in terms of what it reads next. -/
theorem stream_eq (l : Lexer) : l.stream = match l.next with
    | (.ok t, l') => if t.kind = .endOfInput then .ended t.span.start else .token t l'.stream
    | (.error e, l') => if e.isSticky then .stuck e else .fault e l'.stream := by
  rw [stream]
  split
  · next t ht =>
    rw [(Prod.ext ht rfl : l.next = (.ok t, l.next.2))]
    simp
  · next e he =>
    rw [(Prod.ext he rfl : l.next = (.error e, l.next.2))]
    simp

theorem stream_of_next (h : l.next = (.ok t, l')) (hk : t.kind ≠ .endOfInput) :
    l.stream = .token t l'.stream := by
  rw [stream_eq, h]
  exact if_neg hk

end Lexer
end WqSource
