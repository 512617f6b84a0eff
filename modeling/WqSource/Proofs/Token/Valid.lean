import WqSource.Proofs.Grammar.Taking
import WqSource.Proofs.Token.Scanned
import WqSource.Token.Stream
import Mathlib.Data.List.Infix

/-!
# The tokens that a text can have

Not every token can be read. An integer has to fit, a name has to be made of the right
characters and to be of the kind that its spelling has, and the text of a line stays on
that line. `Token.Kind.Valid` says so, and every token of every text is valid.

A line for the host is a token outside all brackets only, and the end of the input comes
last.

## Main definitions

* `Name.WellFormed`, `Token.Kind.Valid`.

## Main statements

* `scan_valid`: what is read from a text is valid.
* `Lexer.stream_each`: a property of every single read is one of every token of a stream.
-/

namespace WqSource

/-- Whether a name is made of the characters that names have. -/
def Name.WellFormed (cs : List Char) : Prop :=
  (∃ c ∈ cs.head?, isStart c = true) ∧ ∀ c ∈ cs, isContinue c = true

/-- Whether a text may have such a token. -/
def Token.Kind.Valid : Token.Kind → Prop
  | integer n => 0 ≤ n ∧ n < 9223372036854775808
  | float x => x.negative = false
  | symbol s => Name.WellFormed s.toList
  | identifier s => Name.WellFormed s.toList ∧ wordKind s = identifier s
  | builtin s => Name.WellFormed s.toList ∧ wordKind s = builtin s
  | shebang text => '\n' ∉ text.toList
  | magic payload => '\n' ∉ payload.toList ∧ payload.toList.head? ≠ some '='
  | endOfInput => False
  | _ => True

theorem newline_notMem_restOfLine (cs : List Char) : '\n' ∉ restOfLine cs := by
  intro h
  simpa using List.mem_takeWhile_imp h

theorem mem_of_mem_dropReturn {line : List Char} {c : Char} (h : c ∈ dropReturn line) :
    c ∈ line := by
  unfold dropReturn at h
  split at h
  · exact List.mem_of_mem_dropLast h
  · exact h

/-- The first character of a line stays, unless it is the carriage return. -/
theorem head?_dropReturn {line : List Char} {c : Char} (h : c ∈ (dropReturn line).head?) :
    c ∈ line.head? := by
  unfold dropReturn at h
  split at h
  · cases line with
    | nil => exact h
    | cons d ds => cases ds <;> simp_all
  · exact h

theorem wordKind_valid {s : String} (h : Name.WellFormed s.toList) : (wordKind s).Valid := by
  have hkind : ∀ k, wordKind s = k → k.Valid := by
    rintro k hk
    have hword := hk
    unfold wordKind at hword
    split at hword
    · subst hword
      trivial
    split at hword
    · subst hword
      trivial
    split at hword
    · subst hword
      trivial
    split at hword
    · subst hword
      trivial
    split at hword
    · subst hword
      exact ⟨h, hk⟩
    · subst hword
      exact ⟨h, hk⟩
  exact hkind _ rfl

theorem wellFormed_takeWhile {cs : List Char} (h : ∃ c ∈ cs.head?, Name.isStart c = true) :
    Name.WellFormed (cs.takeWhile Name.isContinue) := by
  obtain ⟨c, hc, hstart⟩ := h
  obtain ⟨tail, rfl⟩ := List.head?_eq_some_iff.1 hc
  refine ⟨⟨c, by simp [Name.isContinue_of_isStart hstart], hstart⟩, fun d hd => ?_⟩
  exact List.mem_takeWhile_imp hd

/-- The definition, not applied to digits yet: comparing it where it is applied would
evaluate the conversion. -/
theorem floatOf_eq : floatOf = fun whole fraction =>
    match Binary64.ofDecimal (Nat.ofDigitChars 10 (whole ++ fraction) 0) fraction.length with
    | some value => .ok (.float value)
    | none => .error (.floatOutOfRange (String.ofList (whole ++ '.' :: fraction))) := by
  delta floatOf
  exact rfl

/-- No decimal fraction has a sign. -/
theorem Binary64.negative_ofDecimal {n places : Nat} {x : Binary64} (h : ofDecimal n places = some x) :
    x.negative = false := by
  unfold ofDecimal at h
  split at h
  · cases h
    rfl
  · cases h

/-- An integer fits, and has no sign. -/
theorem integerOf_ok {digits : List Char} {k : Token.Kind} (h : integerOf digits = .ok k) :
    ∃ n, (0 ≤ n ∧ n < 9223372036854775808) ∧ k = .integer n := by
  unfold integerOf at h
  dsimp only at h
  split at h
  · next hn => exact ⟨_, ⟨Int.natCast_nonneg _, by omega⟩, (Except.ok.inj h).symm⟩
  · cases h

theorem integerOf_error {digits : List Char} {fault : LexFault}
    (h : integerOf digits = .error fault) : fault = .integerOutOfRange (String.ofList digits) := by
  unfold integerOf at h
  dsimp only at h
  split at h <;> cases h
  rfl

/-- A float has no sign. -/
theorem floatOf_ok {whole fraction : List Char} {k : Token.Kind}
    (h : floatOf whole fraction = .ok k) : ∃ x, x.negative = false ∧ k = .float x := by
  rw [floatOf_eq] at h
  dsimp only at h
  split at h
  · next hvalue => exact ⟨_, Binary64.negative_ofDecimal hvalue, (Except.ok.inj h).symm⟩
  · cases h

theorem floatOf_error {whole fraction : List Char} {fault : LexFault}
    (h : floatOf whole fraction = .error fault) :
    fault = .floatOutOfRange (String.ofList (whole ++ '.' :: fraction)) := by
  rw [floatOf_eq] at h
  dsimp only at h
  split at h <;> cases h
  rfl

/-- A line for the host does not begin with the sign that makes its mark an operator. -/
theorem head?_line_ne {line : List Char} (h : scanPunct? ('!' :: line) = none) :
    (restOfLine line).head? ≠ some '=' := by
  cases line with
  | nil => nofun
  | cons d tail =>
    intro hhead
    by_cases hd : d = '\n'
    · simp [restOfLine, hd] at hhead
    · obtain rfl : d = '=' := by simpa [restOfLine, hd] using hhead
      cases h

/-- What is read from a text is valid, and it is no shebang line. A line for the host is
read only where one may begin. -/
theorem scan_valid {hostLine : Bool} {cs taken : List Char} {k : Token.Kind}
    (h : scan hostLine cs = .read taken (.ok k)) :
    k.Valid ∧ (∀ payload, k = .magic payload → hostLine = true) := by
  cases scan_cases h with
  | punct | newline | control | string | character => exact ⟨trivial, nofun⟩
  | @magic line hcs hpunct hhost =>
    subst hcs
    refine ⟨⟨fun hmem => ?_, fun hhead => ?_⟩, fun _ _ => hhost⟩
    · rw [String.toList_ofList] at hmem
      exact newline_notMem_restOfLine line (mem_of_mem_dropReturn hmem)
    · rw [String.toList_ofList] at hhead
      exact head?_line_ne hpunct (head?_dropReturn (Option.mem_def.2 hhead))
  | symbol _ hstart =>
    exact ⟨by simpa [Token.Kind.Valid] using wellFormed_takeWhile hstart, nofun⟩
  | word hstart =>
    refine ⟨wordKind_valid (by simpa using wellFormed_takeWhile hstart), ?_⟩
    intro payload hword
    unfold wordKind at hword
    repeat' split at hword
    all_goals cases hword
  | number _ hnumber =>
    cases hnumber with
    | integer _ _ _ _ hk =>
      obtain ⟨n, hn, rfl⟩ := integerOf_ok hk
      exact ⟨hn, nofun⟩
    | float _ _ _ _ hk =>
      obtain ⟨x, hx, rfl⟩ := floatOf_ok hk
      exact ⟨hx, nofun⟩

/-! ## Streams -/

namespace Position

theorem offset_lt_step (p : Position) (c : Char) : p.offset < (p.step c).offset := by
  have := Char.utf8Size_pos c
  unfold step
  split <;> simp only <;> omega

theorem offset_le_after (p : Position) (cs : List Char) : p.offset ≤ (p.after cs).offset := by
  induction cs generalizing p with
  | nil => exact Nat.le_refl _
  | cons c cs ih => exact Nat.le_trans (offset_lt_step p c).le (ih _)

end Position

namespace Lexer

/-- What is known of a token that is read, and of the lexer behind it. -/
structure Reads (l : Lexer) (t : Token) (l' : Lexer) : Prop where
  depth_eq : l'.depth = t.kind.depthAfter l.depth
  le_start : l.position.offset ≤ t.span.start.offset
  start_le : t.span.start.offset ≤ l'.position.offset
  ending : t.kind = .endOfInput → t = .ending t.span.start
  valid : t.kind ≠ .endOfInput → t.kind.Valid
  magic : ∀ payload, t.kind = .magic payload → l.depth = 0

theorem offset_le_skipTrivia (l : Lexer) : l.position.offset ≤ l.skipTrivia.position.offset :=
  Position.offset_le_after _ _

theorem nextShebang_reads {l : Lexer} {line : List Char} (h : l.shebang? = some line) :
    l.Reads (l.nextShebang line).1 (l.nextShebang line).2 := by
  refine ⟨rfl, Nat.le_refl _, Position.offset_le_after _ _, nofun, fun _ => ?_, nofun⟩
  intro hmem
  rw [String.toList_ofList] at hmem
  have hline : '\n' ∈ line := mem_of_mem_dropReturn (List.mem_of_mem_drop hmem)
  unfold shebang? at h
  split at h
  · next cs _ _ =>
    cases h
    simp only [List.mem_cons, Char.reduceEq, false_or] at hline
    exact newline_notMem_restOfLine cs hline
  · cases h

theorem nextAt_reads {l l' : Lexer} {t : Token} (h : l.nextAt = (.ok t, l')) : l.Reads t l' := by
  unfold nextAt at h
  split at h
  · cases h
    exact ⟨rfl, Nat.le_refl _, Nat.le_refl _, fun _ => rfl, fun h => absurd rfl h, nofun⟩
  · cases h
  · next taken outcome hscan =>
    dsimp only at h
    split at h
    · next kind =>
      cases h
      obtain ⟨hvalid, hmagic⟩ := scan_valid hscan
      refine ⟨rfl, Nat.le_refl _, Position.offset_le_after _ _, ?_, fun _ => hvalid, ?_⟩
      · rintro rfl
        exact hvalid.elim
      · intro payload hk
        have hhost := hmagic payload hk
        simp only [atHostLine, Bool.and_eq_true, beq_iff_eq] at hhost
        exact hhost.2
    · cases h

theorem next_reads {l l' : Lexer} {t : Token} (h : l.next = (.ok t, l')) : l.Reads t l' := by
  unfold next at h
  split at h
  · next line hline =>
    cases h
    exact nextShebang_reads hline
  · obtain ⟨hdepth, hle, hstart, hending, hvalid, hmagic⟩ := nextAt_reads h
    exact ⟨hdepth, (offset_le_skipTrivia l).trans hle, hstart, hending, hvalid, hmagic⟩

/-- A fault lies ahead of the lexer, and opens no bracket. -/
theorem next_error {l : Lexer} {e : LexError} (h : l.next.1 = .error e) :
    l.next.2.depth = l.depth ∧ l.position.offset ≤ e.span.start.offset ∧
      e.span.start.offset ≤ l.next.2.position.offset := by
  have h : l.next = (.error e, l.next.2) := Prod.ext h rfl
  generalize l.next.2 = l' at h
  unfold next at h
  split at h
  · cases h
  · have hle := offset_le_skipTrivia l
    change l'.depth = l.skipTrivia.depth ∧ _
    generalize l.skipTrivia = m at h hle
    unfold nextAt at h
    split at h
    · cases h
    · cases h
      exact ⟨rfl, hle, Nat.le_refl _⟩
    · dsimp only at h
      split at h
      · cases h
      · cases h
        exact ⟨rfl, hle, Position.offset_le_after _ _⟩

/-- What holds of every read holds of every token of a stream. -/
theorem stream_each {P : Nat → Token → Prop} (hP : ∀ l t l', Reads l t l' → P l.depth t)
    (l : Lexer) : l.stream.Each P l.depth := by
  fun_induction stream l with
  | case1 l t ht hk =>
    have h : l.Reads t l.next.2 := next_reads (by rw [← ht])
    rw [TokenStream.Each, ← h.ending hk]
    exact hP _ _ _ h
  | case2 l t ht hk ih =>
    have h : l.Reads t l.next.2 := next_reads (by rw [← ht])
    exact ⟨hP _ _ _ h, h.depth_eq ▸ ih⟩
  | case3 => trivial
  | case4 l e he hs ih =>
    have h := next_error he
    exact h.1 ▸ ih

end Lexer

/-- What holds of every read holds of every token of a text. -/
theorem Cursor.each_ofString {P : Nat → Token → Prop}
    (hP : ∀ l t l', Lexer.Reads l t l' → P l.depth t) {source : String} {c : Cursor}
    (h : Cursor.ofString source = .ok c) : c.Each P := by
  have hstream := Lexer.stream_each hP (Lexer.ofString source)
  have hnext := hstream.next
  unfold Cursor.ofString at h
  split at h
  · next t ahead he =>
    cases h
    rw [he] at hnext
    exact hnext
  · cases h

end WqSource
