import WqSource.Proofs.Token.Reading
import Mathlib.Data.String.Basic

/-!
# Places are true

A place is true of a text if it stands between two characters of it, and if its line and its
column are those that counting the text in front of it gives. The place behind a run of
characters from the start is true, and that is what every place is that a lexer gives to a token
or to a fault: it only ever moves over characters of its text.

## Main definitions

* `Position.TrueIn`, `Span.TrueIn`: places as they are counted.
* `Span.slice`: the text of a span.
* `Lexer.InText`: a lexer somewhere in a text.

## Main statements

* `Position.line_column_after`: moving over characters counts them.
* `Lexer.InText.token`, `Lexer.InText.fault`: the places of one read.
* `steps_trueIn`, `tokenize_trueIn`: the places of all reads.
-/

namespace WqSource

/-- The place stands between two characters of the text, or at one of its ends. Its line is the
number of line feeds in front of it, and its column is the number of characters in front of it
on its line, both counted from 1. -/
def Position.TrueIn (source : String) (p : Position) : Prop :=
  ∃ front behind : List Char, source.toList = front ++ behind ∧
    p.offset = byteLength front ∧ p.offset ≤ source.utf8ByteSize ∧
      p.line = 1 + front.count '\n' ∧
        p.column = 1 + (front.reverse.takeWhile (· ≠ '\n')).length

/-- Both ends are true, and the first one is not behind the second one. -/
structure Span.TrueIn (source : String) (s : Span) : Prop where
  start : s.start.TrueIn source
  stop : s.stop.TrueIn source
  ordered : s.start.offset ≤ s.stop.offset

/-- The text of a span. -/
def Span.slice (s : Span) (source : String) : String :=
  String.Pos.Raw.extract source ⟨s.start.offset⟩ ⟨s.stop.offset⟩

variable {source : String} {front behind : List Char}

/-- The text of a span is what stands between its two ends. -/
theorem Span.slice_eq {text : List Char} {s : Span} (hsource : source.toList = front ++ text ++ behind)
    (hstart : s.start.offset = byteLength front)
    (hstop : s.stop.offset = byteLength front + byteLength text) :
    s.slice source = String.ofList text := by
  have hlength (cs : List Char) : byteLength cs = String.utf8Len cs := String.utf8ByteSize_ofList cs
  rw [Span.slice, hstart, hstop, hlength, hlength, ← String.extract_of_valid front text behind,
    ← hsource, String.ofList_toList]

theorem byteLength_toList (source : String) : byteLength source.toList = source.utf8ByteSize := by
  rw [byteLength, String.ofList_toList]

/-- Moving over characters counts lines and columns. -/
theorem Position.line_column_after (front : List Char) :
    (Position.start.after front).line = 1 + front.count '\n' ∧
      (Position.start.after front).column =
        1 + (front.reverse.takeWhile (· ≠ '\n')).length := by
  induction front using List.reverseRecOn with
  | nil => exact ⟨rfl, rfl⟩
  | append_singleton front c ih =>
    obtain ⟨hline, hcolumn⟩ := ih
    rw [after_append, after_cons, after_nil, step]
    by_cases hc : c = '\n'
    · subst hc
      simp [hline, Nat.add_assoc]
    · rw [if_neg hc]
      simp [hc, hline, hcolumn, Nat.add_assoc]

/-- Moving over characters counts their bytes. -/
theorem Position.offset_after_start (front : List Char) :
    (Position.start.after front).offset = byteLength front := by
  rw [offset_after]
  exact Nat.zero_add _

/-- The place behind characters of the text is true. -/
theorem Position.trueIn_after (h : source.toList = front ++ behind) :
    (Position.start.after front).TrueIn source := by
  have hoffset := offset_after_start front
  refine ⟨front, behind, h, hoffset, ?_, line_column_after front⟩
  rw [hoffset, ← byteLength_toList, h, byteLength_append]
  exact Nat.le_add_right ..

theorem Position.trueIn_start (source : String) : Position.start.TrueIn source :=
  show (Position.start.after []).TrueIn source from trueIn_after rfl

/-- What covers two true spans is true. -/
theorem Span.TrueIn.merge {s t : Span} (hs : s.TrueIn source) (ht : t.TrueIn source) :
    (s.merge t).TrueIn source := by
  have hfirst := hs.ordered
  unfold Span.merge
  refine ⟨?_, ?_, ?_⟩
  · dsimp only
    split
    · exact ht.start
    · exact hs.start
  · dsimp only
    split
    · exact ht.stop
    · exact hs.stop
  · dsimp only
    split <;> split <;> omega

/-! ## Lexers in a text -/

namespace Lexer
variable {l l' : Lexer} {t : Token} {e : LexError} {taken : List Char}

/-- The lexer stands somewhere in the text. -/
def InText (source : String) (l : Lexer) : Prop :=
  ∃ front, (ofString source).LeadsTo front l

theorem inText_ofString (source : String) : (ofString source).InText source := ⟨[], rfl, rfl⟩

namespace InText

theorem leadsTo (h : l.InText source) (h' : l.LeadsTo taken l') : l'.InText source := by
  obtain ⟨front, hfront⟩ := h
  exact ⟨front ++ taken, hfront.trans h'⟩

theorem skip (h : l.InText source) (hfront : taken <+: l.rest) : (l.skip taken).InText source :=
  h.leadsTo (leadsTo_skip hfront)

theorem position (h : l.InText source) : l.position.TrueIn source := by
  obtain ⟨front, hrest, hposition⟩ := h
  rw [hposition]
  exact Position.trueIn_after hrest

theorem next (h : l.InText source) : l.next.2.InText source := by
  obtain ⟨taken, hleads⟩ := (next_extent l).leadsTo
  exact h.leadsTo hleads

/-- The text between two places in front of the lexer. -/
theorem slice {gap text behind : List Char} (h : l.InText source)
    (hrest : l.rest = gap ++ (text ++ behind)) :
    Span.slice ⟨l.position.after gap, (l.position.after gap).after text⟩ source =
      String.ofList text := by
  obtain ⟨front, hfront, hposition⟩ := h
  have hsource : source.toList = (front ++ gap) ++ text ++ behind := by
    change source.toList = _ at hfront
    rw [hfront, hrest]
    simp only [List.append_assoc]
  have hstart : (l.position.after gap).offset = byteLength (front ++ gap) := by
    rw [hposition, Position.offset_after, Position.offset_after, byteLength_append]
    exact congrArg (· + byteLength gap) (Nat.zero_add _)
  refine Span.slice_eq hsource hstart ?_
  rw [← hstart]
  exact Position.offset_after _ _

/-- Characters that are next to each other in the text make a true span. -/
theorem span_skip (h : l.InText source) (hfront : taken <+: l.rest) :
    Span.TrueIn source ⟨l.position, (l.skip taken).position⟩ :=
  ⟨h.position, (h.skip hfront).position, Position.offset_le_after _ _⟩

end InText

/-- No token begins with the character in front of the lexer. -/
theorem rest_of_illegal {c : Char} {hostLine : Bool} {cs : List Char}
    (h : scan hostLine cs = .illegal c) : ∃ tail, cs = c :: tail := by
  cases scan_cases h with
  | @illegal _ tail hcs => exact ⟨tail, hcs⟩
  | number _ hnumber => cases hnumber

/-- What is read stands in the text, whether it is a token or not. -/
theorem InText.nextAt (h : l.InText source) :
    (∀ t, l.nextAt.1 = .ok t → t.span.TrueIn source) ∧
      ∀ e, l.nextAt.1 = .error e → e.span.TrueIn source := by
  unfold Lexer.nextAt
  split
  · refine ⟨?_, nofun⟩
    rintro t ⟨⟩
    exact ⟨h.position, h.position, Nat.le_refl _⟩
  · next c hscan =>
    obtain ⟨tail, hrest⟩ := rest_of_illegal hscan
    have hfront : [c] <+: l.rest := by
      rw [hrest]
      exact ⟨tail, rfl⟩
    refine ⟨nofun, ?_⟩
    rintro e ⟨⟩
    exact h.span_skip hfront
  · next taken outcome hscan =>
    have hspan := h.span_skip (scan_front hscan)
    cases outcome with
    | ok kind =>
      refine ⟨?_, nofun⟩
      rintro t ⟨⟩
      exact hspan
    | error fault =>
      refine ⟨nofun, ?_⟩
      rintro e ⟨⟩
      exact hspan

theorem InText.reads (h : l.InText source) :
    (∀ t, l.next.1 = .ok t → t.span.TrueIn source) ∧
      ∀ e, l.next.1 = .error e → e.span.TrueIn source := by
  cases hshebang : l.shebang? with
  | none =>
    rw [next_of_shebang_eq_none hshebang]
    exact (h.skip (trivia_front l.rest)).nextAt
  | some line =>
    obtain ⟨hnext, -⟩ := next_of_shebang hshebang
    rw [hnext]
    refine ⟨?_, nofun⟩
    rintro t ⟨⟩
    exact h.span_skip (shebang?_front hshebang).1

/-- The place of a token. -/
theorem InText.token (h : l.InText source) (hnext : l.next = (.ok t, l')) :
    t.span.TrueIn source ∧ l'.InText source := by
  have hreads := h.reads.1
  have hbehind := h.next
  rw [hnext] at hreads hbehind
  exact ⟨hreads t rfl, hbehind⟩

/-- The place of a fault. -/
theorem InText.fault (h : l.InText source) (hnext : l.next = (.error e, l')) :
    e.span.TrueIn source := by
  have hreads := h.reads.2
  rw [hnext] at hreads
  exact hreads e rfl

end Lexer

/-- The places of tokens and faults are true, however many reads there are. -/
theorem steps_trueIn (source : String) (count : Nat) :
    (∀ t, .ok t ∈ (Lexer.ofString source).steps count → t.span.TrueIn source) ∧
      ∀ e, .error e ∈ (Lexer.ofString source).steps count → e.span.TrueIn source := by
  have hall (l : Lexer) (h : l.InText source) :
      (∀ t, .ok t ∈ l.steps count → t.span.TrueIn source) ∧
        ∀ e, .error e ∈ l.steps count → e.span.TrueIn source := by
    induction count generalizing l with
    | zero => exact ⟨nofun, nofun⟩
    | succ count ih =>
      obtain ⟨htoken, hfault⟩ := ih l.next.2 h.next
      constructor
      · intro t ht
        rcases List.mem_cons.1 ht with ht | ht
        · exact h.reads.1 t ht.symm
        · exact htoken t ht
      · intro e he
        rcases List.mem_cons.1 he with he | he
        · exact h.reads.2 e he.symm
        · exact hfault e he
  exact hall _ (Lexer.inText_ofString source)

namespace Lexer
variable {l l' : Lexer} {t : Token} {e : LexError} {s : TokenStream}

/-- Behind the end of a text, the end is read again. -/
theorem stream_of_end (h : l.next = (.ok t, l')) (hend : t.kind = .endOfInput) :
    l'.stream = .ended t.span.start := by
  obtain ⟨hgap, rfl⟩ := isGap_of_next h hend
  have hshebang : l.shebang? = none := by
    cases hline : l.shebang? with
    | none => rfl
    | some line =>
      obtain ⟨hnext, -⟩ := next_of_shebang hline
      rw [hnext] at h
      cases h
  obtain rfl : l.skipTrivia = l' := by
    rw [next_of_isGap hgap hshebang] at h
    exact (Prod.mk.inj h).2
  have htrivia : trivia l.rest = l.rest := by
    have hall := hgap.trivia_eq (by rfl)
    rwa [List.append_nil] at hall
  have hrest : l.skipTrivia.rest = [] := by
    simp only [skipTrivia, skip, htrivia, List.drop_length]
  have hnone : l.skipTrivia.shebang? = none := by simp [shebang?, hrest]
  rw [stream_eq, next_of_isGap (by rw [hrest]; exact isGap_nil) hnone, hrest]
  simp [Token.ending, skipTrivia, skip, htrivia]

/-- What is next in the stream of a lexer is what the lexer reads. -/
theorem stream_next (h : l.stream.next = (.ok t, s)) :
    ∃ l', l.next = (.ok t, l') ∧ s = l'.stream := by
  rw [stream_eq] at h
  cases hnext : l.next with
  | mk r l' =>
    rw [hnext] at h
    cases r with
    | error e =>
      dsimp only at h
      split at h <;> cases h
    | ok u =>
      by_cases hend : u.kind = .endOfInput
      · simp only [hend, if_true] at h
        cases h
        obtain ⟨-, rfl⟩ := isGap_of_next hnext hend
        exact ⟨l', rfl, (stream_of_end hnext hend).symm⟩
      · simp only [hend, if_false] at h
        cases h
        exact ⟨l', rfl, rfl⟩

theorem stream_next_error (h : l.stream.next = (.error e, s)) : ∃ l', l.next = (.error e, l') := by
  rw [stream_eq] at h
  cases hnext : l.next with
  | mk r l' =>
    rw [hnext] at h
    cases r with
    | error e' =>
      dsimp only at h
      split at h <;> cases h <;> exact ⟨l', rfl⟩
    | ok u =>
      dsimp only at h
      split at h <;> cases h

/-- The places of the tokens of a stream, or of its first fault. -/
theorem InText.tokens (h : l.InText source) :
    (∀ ts, l.stream.tokens = .ok ts → ∀ t ∈ ts, t.span.TrueIn source) ∧
      ∀ e, l.stream.tokens = .error e → e.span.TrueIn source := by
  fun_induction stream l with
  | case1 l t ht hk =>
    have htrue := h.reads.1 t ht
    obtain ⟨-, hending⟩ := isGap_of_next (Prod.ext ht rfl) hk
    refine ⟨?_, fun _ he => by cases he⟩
    rintro ts ⟨⟩ u hu
    rw [List.mem_singleton.1 hu]
    rw [hending] at htrue ⊢
    exact htrue
  | case2 l t ht hk ih =>
    obtain ⟨htokens, hfault⟩ := ih h.next
    rw [TokenStream.tokens]
    cases htail : l.next.2.stream.tokens with
    | error e =>
      refine ⟨fun _ hts => (by cases hts), ?_⟩
      rintro e' ⟨⟩
      exact hfault e htail
    | ok tail =>
      refine ⟨?_, fun _ he => by cases he⟩
      rintro ts ⟨⟩
      exact List.forall_mem_cons.2 ⟨h.reads.1 t ht, htokens tail htail⟩
  | case3 l e he hs | case4 l e he hs =>
    refine ⟨fun _ hts => (by cases hts), ?_⟩
    rintro e' ⟨⟩
    exact h.reads.2 e he

end Lexer

/-- The places of the tokens of a text are true, or that of its first fault is. -/
theorem tokenize_trueIn (source : String) :
    (∀ ts, tokenize source = .ok ts → ∀ t ∈ ts, t.span.TrueIn source) ∧
      ∀ e, tokenize source = .error e → e.span.TrueIn source :=
  (Lexer.inText_ofString source).tokens

end WqSource
