import WqSource.Proofs.Grammar.Faults
import WqSource.Proofs.Token.Extent

/-!
# Problems stand apart

No two problems of a text begin at the same place. What is noted when a token is taken is about
that token, and every token has some text, so the next problem is about something behind it. An
error that a parse recovers from is about the current token, which is still there; but only a
separator or the end of the text may stay there when the parse goes on, and the one is taken
before anything else is noted and the other ends the parse.

## Main definitions

* `TokenStream.Apart`: whether what is read next begins behind the tokens in front of it.
* `Cursor.Apart`: a cursor that is not in front of any problem noted.
* `Problem.About`: a problem with one of some tokens.

## Main statements

* `topLevel_apart`: the problems of statements, whatever errors there are.
* `parse_pointed`: where the problems of a text are, and what stands there.
-/

namespace WqSource
open Grammar WqSource.Parser

/-! ## Tokens with some text -/

/-- Whether what a stream reads begins no earlier than at the given byte, and no earlier than
where the token in front of it ends; every token has some text. -/
def TokenStream.Apart (first : Nat) : TokenStream → Prop
  | ended place => first ≤ place.offset
  | stuck e => first ≤ e.span.start.offset
  | token t rest =>
    first ≤ t.span.start.offset ∧ t.span.start.offset < t.span.stop.offset ∧
      rest.Apart t.span.stop.offset
  | fault e rest => first ≤ e.span.start.offset ∧ rest.Apart first

theorem TokenStream.Apart.mono {m n : Nat} {s : TokenStream} (h : s.Apart n) (hmn : m ≤ n) :
    s.Apart m := by
  induction s with
  | ended | stuck => exact Nat.le_trans hmn h
  | token => exact ⟨Nat.le_trans hmn h.1, h.2⟩
  | fault e rest ih => exact ⟨Nat.le_trans hmn h.1, ih h.2⟩

/-- A token that is read next, and what is behind it. -/
theorem TokenStream.Apart.next {n : Nat} {s rest : TokenStream} {t : Token} (h : s.Apart n)
    (hn : s.next = (.ok t, rest)) :
    n ≤ t.span.start.offset ∧ t.span.start.offset ≤ t.span.stop.offset ∧
      (t.kind ≠ .endOfInput → t.span.start.offset < t.span.stop.offset) ∧
        rest.Apart t.span.stop.offset := by
  cases s with
  | ended place =>
    cases hn
    exact ⟨h, Nat.le_refl _, fun hk => absurd rfl hk, Nat.le_refl _⟩
  | token u rest =>
    cases hn
    exact ⟨h.1, Nat.le_of_lt h.2.1, fun _ => h.2.1, h.2.2⟩
  | stuck | fault => cases hn

theorem TokenStream.Apart.next_error {n : Nat} {s rest : TokenStream} {e : LexError}
    (h : s.Apart n) (hn : s.next = (.error e, rest)) : n ≤ e.span.start.offset := by
  cases s with
  | ended | token => cases hn
  | stuck =>
    cases hn
    exact h
  | fault =>
    cases hn
    exact h.1

theorem Lexer.stream_apart (l : Lexer) : l.stream.Apart l.position.offset := by
  fun_induction stream l with
  | case1 l t ht hk =>
    have hreads : l.Reads t l.next.2 := next_reads (by rw [← ht])
    exact hreads.le_start
  | case2 l t ht hk ih =>
    obtain ⟨-, hstop, hnonempty⟩ := next_extent l
    have hreads : l.Reads t l.next.2 := next_reads (by rw [← ht])
    refine ⟨hreads.le_start, hnonempty t ht hk, ?_⟩
    rw [hstop t ht]
    exact ih
  | case3 l e he hs => exact (next_error he).2.1
  | case4 l e he hs ih =>
    obtain ⟨-, hle, hstart⟩ := next_error he
    exact ⟨hle, ih.mono (Nat.le_trans hle hstart)⟩

namespace Cursor
variable {c c' : Cursor} {k n : Nat}

/-! ## Cursors behind all that was noted -/

/-- The problems noted begin one behind the other, and in front of the given byte. -/
structure NotedBefore (n : Nat) (c : Cursor) : Prop where
  sorted : c.problems.Pairwise fun p q => p.offset < q.offset
  before : ∀ p ∈ c.problems, p.offset < n

theorem NotedBefore.mono {m : Nat} (h : c.NotedBefore n) (hnm : n ≤ m) : c.NotedBefore m :=
  ⟨h.sorted, fun p hp => Nat.lt_of_lt_of_le (h.before p hp) hnm⟩

theorem NotedBefore.note {p : Problem} (h : c.NotedBefore p.offset) (hp : p.offset < n) :
    (c.note p).NotedBefore n := by
  refine ⟨List.pairwise_append.2 ⟨h.sorted, List.pairwise_singleton _ _, fun q hq r hr => ?_⟩,
    fun q hq => ?_⟩
  · rw [List.mem_singleton.1 hr]
    exact h.before q hq
  · rcases List.mem_append.1 hq with hq | hq
    · exact Nat.lt_trans (h.before q hq) hp
    · rwa [List.mem_singleton.1 hq]

theorem NotedBefore.congr (h : c.NotedBefore n) (hc : c'.problems = c.problems) :
    c'.NotedBefore n := by
  obtain ⟨hsorted, hbefore⟩ := h
  rw [← hc] at hsorted hbefore
  exact ⟨hsorted, hbefore⟩

/-- No problem noted begins behind the current token. If `k` is 0, none begins with it either; if
`k` is 1, one may. -/
structure Apart (k : Nat) (c : Cursor) : Prop where
  ordered : c.offset ≤ c.current.span.stop.offset
  nonempty : c.atEnd = false → c.offset < c.current.span.stop.offset
  ahead : c.ahead.Apart c.current.span.stop.offset
  noted : c.NotedBefore (c.offset + k)

namespace Apart

theorem weaken (h : c.Apart 0) : c.Apart 1 :=
  ⟨h.ordered, h.nonempty, h.ahead, h.noted.mono (Nat.le_succ _)⟩

/-- Behind the current token there is no problem, and it may be the end only if there is none
with it. -/
theorem noted_before_stop (h : c.Apart k) (hk : k = 0 ∨ k = 1 ∧ c.atEnd = false) :
    c.NotedBefore c.current.span.stop.offset := by
  rcases hk with rfl | ⟨rfl, hend⟩
  · exact h.noted.mono h.ordered
  · exact h.noted.mono (h.nonempty hend)

/-- When a token is taken, no problem is left behind the next one or with it. -/
theorem take {t : Token} (h : c.Apart k) (hk : k = 0 ∨ k = 1 ∧ c.atEnd = false)
    (ht : c.take = (.ok t, c')) : c'.Apart 0 ∧ c.current.span.stop.offset ≤ c'.offset := by
  have hnoted := h.noted_before_stop hk
  obtain ⟨-, next, ahead, hn, rfl⟩ := take_ok ht
  obtain ⟨hle, hordered, hnonempty, hahead⟩ := h.ahead.next hn
  refine ⟨⟨hordered, fun hend => hnonempty ?_, hahead, ?_⟩, hle⟩
  · simpa [Cursor.atEnd, shift] using hend
  · exact (hnoted.mono hle).congr rfl

/-- A fault behind the current token is behind all that was noted. -/
theorem fault {e : LexError} {ahead : TokenStream} (h : c.Apart k)
    (hk : k = 0 ∨ k = 1 ∧ c.atEnd = false) (hn : c.ahead.next = (.error e, ahead)) :
    { c with ahead := ahead }.NotedBefore e.span.start.offset :=
  ((h.noted_before_stop hk).mono (h.ahead.next_error hn)).congr rfl

/-- A problem with the current token. -/
theorem note {p : Problem} (h : c.Apart 0) (hp : p.offset = c.offset) : (c.note p).Apart 1 := by
  refine ⟨h.ordered, h.nonempty, h.ahead, NotedBefore.note ?_ ?_⟩
  · rw [hp]
    exact h.noted
  · rw [hp]
    exact Nat.lt_succ_self _

/-- A warning is about the token that has been taken, which has some text. -/
theorem leads (h : c.Apart 0) (hc : c.Leads c') : c'.Apart 0 := by
  obtain ⟨ts, hc⟩ := hc
  induction hc with
  | refl => exact h
  | take _ ht ih => exact (ih.take (.inl rfl) ht).1
  | @warn c₁ c₂ ts t name word _ ht hk _ ih =>
    obtain ⟨hnext, hle⟩ := ih.take (.inl rfl) ht
    have hproblems := problems_take ht
    obtain ⟨rfl, -⟩ := take_ok ht
    have hend : c₁.atEnd = false := by simp [Cursor.atEnd, hk]
    have hlt : c₁.offset < c₂.offset := Nat.lt_of_lt_of_le (ih.nonempty hend) hle
    have hnoted : c₂.NotedBefore
        (Problem.legacySpelling name word c₁.current.span).offset := ih.noted.congr hproblems
    exact ⟨hnext.ordered, hnext.nonempty, hnext.ahead, hnoted.note hlt⟩

/-- An error is behind all that was noted. -/
theorem fails {e : ParseError} (h : c.Apart 0) (hc : c.Fails e c') :
    c'.NotedBefore e.span.start.offset := by
  cases hc with
  | unexpected expected => exact h.noted
  | fault hn => exact h.fault (.inl rfl) hn

end Apart

theorem apart_ofString {source : String} (h : Cursor.ofString source = .ok c) : c.Apart 0 := by
  have hstream := Lexer.stream_apart (Lexer.ofString source)
  unfold Cursor.ofString at h
  split at h
  · next t ahead hn =>
    cases h
    obtain ⟨-, hordered, hnonempty, hahead⟩ := hstream.next hn
    exact ⟨hordered, fun hend => hnonempty (by simpa [Cursor.atEnd] using hend), hahead,
      .nil, by simp⟩
  · cases h

end Cursor

/-! ## Parses -/

namespace Grammar
variable {recover : Bool} {c c' : Cursor}

/-- What has been noted when a part of a parse ends: nothing behind the current token, or nothing
behind the error that has ended it. -/
structure EndsApart (failure : Option ParseError) (c : Cursor) : Prop where
  going : failure = none → c.Apart 1
  failed : ∀ e, failure = some e → c.NotedBefore e.span.start.offset

theorem EndsApart.of_apart (h : c.Apart 1) : EndsApart none c :=
  ⟨fun _ => h, by simp⟩

theorem EndsApart.of_notedBefore {e : ParseError} (h : c.NotedBefore e.span.start.offset) :
    EndsApart (some e) c := by
  refine ⟨by simp, fun e' he => ?_⟩
  cases he
  exact h

theorem take_apart_error {k : Nat} {e : ParseError} (h : c.Apart k)
    (hk : k = 0 ∨ k = 1 ∧ c.atEnd = false) (ht : c.take = (.error e, c')) :
    c'.NotedBefore e.span.start.offset := by
  unfold Cursor.take at ht
  split at ht
  · cases ht
  · next hn =>
    cases ht
    exact h.fault hk hn

/-- Skipping takes the token that a problem may begin with, or stays in front of it. -/
theorem skipWhile_apart (test : Cursor → Bool) (hc : c.Apart 1) :
    (∀ a, ((skipWhile test).run c).1 = .ok a → ((skipWhile test).run c).2.Apart 1) ∧
      ∀ e, ((skipWhile test).run c).1 = .error e →
        ((skipWhile test).run c).2.NotedBefore e.span.start.offset := by
  simp only [skipWhile, repeatTaking]
  generalize () = a
  fun_induction rounds (fun _ c => if test c then some fun _ => (pure () : Parser Unit) else none)
    a c with
  | case1 | case2 => exact ⟨fun _ _ => hc, by simp⟩
  | case3 a c hend goOn hn e c₁ ht =>
    refine ⟨by simp, fun e' he => ?_⟩
    cases he
    exact take_apart_error hc (.inr ⟨rfl, by simpa using hend⟩) ht
  | case4 a c hend goOn hn t c₁ ht e c₂ hb =>
    split at hn <;> cases hn
    cases hb
  | case5 a c hend goOn hn t c₁ ht b c₂ hb ih =>
    split at hn <;> cases hn
    cases hb
    exact ih (hc.take (.inr ⟨rfl, by simpa using hend⟩) ht).1.weaken

theorem afterError_apart {read : List Statement} {g : GrammarError} {o : Outcome (List Statement)}
    (hc : c.Apart 0) (hfails : c.Fails (.grammar g) c)
    (h : (afterError recover read (.grammar g)).run c = (.ok o, c')) : EndsApart o.failure c' := by
  cases recover with
  | false =>
    cases h
    exact .of_notedBefore (hc.fails hfails)
  | true =>
    obtain ⟨-, hspan⟩ := hfails.grammar
    have hnoted : (c.note (.failure (.grammar g))).Apart 1 :=
      hc.note (congrArg (·.start.offset) hspan)
    have hskip := skipWhile_apart (fun c => !(c.atSeparator && c.depth == 0)) hnoted
    change (∀ a, (synchronize.run _).1 = .ok a → _) ∧ _ at hskip
    simp only [afterError, run_bind, run_note, run_attempt] at h
    split at h
    · next hsync =>
      cases h
      exact .of_apart (hskip.1 () hsync)
    · next e hsync =>
      cases h
      exact .of_notedBefore (hskip.2 e hsync)

theorem optionalStatement_apart {o : Outcome (List Statement)} (hc : c.Apart 0)
    (h : (optionalStatement recover).run c = (.ok o, c')) : EndsApart o.failure c' := by
  rcases optionalStatement_cases c with ⟨items, c₁, hleads, hrun⟩ |
    ⟨items, e, c₁, c₂, hleads, hfails, hrun⟩ <;> rw [hrun] at h
  · cases h
    exact .of_apart (hc.leads hleads).weaken
  · have hc₁ := hc.leads hleads
    cases e with
    | lexical e =>
      rw [run_afterError_lexical] at h
      cases h
      exact .of_notedBefore (hc₁.fails hfails)
    | grammar g =>
      obtain ⟨rfl, -⟩ := hfails.grammar
      exact afterError_apart hc₁ hfails h

/-- The problems of statements stand apart. -/
theorem topLevel_apart (recover : Bool) (hc : c.Apart 0) :
    EndsApart (topLevel recover c).1.failure (topLevel recover c).2 := by
  unfold topLevel
  fun_induction collect (·.atSeparator) (optionalStatement recover) c with
  | case1 c e c₁ hp =>
    obtain ⟨o, c', ho⟩ := optionalStatement_ok recover c
    simp [hp] at ho
  | case2 c items e c₁ hp => exact optionalStatement_apart hc hp
  | case3 c items c₁ hp => exact optionalStatement_apart hc hp
  | case4 c items c₁ hp hend _ e c₂ ht =>
    have hc₁ := (optionalStatement_apart hc hp).going rfl
    exact .of_notedBefore (take_apart_error hc₁ (.inr ⟨rfl, by simpa using hend⟩) ht)
  | case5 c items c₁ hp hend _ t c₂ ht further c₃ hr ih =>
    -- The token between two statements is taken before anything is noted about the second one.
    have hc₁ := (optionalStatement_apart hc hp).going rfl
    have hrest := ih (hc₁.take (.inr ⟨rfl, by simpa using hend⟩) ht).1
    rwa [hr] at hrest
  | case6 c items c₁ hp => exact optionalStatement_apart hc hp

theorem program_apart (recover : Bool) (hc : c.Apart 0) :
    EndsApart (program recover c).1.failure (program recover c).2 := by
  have hshebang := shebang_lawful c
  unfold program
  split
  · next e c₁ hs =>
    rw [hs] at hshebang
    obtain ⟨c₀, hleads, hfails⟩ := hshebang
    exact .of_notedBefore ((hc.leads hleads).fails hfails)
  · next text c₁ hs =>
    rw [hs] at hshebang
    exact topLevel_apart recover (hc.leads hshebang)

/-- No two problems of a text begin at the same place. -/
theorem read_apart (source : String) (recover : Bool) :
    (read source recover).problems.Pairwise fun p q => p.offset < q.offset := by
  unfold read
  split
  · exact List.pairwise_singleton _ _
  · next c hc =>
    obtain ⟨hgoing, hfailed⟩ := program_apart recover (Cursor.apart_ofString hc)
    cases hfailure : (program recover c).1.failure with
    | none =>
      simpa [hfailure] using (hgoing hfailure).noted.sorted
    | some e =>
      obtain ⟨hsorted, hbefore⟩ := hfailed e hfailure
      simp only [hfailure, Option.toList_some, List.map_cons, List.map_nil]
      refine List.pairwise_append.2 ⟨hsorted, List.pairwise_singleton _ _, fun p hp q hq => ?_⟩
      rw [List.mem_singleton.1 hq]
      exact hbefore p hp

end Grammar

/-! ## What problems are about -/

/-- Whether a problem is about one of the tokens: a warning about the name that it is about, and an
error of the grammar about the token that it has found. -/
def Problem.About (ts : List Token) : Problem → Prop
  | failure (.lexical _) => True
  | failure (.grammar g) => ∃ t ∈ ts, g.found = t.kind ∧ g.span = t.span
  | legacySpelling name _ span => ∃ t ∈ ts, t.kind = .identifier name ∧ span = t.span

namespace Cursor
variable {e : Option LexError} {ts : List Token} {c c' : Cursor}

/-- What has been noted is about the tokens in front of the first fault. -/
structure Pointing (e : Option LexError) (ts : List Token) (c : Cursor) : Prop where
  facing : c.Facing e ts
  about : ∀ p ∈ c.problems, p.About ts

theorem Pointing.note {p : Problem} (h : c.Pointing e ts) (hfault : p.isFault = false)
    (hp : p.About ts) : (c.note p).Pointing e ts := by
  refine ⟨h.facing.note hfault, fun q hq => ?_⟩
  rcases List.mem_append.1 hq with hq | hq
  · exact h.about q hq
  · rwa [List.mem_singleton.1 hq]

theorem Pointing.take {t : Token} (h : c.Pointing e ts) (ht : c.take = (.ok t, c')) :
    c'.Pointing e ts :=
  ⟨h.facing.take ht, fun p hp => h.about p (problems_take ht ▸ hp)⟩

theorem Pointing.leads (h : c.Pointing e ts) (hc : c.Leads c') : c'.Pointing e ts := by
  obtain ⟨us, hc⟩ := hc
  induction hc with
  | refl => exact h
  | take _ ht ih => exact ih.take ht
  | @warn c₁ c₂ us t name word _ ht hk _ ih =>
    have hnext := ih.take ht
    obtain ⟨rfl, -⟩ := take_ok ht
    exact hnext.note rfl ⟨c₁.current, ih.facing.current, hk, rfl⟩

theorem Pointing.about_of_fails {x : ParseError} (h : c.Pointing e ts) (hc : c.Fails x c') :
    (Problem.failure x).About ts ∧ ∀ p ∈ c'.problems, p.About ts := by
  refine ⟨?_, ?_⟩
  · rcases h.facing.fails hc with ⟨f, rfl, -⟩ | ⟨g, rfl, ht⟩
    · trivial
    · exact ht
  · cases hc <;> exact h.about

end Cursor

namespace Grammar

/-- The problems of a text are about tokens in front of its first fault, or are that fault. -/
theorem read_about (source : String) (recover : Bool) :
    ∀ p ∈ (read source recover).problems, p.About (leadingTokens source) := by
  unfold read
  split
  · next e he =>
    intro p hp
    rw [List.mem_singleton.1 hp]
    unfold Cursor.ofString at he
    split at he <;> cases he
    trivial
  · next c hc =>
    have hempty : c.Pointing (Lexer.ofString source).stream.fault? (leadingTokens source) :=
      ⟨Cursor.facing_ofString hc, by simp [(Cursor.ordered_ofString hc).2]⟩
    have hstops := program_stops recover (fun _ _ h hl => h.leads hl)
      (fun _ _ h hfails => h.note rfl (h.about_of_fails hfails).1) hempty
    intro p hp
    rcases List.mem_append.1 hp with hp | hp
    · cases hfailure : (program recover c).1.failure with
      | none =>
        rw [hfailure] at hstops
        obtain ⟨hpointing, -⟩ := hstops
        exact hpointing.about p hp
      | some x =>
        rw [hfailure] at hstops
        obtain ⟨c₁, hc₁, hfails, -⟩ := hstops
        exact (hc₁.about_of_fails hfails).2 p hp
    · obtain ⟨x, hx, rfl⟩ := List.mem_map.1 hp
      rw [Option.mem_toList.1 hx] at hstops
      obtain ⟨c₁, hc₁, hfails, -⟩ := hstops
      exact (hc₁.about_of_fails hfails).1

/-- Only the last problem of a text can be a fault. -/
theorem read_dropLast (source : String) (recover : Bool) :
    ∀ p ∈ (read source recover).problems.dropLast, p.isFault = false := by
  obtain ⟨ps, failure, hproblems, hps, -⟩ := read_problems source recover
  intro p hp
  rw [hproblems] at hp
  cases failure with
  | none =>
    rw [Option.toList_none, List.map_nil, List.append_nil] at hp
    exact (hps p (List.mem_of_mem_dropLast hp)).1
  | some x =>
    rw [Option.toList_some, List.map_singleton, List.dropLast_concat] at hp
    exact (hps p hp).1

end Grammar

/-! ## Reads of a text -/

/-- Whether the token is read at some time when the text is read. -/
def Token.ReadFrom (source : String) (t : Token) : Prop :=
  ∃ count, .ok t ∈ (Lexer.ofString source).steps count

theorem Lexer.mem_steps_of_leading {l : Lexer} {t : Token} (h : t ∈ l.stream.leading) :
    ∃ count, .ok t ∈ l.steps count := by
  fun_induction stream l with
  | case1 l u hu hk =>
    have hreads : l.Reads u l.next.2 := next_reads (by rw [← hu])
    have ht : t = u := by
      rw [List.mem_singleton.1 h]
      exact (hreads.ending hk).symm
    exact ⟨1, by simp [steps, hu, ht]⟩
  | case2 l u hu hk ih =>
    rcases List.mem_cons.1 h with rfl | h
    · exact ⟨1, by simp [steps, hu]⟩
    · obtain ⟨count, hcount⟩ := ih h
      exact ⟨count + 1, List.mem_cons_of_mem _ hcount⟩
  | case3 | case4 => cases h

/-- The text of an error begins with the description of the token that is found. -/
theorem GrammarError.foundText_eq (g : GrammarError) :
    ∃ reason, g.foundText = g.found.description ++ reason := by
  unfold foundText
  split
  · exact ⟨_, rfl⟩
  · exact ⟨"", String.append_empty.symm⟩

/-- Where the problems of a text are, and what stands there. -/
structure Parsed.Pointed (source : String) (p : Parsed) : Prop where
  /-- No two diagnostics begin at the same place. -/
  apart : p.diagnostics.Pairwise fun d d' => d.span.start.offset < d'.span.start.offset
  /-- A warning stands where a name does. -/
  warnings : ∀ q ∈ p.problems, q.isError = false → ∃ (t : Token) (name : String), t.ReadFrom source ∧
    t.kind = .identifier name ∧ q.diagnostic.span = t.span
  /-- An error of the grammar stands where a token does, and tells what that is. -/
  errors : ∀ g, .failure (.grammar g) ∈ p.problems →
    ∃ (t : Token) (reason : String), t.ReadFrom source ∧
    g.span = t.span ∧ g.foundText = t.kind.description ++ reason
  /-- A fault is the last problem. -/
  faults : ∀ q ∈ p.problems.dropLast, q.isFault = false

namespace Grammar

/-- The problems of a text, in the order they are found in, stand apart and are about tokens of
the text. Sorting them changes nothing. -/
theorem parse_pointed (source : String) (recover : Bool) :
    (read source recover).Pointed source ∧ parse source recover = read source recover := by
  have habout := read_about source recover
  refine ⟨⟨?_, fun q hq herror => ?_, fun g hg => ?_, read_dropLast source recover⟩,
    parse_eq_read source recover⟩
  · refine List.pairwise_map.2 ((read_apart source recover).imp fun h => ?_)
    simpa [Problem.offset] using h
  · have hq := habout q hq
    cases q with
    | failure x => cases herror
    | legacySpelling name word span =>
      obtain ⟨t, ht, hkind, hspan⟩ := hq
      exact ⟨t, name, Lexer.mem_steps_of_leading ht, hkind, hspan⟩
  · obtain ⟨t, ht, hkind, hspan⟩ := habout _ hg
    obtain ⟨reason, hreason⟩ := g.foundText_eq
    exact ⟨t, reason, Lexer.mem_steps_of_leading ht, hspan, hkind ▸ hreason⟩

end Grammar
end WqSource
