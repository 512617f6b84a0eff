import WqSource.Proofs.Grammar.Recovery

/-!
# Where a parse stops

A parse reads its tokens one by one and meets the first fault of a text, if there is one, at
some read or other: when it takes a token, when it looks ahead, or when it skips. Each of
these stops it. So the fault is found whatever else is wrong with the text, and nothing
behind it is.

`topLevel_stops` says how a parse can end, once for all that is to be known of its end: at
the end of the input, or at an error where a parser has come to; and if it recovers, the
error is a fault.

## Main definitions

* `TokenStream.fault?`, `TokenStream.leading`: the first fault, and the tokens in front.
* `Cursor.Facing`: what a cursor has of both still ahead.

## Main statements

* `topLevel_stops`: how a parse ends.
* `parse_finds_fault`: faults of a text and errors of its parses.
-/

namespace WqSource
open Grammar WqSource.Parser

/-! ## The first fault -/

namespace TokenStream

/-- The first fault. -/
def fault? : TokenStream → Option LexError
  | ended _ => none
  | token _ rest => rest.fault?
  | stuck e | fault e _ => some e

/-- The tokens in front of the first fault. -/
def leading : TokenStream → List Token
  | ended place => [.ending place]
  | token t rest => t :: rest.leading
  | stuck _ | fault .. => []

/-- The end of the input comes last. -/
def EndsLast : TokenStream → Prop
  | token t rest => t.kind ≠ .endOfInput ∧ rest.EndsLast
  | fault _ rest => rest.EndsLast
  | ended _ | stuck _ => True

/-- The tokens of a text are those in front of the first fault, if there is none. -/
theorem tokens_eq (s : TokenStream) :
    s.tokens = match s.fault? with
      | some e => .error e
      | none => .ok s.leading := by
  induction s with
  | ended | stuck | fault => rfl
  | token t rest ih =>
    rw [tokens, ih, fault?, leading]
    cases rest.fault? <;> rfl

theorem next_ok {s rest : TokenStream} {t : Token} (h : s.next = (.ok t, rest)) :
    rest.fault? = s.fault? ∧ t ∈ s.leading ∧ rest.leading ⊆ s.leading := by
  cases s with
  | ended place =>
    cases h
    exact ⟨rfl, by simp [leading], List.Subset.refl _⟩
  | token u rest =>
    cases h
    exact ⟨rfl, by simp [leading], by simp [leading]⟩
  | stuck | fault => cases h

theorem next_error {s rest : TokenStream} {e : LexError} (h : s.next = (.error e, rest)) :
    s.fault? = some e := by
  cases s <;> cases h <;> rfl

/-- Behind the end of the input there is nothing but the end. -/
theorem EndsLast.next {s rest : TokenStream} {t : Token} (hs : s.EndsLast)
    (h : s.next = (.ok t, rest)) :
    rest.EndsLast ∧ (t.kind = .endOfInput → ∃ place, rest = .ended place) := by
  cases s with
  | ended place =>
    cases h
    exact ⟨trivial, fun _ => ⟨place, rfl⟩⟩
  | token u rest =>
    cases h
    exact ⟨hs.2, fun hk => absurd hk hs.1⟩
  | stuck | fault => cases h

end TokenStream

theorem Lexer.stream_endsLast (l : Lexer) : l.stream.EndsLast := by
  fun_induction stream l with
  | case1 | case3 => trivial
  | case2 l t ht hk ih => exact ⟨hk, ih⟩
  | case4 l e he hs ih => exact ih

/-- Whether a problem is a fault. -/
def Problem.isFault : Problem → Bool
  | failure (.lexical _) => true
  | _ => false

namespace Cursor

/-- What is ahead has the given first fault and no tokens in front of it but the given ones,
and the end of the input comes last. No fault has been noted. -/
structure Facing (e : Option LexError) (ts : List Token) (c : Cursor) : Prop where
  fault : c.ahead.fault? = e
  current : c.current ∈ ts
  leading : c.ahead.leading ⊆ ts
  endsLast : c.ahead.EndsLast
  atEnd : c.atEnd = true → ∃ place, c.ahead = .ended place
  noted : ∀ p ∈ c.problems, p.isFault = false

namespace Facing
variable {e : Option LexError} {ts : List Token} {c c' : Cursor}

theorem take {t : Token} (h : c.Facing e ts) (ht : c.take = (.ok t, c')) : c'.Facing e ts := by
  obtain ⟨rfl, next, ahead, hn, rfl⟩ := take_ok ht
  obtain ⟨hfault, hnext, hleading⟩ := TokenStream.next_ok hn
  obtain ⟨hends, hend⟩ := h.endsLast.next hn
  exact ⟨hfault.trans h.fault, h.leading hnext, fun u hu => h.leading (hleading hu), hends,
    fun hk => hend (by simpa [Cursor.atEnd, shift] using hk), h.noted⟩

theorem note {p : Problem} (h : c.Facing e ts) (hp : p.isFault = false) :
    (c.note p).Facing e ts := by
  refine ⟨h.fault, h.current, h.leading, h.endsLast, h.atEnd, fun q hq => ?_⟩
  rcases List.mem_append.1 hq with hq | hq
  · exact h.noted q hq
  · obtain rfl := List.mem_singleton.1 hq
    exact hp

theorem leads (h : c.Facing e ts) (hc : c.Leads c') : c'.Facing e ts := by
  obtain ⟨us, hc⟩ := hc
  induction hc with
  | refl => exact h
  | take _ ht ih => exact ih.take ht
  | warn _ ht _ _ ih => exact (ih.take ht).note rfl

/-- In front of the end of the input there is no fault. -/
theorem fault_atEnd (h : c.Facing e ts) (hend : c.atEnd = true) : e = none := by
  obtain ⟨place, hahead⟩ := h.atEnd hend
  rw [← h.fault, hahead]
  rfl

/-- An error is the first fault, or is about one of the tokens in front of it. -/
theorem fails {x : ParseError} (h : c.Facing e ts) (hc : c.Fails x c') :
    (∃ f, x = .lexical f ∧ e = some f) ∨
      ∃ g, x = .grammar g ∧ ∃ t ∈ ts, g.found = t.kind ∧ g.span = t.span := by
  cases hc with
  | unexpected expected => exact .inr ⟨_, rfl, c.current, h.current, rfl, rfl⟩
  | fault hn => exact .inl ⟨_, rfl, by rw [← h.fault, TokenStream.next_error hn]⟩

theorem noted_of_fails {x : ParseError} (h : c.Facing e ts) (hc : c.Fails x c') :
    ∀ p ∈ c'.problems, p.isFault = false := by
  cases hc <;> exact h.noted

end Facing

/-- A cursor in front of a text faces its first fault and the tokens in front of that. -/
theorem facing_ofString {source : String} {c : Cursor} (h : Cursor.ofString source = .ok c) :
    c.Facing (Lexer.ofString source).stream.fault? (Lexer.ofString source).stream.leading := by
  have hends := Lexer.stream_endsLast (Lexer.ofString source)
  unfold Cursor.ofString at h
  split at h
  · next t ahead hn =>
    cases h
    obtain ⟨hfault, ht, hleading⟩ := TokenStream.next_ok hn
    obtain ⟨hends, hend⟩ := hends.next hn
    exact ⟨hfault, ht, hleading, hends, fun hk => hend (by simpa [atEnd] using hk),
      by simp⟩
  · cases h

end Cursor

/-! ## How a parse ends -/

/-- A token is not taken if a fault is read in place of the next one. -/
theorem Cursor.take_error {c c' : Cursor} {e : ParseError} (h : c.take = (.error e, c')) :
    ∃ f, e = .lexical f := by
  unfold Cursor.take at h
  split at h <;> cases h
  exact ⟨_, rfl⟩

/-- Taking a token for its own sake. -/
theorem Parser.run_discard_take (c : Cursor) :
    (discard take).run c =
      match c.take with
      | (.ok _, c') => (.ok ⟨⟩, c')
      | (.error e, c') => (.error e, c') := by
  change (take >>= fun _ => (pure PUnit.unit : Parser PUnit)).run c = _
  rw [run_bind, run_take]
  rcases c.take with ⟨_ | _, _⟩ <;> rfl

/-- Skipping fails at faults only. -/
theorem Parser.skipWhile_error {test : Cursor → Bool} {c c' : Cursor} {e : ParseError}
    (h : (skipWhile test).run c = (.error e, c')) : ∃ f, e = .lexical f := by
  simp only [skipWhile, repeatTaking] at h
  generalize () = a at h
  fun_induction rounds (fun _ c => if test c then some fun _ => (pure () : Parser Unit) else none)
    a c with
  | case1 | case2 => cases h
  | case3 a c _ goOn hn e c₁ ht =>
    cases h
    exact Cursor.take_error ht
  | case4 a c _ goOn hn t c₁ ht e c₂ hb =>
    split at hn <;> cases hn
    cases hb
  | case5 a c _ goOn hn t c₁ ht b c₂ hb ih => exact ih h

namespace Grammar
variable {c c' : Cursor} {I : Cursor → Prop}

/-- A parse ends at the end of the input, or fails; if it recovers, that is at a fault. The
invariant holds of the cursor it has come to. -/
def Stops (recover : Bool) (I : Cursor → Prop) : Option ParseError → Cursor → Prop
  | none, c' => I c' ∧ c'.atEnd = true
  | some e, c' => ∃ c, I c ∧ c.Fails e c' ∧ (recover = true → ∃ f, e = .lexical f)

/-- Skipping ends at a separator, or at the end of the input. -/
theorem synchronize_ends : synchronize.Ensures c fun _ c' => atStatementEnd c' = true := by
  refine (Ensures.skipWhile (I := fun _ => True) trivial fun _ _ _ _ _ => trivial).mono ?_
  rintro - c' ⟨-, hend | htest⟩
  · simp [atStatementEnd, hend]
  · simp only [Bool.not_eq_false', Bool.and_eq_true] at htest
    simp [atStatementEnd, htest.1]

theorem afterError_atStatementEnd {recover : Bool} {read : List Statement} {e : ParseError} :
    (afterError recover read e).Ensures c fun o c' =>
      o.failure = none → atStatementEnd c' = true := by
  unfold afterError
  split
  · refine Ensures.bind (Ensures.note (Ensures.bind (Ensures.attempt ?_)))
    split
    · next hsync => exact Ensures.pure fun _ => synchronize_ends _ _ (Prod.ext hsync rfl)
    · exact Ensures.pure (by simp)
  · exact Ensures.pure (by simp)

/-- A part of a program that does not fail ends where a statement may end. -/
theorem optionalStatement_atStatementEnd {recover : Bool} :
    (optionalStatement recover).Ensures c fun o c' =>
      o.failure = none → atStatementEnd c' = true := by
  refine Ensures.look_bind ?_
  split
  · next hend => exact Ensures.pure fun _ => hend
  · refine Ensures.bind (Ensures.attempt ?_)
    split
    · exact afterError_atStatementEnd
    · refine Ensures.look_bind ?_
      split
      · next hend => exact Ensures.pure fun _ => hend
      · exact Ensures.look_bind afterError_atStatementEnd

/-- The invariant passes over a part of a program, or the parse stops in it. -/
theorem optionalStatement_stops {recover : Bool} {o : Outcome (List Statement)}
    (hleads : ∀ c c', I c → c.Leads c' → I c')
    (hnote : ∀ c g, I c → c.Fails (.grammar g) c → I (c.note (.failure (.grammar g))))
    (hc : I c) (h : (optionalStatement recover).run c = (.ok o, c')) :
    (o.failure = none → I c') ∧ ∀ e, o.failure = some e → Stops recover I (some e) c' := by
  rcases optionalStatement_cases c with ⟨items, c₁, hc₁, hrun⟩ |
    ⟨items, e, c₁, c₂, hc₁, hfails, hrun⟩ <;> rw [hrun] at h
  · cases h
    exact ⟨fun _ => hleads _ _ hc hc₁, by simp⟩
  · have hI := hleads _ _ hc hc₁
    cases e with
    | lexical f =>
      rw [run_afterError_lexical] at h
      cases h
      refine ⟨by simp, fun e he => ?_⟩
      cases he
      exact ⟨c₁, hI, hfails, fun _ => ⟨f, rfl⟩⟩
    | grammar g =>
      cases recover with
      | false =>
        cases h
        refine ⟨by simp, fun e he => ?_⟩
        cases he
        exact ⟨c₁, hI, hfails, by simp⟩
      | true =>
        obtain ⟨rfl, -⟩ := hfails.grammar
        have hI := hnote _ g hI hfails
        have hends := synchronize_lawful (c₂.note (.failure (.grammar g)))
        simp only [afterError, run_bind, run_note, run_attempt] at h
        rcases hsync : synchronize.run (c₂.note (.failure (.grammar g))) with ⟨e | _, c₃⟩ <;>
          rw [hsync] at h hends <;> cases h
        · obtain ⟨c₀, hc₀, hfault⟩ := hends
          refine ⟨by simp, fun e' he => ?_⟩
          cases he
          exact ⟨c₀, hleads _ _ hI hc₀, hfault, fun _ => skipWhile_error hsync⟩
        · exact ⟨fun _ => hleads _ _ hI hends, by simp⟩

/-- How the statements of a program end, whatever errors there are. -/
theorem topLevel_stops (recover : Bool) (hleads : ∀ c c', I c → c.Leads c' → I c')
    (hnote : ∀ c g, I c → c.Fails (.grammar g) c → I (c.note (.failure (.grammar g))))
    (hc : I c) : Stops recover I (topLevel recover c).1.failure (topLevel recover c).2 := by
  unfold topLevel
  fun_induction collect (·.atSeparator) (optionalStatement recover) c with
  | case1 c e c₁ hp =>
    obtain ⟨o, c', ho⟩ := optionalStatement_ok recover c
    simp [hp] at ho
  | case2 c items e c₁ hp => exact (optionalStatement_stops hleads hnote hc hp).2 e rfl
  | case3 c items c₁ hp hend => exact ⟨(optionalStatement_stops hleads hnote hc hp).1 rfl, hend⟩
  | case4 c items c₁ hp _ _ e c₂ ht =>
    have hI := (optionalStatement_stops hleads hnote hc hp).1 rfl
    have hends := Lawful.take c₁
    rw [run_take, ht] at hends
    obtain ⟨c₀, hc₀, hfails⟩ := hends
    exact ⟨c₀, hleads _ _ hI hc₀, hfails, fun _ => Cursor.take_error ht⟩
  | case5 c items c₁ hp _ _ t c₂ ht further c₃ hr ih =>
    have hI := (optionalStatement_stops hleads hnote hc hp).1 rfl
    have hrest := ih (hleads _ _ hI (.take ht))
    rwa [hr] at hrest
  | case6 c items c₁ hp hend hagain =>
    have hstatement := optionalStatement_atStatementEnd _ _ hp rfl
    simp_all [atStatementEnd]

theorem run_shebang_of_ne (hk : ∀ text, c.current.kind ≠ .shebang text) :
    shebang.run c = (.ok none, c) := by
  unfold shebang
  rw [run_bind, run_look]
  dsimp only
  split
  · next text htext => exact absurd htext (hk text)
  · rfl

theorem run_shebang {text : String} (hk : c.current.kind = .shebang text) :
    shebang.run c = match c.take with
      | (.ok _, c₁) => (.ok (some text), c₁)
      | (.error e, c₁) => (.error e, c₁) := by
  unfold shebang
  rw [run_bind, run_look]
  dsimp only
  rw [hk]
  dsimp only
  rw [run_bind, run_discard_take]
  rcases c.take with ⟨_ | _, _⟩ <;> rfl

theorem shebang_error {e : ParseError} (h : shebang.run c = (.error e, c')) :
    ∃ f, e = .lexical f := by
  unfold shebang at h
  rw [run_bind, run_look] at h
  dsimp only at h
  split at h
  · rw [run_bind, run_discard_take] at h
    rcases ht : c.take with ⟨x | t, c₁⟩ <;> rw [ht] at h <;> cases h
    exact Cursor.take_error ht
  · cases h

/-- How a program ends, whatever errors there are. -/
theorem program_stops (recover : Bool) (hleads : ∀ c c', I c → c.Leads c' → I c')
    (hnote : ∀ c g, I c → c.Fails (.grammar g) c → I (c.note (.failure (.grammar g))))
    (hc : I c) : Stops recover I (program recover c).1.failure (program recover c).2 := by
  have hends := shebang_lawful c
  unfold program
  split
  · next e c₁ hs =>
    rw [hs] at hends
    obtain ⟨c₀, hc₀, hfails⟩ := hends
    exact ⟨c₀, hleads _ _ hc hc₀, hfails, fun _ => shebang_error hs⟩
  · next text c₁ hs =>
    rw [hs] at hends
    exact topLevel_stops recover hleads hnote (hleads _ _ hc hends)

/-! ## The faults of a text -/

variable {e : Option LexError} {ts : List Token}

/-- How a parse ends in front of a text with a given first fault. -/
theorem program_stops_facing (recover : Bool) (hc : c.Facing e ts) :
    Stops recover (Cursor.Facing e ts) (program recover c).1.failure (program recover c).2 :=
  program_stops recover (fun _ _ h hl => h.leads hl) (fun _ _ h _ => h.note rfl) hc

/-- The problems noted when a parse ends are no faults. What has stopped it is the first
fault, or else is about a token in front of that; and it is the fault if there is one and the
parse recovers. -/
theorem program_facing (recover : Bool) (hc : c.Facing e ts) :
    (∀ p ∈ (program recover c).2.problems, p.isFault = false) ∧
      match (program recover c).1.failure with
      | none => e = none ∧ (program recover c).2.atEnd = true
      | some (.lexical f) => e = some f
      | some (.grammar g) => recover = false ∧ ∃ t ∈ ts, g.found = t.kind ∧ g.span = t.span := by
  have hstops := program_stops_facing recover hc
  revert hstops
  generalize (program recover c).1.failure = failure
  generalize (program recover c).2 = c'
  rintro hstops
  cases failure with
  | none => exact ⟨hstops.1.noted, hstops.1.fault_atEnd hstops.2, hstops.2⟩
  | some x =>
    obtain ⟨c₁, hc₁, hfails, hrecover⟩ := hstops
    refine ⟨hc₁.noted_of_fails hfails, ?_⟩
    rcases hc₁.fails hfails with ⟨f, rfl, he⟩ | ⟨g, rfl, ht⟩
    · exact he
    · refine ⟨?_, ht⟩
      cases recover with
      | false => rfl
      | true =>
        obtain ⟨f, hf⟩ := hrecover rfl
        cases hf

/-- The tokens of a text in front of its first fault. -/
def leadingTokens (source : String) : List Token := (Lexer.ofString source).stream.leading

/-- A text that cannot be cut into tokens has a first fault, and every other text has none. -/
theorem fault?_of_tokenize (source : String) :
    (Lexer.ofString source).stream.fault? =
      match tokenize source with
      | .ok _ => none
      | .error e => some e := by
  rw [tokenize, TokenStream.tokens_eq]
  cases (Lexer.ofString source).stream.fault? <;> rfl

theorem leadingTokens_of_tokenize {source : String} (h : tokenize source = .ok ts) :
    leadingTokens source = ts := by
  have hfault := fault?_of_tokenize source
  rw [h] at hfault
  rw [tokenize, TokenStream.tokens_eq, hfault] at h
  exact Except.ok.inj h

/-- What a parse finds of the first fault of a text: the problems without those that stop it,
and what that is. -/
theorem read_problems (source : String) (recover : Bool) :
    ∃ (ps : List Problem) (failure : Option ParseError),
      (read source recover).problems = ps ++ failure.toList.map .failure ∧
      (∀ p ∈ ps, p.isFault = false ∧ (recover = false → p.isError = false)) ∧
      match failure with
      | none => (∃ ts, tokenize source = .ok ts) ∧ ∃ c, Cursor.ofString source = .ok c ∧
          (program recover c).1.failure = none ∧ (program recover c).2.atEnd = true
      | some (.lexical f) => tokenize source = .error f
      | some (.grammar g) => recover = false ∧
          ∃ t ∈ leadingTokens source, g.found = t.kind ∧ g.span = t.span := by
  have hfault := fault?_of_tokenize source
  cases hc : Cursor.ofString source with
  | error x =>
    refine ⟨[], some x, by simp [read, hc], by simp, ?_⟩
    unfold Cursor.ofString at hc
    split at hc
    · cases hc
    · next f ahead hn =>
      cases hc
      rw [TokenStream.next_error hn] at hfault
      cases htokens : tokenize source <;> rw [htokens] at hfault <;> cases hfault
      rfl
  | ok c =>
    obtain ⟨hnoted, hfailure⟩ := program_facing recover (Cursor.facing_ofString hc)
    refine ⟨(program recover c).2.problems, (program recover c).1.failure, by
      simp only [read, hc], fun p hp => ⟨hnoted p hp, ?_⟩, ?_⟩
    · rintro rfl
      have hwarned : c.Warned := by
        intro q hq
        simp [(Cursor.ordered_ofString hc).2] at hq
      exact (program_agrees_or_stops hwarned).1 p hp
    · rw [hfault] at hfailure
      cases hx : (program recover c).1.failure with
      | none =>
        rw [hx] at hfailure
        refine ⟨?_, c, rfl, hx, hfailure.2⟩
        cases htokens : tokenize source with
        | ok ts => exact ⟨ts, rfl⟩
        | error e =>
          rw [htokens] at hfailure
          cases hfailure.1
      | some x =>
        rw [hx] at hfailure
        cases x with
        | grammar g => exact hfailure
        | lexical f =>
          cases htokens : tokenize source <;> rw [htokens] at hfailure <;> cases hfailure
          rfl

/-- A text without errors can be cut into tokens. -/
theorem tokenize_of_errors_eq_nil {source : String} {recover : Bool}
    (h : (parse source recover).errors = []) : ∃ ts, tokenize source = .ok ts := by
  obtain ⟨ps, failure, hproblems, -, hfailure⟩ := read_problems source recover
  cases failure with
  | none => exact hfailure.1
  | some x =>
    simp [Parsed.errors, Parsed.diagnostics, parse_eq_read, hproblems, Problem.isError,
      List.filter_append] at h

/-- Without recovery the only error is what stops the parse. -/
theorem errors_eq_failure (source : String) :
    ∃ failure : Option ParseError, (parse source false).errors =
      failure.toList.map fun e => (Problem.failure e).diagnostic := by
  obtain ⟨ps, failure, hproblems, hps, -⟩ := read_problems source false
  have hwarnings : (ps.map Problem.diagnostic).filter Diagnostic.isError = [] :=
    List.filter_eq_nil_iff.2 fun d hd => by
      obtain ⟨p, hp, rfl⟩ := List.mem_map.1 hd
      simp [(hps p hp).2 rfl]
  refine ⟨failure, ?_⟩
  rw [Parsed.errors, Parsed.diagnostics, parse_eq_read, hproblems, List.map_append,
    List.filter_append, hwarnings]
  cases failure <;> rfl

end Grammar

/-- What parses of a text that cannot be cut into tokens find. -/
structure ParsesFindFault (source : String) (e : LexError) : Prop where
  /-- With recovery, the fault is the last thing that a reader is told, and no other problem is
  a fault. -/
  recovering : ∃ ps, (parse source true).problems = ps ++ [.failure (.lexical e)] ∧
    ∀ p ∈ ps, p.isFault = false
  /-- Without recovery there is one error: the fault, or a token in front of it. -/
  stopping : ∃ x, (parse source false).problems.filter Problem.isError = [.failure x] ∧
    (x = .lexical e ∨ ∃ g, x = .grammar g ∧
      ∃ t ∈ leadingTokens source, g.found = t.kind ∧ g.span = t.span)

/-- What parses of a text find that can be cut into tokens. -/
structure ParsesFindNoFault (source : String) : Prop where
  noFault : ∀ recover, ∀ p ∈ (parse source recover).problems, p.isFault = false
  /-- With recovery, only the end of the input stops the parse. -/
  atEnd : ∃ c, Cursor.ofString source = .ok c ∧ (program true c).1.failure = none ∧
    (program true c).2.atEnd = true

namespace Grammar

/-- The fault that keeps a text from being cut into tokens is found by every parse that comes
so far, and no other fault is found. -/
theorem parse_finds_fault (source : String) :
    (∀ e, tokenize source = .error e → ParsesFindFault source e) ∧
      (∀ ts, tokenize source = .ok ts → ParsesFindNoFault source) ∧
        ∀ recover, (parse source recover).errors = [] → ∃ ts, tokenize source = .ok ts := by
  refine ⟨fun e he => ⟨?_, ?_⟩, fun ts hts => ⟨fun recover => ?_, ?_⟩, fun recover herrors => ?_⟩
  · obtain ⟨ps, failure, hproblems, hps, hfailure⟩ := read_problems source true
    rw [he] at hfailure
    match failure, hfailure with
    | some (.lexical f), hf =>
      cases hf
      exact ⟨ps, by rw [parse_eq_read, hproblems]; rfl, fun p hp => (hps p hp).1⟩
    | none, ⟨⟨_, hts⟩, _⟩ => cases hts
    | some (.grammar g), ⟨hfalse, _⟩ => cases hfalse
  · obtain ⟨ps, failure, hproblems, hps, hfailure⟩ := read_problems source false
    have hwarnings : ps.filter Problem.isError = [] :=
      List.filter_eq_nil_iff.2 fun p hp => by simp [(hps p hp).2 rfl]
    rw [he] at hfailure
    rw [parse_eq_read, hproblems, List.filter_append, hwarnings]
    match failure, hfailure with
    | some (.lexical f), hf =>
      cases hf
      exact ⟨_, rfl, .inl rfl⟩
    | none, ⟨⟨_, hts⟩, _⟩ => cases hts
    | some (.grammar g), ⟨_, ht⟩ => exact ⟨_, rfl, .inr ⟨g, rfl, ht⟩⟩
  · obtain ⟨ps, failure, hproblems, hps, hfailure⟩ := read_problems source recover
    intro p hp
    rw [parse_eq_read, hproblems] at hp
    rcases List.mem_append.1 hp with hp | hp
    · exact (hps p hp).1
    · obtain ⟨x, hx, rfl⟩ := List.mem_map.1 hp
      cases x with
      | grammar g => rfl
      | lexical f =>
        obtain rfl : failure = some (.lexical f) := by simpa using hx
        rw [hts] at hfailure
        cases hfailure
  · obtain ⟨ps, failure, -, -, hfailure⟩ := read_problems source true
    match failure, hfailure with
    | none, ⟨_, hend⟩ => exact hend
    | some (.lexical f), hf => rw [hts] at hf; cases hf
    | some (.grammar g), ⟨hfalse, _⟩ => cases hfalse
  · exact tokenize_of_errors_eq_nil herrors

/-- A statement in error with a character behind it that is no token, and a name. -/
theorem parse_finds_fault_illegal :
    (∃ e, tokenize ") @" = .error e ∧ ParsesFindFault ") @" e) ∧
      (∃ ts, tokenize "x" = .ok ts) ∧ ParsesFindNoFault "x" ∧
        (parse "x" false).errors = [] := by
  have hfault : tokenize ") @" = .error ⟨.illegalCharacter '@', ⟨⟨2, 1, 3⟩, ⟨3, 1, 4⟩⟩⟩ := by
    decide +kernel
  have herrors : (parse "x" false).errors = [] := by
    decide +kernel
  obtain ⟨ts, hts⟩ := (parse_finds_fault "x").2.2 false herrors
  exact ⟨⟨_, hfault, (parse_finds_fault ") @").1 _ hfault⟩, ⟨ts, hts⟩,
    (parse_finds_fault "x").2.1 ts hts, herrors⟩

end Grammar
end WqSource
