import WqSource.Proofs.Origin.Operator
import WqSource.Proofs.Sound.Program
import WqSource.Proofs.Spans.Program
import WqSource.Proofs.Token.Place

/-!
# Every place in a program is true

A parse takes tokens from its text and passes over none, except that a fault ends it. So at any
time the cursor is in the text: its current token was read there, and so is what is ahead. All
places that a parse gives to anything are places of tokens, or of the fault that ends it.

## Main definitions

* `Cursor.InText`: a cursor somewhere in a text.
* `Parsed.TrueIn`: all places in what a parse finds.

## Main statements

* `parse_from`: where the nodes of a program come from.
* `parse_trueIn`: the places in programs and in what is said about them.
-/

namespace WqSource
open Grammar WqSource.Parser

namespace Cursor
variable {source : String} {k : Nat} {c c' : Cursor} {x : Node}

theorem Leads.reaches (h : c.Leads c') : c.Reaches c' := by
  obtain ⟨ts, h⟩ := h
  induction h with
  | refl => exact .refl _
  | take _ ht ih => simpa [ht] using Reaches.take ih
  | warn _ ht _ _ ih => simpa [ht] using Reaches.note _ (Reaches.take ih)

/-- The current token was read from the text, and what is ahead is read from there on. -/
structure InText (source : String) (c : Cursor) : Prop where
  reading : ∃ l l' : Lexer, l.InText source ∧ l.next = (.ok c.current, l') ∧ c.ahead = l'.stream
  lastEnd : c.lastEnd.TrueIn source

theorem inText_ofString (h : Cursor.ofString source = .ok c) : c.InText source := by
  unfold Cursor.ofString at h
  split at h
  · next t ahead hn =>
    cases h
    obtain ⟨l', hnext, rfl⟩ := Lexer.stream_next hn
    exact ⟨⟨_, l', Lexer.inText_ofString source, hnext, rfl⟩, Position.trueIn_start source⟩
  · cases h

namespace InText

theorem current (h : c.InText source) : c.current.span.TrueIn source := by
  obtain ⟨l, l', hl, hnext, -⟩ := h.reading
  exact (hl.token hnext).1

theorem take {t : Token} (h : c.InText source) (ht : c.take = (.ok t, c')) :
    c'.InText source := by
  obtain ⟨-, next, ahead, hn, rfl⟩ := take_ok ht
  obtain ⟨l, l', hl, hnext, hahead⟩ := h.reading
  rw [hahead] at hn
  obtain ⟨l'', hnext', rfl⟩ := Lexer.stream_next hn
  exact ⟨⟨l', l'', (hl.token hnext).2, hnext', rfl⟩, h.current.stop⟩

theorem note (h : c.InText source) (p : Problem) : (c.note p).InText source :=
  ⟨h.reading, h.lastEnd⟩

theorem advances (h : c.InText source) (ha : c.Advances k c') : c'.InText source := by
  induction ha with
  | refl => exact h
  | take _ _ ht ih => exact (ih h).take ht
  | note p _ ih => exact (ih h).note p

theorem leads (h : c.InText source) (hc : c.Leads c') : c'.InText source := by
  obtain ⟨ts, hc⟩ := hc
  induction hc with
  | refl => exact h
  | take _ ht ih => exact ih.take ht
  | warn _ ht _ _ ih => exact (ih.take ht).note _

/-- What was read between two places in the text is between two places in the text. -/
theorem covers (h : c.InText source) (hx : c.Covers x c')
    (hle : x.span.start.offset ≤ x.span.stop.offset) : x.span.TrueIn source := by
  obtain ⟨k, -, hadvances⟩ := hx.advances
  refine ⟨?_, ?_, hle⟩
  · rw [hx.span]
    exact h.current.start
  · rw [hx.span]
    exact (h.advances hadvances).lastEnd

end InText

/-- The cursor is in the text, and so is all that has been noted. -/
structure NotedIn (source : String) (c : Cursor) : Prop where
  inText : c.InText source
  noted : ∀ p ∈ c.problems, p.span.TrueIn source

namespace NotedIn

theorem note {p : Problem} (h : c.NotedIn source) (hp : p.span.TrueIn source) :
    (c.note p).NotedIn source := by
  refine ⟨h.inText.note p, fun q hq => ?_⟩
  rcases List.mem_append.1 hq with hq | hq
  · exact h.noted q hq
  · rw [List.mem_singleton.1 hq]
    exact hp

theorem take {t : Token} (h : c.NotedIn source) (ht : c.take = (.ok t, c')) :
    c'.NotedIn source :=
  ⟨h.inText.take ht, by rw [problems_take ht]; exact h.noted⟩

theorem leads (h : c.NotedIn source) (hc : c.Leads c') : c'.NotedIn source := by
  obtain ⟨ts, hc⟩ := hc
  induction hc with
  | refl => exact h
  | take _ ht ih => exact ih.take ht
  | warn _ ht _ _ ih =>
    obtain ⟨rfl, -⟩ := take_ok ht
    exact (ih.take ht).note ih.inText.current

/-- An error is about a token of the text, or about a fault in it. -/
theorem fails {e : ParseError} (h : c.NotedIn source) (hc : c.Fails e c') :
    e.span.TrueIn source ∧ ∀ p ∈ c'.problems, p.span.TrueIn source := by
  cases hc with
  | unexpected expected => exact ⟨h.inText.current, h.noted⟩
  | fault hn =>
    obtain ⟨l, l', hl, hnext, hahead⟩ := h.inText.reading
    rw [hahead] at hn
    obtain ⟨l'', hfault⟩ := Lexer.stream_next_error hn
    exact ⟨(hl.token hnext).2.fault hfault, h.noted⟩

end NotedIn
end Cursor

namespace Grammar
variable {source : String} {recover : Bool} {c : Cursor} {I : Cursor → Prop} {P : Statement → Prop}

/-- What holds of every statement that is read where the invariant holds, holds of those of a
program. -/
theorem topLevel_forall (recover : Bool) (hleads : ∀ c c', I c → c.Leads c' → I c')
    (hnote : ∀ c g, I c → c.Fails (.grammar g) c → I (c.note (.failure (.grammar g))))
    (h : ∀ c, I c → (statement (level maxNesting)).Ensures c fun s _ => P s) (hc : I c) :
    ∀ s ∈ (topLevel recover c).1.result, P s := by
  have hpart (c : Cursor) (hc : I c) :
      (optionalStatement recover).Ensures c fun o _ => ∀ s ∈ o.result, P s :=
    optionalStatement_forall (h c hc)
  unfold topLevel
  fun_induction collect (·.atSeparator) (optionalStatement recover) c with
  | case1 => simp
  | case2 c items e c₁ hp => exact hpart c hc _ _ hp
  | case3 c items c₁ hp => exact hpart c hc _ _ hp
  | case4 c items c₁ hp => exact fun s hs => hpart c hc _ _ hp s hs
  | case5 c items c₁ hp _ _ t c₂ ht further c₃ hr ih =>
    have hI := (optionalStatement_stops hleads hnote hc hp).1 rfl
    intro s hs
    rcases List.mem_append.1 hs with hs | hs
    · exact hpart c hc _ _ hp s hs
    · exact ih (hleads _ _ hI (.take ht)) s (by simpa [hr] using hs)
  | case6 c items c₁ hp => exact hpart c hc _ _ hp

theorem program_each (recover : Bool) (hleads : ∀ c c', I c → c.Leads c' → I c')
    (hnote : ∀ c g, I c → c.Fails (.grammar g) c → I (c.note (.failure (.grammar g))))
    (h : ∀ c, I c → (statement (level maxNesting)).Ensures c fun s _ => P s) (hc : I c) :
    ∀ s ∈ (program recover c).1.result.statements, P s := by
  have hends := shebang_lawful c
  unfold program
  split
  · exact nofun
  · next c₁ hs =>
    rw [hs] at hends
    exact topLevel_forall recover hleads hnote h (hleads _ _ hc hends)

/-! ## Nodes -/

theorem statement_from {n : Nat} (hc : c.Placed n) :
    (statement (level maxNesting)).Ensures c fun s _ => (Node.statement s).From c :=
  (statement_finds (fun _ hc => expression_stands hc) hc).mono fun _ _ h =>
    h.nodes _ (List.mem_singleton_self _)

/-- Every node of every statement was read from tokens that come one after another in the text. -/
theorem parse_from (source : String) (recover : Bool) :
    ∀ s ∈ (parse source recover).program.statements,
      ∃ c : Cursor, c.InText source ∧ c.Legal ∧ (Node.statement s).From c := by
  rw [parse_eq_read]
  unfold read
  split
  · exact nofun
  · next c hc =>
    let I (c : Cursor) : Prop :=
      c.InText source ∧ c.Legal ∧ c.Placed source.utf8ByteSize
    have hleads (c c' : Cursor) (h : I c) (hl : c.Leads c') : I c' := by
      obtain ⟨htext, hlegal, hplaced⟩ := h
      exact ⟨htext.leads hl, Cursor.Each.reaches hlegal hl.reaches,
        (hplaced.reaches hl.reaches).placed⟩
    have hnote (c : Cursor) (g : GrammarError) (h : I c) (_ : c.Fails (.grammar g) c) :
        I (c.note (.failure (.grammar g))) := by
      obtain ⟨htext, hlegal, hplaced⟩ := h
      exact ⟨htext.note _, hlegal, hplaced.note _⟩
    refine program_each recover hleads hnote (fun c h => ?_)
      ⟨Cursor.inText_ofString hc, legal_ofString hc, Cursor.placed_ofString hc⟩
    obtain ⟨htext, hlegal, hplaced⟩ := h
    exact (statement_from hplaced).mono fun s _ hs => ⟨c, htext, hlegal, hs⟩

end Grammar

theorem Node.Within.trans {x y z : Node} (h : x.Within y) (h' : y.Within z) : x.Within z := by
  induction h' with
  | refl => exact h
  | part hp _ ih => exact .part hp ih

/-- All places in what a parse finds are true. -/
structure Parsed.TrueIn (source : String) (p : Parsed) : Prop where
  /-- Every node inside a statement. -/
  nodes : ∀ s ∈ p.program.statements, ∀ x : Node, x.Within (.statement s) → x.span.TrueIn source
  /-- Every entry of a dict inside a statement. -/
  entries : ∀ s ∈ p.program.statements, ∀ span es,
    (Node.expression (.dict span es)).Within (.statement s) → ∀ e ∈ es, e.span.TrueIn source
  program : p.program.span.TrueIn source
  diagnostics : ∀ d ∈ p.diagnostics, d.span.TrueIn source

namespace Grammar

/-- The spans of all nodes of a program are true. -/
theorem parse_nodes (source : String) (recover : Bool) :
    ∀ s ∈ (parse source recover).program.statements, ∀ x : Node, x.Within (.statement s) →
      x.span.TrueIn source := by
  intro s hs
  obtain ⟨c, htext, -, hfrom⟩ := parse_from source recover s hs
  have horderly : ∀ x : Node, x.Within (.statement s) → x.Orderly := by
    rw [parse_eq_read] at hs
    exact (read_orderly source recover).nodes s hs
  have hread (x : Node) (hx : x.Within (.statement s)) (hne : ∀ b, x ≠ .branch b) :
      x.span.TrueIn source := by
    rcases hfrom x hx with ⟨b, rfl⟩ | ⟨i, b, b', hadvances, hcovers⟩
    · exact absurd rfl (hne b)
    · exact (htext.advances hadvances).covers hcovers (Nat.le_of_lt (horderly x hx).nonempty)
  intro x hx
  by_cases hbranch : ∃ b, x = .branch b
  · -- A branch begins and ends with statements, which are nodes themselves.
    obtain ⟨b, rfl⟩ := hbranch
    obtain ⟨hstart, hstop⟩ := (horderly _ hx).branch b rfl
    have hstatement {t : Statement} (ht : t ∈ b.statements) : t.span.TrueIn source := by
      have hpart : Node.statement t ∈ (Node.branch b).parts := List.mem_map_of_mem ht
      exact hread (.statement t) (.trans (.part hpart (.refl _)) hx) (by simp)
    obtain ⟨first, hfirst, hfirstStart⟩ := Option.map_eq_some_iff.1 hstart
    obtain ⟨last, hlast, hlastStop⟩ := Option.map_eq_some_iff.1 hstop
    refine ⟨?_, ?_, Nat.le_of_lt (horderly _ hx).nonempty⟩
    · change b.span.start.TrueIn source
      rw [← hfirstStart]
      exact (hstatement (List.mem_of_mem_head? hfirst)).start
    · change b.span.stop.TrueIn source
      rw [← hlastStop]
      exact (hstatement (List.mem_of_getLast? hlast)).stop
  · exact hread x hx fun b hb => hbranch ⟨b, hb⟩

/-- Where a program ends, and what has been noted until then. -/
theorem program_noted (recover : Bool) (hc : c.NotedIn source) :
    (program recover c).1.result.span.TrueIn source ∧
      (∀ p ∈ (program recover c).2.problems, p.span.TrueIn source) ∧
        ∀ e, (program recover c).1.failure = some e → e.span.TrueIn source := by
  have hspan : (program recover c).1.result.span =
      ⟨.start, (program recover c).2.current.span.stop⟩ := by
    unfold program
    split <;> rfl
  have hstops := program_stops recover (fun _ _ h hl => h.leads hl)
    (fun _ _ h hfails => h.note (h.fails hfails).1) hc
  have htrue {p : Position} (hp : p.TrueIn source) : Span.TrueIn source ⟨.start, p⟩ :=
    ⟨Position.trueIn_start source, hp, Nat.zero_le _⟩
  rw [hspan]
  generalize (program recover c).1.failure = failure at hstops ⊢
  generalize (program recover c).2 = c' at hstops ⊢
  cases failure with
  | none =>
    obtain ⟨hnoted, -⟩ := hstops
    exact ⟨htrue hnoted.inText.current.stop, hnoted.noted, by simp⟩
  | some e =>
    obtain ⟨c₁, hc₁, hfails, -⟩ := hstops
    obtain ⟨he, hnoted⟩ := hc₁.fails hfails
    have hcurrent : c'.current = c₁.current := by cases hfails <;> rfl
    refine ⟨htrue ?_, hnoted, ?_⟩
    · rw [hcurrent]
      exact hc₁.inText.current.stop
    · rintro e' ⟨⟩
      exact he

/-- The span of every program, and those of its problems. -/
theorem parse_problems (source : String) (recover : Bool) :
    (parse source recover).program.span.TrueIn source ∧
      ∀ p ∈ (parse source recover).problems, p.span.TrueIn source := by
  rw [parse_eq_read]
  unfold read
  split
  · next e he =>
    have hstart := Position.trueIn_start source
    refine ⟨⟨hstart, hstart, Nat.le_refl _⟩, fun p hp => ?_⟩
    rw [List.mem_singleton.1 hp]
    unfold Cursor.ofString at he
    split at he
    · cases he
    · next f _ hn =>
      cases he
      obtain ⟨l, hfault⟩ := Lexer.stream_next_error hn
      exact (Lexer.inText_ofString source).fault hfault
  · next c hc =>
    have hempty : c.NotedIn source :=
      ⟨Cursor.inText_ofString hc, by simp [(Cursor.ordered_ofString hc).2]⟩
    obtain ⟨hspan, hnoted, hfailure⟩ := program_noted recover hempty
    refine ⟨hspan, fun p hp => ?_⟩
    rcases List.mem_append.1 hp with hp | hp
    · exact hnoted p hp
    · obtain ⟨e, he, rfl⟩ := List.mem_map.1 hp
      exact hfailure e (Option.mem_toList.1 he)

/-- The places in every program, and in what is said about it. -/
theorem parse_trueIn (source : String) (recover : Bool) :
    (parse source recover).TrueIn source := by
  have hnodes := parse_nodes source recover
  obtain ⟨hspan, hproblems⟩ := parse_problems source recover
  refine ⟨hnodes, fun s hs span es hdict e he => ?_, hspan, fun d hd => ?_⟩
  · have hkey : Node.key e.keySpan ∈ (Node.expression (.dict span es)).parts :=
      List.mem_flatMap.2 ⟨e, he, by simp [Entry.nodes]⟩
    have hvalue : Node.expression e.value ∈ (Node.expression (.dict span es)).parts :=
      List.mem_flatMap.2 ⟨e, he, by simp [Entry.nodes]⟩
    have hkeySpan := hnodes s hs (.key e.keySpan) (.trans (.part hkey (.refl _)) hdict)
    have hvalueSpan := hnodes s hs (.expression e.value) (.trans (.part hvalue (.refl _)) hdict)
    exact hkeySpan.merge hvalueSpan
  · obtain ⟨p, hp, rfl⟩ := List.mem_map.1 hd
    rw [Problem.span_diagnostic]
    exact hproblems p hp

/-- The places of tokens and of what is no token, and those of a parse. -/
theorem places_trueIn (source : String) :
    (∀ ts, tokenize source = .ok ts → ∀ t ∈ ts, t.span.TrueIn source) ∧
      (∀ count e, .error e ∈ (Lexer.ofString source).steps count → e.span.TrueIn source) ∧
        ∀ recover, (parse source recover).TrueIn source :=
  ⟨(tokenize_trueIn source).1, fun count => (steps_trueIn source count).2, parse_trueIn source⟩

/-- Behind a string with a line feed in it, a name and a character that is no token. -/
theorem places_trueIn_multiline :
    (∃ ts, tokenize "\"é\n→\" x" = .ok ts ∧ ∀ t ∈ ts, t.span.TrueIn "\"é\n→\" x") ∧
      (∃ e, .error e ∈ (Lexer.ofString "\"é\n→\" @").steps 2 ∧ e.span.TrueIn "\"é\n→\" @") ∧
        (parse "\"é\n→\" @" true).TrueIn "\"é\n→\" @" := by
  have hok : (tokenize "\"é\n→\" x").isOk = true := by decide +kernel
  have hfault : Except.error ⟨.illegalCharacter '@', ⟨⟨9, 2, 4⟩, ⟨10, 2, 5⟩⟩⟩ ∈
      (Lexer.ofString "\"é\n→\" @").steps 2 := by
    decide +kernel
  refine ⟨?_, ⟨_, hfault, (places_trueIn _).2.1 2 _ hfault⟩, (places_trueIn "\"é\n→\" @").2.2 true⟩
  cases h : tokenize "\"é\n→\" x" with
  | error e =>
    rw [h] at hok
    cases hok
  | ok ts => exact ⟨ts, rfl, (places_trueIn "\"é\n→\" x").1 ts h⟩

end Grammar
end WqSource
