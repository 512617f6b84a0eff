import WqSource.Grammar.Parser
import Mathlib.Logic.Basic

/-!
# What a parser ensures

Two contracts are made with a parser that runs from a given cursor. `Parser.Ensures` says
what holds if there is a result; `Parser.Succeeds` says that there is one, too. Both follow
the way a parser is built: one rule for each way of putting parsers together, so that a
statement about a parser is taken apart as the parser was put together. The rules of the
loops ask for an invariant.

## Main definitions

* `Parser.Ensures`, `Parser.Succeeds`.
* `Parser.Refuses`: that there is no result.

## Main statements

* `Ensures.repeatTaking`, `Ensures.separated`: the rules of the loops.
-/

namespace WqSource
namespace Cursor

/-- What is taken is the current token, and the cursor is then behind it. -/
theorem take_ok {c c' : Cursor} {t : Token} (h : c.take = (.ok t, c')) :
    t = c.current ∧ ∃ next ahead, c.ahead.next = (.ok next, ahead) ∧ c' = c.shift next ahead := by
  unfold take at h
  split at h
  · next next ahead hn =>
    cases h
    exact ⟨rfl, next, ahead, hn, rfl⟩
  · cases h

/-- A cursor is kept by looking ahead, if that succeeds. -/
theorem peek_ok {c c' : Cursor} {k : Token.Kind} (h : c.peek = (.ok k, c')) :
    c' = c ∧ ∃ next ahead, c.ahead.next = (.ok next, ahead) ∧ k = next.kind := by
  unfold peek at h
  split at h
  · next next ahead hn =>
    cases h
    exact ⟨rfl, next, ahead, hn, rfl⟩
  · cases h

/-- Behind a token that is not the end there is less ahead. -/
theorem size_lt_of_take {c c' : Cursor} {t : Token} (hend : c.atEnd = false)
    (h : c.take = (.ok t, c')) : c'.size < c.size := by
  have hlt := size_take_lt hend (by rw [h])
  rwa [h] at hlt

variable {c : Cursor}

theorem atEnd_of_atSeparator (h : c.atSeparator = true) : c.atEnd = false := by
  have hne : c.current.kind ≠ .endOfInput := by
    intro hk
    simp [Cursor.atSeparator, hk, Token.Kind.isSeparator] at h
  simpa [Cursor.atEnd] using hne

theorem atSeparator_of_atNewline (h : c.atNewline = true) : c.atSeparator = true := by
  have hk : c.current.kind = .newline := by simpa [Cursor.atNewline] using h
  simp [Cursor.atSeparator, hk, Token.Kind.isSeparator]

theorem atEnd_of_atNewline (h : c.atNewline = true) : c.atEnd = false :=
  atEnd_of_atSeparator (atSeparator_of_atNewline h)

end Cursor

namespace Parser
variable {α β : Type} {c : Cursor}

/-- Behind a run there is no more ahead. -/
theorem size_le_of_run {p : Parser α} {c' : Cursor} {r : Except ParseError α}
    (h : p.run c = (r, c')) : c'.size ≤ c.size := by
  have hle := (p.reaches c).size_le
  rwa [h] at hle

/-- Where there is a way to go on, the current token is taken first. -/
theorem run_choose {next : Cursor → Option (Token → Parser α)} {expected : Expectation}
    {goOn : Token → Parser α} (h : next c = some goOn) :
    (choose next expected).run c = (take >>= goOn).run c := by
  rw [choose, run_bind, run_look]
  dsimp only
  rw [h]

theorem run_choose_none {next : Cursor → Option (Token → Parser α)} {expected : Expectation}
    (h : next c = none) : (choose next expected).run c = (.error (c.unexpected expected), c) := by
  rw [choose, run_bind, run_look]
  dsimp only
  rw [h]
  rfl

/-- One round of the loop, and the rounds behind it. -/
theorem rounds_eq (next : α → Cursor → Option (Token → Parser α)) (a : α) (c : Cursor) :
    rounds next a c =
      if c.atEnd then (.ok a, c) else
        match next a c with
        | none => (.ok a, c)
        | some k => (take >>= fun t => k t >>= repeatTaking next).run c := by
  rw [rounds]
  split
  · rfl
  · cases next a c with
    | none => rfl
    | some k =>
      simp only [run_bind, run_take]
      split
      · next ht => simp only [ht]
      · next ht =>
        simp only [ht]
        split <;> next hb => simp only [hb] <;> rfl

/-- A loop ends in front of a token it does not go on at. -/
theorem run_repeatTaking_stop {next : α → Cursor → Option (Token → Parser α)} {a : α}
    (hn : next a c = none) : (repeatTaking next a).run c = (.ok a, c) := by
  change rounds next a c = _
  rw [rounds_eq, hn, ite_self]

/-- If there is a result, the property holds of it and of the cursor then. -/
def Ensures (p : Parser α) (c : Cursor) (Q : α → Cursor → Prop) : Prop :=
  ∀ a c', p.run c = (.ok a, c') → Q a c'

/-- There is a result, and the property holds of it and of the cursor then. -/
def Succeeds (p : Parser α) (c : Cursor) (Q : α → Cursor → Prop) : Prop :=
  ∃ a c', p.run c = (.ok a, c') ∧ Q a c'

/-- There is no result. -/
abbrev Refuses (p : Parser α) (c : Cursor) : Prop := p.Ensures c fun _ _ => False

/-- What there is a result with holds of every result. -/
theorem Succeeds.ensures {p : Parser α} {Q : α → Cursor → Prop} (h : p.Succeeds c Q) :
    p.Ensures c Q := by
  intro a c' hrun
  obtain ⟨b, c'', hrun', hQ⟩ := h
  rw [hrun] at hrun'
  cases hrun'
  exact hQ

/-- Without a result of its first part a parser has none. -/
theorem Refuses.bind {p : Parser α} {f : α → Parser β} (h : p.Refuses c) : (p >>= f).Refuses c := by
  intro b c' hrun
  rw [run_bind] at hrun
  split at hrun
  · next a c₁ ha => exact h a c₁ ha
  · cases hrun

/-- A parser without a result fails. -/
theorem Refuses.run {p : Parser α} (h : p.Refuses c) : ∃ e c', p.run c = (.error e, c') := by
  cases hrun : p.run c with
  | mk r c' =>
    cases r with
    | error e => exact ⟨e, c', rfl⟩
    | ok a => exact (h a c' hrun).elim

/-! ## If there is a result -/

namespace Ensures
variable {Q : α → Cursor → Prop} {R : β → Cursor → Prop}

theorem mono {Q' : α → Cursor → Prop} {p : Parser α} (h : p.Ensures c Q)
    (hQ : ∀ a c', Q a c' → Q' a c') : p.Ensures c Q' :=
  fun a c' hr => hQ a c' (h a c' hr)

theorem and {Q' : α → Cursor → Prop} {p : Parser α} (h : p.Ensures c Q) (h' : p.Ensures c Q') :
    p.Ensures c fun a c' => Q a c' ∧ Q' a c' :=
  fun a c' hr => ⟨h a c' hr, h' a c' hr⟩

theorem pure {a : α} (h : Q a c) : (Pure.pure a : Parser α).Ensures c Q := by
  intro b c' hr
  cases hr
  exact h

theorem fail {expected : Expectation} : (fail expected : Parser α).Ensures c Q := by
  intro b c' hr
  cases hr

theorem bind {p : Parser α} {f : α → Parser β} (h : p.Ensures c fun a c₁ => (f a).Ensures c₁ R) :
    (p >>= f).Ensures c R := by
  intro b c' hr
  rw [run_bind] at hr
  split at hr
  · next a c₁ ha => exact h a c₁ ha b c' hr
  · cases hr

theorem map {p : Parser α} {f : α → β} (h : p.Ensures c fun a c₁ => R (f a) c₁) :
    (f <$> p).Ensures c R :=
  bind (p := p) (f := fun a => Pure.pure (f a)) (h.mono fun _ _ ha => pure ha)

theorem look {f : Cursor → α} (h : Q (f c) c) : (look f).Ensures c Q := by
  intro b c' hr
  cases hr
  exact h

theorem look_bind {f : Cursor → α} {g : α → Parser β} (h : (g (f c)).Ensures c R) :
    (Parser.look f >>= g).Ensures c R :=
  bind (look h)

theorem spanFrom_bind {start : Position} {g : Span → Parser β}
    (h : ∀ s, (g s).Ensures c R) : (spanFrom start >>= g).Ensures c R :=
  look_bind (h _)

theorem take {Q : Token → Cursor → Prop}
    (h : ∀ c₁, c.take = (.ok c.current, c₁) → Q c.current c₁) : take.Ensures c Q := by
  intro t c' hr
  obtain ⟨rfl, -⟩ := Cursor.take_ok hr
  exact h c' hr

theorem discard_take {Q : PUnit → Cursor → Prop}
    (h : ∀ c₁, c.take = (.ok c.current, c₁) → Q ⟨⟩ c₁) : (discard Parser.take).Ensures c Q :=
  map (take fun c₁ hc => h c₁ hc)

theorem peek {Q : Token.Kind → Cursor → Prop}
    (h : ∀ k, c.peek = (.ok k, c) → Q k c) : peek.Ensures c Q := by
  intro k c' hr
  obtain ⟨rfl, -⟩ := Cursor.peek_ok hr
  exact h k hr

theorem note {p : Problem} {Q : Unit → Cursor → Prop} (h : Q () (c.note p)) :
    (note p).Ensures c Q := by
  intro k c' hr
  cases hr
  exact h

theorem attempt {p : Parser α} {Q : Except ParseError α → Cursor → Prop}
    (h : Q (p.run c).1 (p.run c).2) : (attempt p).Ensures c Q := by
  intro r c' hr
  cases hr
  exact h

theorem choose {next : Cursor → Option (Token → Parser α)} {expected : Expectation}
    (h : ∀ goOn c₁, next c = some goOn → c.take = (.ok c.current, c₁) →
      (goOn c.current).Ensures c₁ Q) : (choose next expected).Ensures c Q := by
  refine look_bind ?_
  split
  · next goOn hn => exact bind (take fun c₁ hc => h goOn c₁ hn hc)
  · exact fail

theorem expect {p : Punct} {expected : Expectation} {Q : Unit → Cursor → Prop}
    (h : ∀ c₁, c.looksAt p = true → c.take = (.ok c.current, c₁) → Q () c₁) :
    (expect p expected).Ensures c Q := by
  refine choose fun goOn c₁ hn hc => ?_
  split at hn
  · next hp =>
    cases hn
    exact pure (h c₁ hp hc)
  · cases hn

/-- A loop ends in front of a token it does not go on at. -/
theorem repeatTaking_stop {next : α → Cursor → Option (Token → Parser α)} {a : α}
    (hn : next a c = none) (h : Q a c) : (repeatTaking next a).Ensures c Q := by
  intro b c' hrun
  rw [run_repeatTaking_stop hn] at hrun
  cases hrun
  exact h

/-- A round of a loop, and the rounds behind it. -/
theorem repeatTaking_step {next : α → Cursor → Option (Token → Parser α)} {a : α}
    {goOn : Token → Parser α} (hend : c.atEnd = false) (hn : next a c = some goOn)
    (h : ∀ c₁, c.take = (.ok c.current, c₁) →
      (goOn c.current).Ensures c₁ fun b c₂ => (repeatTaking next b).Ensures c₂ Q) :
    (repeatTaking next a).Ensures c Q := by
  have hround : (Parser.take >>= fun t => goOn t >>= repeatTaking next).Ensures c Q :=
    bind (take fun c₁ hc => bind (h c₁ hc))
  intro b c' hrun
  change rounds next a c = _ at hrun
  rw [rounds_eq, if_neg (by simp [hend]), hn] at hrun
  exact hround b c' hrun

/-- The rule of the loop. The invariant holds in front of every round, and the loop ends in
front of a token it does not go on at. -/
theorem repeatTaking {next : α → Cursor → Option (Token → Parser α)} {a : α}
    {I : α → Cursor → Prop} (init : I a c)
    (step : ∀ a c goOn c₁, I a c → next a c = some goOn → c.take = (.ok c.current, c₁) →
      (goOn c.current).Ensures c₁ I) :
    (repeatTaking next a).Ensures c fun b c' =>
      I b c' ∧ (c'.atEnd = true ∨ next b c' = none) := by
  intro b c' hr
  simp only [Parser.repeatTaking] at hr
  fun_induction rounds next a c with
  | case1 a c hc =>
    cases hr
    exact ⟨init, .inl hc⟩
  | case2 a c _ hn =>
    cases hr
    exact ⟨init, .inr hn⟩
  | case3 a c _ goOn hn e c₁ ht => cases hr
  | case4 a c _ goOn hn t c₁ ht e c₂ hb => cases hr
  | case5 a c _ goOn hn t c₁ ht b' c₂ hb ih =>
    obtain ⟨rfl, -⟩ := Cursor.take_ok ht
    exact ih (step a c goOn c₁ init hn ht b' c₂ hb) hr

/-- Tokens are skipped for as long as the test holds. -/
theorem skipWhile {test : Cursor → Bool} {I : Cursor → Prop} (init : I c)
    (step : ∀ c c₁, I c → test c = true → c.take = (.ok c.current, c₁) → I c₁) :
    (skipWhile test).Ensures c fun _ c' => I c' ∧ (c'.atEnd = true ∨ test c' = false) := by
  refine mono (repeatTaking (I := fun _ c => I c) init ?_) ?_
  · intro a c goOn c₁ hI hn hc
    split at hn
    · next ht =>
      cases hn
      exact pure (step c c₁ hI ht hc)
    · cases hn
  · intro a c' h
    simpa using h

/-- The rule of sequences. `I` holds of the items read so far behind each of them. If the
sequence may end behind a separator, `J` holds there. -/
theorem separated {item : Parser α} {separator : Cursor → Option (Token → Parser Unit)}
    {stop : Cursor → Bool} {I J : List α → Cursor → Prop}
    (first : item.Ensures c fun a c₁ => I [a] c₁)
    (more : ∀ as c goOn c₁, I as c → separator c = some goOn → c.take = (.ok c.current, c₁) →
      (goOn c.current).Ensures c₁ fun _ c₂ =>
        if stop c₂ then J as c₂ else item.Ensures c₂ fun a c₃ => I (as ++ [a]) c₃)
    (last : ∀ as c, J as c → separator c = none) :
    (separated item separator stop).Ensures c fun as c' =>
      I (as.1 :: as.2) c' ∧ (c'.atEnd = true ∨ separator c' = none) ∨ J (as.1 :: as.2) c' := by
  refine bind (first.mono fun a c₁ ha => bind (mono (repeatTaking
    (I := fun as c => I (a :: as) c ∨ J (a :: as) c) (.inl ha) ?_) ?_))
  · rintro as c goOn c₁ (hI | hJ) hn hc
    · obtain ⟨goOn', hs, rfl⟩ := Option.map_eq_some_iff.1 hn
      refine bind ((more _ _ _ _ hI hs hc).mono fun _ c₂ h => look_bind ?_)
      split at h
      · next hstop =>
        rw [if_pos hstop]
        exact pure (.inr h)
      · next hstop =>
        rw [if_neg hstop]
        exact bind (h.mono fun b c₃ hb => pure (.inl hb))
    · simp [last _ _ hJ] at hn
  · rintro as c' ⟨hI | hJ, hend⟩
    · exact pure (.inl ⟨hI, by simpa using hend⟩)
    · exact pure (.inr hJ)

end Ensures

/-! ## There is a result -/

namespace Succeeds
variable {Q : α → Cursor → Prop} {R : β → Cursor → Prop}

theorem mono {Q' : α → Cursor → Prop} {p : Parser α} (h : p.Succeeds c Q)
    (hQ : ∀ a c', Q a c' → Q' a c') : p.Succeeds c Q' := by
  obtain ⟨a, c', hr, ha⟩ := h
  exact ⟨a, c', hr, hQ a c' ha⟩

theorem pure {a : α} (h : Q a c) : (Pure.pure a : Parser α).Succeeds c Q := ⟨a, c, rfl, h⟩

theorem bind {p : Parser α} {f : α → Parser β}
    (h : p.Succeeds c fun a c₁ => (f a).Succeeds c₁ R) : (p >>= f).Succeeds c R := by
  obtain ⟨a, c₁, ha, b, c', hb, hR⟩ := h
  exact ⟨b, c', by rw [run_bind, ha]; exact hb, hR⟩

theorem map {p : Parser α} {f : α → β} (h : p.Succeeds c fun a c₁ => R (f a) c₁) :
    (f <$> p).Succeeds c R :=
  bind (p := p) (f := fun a => Pure.pure (f a)) (h.mono fun _ _ ha => pure ha)

theorem look_bind {f : Cursor → α} {g : α → Parser β} (h : (g (f c)).Succeeds c R) :
    (look f >>= g).Succeeds c R :=
  bind ⟨f c, c, rfl, h⟩

theorem spanFrom_bind {start : Position} {g : Span → Parser β}
    (h : ∀ s, (g s).Succeeds c R) : (spanFrom start >>= g).Succeeds c R :=
  look_bind (h _)

theorem note_bind {p : Problem} {g : Unit → Parser β} (h : (g ()).Succeeds (c.note p) R) :
    (note p >>= g).Succeeds c R :=
  bind ⟨(), c.note p, rfl, h⟩

theorem take {Q : Token → Cursor → Prop} {t : Token} {c₁ : Cursor}
    (hc : c.take = (.ok t, c₁)) (h : Q t c₁) : take.Succeeds c Q := ⟨t, c₁, hc, h⟩

theorem discard_take {Q : PUnit → Cursor → Prop} {t : Token} {c₁ : Cursor}
    (hc : c.take = (.ok t, c₁)) (h : Q ⟨⟩ c₁) : (discard Parser.take).Succeeds c Q :=
  map (take hc h)

theorem choose {next : Cursor → Option (Token → Parser α)} {expected : Expectation}
    {goOn : Token → Parser α} {t : Token} {c₁ : Cursor} (hn : next c = some goOn)
    (hc : c.take = (.ok t, c₁)) (h : (goOn t).Succeeds c₁ Q) :
    (choose next expected).Succeeds c Q := by
  refine look_bind ?_
  rw [hn]
  exact bind (take hc h)

theorem expect {p : Punct} {expected : Expectation} {Q : Unit → Cursor → Prop} {t : Token}
    {c₁ : Cursor} (hp : c.looksAt p = true) (hc : c.take = (.ok t, c₁)) (h : Q () c₁) :
    (expect p expected).Succeeds c Q :=
  choose (if_pos hp) hc (pure h)

/-- A loop ends in front of a token it does not go on at. -/
theorem repeatTaking_stop {next : α → Cursor → Option (Token → Parser α)} {a : α}
    (hn : next a c = none) (h : Q a c) : (repeatTaking next a).Succeeds c Q :=
  ⟨a, c, run_repeatTaking_stop hn, h⟩

/-- A round of a loop, and the rounds behind it. -/
theorem repeatTaking_step {next : α → Cursor → Option (Token → Parser α)} {a : α}
    {goOn : Token → Parser α} {t : Token} {c₁ : Cursor} (hend : c.atEnd = false)
    (hn : next a c = some goOn) (hc : c.take = (.ok t, c₁))
    (h : (goOn t).Succeeds c₁ fun b c₂ => (repeatTaking next b).Succeeds c₂ Q) :
    (repeatTaking next a).Succeeds c Q := by
  have hround : (Parser.take >>= fun t => goOn t >>= repeatTaking next).Succeeds c Q :=
    bind (take hc (bind h))
  obtain ⟨d, c', hrun, hQ⟩ := hround
  refine ⟨d, c', ?_, hQ⟩
  change rounds next a c = _
  rw [rounds_eq, if_neg (by simp [hend]), hn]
  exact hrun

end Succeeds
end Parser
end WqSource
