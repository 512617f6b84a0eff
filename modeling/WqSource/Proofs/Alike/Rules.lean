import WqSource.Proofs.Alike.Cursor

/-!
# Two runs of one parser

`Parser.Same` relates what two runs from alike cursors give: both succeed, with results that a
function does not tell apart, or both fail with the same kind of error. It follows the way a
parser is built: one rule for each way of putting parsers together. A parser may look at its
cursor as long as it sees the same in both; the places of tokens are such that the function
forgets them.

## Main definitions

* `Parser.Same`: the relation of results.
* `Parser.Continues`: two ways of going on behind the current tokens.

## Main statements

* `Same.bind`, `Same.repeatTaking`, `Same.separated`: the rules.
-/

namespace WqSource.Parser
variable {α β γ δ : Type} {m : Comparison} {d d' d₁ : Nat} {c c' : Cursor}

/-- Both runs succeed and `f` makes no difference between their results, with so many brackets
open behind them; or both fail with the same kind of error. -/
inductive Same (m : Comparison) (f : α → β) (d : Nat) :
    Except ParseError α × Cursor → Except ParseError α × Cursor → Prop where
  | ok {a a' : α} {c c' : Cursor} : f a = f a' → c.Alike m d c' → Same m f d (.ok a, c) (.ok a', c')
  | error {e e' : ParseError} {c c' : Cursor} : e.Alike m e' → c.Matches m c' →
    Same m f d (.error e, c) (.error e', c')

/-- Behind the current tokens both go on, and alike; or neither does. -/
inductive Continues (m : Comparison) (f : α → β) (d : Nat) (c c' : Cursor) :
    Option (Token → Parser α) → Option (Token → Parser α) → Prop where
  | stop : Continues m f d c c' none none
  | goOn {k k' : Token → Parser α} : c.Level m c' →
    (∀ c₁ c₁', c₁.Alike m (c.current.kind.depthAfter c.depth) c₁' →
      Same m f d ((k c.current).run c₁) ((k' c'.current).run c₁')) →
    Continues m f d c c' (some k) (some k')

/-- Going on at an operator, separator or bracket. -/
theorem continues_looksAt {f : α → β} {k k' : Token → Parser α} {p : Punct}
    (h : c.Alike m d₁ c')
    (hk : c.looksAt p = true → ∀ c₁ c₁', c₁.Alike m (p.depthAfter d₁) c₁' →
      Same m f d ((k c.current).run c₁) ((k' c'.current).run c₁')) :
    Continues m f d c c' (if c.looksAt p then some k else none)
      (if c'.looksAt p then some k' else none) := by
  rw [← h.looksAt]
  split
  · next hp =>
    have hkind : c.current.kind = .punct p := by simpa [Cursor.looksAt] using hp
    refine .goOn (h.level (by rw [hkind]; rfl)) fun c₁ c₁' h₁ => hk hp c₁ c₁' ?_
    rwa [hkind, h.here] at h₁
  · exact .stop

/-- Neither run goes on at the end of a line, so that the seam is not looked past. -/
theorem continues_of_level {f : α → β} {next : Cursor → Option (Token → Parser α)}
    (h : c.Alike m d₁ c') (hends : ∀ c : Cursor, c.current.kind.endsLine = true → next c = none)
    (hlevel : c.Level m c' → Continues m f d c c' (next c) (next c')) :
    Continues m f d c c' (next c) (next c') := by
  rcases h.place with hl | hseam
  · exact hlevel hl
  · rw [hends c hseam.endsLine, hends c' (by rw [hseam.newline]; rfl)]
    exact .stop

/-- Going on by the kind of the current token, but not at the end of a line. How the two go on
may depend on what they have read before. -/
theorem continues_map {f : α → β} {next : Token.Kind → Option γ} {w v : γ → Token → Parser α}
    (h : c.Alike m d₁ c') (hends : ∀ k, k.endsLine = true → next k = none)
    (hw : ∀ x, next c.current.kind = some x → ∀ c₁ c₁',
      c₁.Alike m (c.current.kind.depthAfter d₁) c₁' →
        Same m f d ((w x c.current).run c₁) ((v x c'.current).run c₁')) :
    Continues m f d c c' ((next c.current.kind).map w) ((next c'.current.kind).map v) := by
  rcases h.place with hlevel | hseam
  · rw [← hlevel.kind]
    cases hn : next c.current.kind with
    | none => exact .stop
    | some x =>
      refine .goOn hlevel fun c₁ c₁' h₁ => hw x hn c₁ c₁' ?_
      rwa [h.here] at h₁
  · rw [hends _ hseam.endsLine, hends c'.current.kind (by rw [hseam.newline]; rfl)]
    exact .stop

theorem continues_kind {f : α → β} {next : Token.Kind → Option (Token → Parser α)}
    (h : c.Alike m d₁ c') (hends : ∀ k, k.endsLine = true → next k = none)
    (hk : ∀ k, next c.current.kind = some k → ∀ c₁ c₁',
      c₁.Alike m (c.current.kind.depthAfter d₁) c₁' →
        Same m f d ((k c.current).run c₁) ((k c'.current).run c₁')) :
    Continues m f d c c' (next c.current.kind) (next c'.current.kind) := by
  simpa using continues_map (w := id) (v := id) h hends hk

namespace Same
variable {f : α → β} {g : γ → δ}

theorem pure {a a' : α} (ha : f a = f a') (h : c.Alike m d c') :
    Same m f d ((Pure.pure a : Parser α).run c) ((Pure.pure a' : Parser α).run c') :=
  .ok ha h

theorem bind {p p' : Parser α} {k j : α → Parser γ} (hp : Same m f d₁ (p.run c) (p'.run c'))
    (hk : ∀ a a' c₁ c₁', f a = f a' → c₁.Alike m d₁ c₁' →
      Same m g d ((k a).run c₁) ((j a').run c₁')) :
    Same m g d ((p >>= k).run c) ((p' >>= j).run c') := by
  rw [run_bind, run_bind]
  generalize p.run c = r at hp ⊢
  generalize p'.run c' = r' at hp ⊢
  cases hp with
  | ok ha h => exact hk _ _ _ _ ha h
  | error he h => exact .error he h

/-- What `h` compares of a result that is made from another. -/
theorem map {p p' : Parser α} {h : α → γ} (hp : Same m f d (p.run c) (p'.run c'))
    (hh : ∀ a a', f a = f a' → g (h a) = g (h a')) :
    Same m g d ((h <$> p).run c) ((h <$> p').run c') :=
  bind (k := fun a => Pure.pure (h a)) (j := fun a => Pure.pure (h a)) hp
    fun _ _ _ _ ha hc => pure (hh _ _ ha) hc

/-- Looking at what is the same for both cursors. -/
theorem look_bind {ε : Type} {l l' : Cursor → ε} {k k' : ε → Parser γ} (hl : l c = l' c')
    (hk : Same m g d ((k (l c)).run c) ((k' (l c)).run c')) :
    Same m g d ((look l >>= k).run c) ((look l' >>= k').run c') := by
  rw [run_bind, run_bind, run_look, run_look, ← hl]
  exact hk

/-- Places may differ. -/
theorem spanFrom_bind {p p' : Position} {k k' : Span → Parser γ}
    (hk : ∀ s s', Same m g d ((k s).run c) ((k' s').run c')) :
    Same m g d ((spanFrom p >>= k).run c) ((spanFrom p' >>= k').run c') :=
  hk _ _

theorem fail (expected : Expectation) (h : c.Matches m c') :
    Same m f d ((fail expected : Parser α).run c) ((Parser.fail expected : Parser α).run c') :=
  .error (h.unexpected expected) h

/-- What is taken in both is the current token of each. -/
theorem take_bind {k k' : Token → Parser γ} (h : c.Matches m c') (hlevel : c.Level m c')
    (hk : ∀ c₁ c₁', c₁.Alike m (c.current.kind.depthAfter c.depth) c₁' →
      Same m g d ((k c.current).run c₁) ((k' c'.current).run c₁')) :
    Same m g d ((Parser.take >>= k).run c) ((Parser.take >>= k').run c') := by
  rw [run_bind, run_bind, run_take, run_take]
  rcases h.take hlevel with ⟨c₁, c₁', ht, ht', h₁⟩ | ⟨e, e', c₁, c₁', ht, ht', he, h₁⟩ <;>
    rw [ht, ht']
  · exact hk c₁ c₁' h₁
  · exact .error (.lexical he) h₁

theorem discard_take_bind {k k' : PUnit → Parser γ} (h : c.Matches m c')
    (hlevel : c.Level m c')
    (hk : ∀ c₁ c₁', c₁.Alike m (c.current.kind.depthAfter c.depth) c₁' →
      Same m g d ((k ⟨⟩).run c₁) ((k' ⟨⟩).run c₁')) :
    Same m g d ((discard Parser.take >>= k).run c) ((discard Parser.take >>= k').run c') := by
  rw [run_bind, run_bind, run_discard_take, run_discard_take]
  rcases h.take hlevel with ⟨c₁, c₁', ht, ht', h₁⟩ | ⟨e, e', c₁, c₁', ht, ht', he, h₁⟩ <;>
    rw [ht, ht']
  · exact hk c₁ c₁' h₁
  · exact .error (.lexical he) h₁

/-- What comes behind the current token, inside brackets. -/
theorem peek_bind {k k' : Token.Kind → Parser γ} (h : c.Alike m d₁ c') (hlevel : c.Level m c')
    (hd : 0 < c.current.kind.depthAfter c.depth)
    (hk : ∀ kind, Same m g d ((k kind).run c) ((k' kind).run c')) :
    Same m g d ((peek >>= k).run c) ((peek >>= k').run c') := by
  rw [run_bind, run_bind, run_peek, run_peek]
  rcases h.peek hlevel hd with ⟨kind, hp, hp'⟩ | ⟨e, e', c₁, c₁', hp, hp', he, h₁⟩ <;>
    rw [hp, hp']
  · exact hk kind
  · exact .error (.lexical he) h₁

theorem note_bind {p p' : Problem} {k k' : Unit → Parser γ} (h : c.Alike m d₁ c')
    (hp : p.Alike m p')
    (hk : ∀ c₁ c₁', c₁.Alike m d₁ c₁' → Same m g d ((k ()).run c₁) ((k' ()).run c₁')) :
    Same m g d ((note p >>= k).run c) ((note p' >>= k').run c') :=
  hk _ _ (h.note hp)

theorem choose {next next' : Cursor → Option (Token → Parser α)} {expected : Expectation}
    (h : c.Matches m c') (hnext : Continues m f d c c' (next c) (next' c')) :
    Same m f d ((choose next expected).run c) ((choose next' expected).run c') := by
  rw [Parser.choose, Parser.choose, run_bind, run_bind, run_look, run_look]
  generalize next c = k at hnext ⊢
  generalize next' c' = k' at hnext ⊢
  cases hnext with
  | stop => exact fail expected h
  | goOn hlevel hk => exact take_bind h hlevel hk

/-- Going on as the current token is, but not at the end of a line. -/
theorem choose_of_level {next : Cursor → Option (Token → Parser α)} {expected : Expectation}
    (h : c.Alike m d₁ c') (hends : ∀ c : Cursor, c.current.kind.endsLine = true → next c = none)
    (hlevel : c.Level m c' → Continues m f d c c' (next c) (next c')) :
    Same m f d ((Parser.choose next expected).run c) ((Parser.choose next expected).run c') :=
  choose h.toMatches (continues_of_level h hends hlevel)

/-- Taking an operator, separator or bracket. -/
theorem expect {f : Unit → β} {n : Nat} (p : Punct) (expected : Expectation)
    (h : c.Alike m n c') :
    Same m f (p.depthAfter n) ((expect p expected).run c) ((Parser.expect p expected).run c') :=
  choose h.toMatches (continues_looksAt h fun _ _ _ h₁ => pure rfl h₁)

/-- The rule of the loop. -/
theorem repeatTaking {next next' : α → Cursor → Option (Token → Parser α)} {a a' : α}
    (ha : f a = f a') (h : c.Alike m d c')
    (step : ∀ a a' c c', f a = f a' → c.Alike m d c' →
      Continues m f d c c' (next a c) (next' a' c')) :
    Same m f d ((repeatTaking next a).run c) ((Parser.repeatTaking next' a').run c') := by
  change Same m f d (rounds next a c) (rounds next' a' c')
  induction hsize : c.size using Nat.strongRecOn generalizing a a' c c' with
  | ind n ih =>
    subst hsize
    rw [rounds_eq, rounds_eq next']
    have hcontinues := step a a' c c' ha h
    generalize next a c = o at hcontinues ⊢
    generalize next' a' c' = o' at hcontinues ⊢
    cases hcontinues with
    | stop =>
      simp only [ite_self]
      exact .ok ha h
    | @goOn k k' hlevel hk =>
      have hend : c'.atEnd = c.atEnd := by rw [Cursor.atEnd, Cursor.atEnd, hlevel.kind]
      rw [hend]
      by_cases hnot : c.atEnd = true
      · rw [if_pos hnot, if_pos hnot]
        exact .ok ha h
      · rw [if_neg hnot, if_neg hnot]
        simp only [run_bind, run_take]
        rcases h.take hlevel with ⟨c₁, c₁', ht, ht', h₁⟩ | ⟨e, e', c₁, c₁', ht, ht', he, h₁⟩
        · have hlt := Cursor.size_lt_of_take (Bool.not_eq_true _ ▸ hnot) ht
          have hle := ((k c.current).reaches c₁).size_le
          have hround := hk c₁ c₁' h₁
          simp only [ht, ht']
          generalize (k c.current).run c₁ = r at hround hle ⊢
          generalize (k' c'.current).run c₁' = r' at hround ⊢
          cases hround with
          | ok hb h₂ => exact ih _ (Nat.lt_of_le_of_lt hle hlt) hb h₂ rfl
          | error he h₂ => exact .error he h₂
        · rw [ht, ht']
          exact .error (.lexical he) h₁

/-- Skipping what both see in front of them. -/
theorem skipWhile {f : Unit → β} {test : Cursor → Bool} (h : c.Alike m d c')
    (htest : ∀ c c', c.Alike m d c' → test c = test c' ∧ (test c = true → c.Level m c' ∧
      c.current.kind.depthAfter d = d)) :
    Same m f d ((skipWhile test).run c) ((Parser.skipWhile test).run c') := by
  refine repeatTaking rfl h fun _ _ c c' _ h => ?_
  obtain ⟨hsame, hgoOn⟩ := htest c c' h
  rw [← hsame]
  split
  · next ht =>
    obtain ⟨hlevel, hdepth⟩ := hgoOn ht
    refine .goOn hlevel fun c₁ c₁' h₁ => pure rfl ?_
    rwa [h.here, hdepth] at h₁
  · exact .stop

/-- The rule of sequences. -/
theorem separated {item : Parser α} {sep : Cursor → Option (Token → Parser Unit)}
    {stop : Cursor → Bool} (h : c.Alike m d c')
    (hitem : ∀ c c', c.Alike m d c' → Same m f d (item.run c) (item.run c'))
    (hsep : ∀ c c', c.Alike m d c' → Continues m id d c c' (sep c) (sep c'))
    (hstop : ∀ c c', c.Alike m d c' → stop c = stop c') :
    Same m (fun as => (as.1 :: as.2).map f) d ((separated item sep stop).run c)
      ((Parser.separated item sep stop).run c') := by
  refine bind (hitem c c' h) fun a a' c c' ha h =>
    bind (repeatTaking (f := List.map f) rfl h fun as as' c c' has h => ?_)
      fun as as' c c' has h => pure (by rw [List.map_cons, List.map_cons, ha, has]) h
  have hcontinues := hsep c c' h
  generalize sep c = o at hcontinues ⊢
  generalize sep c' = o' at hcontinues ⊢
  cases hcontinues with
  | stop => exact .stop
  | goOn hlevel hk =>
    refine .goOn hlevel fun c₁ c₁' h₁ => bind (hk c₁ c₁' h₁) fun _ _ c₂ c₂' _ h₂ =>
      look_bind (hstop c₂ c₂' h₂) ?_
    split
    · exact pure has h₂
    · exact bind (hitem c₂ c₂' h₂) fun b b' c₃ c₃' hb h₃ =>
        pure (by
          rw [List.map_append, List.map_append, has, List.map_singleton, List.map_singleton, hb]) h₃

end Same
end WqSource.Parser
