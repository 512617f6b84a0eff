import WqSource.Proofs.Alike.Rules
import WqSource.Proofs.Grammar.Contract

/-!
# Tokens that are cut off

A cursor is cut if the tokens ahead of it end early. What a parser reads from a cursor, it reads
from the cut one, too, as long as nothing is missing of the tokens it takes: it looks no further
than at the token behind them, and where the tokens end it goes on with nothing.

`Parser.Copies` says so of two parsers, of which the second one may allow more nesting. It is
built as parsers are. Some parsers do need to see the token behind those they take, as they would
else go on; what is around them takes that token.

## Main definitions

* `Cursor.Advances`: so many tokens are taken.
* `Cursor.Cut`: so many tokens are left.
* `Parser.Copies`: the same is read from a cut cursor.

## Main statements

* `Copies.bind`, `Copies.repeatTaking`, `Copies.separated`: the rules.
-/

namespace WqSource

/-! ## Cutting -/

/-- So many tokens of the first stream are in the second one, which ends behind them. -/
inductive TokenStream.Cut : Nat → TokenStream → TokenStream → Prop where
  | ended (s : TokenStream) (place : Position) : Cut 0 s (.ended place)
  | token {k : Nat} {t : Token} {rest rest' : TokenStream} : t.kind ≠ .endOfInput →
    Cut k rest rest' → Cut (k + 1) (.token t rest) (.token t rest')

namespace Cursor
variable {j k n : Nat} {b c c' c₁ d : Cursor}

/-- So many tokens are taken from one cursor to another, none of which is the end. -/
inductive Advances : Nat → Cursor → Cursor → Prop where
  | refl (c : Cursor) : Advances 0 c c
  | take {k : Nat} {b c c' : Cursor} : Advances k b c → c.atEnd = false →
    c.take = (.ok c.current, c') → Advances (k + 1) b c'
  | note {k : Nat} {b c : Cursor} (p : Problem) : Advances k b c → Advances k b (c.note p)

/-- Two cursors look at the same token, behind the same place. -/
structure Sees (c d : Cursor) : Prop where
  current : d.current = c.current
  lastEnd : d.lastEnd = c.lastEnd

/-- The second cursor has so many tokens of the first one in front of it, and then the end. -/
inductive Cut : Nat → Cursor → Cursor → Prop where
  | ended {c d : Cursor} {place : Position} : d.lastEnd = c.lastEnd → d.atEnd = true →
    d.ahead = .ended place → Cut 0 c d
  | token {k : Nat} {c d : Cursor} : c.Sees d → c.atEnd = false → c.ahead.Cut k d.ahead →
    Cut (k + 1) c d

theorem Advances.trans (h : Advances j b c) (h' : Advances k c c') : Advances (j + k) b c' := by
  induction h' with
  | refl => exact h
  | take _ hend ht ih => exact .take (ih h) hend ht
  | note p _ ih => exact .note p (ih h)

theorem Advances.single (hend : c.atEnd = false) (ht : c.take = (.ok c.current, c')) :
    Advances 1 c c' :=
  .take (.refl c) hend ht

theorem Advances.reaches (h : Advances k b c) : b.Reaches c := by
  induction h with
  | refl => exact .refl _
  | take _ _ ht ih => simpa [ht] using Reaches.take ih
  | note p _ ih => exact .note p ih

namespace Cut

theorem lastEnd (h : c.Cut k d) : d.lastEnd = c.lastEnd := by
  cases h with
  | ended hlast => exact hlast
  | token hsees => exact hsees.lastEnd

theorem sees (h : c.Cut k d) (hk : 0 < k) : c.Sees d := by
  cases h with
  | ended => omega
  | token hsees => exact hsees

/-- What is not different at the end is not different for a cut cursor. -/
theorem congr {α : Type} (h : c.Cut k d) (f : Token.Kind → α)
    (hf : 0 < k ∨ f .endOfInput = f c.current.kind) : f d.current.kind = f c.current.kind := by
  cases h with
  | ended _ hend =>
    have hk : d.current.kind = .endOfInput := by simpa [atEnd] using hend
    rw [hk]
    exact hf.resolve_left (Nat.lt_irrefl 0)
  | token hsees => rw [hsees.current]

/-- A cut cursor does not look at what the other one does not look at. -/
theorem looksAt_eq_false {p : Punct} (h : c.Cut k d) (hp : c.looksAt p = false) :
    d.looksAt p = false := by
  have hsame := h.congr (· == .punct p) (.inr (Eq.symm hp))
  exact Eq.trans hsame hp

theorem atEnd_of_atEnd (h : c.Cut k d) (hc : c.atEnd = true) : d.atEnd = true ∧ k = 0 := by
  cases h with
  | ended _ hend => exact ⟨hend, rfl⟩
  | token _ hend => simp [hend] at hc

/-- Both cursors take a token. -/
theorem take (h : c.Cut (k + 1) d) (ht : c.take = (.ok c.current, c₁)) :
    ∃ d₁, d.take = (.ok c.current, d₁) ∧ c₁.Cut k d₁ := by
  obtain ⟨-, next, ahead, hn, rfl⟩ := take_ok ht
  cases h with
  | token hsees hend hahead =>
    obtain ⟨current, rest, lastEnd, depth, problems⟩ := d
    obtain rfl : current = c.current := hsees.current
    cases hs : c.ahead with
    | ended place =>
      rw [hs] at hn hahead
      cases hn
      cases hahead with
      | ended place' => exact ⟨_, rfl, .ended rfl rfl rfl⟩
    | token t s =>
      rw [hs] at hn hahead
      cases hn
      cases hahead with
      | ended place' => exact ⟨_, rfl, .ended rfl rfl rfl⟩
      | token hne hrest =>
        exact ⟨_, rfl, .token ⟨rfl, rfl⟩ (by simpa [atEnd, shift] using hne) hrest⟩
    | stuck | fault =>
      rw [hs] at hn
      cases hn

/-- Both cursors have the same behind the current token, if at least that is left. -/
theorem peek {kind : Token.Kind} (h : c.Cut (k + 2) d) (hp : c.peek = (.ok kind, c)) :
    d.peek = (.ok kind, d) := by
  obtain ⟨-, next, ahead, hn, rfl⟩ := peek_ok hp
  cases h with
  | token hsees hend hahead =>
    obtain ⟨current, rest, lastEnd, depth, problems⟩ := d
    generalize c.ahead = s at hn hahead
    cases hahead with
    | token hne hrest =>
      cases hn
      rfl

theorem note (h : c.Cut k d) (p q : Problem) : (c.note p).Cut k (d.note q) := by
  cases h with
  | ended hlast hend hahead => exact .ended hlast hend hahead
  | token hsees hend hahead => exact .token ⟨hsees.current, hsees.lastEnd⟩ hend hahead

end Cut

/-- A cursor can be cut behind the tokens that are taken from it. -/
theorem Advances.exists_cut (h : Advances k c c') : ∃ d, c.Cut k d := by
  suffices hall : ∀ j, (∃ d, c'.Cut j d) → ∃ d, c.Cut (j + k) d by
    simpa using hall 0 ⟨⟨.ending .start, .ended .start, c'.lastEnd, 0, []⟩, .ended rfl rfl rfl⟩
  induction h with
  | refl => exact fun _ hd => hd
  | @take k b c c' _ hend ht ih =>
    rintro j ⟨d, hd⟩
    have hnext : ∃ d, c.Cut (j + 1) d := by
      obtain ⟨-, next, ahead, hn, rfl⟩ := take_ok ht
      cases hd with
      | ended =>
        exact ⟨⟨c.current, .ended .start, c.lastEnd, 0, []⟩, .token ⟨rfl, rfl⟩ hend (.ended _ _)⟩
      | @token i _ d hsees hend' hahead =>
        have hne : next.kind ≠ .endOfInput := by simpa [atEnd, shift] using hend'
        have hs : c.ahead = .token next ahead := by
          cases hs : c.ahead <;> rw [hs] at hn <;> cases hn
          · exact absurd rfl hne
          · rfl
        refine ⟨⟨c.current, .token next d.ahead, c.lastEnd, 0, []⟩, .token ⟨rfl, rfl⟩ hend ?_⟩
        rw [hs]
        exact .token hne hahead
    have hcut := ih (j + 1) hnext
    rwa [Nat.add_assoc, Nat.add_comm 1] at hcut
  | note p _ ih =>
    rintro j ⟨d, hd⟩
    refine ih j ⟨d, ?_⟩
    cases hd with
    | ended hlast hend hahead => exact .ended hlast hend hahead
    | token hsees hend hahead => exact .token ⟨hsees.current, hsees.lastEnd⟩ hend hahead

end Cursor

/-! ## Copies -/

namespace Parser
variable {α β : Type} {i j m n g h : Nat} {c c₁ d : Cursor}

/-- Whatever the first parser reads from the cursor, taking at least `g` tokens, the second one
reads from a cut cursor which has those tokens and at least `n` more. -/
def Copies (n g : Nat) (p q : Parser α) (c : Cursor) : Prop :=
  p.Ensures c fun a c' => ∃ k, g ≤ k ∧ c.Advances k c' ∧
    ∀ j d, n ≤ j → c.Cut (k + j) d → ∃ d', q.run d = (.ok a, d') ∧ c'.Cut j d'

/-- Both parsers go on behind the current token and then read the same, or neither goes on. -/
inductive Together (n g : Nat) (c : Cursor) :
    Option (Token → Parser α) → Option (Token → Parser α) → Prop where
  | stop : Together n g c none none
  | goOn {k k' : Token → Parser α} : c.atEnd = false →
    (∀ c₁, c.take = (.ok c.current, c₁) → Copies n g (k c.current) (k' c.current) c₁) →
    Together n g c (some k) (some k')

/-- What a parser depends on that chooses by the current token. -/
def Looks (next : Cursor → Option (Token → Parser α)) : Prop :=
  ∀ c d : Cursor, c.Sees d → next d = next c

namespace Copies
variable {p p' : Parser α}

theorem mono (hp : Copies m g p p' c) (hm : m ≤ n) (hg : h ≤ g) : Copies n h p p' c :=
  Ensures.mono hp fun _ _ ⟨k, hk, hadvances, hcut⟩ =>
    ⟨k, Nat.le_trans hg hk, hadvances, fun j d hj => hcut j d (Nat.le_trans hm hj)⟩

theorem lax (hp : Copies n g p p' c) : Copies n 0 p p' c := hp.mono (Nat.le_refl n) (Nat.zero_le g)

/-- Where a parser comes to. -/
theorem advances (hp : Copies n g p p' c) : p.Ensures c fun _ c' => ∃ k, c.Advances k c' :=
  Ensures.mono hp fun _ _ ⟨k, _, hadvances, _⟩ => ⟨k, hadvances⟩

theorem pure {a : α} : Copies n 0 (Pure.pure a) (Pure.pure a) c :=
  Ensures.pure ⟨0, Nat.le_refl 0, .refl c, fun j d _ hd => ⟨d, rfl, by rwa [Nat.zero_add] at hd⟩⟩

theorem fail {expected : Expectation} : Copies n g (fail expected) p' c := Ensures.fail

theorem bind {f f' : α → Parser β} (hp : Copies m g p p' c)
    (hf : ∀ a c₁, p.run c = (.ok a, c₁) → Copies n h (f a) (f' a) c₁) (hm : m ≤ h + n) :
    Copies n (g + h) (p >>= f) (p' >>= f') c := by
  refine Ensures.bind fun a c₁ ha b c₂ hb => ?_
  obtain ⟨i, hi, hadvances, hcut⟩ := hp a c₁ ha
  obtain ⟨k, hk, hadvances', hcut'⟩ := hf a c₁ ha b c₂ hb
  refine ⟨i + k, Nat.add_le_add hi hk, hadvances.trans hadvances', fun j d hj hd => ?_⟩
  rw [Nat.add_assoc] at hd
  obtain ⟨d₁, ha', hd₁⟩ := hcut (k + j) d (by omega) hd
  obtain ⟨d₂, hb', hd₂⟩ := hcut' j d₁ hj hd₁
  exact ⟨d₂, by rw [run_bind, ha']; exact hb', hd₂⟩

/-- What the first part takes is taken. -/
theorem bind_left {f f' : α → Parser β} (hp : Copies n g p p' c)
    (hf : ∀ a c₁, p.run c = (.ok a, c₁) → Copies n 0 (f a) (f' a) c₁) :
    Copies n g (p >>= f) (p' >>= f') c :=
  bind hp hf (Nat.le_add_left ..)

/-- What the second part takes is left for the first one to see. -/
theorem bind_right {f f' : α → Parser β} (hp : Copies (g + n) 0 p p' c)
    (hf : ∀ a c₁, p.run c = (.ok a, c₁) → Copies n g (f a) (f' a) c₁) :
    Copies n g (p >>= f) (p' >>= f') c :=
  (bind hp hf (Nat.le_refl _)).mono (Nat.le_refl n) (Nat.le_add_left ..)

theorem map {f : α → β} (hp : Copies n g p p' c) : Copies n g (f <$> p) (f <$> p') c :=
  show Copies n g (p >>= fun a => Pure.pure (f a)) (p' >>= fun a => Pure.pure (f a)) c from
    bind_left hp fun _ _ _ => pure

/-- Looking at what is the same for the cut cursor. -/
theorem look_bind {f : Cursor → α} {k k' : α → Parser β}
    (hf : ∀ i d, n + g ≤ i → c.Cut i d → f d = f c) (hk : Copies n g (k (f c)) (k' (f c)) c) :
    Copies n g (look f >>= k) (look f >>= k') c := by
  refine Ensures.look_bind fun b c' hb => ?_
  obtain ⟨i, hi, hadvances, hcut⟩ := hk b c' hb
  refine ⟨i, hi, hadvances, fun j d hj hd => ?_⟩
  obtain ⟨d', hb', hd'⟩ := hcut j d hj hd
  refine ⟨d', ?_, hd'⟩
  rw [run_bind, run_look, hf (i + j) d (by omega) hd]
  exact hb'

/-- Looking at what makes no difference. -/
theorem look_any_bind {f : Cursor → α} {k k' : Parser β} (hk : Copies n g k k' c) :
    Copies n g (look f >>= fun _ => k) (look f >>= fun _ => k') c :=
  hk

/-- Looking for an operator, separator or bracket which is then taken. -/
theorem looksAt_bind {p : Punct} {k k' : Bool → Parser β}
    (htrue : c.looksAt p = true → Copies n (g + 1) (k true) (k' true) c)
    (hfalse : c.looksAt p = false → Copies n g (k false) (k' false) c) :
    Copies n g (look (·.looksAt p) >>= k) (look (·.looksAt p) >>= k') c := by
  cases hp : c.looksAt p with
  | true =>
    have hsees (i : Nat) (d : Cursor) (hi : n + (g + 1) ≤ i) (hd : c.Cut i d) :
        d.looksAt p = c.looksAt p := by
      rw [Cursor.looksAt, (hd.sees (by omega)).current, Cursor.looksAt]
    exact (look_bind hsees (hp ▸ htrue hp)).mono (Nat.le_refl n) (Nat.le_succ g)
  | false =>
    have hsame (i : Nat) (d : Cursor) (_ : n + g ≤ i) (hd : c.Cut i d) :
        d.looksAt p = c.looksAt p := by
      rw [hp, hd.looksAt_eq_false hp]
    exact look_bind hsame (hp ▸ hfalse hp)

/-- The last token taken ends at the same place. -/
theorem spanFrom_bind {start : Position} {k k' : Span → Parser β}
    (hk : ∀ s, Copies n g (k s) (k' s) c) :
    Copies n g (spanFrom start >>= k) (spanFrom start >>= k') c :=
  look_bind (fun _ _ _ hd => by rw [Cursor.spanFrom, hd.lastEnd, Cursor.spanFrom]) (hk _)

theorem take (hend : c.atEnd = false) : Copies n 1 Parser.take Parser.take c :=
  Ensures.take fun _ ht => ⟨1, Nat.le_refl 1, .single hend ht, fun j d _ hd => by
    rw [Nat.add_comm] at hd
    exact hd.take ht⟩

theorem take_bind {k k' : Token → Parser β} (hend : c.atEnd = false)
    (hk : ∀ c₁, c.take = (.ok c.current, c₁) → Copies n g (k c.current) (k' c.current) c₁) :
    Copies n (g + 1) (Parser.take >>= k) (Parser.take >>= k') c := by
  rw [Nat.add_comm]
  refine bind (m := g + n) (take hend) (fun t c₁ ht => ?_) (Nat.le_refl _)
  obtain ⟨rfl, -⟩ := Cursor.take_ok ht
  exact hk c₁ ht

theorem discard_take_bind {k k' : PUnit → Parser β} (hend : c.atEnd = false)
    (hk : ∀ c₁, c.take = (.ok c.current, c₁) → Copies n g (k ⟨⟩) (k' ⟨⟩) c₁) :
    Copies n (g + 1) (discard Parser.take >>= k) (discard Parser.take >>= k') c := by
  rw [Nat.add_comm]
  refine bind (m := g + n) (map (take hend)) (fun _ c₁ hc₁ => ?_) (Nat.le_refl _)
  obtain ⟨t, ht⟩ : ∃ t, c.take = (.ok t, c₁) := by
    rw [run_discard_take] at hc₁
    split at hc₁ <;> cases hc₁
    exact ⟨_, ‹_›⟩
  obtain ⟨rfl, -⟩ := Cursor.take_ok ht
  exact hk c₁ ht

theorem note {p : Problem} : Copies n 0 (Parser.note p) (Parser.note p) c :=
  Ensures.note ⟨0, Nat.le_refl 0, .note p (.refl c), fun j d _ hd =>
    ⟨d.note p, rfl, by rw [Nat.zero_add] at hd; exact hd.note p p⟩⟩

theorem choose {next next' : Cursor → Option (Token → Parser α)} {expected : Expectation}
    (hlooks : Looks next') (hnext : Together n g c (next c) (next' c)) :
    Copies n (g + 1) (choose next expected) (Parser.choose next' expected) c := by
  intro a c' ha
  generalize hn : next c = o at hnext
  cases hnext' : next' c with
  | none =>
    rw [hnext'] at hnext
    cases hnext
    rw [run_choose_none hn] at ha
    cases ha
  | some k' =>
    rw [hnext'] at hnext
    cases hnext with
    | goOn hend hk =>
      rw [run_choose hn] at ha
      obtain ⟨i, hi, hadvances, hcut⟩ := take_bind hend hk a c' ha
      refine ⟨i, hi, hadvances, fun j d hj hd => ?_⟩
      have hsees := hd.sees (by omega)
      rw [run_choose ((hlooks c d hsees).trans hnext')]
      exact hcut j d hj hd

theorem looks_looksAt {p : Punct} {goOn : Token → Parser α} :
    Looks fun c => if c.looksAt p then some goOn else none := by
  intro c d h
  have hsame : d.looksAt p = c.looksAt p := by rw [Cursor.looksAt, h.current, Cursor.looksAt]
  simp only [hsame]

theorem ne_atEnd {p : Punct} (hp : c.looksAt p = true) : c.atEnd = false := by
  have hk : c.current.kind = .punct p := by simpa [Cursor.looksAt] using hp
  simp [Cursor.atEnd, hk]

theorem together_looksAt {p : Punct} {k k' : Token → Parser α}
    (hk : ∀ c₁, c.take = (.ok c.current, c₁) → Copies n g (k c.current) (k' c.current) c₁) :
    Together n g c (if c.looksAt p then some k else none)
      (if c.looksAt p then some k' else none) := by
  split
  · next hp => exact .goOn (ne_atEnd hp) hk
  · exact .stop

/-- Taking an operator, separator or bracket. -/
theorem expect {p : Punct} {expected : Expectation} :
    Copies n 1 (Parser.expect p expected) (Parser.expect p expected) c :=
  choose looks_looksAt (together_looksAt fun _ _ => pure)

/-- The rule of the loop. -/
theorem repeatTaking {next next' : α → Cursor → Option (Token → Parser α)} {a : α}
    (hlooks : ∀ a, Looks (next' a)) (step : ∀ a c, Together n 0 c (next a c) (next' a c)) :
    Copies n 0 (repeatTaking next a) (Parser.repeatTaking next' a) c := by
  induction hsize : c.size using Nat.strongRecOn generalizing a c with
  | ind size ih =>
    subst hsize
    intro b c' hb
    have hrun : rounds next a c = (.ok b, c') := hb
    have hstop (hnone : next' a c = none) (j : Nat) (d : Cursor) (hd : c.Cut j d) :
        (Parser.repeatTaking next' a).run d = (.ok a, d) := by
      change rounds next' a d = _
      rw [rounds_eq]
      cases hd with
      | ended _ hend => exact if_pos hend
      | token hsees => rw [hlooks a c d hsees, hnone, ite_self]
    rw [rounds_eq] at hrun
    by_cases hend : c.atEnd = true
    · rw [if_pos hend] at hrun
      cases hrun
      refine ⟨0, Nat.le_refl 0, .refl c, fun j d hj hd => ⟨d, ?_, by rwa [Nat.zero_add] at hd⟩⟩
      change rounds next' a d = _
      rw [rounds_eq, if_pos (hd.atEnd_of_atEnd hend).1]
    · rw [if_neg hend] at hrun
      have htogether := step a c
      generalize next a c = o at htogether hrun
      cases hnext' : next' a c with
      | none =>
        rw [hnext'] at htogether
        cases htogether
        cases hrun
        refine ⟨0, Nat.le_refl 0, .refl c, fun j d hj hd => ?_⟩
        rw [Nat.zero_add] at hd
        exact ⟨d, hstop hnext' j d hd, hd⟩
      | some k' =>
        rw [hnext'] at htogether
        cases htogether with
        | @goOn k _ hend' hk =>
          have hround : Copies n 1 (Parser.take >>= fun t => k t >>= Parser.repeatTaking next)
              (Parser.take >>= fun t => k' t >>= Parser.repeatTaking next') c := by
            refine take_bind hend' fun c₁ ht => bind_left (hk c₁ ht) fun e c₂ he => ?_
            have hlt := Cursor.size_lt_of_take hend' ht
            exact ih _ (Nat.lt_of_le_of_lt (size_le_of_run he) hlt) rfl
          obtain ⟨i, hi, hadvances, hcut⟩ := hround b c' hrun
          refine ⟨i, Nat.zero_le i, hadvances, fun j d hj hd => ?_⟩
          have hsees := hd.sees (by omega)
          obtain ⟨d', hrun', hd'⟩ := hcut j d hj hd
          refine ⟨d', ?_, hd'⟩
          have hend'' : d.atEnd = false := by rw [Cursor.atEnd, hsees.current]; exact hend'
          change rounds next' a d = _
          rw [rounds_eq, if_neg (by simp [hend'']), hlooks a c d hsees, hnext']
          exact hrun'

/-- Skipping tokens. -/
theorem skipWhile {test : Cursor → Bool} (hlooks : ∀ c d : Cursor, c.Sees d → test d = test c)
    (hend : ∀ c : Cursor, test c = true → c.atEnd = false) :
    Copies n 0 (skipWhile test) (Parser.skipWhile test) c := by
  refine repeatTaking (fun _ c d h => by simp only [hlooks c d h]) fun _ c => ?_
  split
  · next ht => exact .goOn (hend c ht) fun _ _ => pure
  · exact .stop

/-- The rule of sequences. -/
theorem separated {item item' : Parser α} {sep : Cursor → Option (Token → Parser Unit)}
    {stop : Cursor → Bool} (hitem : ∀ c, Copies n 1 item item' c) (hlooks : Looks sep)
    (hsep : ∀ c, Together n 0 c (sep c) (sep c))
    (hstop : ∀ i c d, n ≤ i → Cursor.Cut i c d → stop d = stop c) :
    Copies n 1 (separated item sep stop) (Parser.separated item' sep stop) c := by
  refine bind_left (hitem c) fun a c₁ _ => bind_left (repeatTaking ?_ ?_) fun _ _ _ => pure
  · intro as c d h
    simp only [hlooks c d h]
  · intro as c
    have htogether := hsep c
    generalize sep c = o at htogether
    cases htogether with
    | stop => exact .stop
    | goOn hend hk =>
      refine .goOn hend fun c₁ ht => bind_left (hk c₁ ht) fun _ c₂ _ => ?_
      refine look_bind (fun i d hi hd => hstop i c₂ d (by omega) hd) ?_
      split
      · exact pure
      · exact (bind_left (hitem c₂) fun _ _ _ => pure).lax

end Copies
end Parser
end WqSource
