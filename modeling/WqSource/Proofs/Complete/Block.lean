import WqSource.Proofs.Sound.Block
import WqSource.Proofs.Tree.Erase

/-!
# What is written between brackets is read back

A cursor views a list of kinds if these are what it takes up to the end of the input. There
are no faults on the way, and every opening bracket touches the token in front of it, as
in a tree that is written.

If the parts of a sequence are read back, each in front of what stands behind it, then so is
the sequence. `Inner.Complete` says what is asked of the parsers of expressions.

## Main definitions

* `Cursor.Views`: the tokens that are still to be taken.
* `Parser.Rereads`: reading a part back.
* `Grammar.Inner.Complete`.

## Main statements

* `Succeeds.separated_rereads`: the rule of sequences.
* `items_rereads`, `functionBody_rereads`, `arm_rereads`, `firstArm_rereads`,
  `head_rereads`.
-/

namespace WqSource
open Grammar WqSource.Parser

/-! ## What is still to be taken -/

/-- The kind that is first among some, or the end of the input. -/
def Token.Kind.front (ks : List Token.Kind) : Token.Kind := ks.headD .endOfInput

@[simp] theorem Token.Kind.front_cons (k : Token.Kind) (ks : List Token.Kind) :
    front (k :: ks) = k := rfl

@[simp] theorem Token.Kind.front_nil : front [] = .endOfInput := rfl

open Token.Kind (front)

/-- The tokens of a stream have the given kinds, and opening brackets touch what is in front
of them. The byte is where the token in front of the first ends. -/
inductive TokenStream.Shows : List Token.Kind → Nat → TokenStream → Prop where
  | ended (place : Position) (stop : Nat) : Shows [] stop (.ended place)
  | token {t : Token} {ks : List Token.Kind} {stop : Nat} {rest : TokenStream} :
    t.kind ≠ .endOfInput → (t.kind = .punct .openBracket → t.span.start.offset = stop) →
      Shows ks t.span.stop.offset rest → Shows (t.kind :: ks) stop (.token t rest)

/-- The tokens from the current one on have the given kinds. -/
def Cursor.Views (c : Cursor) : List Token.Kind → Prop
  | [] => c.atEnd = true
  | k :: ks => (TokenStream.token c.current c.ahead).Shows (k :: ks) c.lastEnd.offset

namespace Cursor
variable {c : Cursor} {k : Token.Kind} {ks : List Token.Kind}

theorem Views.kind (h : c.Views ks) : c.current.kind = front ks := by
  cases ks with
  | nil => simpa [Views, atEnd] using h
  | cons k ks =>
    cases h
    rfl

theorem Views.looksAt (h : c.Views ks) (p : Punct) : c.looksAt p = (front ks == .punct p) := by
  rw [Cursor.looksAt, h.kind]

theorem Views.atNewline (h : c.Views ks) : c.atNewline = (front ks == .newline) := by
  rw [Cursor.atNewline, h.kind]

theorem Views.atSeparator (h : c.Views ks) : c.atSeparator = (front ks).isSeparator := by
  rw [Cursor.atSeparator, h.kind]

theorem Views.atEnd_eq_false (h : c.Views (k :: ks)) : c.atEnd = false := by
  cases h with
  | token hne => simpa [Cursor.atEnd] using hne

theorem Views.note (h : c.Views ks) (p : Problem) : (c.note p).Views ks := by
  cases ks <;> exact h

/-- Index brackets touch what they index. -/
theorem Views.atAdjacentBracket (h : c.Views ks) :
    c.atAdjacentBracket = (front ks == .punct .openBracket) := by
  unfold Cursor.atAdjacentBracket
  rw [h.looksAt]
  cases ks with
  | nil => rfl
  | cons k ks =>
    cases h with
    | token _ htouch =>
      by_cases hk : c.current.kind = .punct .openBracket
      · simp [hk, htouch hk]
      · simp [hk]

/-- The next token can be taken, and what is viewed then is what is left. -/
theorem Views.take (h : c.Views (k :: ks)) :
    ∃ c', c.take = (.ok c.current, c') ∧ c'.Views ks := by
  cases h with
  | token hne htouch hrest =>
    unfold Cursor.take
    generalize c.ahead = ahead at hrest
    cases hrest with
    | ended place => exact ⟨_, rfl, rfl⟩
    | token hne' htouch' hrest' => exact ⟨_, rfl, .token hne' htouch' hrest'⟩

theorem Views.peek (h : c.Views (k :: ks)) : c.peek = (.ok (front ks), c) := by
  cases h with
  | token hne htouch hrest =>
    unfold Cursor.peek
    generalize c.ahead = ahead at hrest
    cases hrest with
    | ended place => rfl
    | token hne' htouch' hrest' => rfl

end Cursor

/-! ## Reading back -/

/-- In front of the given kinds, the parser reads a part that is written with the kinds
`ws`: what it gives agrees with `a` as far as `f` tells. -/
def Parser.Rereads {α β : Type} (p : Parser α) (f : α → β) (a : α) (ws ks : List Token.Kind) :
    Prop :=
  ∀ c : Cursor, c.Views (ws ++ ks) → p.Succeeds c fun b c' => f b = f a ∧ c'.Views ks

namespace Parser.Succeeds
variable {α : Type} {c : Cursor}

theorem skipWhile_stop {test : Cursor → Bool} {Q : Unit → Cursor → Prop} (hc : test c = false)
    (h : Q () c) : (skipWhile test).Succeeds c Q :=
  repeatTaking_stop (by simp [hc]) h

/-- Nothing is skipped in front of what is no separator. -/
theorem skipNewlines {ks : List Token.Kind} {Q : Unit → Cursor → Prop} (hc : c.Views ks)
    (hk : front ks ≠ .newline) (h : Q () c) : Parser.skipNewlines.Succeeds c Q :=
  skipWhile_stop (by simpa [hc.atNewline] using hk) h

theorem expect_views {p : Punct} {expected : Expectation} {ks : List Token.Kind}
    {Q : Unit → Cursor → Prop} (hc : c.Views (.punct p :: ks))
    (h : ∀ c', c'.Views ks → Q () c') : (Parser.expect p expected).Succeeds c Q := by
  obtain ⟨c', ht, hc'⟩ := hc.take
  exact expect (by simp [hc.looksAt]) ht (h c' hc')

theorem discard_take_views {k : Token.Kind} {ks : List Token.Kind} {Q : PUnit → Cursor → Prop}
    (hc : c.Views (k :: ks)) (h : ∀ c', c'.Views ks → Q ⟨⟩ c') :
    (discard Parser.take).Succeeds c Q := by
  obtain ⟨c', ht, hc'⟩ := hc.take
  exact discard_take ht (h c' hc')

variable {β : Type} {item : Parser α} {f : α → β} {w : α → List Token.Kind} {s : Token.Kind}
  {ks : List Token.Kind} {sep : Cursor → Option (Token → Parser Unit)} {stop : Cursor → Bool}

/-- A separator of kind `s` is passed, and the sequence goes on behind it. -/
def GoesOn (sep : Cursor → Option (Token → Parser Unit)) (stop : Cursor → Bool)
    (s : Token.Kind) (ls : List Token.Kind) : Prop :=
  ∀ c c₁ : Cursor, c.Views (s :: ls) → c.take = (.ok c.current, c₁) → c₁.Views ls →
    ∃ goOn, sep c = some goOn ∧
      (goOn c.current).Succeeds c₁ fun _ c₂ => c₂.Views ls ∧ stop c₂ = false

/-- The rule of sequences. Every item but the last is read back in front of a separator, and
the last one in front of what is behind the sequence. -/
theorem separated_rereads {as : List α} (hne : as ≠ [])
    (hinit : ∀ a ∈ as.dropLast, ∀ ls, front ls = s → item.Rereads f a (w a) ls)
    (hlast : ∀ a ∈ as.getLast?, item.Rereads f a (w a) ks)
    (hsep : ∀ a ∈ as, ∀ ls, GoesOn sep stop s (w a ++ ls))
    (hend : ∀ c : Cursor, c.Views ks → sep c = none)
    (hc : c.Views ([s].intercalate (as.map w) ++ ks)) :
    (separated item sep stop).Succeeds c fun bs c' =>
      (bs.1 :: bs.2).map f = as.map f ∧ c'.Views ks := by
  -- An item with others behind it is not the last one.
  have next (a : α) (as : List α)
      (hinit : ∀ b ∈ (a :: as).dropLast, ∀ ls, front ls = s → item.Rereads f b (w b) ls)
      (hlast : ∀ b ∈ (a :: as).getLast?, item.Rereads f b (w b) ks) :
      item.Rereads f a (w a) (as.flatMap (fun a => s :: w a) ++ ks) := by
    cases as with
    | nil => exact hlast a rfl
    | cons b as => exact hinit a (by simp) _ rfl
  have tail (a : α) (as : List α) : (∀ b ∈ as.dropLast, b ∈ (a :: as).dropLast) ∧
      ∀ b ∈ as.getLast?, b ∈ (a :: as).getLast? := by
    cases as with
    | nil => exact ⟨nofun, nofun⟩
    | cons b as => exact ⟨fun _ h => by simpa using .inr h, fun _ h => by simpa using h⟩
  have rest (as : List α)
      (hinit : ∀ a ∈ as.dropLast, ∀ ls, front ls = s → item.Rereads f a (w a) ls)
      (hlast : ∀ a ∈ as.getLast?, item.Rereads f a (w a) ks)
      (hsep : ∀ a ∈ as, ∀ ls, GoesOn sep stop s (w a ++ ls)) :
      ∀ (bs : List α) (c : Cursor), c.Views (as.flatMap (fun a => s :: w a) ++ ks) →
        (repeatTaking (fun items c => (sep c).map fun goOn t => do
          goOn t
          if ← look stop then return items
          return items ++ [← item]) bs).Succeeds c fun ds c' =>
            ds.map f = bs.map f ++ as.map f ∧ c'.Views ks := by
    induction as with
    | nil =>
      intro bs c hc
      refine repeatTaking_stop ?_ ⟨by simp, hc⟩
      rw [hend c hc]
      rfl
    | cons a as ih =>
      intro bs c hc
      rw [List.flatMap_cons, List.cons_append, List.cons_append, List.append_assoc] at hc
      obtain ⟨c₁, ht, hc₁⟩ := hc.take
      obtain ⟨goOn, hs, hgoOn⟩ := hsep a (by simp) _ c c₁ hc ht hc₁
      refine repeatTaking_step hc.atEnd_eq_false (by rw [hs]; rfl) ht ?_
      refine bind (hgoOn.mono fun _ c₂ h₂ => look_bind ?_)
      rw [if_neg (by simp [h₂.2])]
      refine bind ((next a as hinit hlast c₂ h₂.1).mono fun b c₃ h₃ => pure ?_)
      exact (ih (fun b hb => hinit b ((tail a as).1 b hb)) (fun b hb => hlast b ((tail a as).2 b hb))
        (fun b hb => hsep b (by simp [hb])) _ c₃ h₃.2).mono
          fun ds c' h => ⟨by simpa [h₃.1] using h.1, h.2⟩
  obtain ⟨a, as, rfl⟩ := List.exists_cons_of_ne_nil hne
  rw [List.map_cons, intercalate_cons_eq_flatMap, List.flatMap_map, List.append_assoc] at hc
  refine bind ((next a as hinit hlast c hc).mono fun b c₁ h₁ => bind ?_)
  exact (rest as (fun b hb => hinit b ((tail a as).1 b hb)) (fun b hb => hlast b ((tail a as).2 b hb))
    (fun b hb => hsep b (by simp [hb])) [] c₁ h₁.2).mono
      fun ds c' h => pure ⟨by simpa [h₁.1] using h.1, h.2⟩

end Parser.Succeeds

/-- What is asked of the parsers of expressions inside one with `n` levels in it. -/
structure Grammar.Inner.Complete (inner : Inner) (n : Nat) : Prop where
  expression : ∀ (e : Expr) ks, e.NestsIn n → (front ks).joinsAt? true = none →
    inner.expression.Rereads Expr.erase e e.kinds ks
  exponent : ∀ (e : Expr) ks, e.NestsIn n → .unary ≤ e.rank →
    (front ks).StopsAt true .unary → e.ending.Admits true (front ks) →
      inner.exponent.Rereads Expr.erase e e.kinds ks

/-- Whether the first of some tokens begins an expression. -/
def Token.Kind.StartsExpression (ks : List Token.Kind) : Prop :=
  ∃ k ls, ks = k :: ls ∧ k.startsExpression = true

open Token.Kind (StartsExpression)

namespace Token.Kind
variable {ks : List Token.Kind}

theorem StartsExpression.front_ne (h : StartsExpression ks) {k : Token.Kind}
    (hk : k.startsExpression = false) (ls : List Token.Kind) : front (ks ++ ls) ≠ k := by
  obtain ⟨l, ks, rfl, hl⟩ := h
  rintro rfl
  simp [hl] at hk

end Token.Kind

theorem Expr.NestsIn.startsExpression {n : Nat} {e : Expr} (h : e.NestsIn n) :
    StartsExpression e.kinds := by
  obtain ⟨m, -, he⟩ := h
  obtain ⟨k, ks, hk, hstart, -⟩ := Expr.kinds_eq_cons he
  exact ⟨k, ks, hk, hstart⟩

theorem Branch.NestsIn.startsExpression {n : Nat} {b : Branch} (hb : b.NestsIn n)
    {s : Statement} (hs : s ∈ b.statements) : StartsExpression s.kinds := by
  obtain ⟨e, rfl, he⟩ := hb.expressions s hs
  exact he.startsExpression

theorem Branch.NestsIn.front_ne {n : Nat} {b : Branch} (hb : b.NestsIn n) {k : Token.Kind}
    (hk : k.startsExpression = false) (sep ks : List Token.Kind) :
    front (b.kinds sep ++ ks) ≠ k := by
  obtain ⟨s, ss, hss⟩ := List.exists_cons_of_ne_nil hb.nonempty
  rw [Branch.kinds, hss, List.map_cons, intercalate_cons_eq_flatMap, List.append_assoc]
  exact (hb.startsExpression (by simp [hss])).front_ne hk _

namespace Grammar
variable {α β : Type} {item : Parser α} {f : α → β} {w : α → List Token.Kind}
  {ks : List Token.Kind}

/-! ## Items -/

/-- A semicolon is passed as a separator. -/
theorem separator_goesOn {ls : List Token.Kind} {close : Punct} (hls : StartsExpression ls)
    (hclose : (Token.Kind.punct close).startsExpression = false) (ls' : List Token.Kind) :
    Succeeds.GoesOn separator (·.looksAt close) (.punct .semicolon) (ls ++ ls') := by
  intro c c₁ hc ht hc₁
  refine ⟨restOfSeparator, if_pos (by simp [hc.atSeparator, Token.Kind.isSeparator]), ?_⟩
  unfold restOfSeparator
  rw [if_neg (by simp [hc.kind])]
  refine Succeeds.skipNewlines hc₁ (hls.front_ne rfl ls') ⟨hc₁, ?_⟩
  change c₁.looksAt close = false
  simpa [hc₁.looksAt] using hls.front_ne hclose ls'

theorem separator_eq_none_of_views {c : Cursor} (hc : c.Views ks)
    (hk : (front ks).isSeparator = false) : separator c = none :=
  if_neg (by simp [hc.atSeparator, hk])

theorem items_rereads {close : Punct} {as : List α}
    (hclose : close = .closeParen ∨ close = .closeBracket)
    (hstart : ∀ a ∈ as, StartsExpression (w a))
    (hitem : ∀ a ∈ as, ∀ ls, (front ls).joinsAt? true = none → item.Rereads f a (w a) ls) :
    (items close item).Rereads (List.map f) as
      ([.punct .semicolon].intercalate (as.map w) ++ [.punct close]) ks := by
  have hnone : (Token.Kind.punct close).joinsAt? true = none ∧
      (Token.Kind.punct close).startsExpression = false ∧
      (Token.Kind.punct close).isSeparator = false := by
    rcases hclose with rfl | rfl <;> exact ⟨rfl, rfl, rfl⟩
  intro c hc
  rw [List.append_assoc, List.singleton_append] at hc
  have closing (bs : List α) (c₁ : Cursor) (h : bs.map f = as.map f)
      (hc₁ : c₁.Views (.punct close :: ks)) :
      (do expect close (.itemEnd close); return bs : Parser (List α)).Succeeds c₁ fun bs c' =>
        bs.map f = as.map f ∧ c'.Views ks :=
    Succeeds.bind (Succeeds.expect_views hc₁ fun c₂ hc₂ => Succeeds.pure ⟨h, hc₂⟩)
  cases as with
  | nil =>
    refine Succeeds.bind (Succeeds.skipNewlines hc (by simp) (Succeeds.look_bind ?_))
    rw [if_pos (by simp [hc.looksAt])]
    exact Succeeds.bind (Succeeds.pure (closing [] c rfl hc))
  | cons a as =>
    have hfront (k : Token.Kind) (hk : k.startsExpression = false) :
        front ([.punct .semicolon].intercalate ((a :: as).map w) ++ .punct close :: ks) ≠ k := by
      rw [List.map_cons, intercalate_cons_eq_flatMap, List.append_assoc]
      exact (hstart a (by simp)).front_ne hk _
    refine Succeeds.bind (Succeeds.skipNewlines hc (hfront _ rfl) (Succeeds.look_bind ?_))
    rw [if_neg (by simpa [hc.looksAt] using hfront _ hnone.2.1)]
    refine Succeeds.bind ((Succeeds.separated_rereads (f := f) (by simp)
      (fun b hb ls hls => hitem b (List.dropLast_subset _ hb) ls (by rw [hls]; rfl))
      (fun b hb => hitem b (List.mem_of_getLast? hb) (.punct close :: ks) hnone.1)
      (fun b hb => separator_goesOn (hstart b hb) hnone.2.1)
      (fun c' hc' => ?_) hc).mono fun bs c₁ h => ?_)
    · exact separator_eq_none_of_views hc' hnone.2.2
    · exact Succeeds.bind (Succeeds.pure (closing _ c₁ h.1 h.2))

/-! ## Statements -/

variable {inner : Inner} {n : Nat}

theorem statement_rereads (hi : inner.Complete n) {e : Expr} (he : e.NestsIn n)
    (hks : (front ks).joinsAt? true = none) :
    (statement inner).Rereads Statement.erase (.expression e) e.kinds ks := by
  intro c hc
  refine Succeeds.look_bind ?_
  split
  · next payload hk =>
    rw [hc.kind] at hk
    exact absurd hk (he.startsExpression.front_ne rfl ks)
  · refine Succeeds.bind ((hi.expression e ks he hks c hc).mono fun x c₁ h => Succeeds.pure ?_)
    rw [Statement.erase, Statement.erase, h.1]
    exact ⟨rfl, h.2⟩

/-- The statements of a branch are read back, with one kind of separators between them. -/
theorem statements_rereads {sep : Cursor → Option (Token → Parser Unit)} {stop : Cursor → Bool}
    {s : Token.Kind} (hi : inner.Complete n) {b : Branch} (hb : b.NestsIn n)
    (hs : s.joinsAt? true = none) (hks : (front ks).joinsAt? true = none)
    (hsep : ∀ ls ls', StartsExpression ls → Succeeds.GoesOn sep stop s (ls ++ ls'))
    (hend : ∀ c : Cursor, c.Views ks → sep c = none) :
    (statements inner sep stop).Rereads Branch.erase b (b.kinds [s]) ks := by
  intro c hc
  have each (t : Statement) (ht : t ∈ b.statements) (ls : List Token.Kind)
      (hls : (front ls).joinsAt? true = none) :
      (statement inner).Rereads Statement.erase t t.kinds ls := by
    obtain ⟨e, rfl, he⟩ := hb.expressions t ht
    exact statement_rereads hi he hls
  refine Succeeds.bind ((Succeeds.separated_rereads (f := Statement.erase) hb.nonempty
    (fun t ht ls hls => each t (List.dropLast_subset _ ht) ls (by rwa [hls]))
    (fun t ht => each t (List.mem_of_getLast? ht) ks hks)
    (fun t ht ls => hsep _ ls (hb.startsExpression ht)) hend hc).mono
      fun ts c₁ h => Succeeds.pure ?_)
  · refine ⟨?_, h.2⟩
    rw [Branch.erase_eq, Branch.erase_eq b, ← h.1]
    rfl

theorem functionBody_rereads (hi : inner.Complete n) {body : Option Branch}
    (hbody : ∀ b ∈ body, b.NestsIn n) :
    (functionBody inner).Rereads (Option.map Branch.erase) body
      (body.elim [] (Branch.kinds [.punct .semicolon]) ++ [.punct .closeBrace]) ks := by
  intro c hc
  rw [List.append_assoc, List.singleton_append] at hc
  have closing (body' : Option Branch) (c₁ : Cursor)
      (h : body'.map Branch.erase = body.map Branch.erase)
      (hc₁ : c₁.Views (.punct .closeBrace :: ks)) :
      (do expect .closeBrace .bodyStatementEnd; return body' : Parser (Option Branch)).Succeeds
        c₁ fun b c' => b.map Branch.erase = body.map Branch.erase ∧ c'.Views ks :=
    Succeeds.bind (Succeeds.expect_views hc₁ fun c₂ hc₂ => Succeeds.pure ⟨h, hc₂⟩)
  cases body with
  | none =>
    refine Succeeds.bind (Succeeds.skipWhile_stop (by simp [Cursor.Views.atSeparator hc,
      Token.Kind.isSeparator]) (Succeeds.look_bind ?_))
    rw [if_pos (by simp [Cursor.Views.looksAt hc])]
    exact Succeeds.bind (Succeeds.pure (closing none c rfl hc))
  | some b =>
    have hb := hbody b rfl
    have hfront (k : Token.Kind) (hk : k.startsExpression = false) :
        front (b.kinds [.punct .semicolon] ++ .punct .closeBrace :: ks) ≠ k :=
      hb.front_ne hk _ _
    have hseparator : c.atSeparator = false := by
      rw [Cursor.Views.atSeparator hc]
      generalize hk : front _ = k
      cases k with
      | newline => exact absurd hk (hfront _ rfl)
      | punct p => cases p <;> first | rfl | exact absurd hk (hfront _ rfl)
      | _ => rfl
    refine Succeeds.bind (Succeeds.skipWhile_stop hseparator (Succeeds.look_bind ?_))
    rw [if_neg (by simpa [Cursor.Views.looksAt hc] using hfront (.punct .closeBrace) rfl)]
    refine Succeeds.bind (Succeeds.map ((statements_rereads hi hb rfl rfl ?_ ?_ c hc).mono
      fun b' c₁ h => closing (some b') c₁ (by simp [h.1]) h.2))
    · intro ls ls' hls c₁ c₂ hc₁ ht hc₂
      refine ⟨_, if_pos (by simp [hc₁.atSeparator, Token.Kind.isSeparator]), ?_⟩
      refine Succeeds.skipWhile_stop ?_ ⟨hc₂, ?_⟩
      · rw [hc₂.atSeparator]
        obtain ⟨k, ls, rfl, hk⟩ := hls
        have := Token.Kind.isWord_of_startsExpression hk
        simp [Token.Kind.isWord] at this
        exact this.1
      · simpa [hc₂.looksAt] using hls.front_ne (k := .punct .closeBrace) rfl ls'
    · intro c₁ hc₁
      exact if_neg (by simp [hc₁.atSeparator, Token.Kind.isSeparator])

theorem arm_rereads (hi : inner.Complete n) {b : Branch} (hb : b.NestsIn n) :
    (arm inner).Rereads Branch.erase b (b.kinds [.punct .semicolon])
      (.punct .closeBracket :: ks) := by
  intro c hc
  refine Succeeds.bind (Succeeds.skipNewlines hc (hb.front_ne rfl _ _) ?_)
  exact statements_rereads hi hb rfl rfl (fun ls ls' hls => separator_goesOn hls rfl ls')
    (fun c' hc' => separator_eq_none_of_views hc' rfl) c hc

theorem firstArm_rereads (hi : inner.Complete n) {b : Branch} (hb : b.NestsIn n) :
    (firstArm inner).Rereads Branch.erase b (b.kinds [.newline])
      (.punct .semicolon :: ks) := by
  intro c hc
  refine Succeeds.bind (Succeeds.skipNewlines hc (hb.front_ne rfl _ _) ?_)
  refine statements_rereads hi hb rfl rfl (fun ls ls' hls c₁ c₂ hc₁ ht hc₂ => ?_)
    (fun c' hc' => if_neg (by simp [hc'.atNewline])) c hc
  refine ⟨_, if_pos (by simp [hc₁.atNewline]), Succeeds.pure ⟨hc₂, ?_⟩⟩
  have hclose := hls.front_ne (k := .punct .closeBracket) rfl ls'
  have hsemicolon := hls.front_ne (k := .punct .semicolon) rfl ls'
  simp [hc₂.looksAt, hclose, hsemicolon]

theorem head_rereads (hi : inner.Complete n) {e : Expr} (he : e.NestsIn n)
    (hks : front ks ≠ .newline) :
    (head inner).Rereads Expr.erase e (e.kinds ++ [.punct .semicolon]) ks := by
  intro c hc
  rw [List.append_assoc, List.singleton_append] at hc
  refine Succeeds.bind (Succeeds.skipNewlines hc (he.startsExpression.front_ne rfl _) ?_)
  refine Succeeds.bind ((hi.expression e _ he rfl c hc).mono fun x c₁ h => ?_)
  obtain ⟨c₂, ht, hc₂⟩ := h.2.take
  refine Succeeds.bind (Succeeds.choose (by
    rw [if_neg (by simp [h.2.atNewline]), if_pos (by simp [h.2.looksAt])]) ht ?_)
  exact Succeeds.skipNewlines hc₂ hks (Succeeds.pure ⟨h.1, hc₂⟩)

end Grammar
end WqSource
