import Mathlib.Order.Bounds.Basic
import Mathlib.Order.Nat
import Mathlib.Data.Nat.Count
import WqSource.Proofs.Grammar.Faults
import WqSource.Proofs.Tree.Balance

/-!
# Where a cursor stands

A cursor stands at some token of the text, and it knows how many brackets are open there by the
tokens in front of that. It does not matter how these have been taken: for statements, as parts of
one that is in error, or to skip them. So the skipping that follows an error ends at the next
separator that is outside all brackets by the text itself.

## Main definitions

* `Token.depthAt`: how many brackets are open in front of a token.
* `Token.separatesAt`, `Token.separatorsBefore`: separators outside brackets.
* `Token.stopsAt`: these and the end.
* `Cursor.StandsAt`.

## Main statements

* `Cursor.StandsAt.leads`: a cursor leads to later tokens.
* `synchronize_stands`: where skipping ends.
-/

namespace WqSource
open Grammar WqSource.Parser

namespace Token

/-- How many brackets the tokens in front of the one with the given index leave open. -/
def depthAt (ts : List Token) (i : Nat) : Nat := Kind.depthBehind 0 ((ts.take i).map kind)

/-- Whether the token with the given index is a separator outside all brackets. -/
def separatesAt (ts : List Token) (i : Nat) : Bool :=
  ts[i]?.any (·.kind.isSeparator) && depthAt ts i == 0

/-- Whether the token with the given index is a separator outside all brackets, or the end. -/
def stopsAt (ts : List Token) (i : Nat) : Bool :=
  separatesAt ts i || ts[i]?.any (·.kind == .endOfInput)

/-- How many separators outside all brackets there are in front of the token with the given
index. -/
def separatorsBefore (ts : List Token) (i : Nat) : Nat := Nat.count (fun j => separatesAt ts j) i

theorem separatorsBefore_mono (ts : List Token) : Monotone (separatorsBefore ts) :=
  Nat.count_monotone _

theorem separatorsBefore_succ {ts : List Token} {i : Nat} (h : separatesAt ts i = true) :
    separatorsBefore ts (i + 1) = separatorsBefore ts i + 1 := by
  rw [separatorsBefore, Nat.count_succ, if_pos h, separatorsBefore]

theorem depthAt_succ {ts : List Token} {i : Nat} {t : Token} (h : ts[i]? = some t) :
    depthAt ts (i + 1) = t.kind.depthAfter (depthAt ts i) := by
  simp [depthAt, List.take_add_one, h, Kind.depthBehind]

end Token

namespace TokenStream

/-- The first of the tokens in front of the first fault. The end is the last of them. -/
theorem EndsLast.leading_eq {s rest : TokenStream} {t : Token} (hs : s.EndsLast)
    (h : s.next = (.ok t, rest)) :
    s.leading = if t.kind == .endOfInput then [t] else t :: rest.leading := by
  cases s with
  | ended place =>
    cases h
    rfl
  | token u rest =>
    cases h
    exact (if_neg (by simpa using hs.1)).symm
  | stuck | fault => cases h

theorem EndsLast.ending {s rest : TokenStream} {t : Token} (hs : s.EndsLast)
    (h : s.next = (.ok t, rest)) (ht : t.kind = .endOfInput) :
    ∃ place, t = .ending place ∧ rest = .ended place := by
  cases s with
  | ended place =>
    cases h
    exact ⟨place, rfl, rfl⟩
  | token u rest =>
    cases h
    exact absurd ht hs.1
  | stuck | fault => cases h

theorem leading_of_next_error {s rest : TokenStream} {e : LexError}
    (h : s.next = (.error e, rest)) : s.leading = [] := by
  cases s <;> cases h <;> rfl

end TokenStream

namespace Cursor

/-- The cursor stands at the token with the given index: that and the tokens ahead of it are those
from there on, and the brackets that are open are those in front of it. -/
structure StandsAt (ts : List Token) (i : Nat) (c : Cursor) : Prop where
  tokens : ts.drop i = if c.atEnd then [c.current] else c.current :: c.ahead.leading
  depth : c.depth = Token.depthAt ts i
  endsLast : c.ahead.EndsLast
  atEnd : c.atEnd = true → ∃ place, c.current = .ending place ∧ c.ahead = .ended place

namespace StandsAt
variable {ts : List Token} {i : Nat} {c c' : Cursor}

theorem getElem? (h : c.StandsAt ts i) : ts[i]? = some c.current := by
  have hfirst : (ts.drop i)[0]? = some c.current := by
    rw [h.tokens]
    split <;> rfl
  simpa using hfirst

theorem lt_length (h : c.StandsAt ts i) : i < ts.length :=
  (List.getElem?_eq_some_iff.1 h.getElem?).1

theorem separatesAt_eq (h : c.StandsAt ts i) :
    Token.separatesAt ts i = (c.atSeparator && c.depth == 0) := by
  rw [Token.separatesAt, h.getElem?, ← h.depth]
  rfl

theorem stopsAt_eq (h : c.StandsAt ts i) :
    Token.stopsAt ts i = (c.atSeparator && c.depth == 0 || c.atEnd) := by
  rw [Token.stopsAt, h.separatesAt_eq, h.getElem?]
  rfl

/-- A place to stop at is outside all brackets, unless it is the end. -/
theorem depth_eq_zero (h : c.StandsAt ts i) (hstop : Token.stopsAt ts i = true)
    (hend : c.atEnd = false) : c.depth = 0 := by
  rw [h.stopsAt_eq, hend, Bool.or_false, Bool.and_eq_true] at hstop
  simpa using hstop.2

theorem note (h : c.StandsAt ts i) (p : Problem) : (c.note p).StandsAt ts i :=
  ⟨h.tokens, h.depth, h.endsLast, h.atEnd⟩

/-- Behind a token that is taken stands the next one. -/
theorem take {t : Token} (h : c.StandsAt ts i) (hend : c.atEnd = false)
    (ht : c.take = (.ok t, c')) : c'.StandsAt ts (i + 1) := by
  obtain ⟨rfl, next, ahead, hn, rfl⟩ := take_ok ht
  refine ⟨?_, ?_, (h.endsLast.next hn).1, fun hk =>
    h.endsLast.ending hn (by simpa [Cursor.atEnd] using hk)⟩
  · have hleading : ts.drop (i + 1) = c.ahead.leading := by
      rw [← List.tail_drop, h.tokens, hend]
      rfl
    rw [hleading, h.endsLast.leading_eq hn]
    rfl
  · rw [Token.depthAt_succ h.getElem?, ← h.depth]
    rfl

/-- Behind the end of the input there is the end. -/
theorem take_atEnd {t : Token} (h : c.StandsAt ts i) (hend : c.atEnd = true)
    (ht : c.take = (.ok t, c')) : c'.StandsAt ts i := by
  obtain ⟨rfl, next, ahead, hn, rfl⟩ := take_ok ht
  obtain ⟨place, hcurrent, hahead⟩ := h.atEnd hend
  rw [hahead] at hn
  cases hn
  refine ⟨?_, ?_, trivial, fun _ => ⟨place, rfl, rfl⟩⟩
  · rw [h.tokens, if_pos hend, hcurrent]
    rfl
  · rw [← h.depth]
    simp [shift, hcurrent, Token.ending, Token.Kind.depthAfter]

/-- A cursor leads to later tokens. -/
theorem leads (h : c.StandsAt ts i) (hc : c.Leads c') : ∃ j, i ≤ j ∧ c'.StandsAt ts j := by
  have step {b d : Cursor} {t : Token} (hb : ∃ j, i ≤ j ∧ b.StandsAt ts j)
      (ht : b.take = (.ok t, d)) : ∃ j, i ≤ j ∧ d.StandsAt ts j := by
    obtain ⟨j, hij, hj⟩ := hb
    cases hend : b.atEnd with
    | true => exact ⟨j, hij, hj.take_atEnd hend ht⟩
    | false => exact ⟨j + 1, by omega, hj.take hend ht⟩
  obtain ⟨us, hc⟩ := hc
  induction hc with
  | refl => exact ⟨i, le_rfl, h⟩
  | take _ ht ih => exact step ih ht
  | warn _ ht _ _ ih =>
    obtain ⟨j, hij, hj⟩ := step ih ht
    exact ⟨j, hij, hj.note _⟩

/-- If a token cannot be taken, there is none behind it. -/
theorem length_of_take_error {e : ParseError} (h : c.StandsAt ts i) (ht : c.take = (.error e, c')) :
    ts.length = i + 1 := by
  unfold Cursor.take at ht
  split at ht
  · cases ht
  · next f ahead hn =>
    have hlast : ts.drop i = [c.current] := by
      rw [h.tokens, TokenStream.leading_of_next_error hn, ite_self]
    have hlength := congrArg List.length hlast
    have hlt := h.lt_length
    simp only [List.length_drop, List.length_singleton] at hlength
    omega

end StandsAt

/-- In front of a text the cursor stands at its first token. -/
theorem standsAt_ofString {source : String} {c : Cursor} (h : Cursor.ofString source = .ok c) :
    c.StandsAt (leadingTokens source) 0 := by
  have hends := Lexer.stream_endsLast (Lexer.ofString source)
  unfold Cursor.ofString at h
  split at h
  · next t ahead hn =>
    cases h
    exact ⟨hends.leading_eq hn, rfl, (hends.next hn).1, fun hk =>
      hends.ending hn (by simpa [Cursor.atEnd] using hk)⟩
  · cases h

end Cursor

/-! ## Skipping -/

/-- Skipping ends in front of a token that is not skipped, or at one that has a fault behind it. -/
theorem Parser.skipWhile_ends {test : Cursor → Bool} {I : Cursor → Prop} {c : Cursor} (init : I c)
    (step : ∀ c c₁, I c → c.atEnd = false → test c = true → c.take = (.ok c.current, c₁) → I c₁) :
    match (skipWhile test).run c with
    | (.ok _, c') => I c' ∧ (c'.atEnd = true ∨ test c' = false)
    | (.error e, c') => ∃ c₁, I c₁ ∧ test c₁ = true ∧ c₁.take = (.error e, c') := by
  simp only [skipWhile, repeatTaking]
  generalize () = a
  fun_induction rounds (fun _ c => if test c then some fun _ => (pure () : Parser Unit) else none)
    a c with
  | case1 a c hend => exact ⟨init, .inl hend⟩
  | case2 a c _ hn => exact ⟨init, .inr (by simpa using hn)⟩
  | case3 a c _ goOn hn e c₁ ht =>
    have htest : test c = true := by
      split at hn
      · assumption
      · cases hn
    exact ⟨c, init, htest, ht⟩
  | case4 a c _ goOn hn t c₁ ht e c₂ hb =>
    split at hn <;> cases hn
    cases hb
  | case5 a c hend goOn hn t c₁ ht b c₂ hb ih =>
    split at hn <;> cases hn
    next htest =>
    cases hb
    obtain ⟨rfl, -⟩ := Cursor.take_ok ht
    exact ih (step c _ init (by simpa using hend) htest ht)

namespace Cursor
variable {ts : List Token} {i j : Nat} {c c' : Cursor}

theorem problems_take_error {e : ParseError} (h : c.take = (.error e, c')) :
    c'.problems = c.problems := by
  unfold Cursor.take at h
  split at h <;> cases h
  rfl

/-- Whether skipping goes on. -/
def skipped (c : Cursor) : Bool := !(c.atSeparator && c.depth == 0)

/-- The cursor stands no earlier than at the given token, and there is no place to stop at from
that token to where it stands. -/
def Skips (ts : List Token) (i : Nat) (c : Cursor) : Prop :=
  ∃ j, i ≤ j ∧ c.StandsAt ts j ∧ ∀ k, i ≤ k → k < j → Token.stopsAt ts k = false

/-- No token that is skipped is a place to stop at. -/
theorem StandsAt.stopsAt_of_skipped (h : c.StandsAt ts j) (hend : c.atEnd = false)
    (hc : c.skipped = true) : Token.stopsAt ts j = false := by
  rw [h.stopsAt_eq, hend, Bool.or_false]
  simpa only [skipped, Bool.not_eq_true'] using hc

theorem Skips.take (h : c.Skips ts i) (hend : c.atEnd = false) (hc : c.skipped = true)
    (ht : c.take = (.ok c.current, c')) : c'.Skips ts i := by
  obtain ⟨j, hij, hj, hbefore⟩ := h
  refine ⟨j + 1, by omega, hj.take hend ht, fun k hik hkj => ?_⟩
  rcases Nat.lt_succ_iff_lt_or_eq.1 hkj with hkj | rfl
  · exact hbefore k hik hkj
  · exact hj.stopsAt_of_skipped hend hc

/-- If a token that is skipped is the last one in front of a fault, there is no place to stop at. -/
theorem Skips.stopsAt_eq_false {e : ParseError} (h : c.Skips ts i) (hc : c.skipped = true)
    (ht : c.take = (.error e, c')) {k : Nat} (hik : i ≤ k) : Token.stopsAt ts k = false := by
  obtain ⟨j, -, hj, hbefore⟩ := h
  rcases Nat.lt_trichotomy k j with hkj | rfl | hjk
  · exact hbefore k hik hkj
  · refine hj.stopsAt_of_skipped ?_ hc
    by_contra hend
    obtain ⟨place, -, hahead⟩ := hj.atEnd (by simpa using hend)
    rw [Cursor.take, hahead] at ht
    cases ht
  · have hlength := hj.length_of_take_error ht
    have hnone : ts[k]? = none := List.getElem?_eq_none (by omega)
    simp [Token.stopsAt, Token.separatesAt, hnone]

/-- A token that is not skipped is the first place to stop at. -/
theorem Skips.isLeast (h : c.Skips ts i) (hc : c.atEnd = true ∨ c.skipped = false) :
    ∃ j, IsLeast {j | i ≤ j ∧ Token.stopsAt ts j = true} j ∧ c.StandsAt ts j := by
  obtain ⟨j, hij, hj, hbefore⟩ := h
  have hstops : Token.stopsAt ts j = true := by
    rw [hj.stopsAt_eq]
    rcases hc with hend | hc
    · rw [hend, Bool.or_true]
    · have hseparator : (c.atSeparator && c.depth == 0) = true := by
        simpa only [skipped, Bool.not_eq_false'] using hc
      rw [hseparator, Bool.true_or]
  refine ⟨j, ⟨⟨hij, hstops⟩, fun k ⟨hik, hk⟩ => ?_⟩, hj⟩
  by_contra hkj
  rw [hbefore k hik (by omega)] at hk
  cases hk

end Cursor

namespace Grammar
variable {ts : List Token} {i : Nat} {c : Cursor}

theorem synchronize_eq : synchronize = skipWhile Cursor.skipped := rfl

/-- Skipping notes nothing. -/
theorem synchronize_problems (c : Cursor) : (synchronize.run c).2.problems = c.problems := by
  have hends := @skipWhile_ends Cursor.skipped (fun b => b.problems = c.problems) c rfl
    fun b b₁ hb _ _ ht => (Cursor.problems_take ht).trans hb
  rw [synchronize_eq]
  rcases h : (skipWhile Cursor.skipped).run c with ⟨e | _, c'⟩ <;> rw [h] at hends
  · obtain ⟨b, hb, -, ht⟩ := hends
    exact (Cursor.problems_take_error ht).trans hb
  · exact hends.1

/-- Skipping ends at the first separator outside all brackets, or at the end. It fails only if
there is neither in front of the first fault. -/
theorem synchronize_stands (h : c.StandsAt ts i) :
    match synchronize.run c with
    | (.ok _, c') => ∃ j, IsLeast {j | i ≤ j ∧ Token.stopsAt ts j = true} j ∧ c'.StandsAt ts j
    | (.error _, _) => ∀ j, i ≤ j → Token.stopsAt ts j = false := by
  have hinit : c.Skips ts i := ⟨i, le_rfl, h, fun k hk hki => absurd hk (by omega)⟩
  have hends := @skipWhile_ends Cursor.skipped _ c hinit fun b b₁ hb => hb.take
  rw [synchronize_eq]
  rcases hrun : (skipWhile Cursor.skipped).run c with ⟨e | _, c'⟩ <;> rw [hrun] at hends
  · obtain ⟨b, hb, hskipped, ht⟩ := hends
    exact fun j hij => hb.stopsAt_eq_false hskipped ht hij
  · exact hends.1.isLeast hends.2

end Grammar
end WqSource
