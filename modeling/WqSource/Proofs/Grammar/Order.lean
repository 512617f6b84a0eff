import WqSource.Proofs.Grammar.Lawful
import WqSource.Proofs.Token.Valid

/-!
# Problems come in order

Tokens come in the order of the places where they begin, and so do the faults between
them. A warning is noted where its name is taken, and an error is about the current token
or a fault behind it. So problems are noted in the order of their places, and sorting them
changes nothing.

## Main definitions

* `TokenStream.From`, `Cursor.Ordered`: nothing ahead begins in front of the current token,
  and no problem behind it.

## Main statements

* `Cursor.Ordered.ends`: the order is kept by every run that takes tokens.
-/

namespace WqSource
open Grammar

/-- Where a problem begins, in bytes. -/
def Problem.offset (p : Problem) : Nat := p.span.start.offset

/-- Whether the tokens and faults of a stream begin in order, the first of them no earlier
than at the given byte. -/
def TokenStream.From (start : Nat) : TokenStream → Prop
  | ended place => start ≤ place.offset
  | stuck e => start ≤ e.span.start.offset
  | token t rest => start ≤ t.span.start.offset ∧ rest.From t.span.start.offset
  | fault e rest => start ≤ e.span.start.offset ∧ rest.From e.span.start.offset

theorem TokenStream.From.mono {m n : Nat} {s : TokenStream} (h : s.From n) (hmn : m ≤ n) :
    s.From m := by
  cases s with
  | ended | stuck => exact Nat.le_trans hmn h
  | token | fault => exact ⟨Nat.le_trans hmn h.1, h.2⟩

/-- What is read next begins no earlier than that, and what is behind it no earlier than it
does. -/
theorem TokenStream.From.next {n : Nat} {s : TokenStream} (h : s.From n) :
    match s.next with
    | (.ok t, rest) => n ≤ t.span.start.offset ∧ rest.From t.span.start.offset
    | (.error e, rest) => n ≤ e.span.start.offset ∧ rest.From e.span.start.offset := by
  cases s with
  | ended place => exact ⟨h, Nat.le_refl _⟩
  | stuck e => exact ⟨h, Nat.le_refl _⟩
  | token t rest => exact h
  | fault e rest => exact h

theorem Lexer.stream_from (l : Lexer) : l.stream.From l.position.offset := by
  fun_induction stream l with
  | case1 l t ht hk =>
    have h : l.Reads t l.next.2 := next_reads (by rw [← ht])
    exact h.le_start
  | case2 l t ht hk ih =>
    have h : l.Reads t l.next.2 := next_reads (by rw [← ht])
    exact ⟨h.le_start, ih.mono h.start_le⟩
  | case3 l e he hs => exact (next_error he).2.1
  | case4 l e he hs ih =>
    obtain ⟨-, hle, hstart⟩ := next_error he
    exact ⟨hle, ih.mono hstart⟩

namespace Cursor

/-- Where the current token begins, in bytes. -/
def offset (c : Cursor) : Nat := c.current.span.start.offset

/-- The problems noted are in order, and none begins behind the current token; what is
ahead is in order, and nothing of it begins in front of the current token. -/
structure Ordered (c : Cursor) : Prop where
  sorted : c.problems.Pairwise fun p q => p.offset ≤ q.offset
  behind : ∀ p ∈ c.problems, p.offset ≤ c.offset
  ahead : c.ahead.From c.offset

/-- Nothing but warnings has been noted. -/
def Warned (c : Cursor) : Prop := ∀ p ∈ c.problems, p.isError = false

variable {c c' : Cursor}

/-- A problem at the current token, or in front of it but behind those noted, keeps the
order. -/
theorem Ordered.note {p : Problem} (h : c.Ordered) (hp : p.offset ≤ c.offset)
    (hlast : ∀ q ∈ c.problems, q.offset ≤ p.offset) : (c.note p).Ordered := by
  refine ⟨List.pairwise_append.2 ⟨h.sorted, List.pairwise_singleton _ _, ?_⟩, ?_, h.ahead⟩
  · intro q hq r hr
    obtain rfl := List.mem_singleton.1 hr
    exact hlast q hq
  · intro q hq
    rcases List.mem_append.1 hq with hq | hq
    · exact h.behind q hq
    · obtain rfl := List.mem_singleton.1 hq
      exact hp

theorem Ordered.take {t : Token} (h : c.Ordered) (ht : c.take = (.ok t, c')) :
    c'.Ordered ∧ c.offset ≤ c'.offset := by
  obtain ⟨rfl, next, ahead, hn, rfl⟩ := take_ok ht
  have hnext := h.ahead.next
  rw [hn] at hnext
  exact ⟨⟨h.sorted, fun p hp => Nat.le_trans (h.behind p hp) hnext.1, hnext.2⟩, hnext.1⟩

theorem problems_take {t : Token} (h : c.take = (.ok t, c')) : c'.problems = c.problems := by
  obtain ⟨rfl, next, ahead, -, rfl⟩ := take_ok h
  rfl

theorem Ordered.leads (h : c.Ordered) (hc : c.Leads c') : c'.Ordered := by
  obtain ⟨ts, hc⟩ := hc
  induction hc with
  | refl => exact h
  | take _ ht ih => exact (ih.take ht).1
  | @warn c₁ c₂ ts t name word _ ht _ _ ih =>
    obtain ⟨hnext, hle⟩ := ih.take ht
    obtain ⟨rfl, -⟩ := take_ok ht
    refine hnext.note hle fun q hq => ih.behind q ?_
    rwa [problems_take ht] at hq

theorem Warned.leads (h : c.Warned) (hc : c.Leads c') : c'.Warned := by
  obtain ⟨ts, hc⟩ := hc
  induction hc with
  | refl => exact h
  | take _ ht ih =>
    unfold Warned
    rwa [problems_take ht]
  | @warn c₁ c₂ ts t name word _ ht _ _ ih =>
    intro p hp
    rcases List.mem_append.1 hp with hp | hp
    · exact ih p (problems_take ht ▸ hp)
    · obtain rfl := List.mem_singleton.1 hp
      rfl

/-- An error begins behind all that was noted. -/
theorem Ordered.fails {e : ParseError} (h : c.Ordered) (hc : c.Fails e c') :
    c'.Ordered ∧ c'.offset ≤ e.span.start.offset := by
  cases hc with
  | unexpected expected => exact ⟨h, Nat.le_refl _⟩
  | @fault e ahead hn =>
    have hnext := h.ahead.next
    rw [hn] at hnext
    exact ⟨⟨h.sorted, h.behind, hnext.2.mono hnext.1⟩, hnext.1⟩

theorem Warned.fails {e : ParseError} (h : c.Warned) (hc : c.Fails e c') : c'.Warned := by
  cases hc <;> exact h

/-- The order is kept by every run. -/
theorem Ordered.ends {α : Type} {r : Except ParseError α × Cursor} (h : c.Ordered)
    (hr : c.Ends r) : r.2.Ordered ∧ ∀ e, r.1 = .error e → r.2.offset ≤ e.span.start.offset := by
  rcases r with ⟨e | a, c'⟩
  · obtain ⟨c₁, hleads, hfails⟩ := hr
    obtain ⟨hordered, hle⟩ := (h.leads hleads).fails hfails
    exact ⟨hordered, fun e' he => Except.error.inj he ▸ hle⟩
  · exact ⟨h.leads hr, by simp⟩

theorem Warned.ends {α : Type} {r : Except ParseError α × Cursor} (h : c.Warned)
    (hr : c.Ends r) : r.2.Warned := by
  rcases r with ⟨e | a, c'⟩
  · obtain ⟨c₁, hleads, hfails⟩ := hr
    exact (h.leads hleads).fails hfails
  · exact h.leads hr

/-- What has been noted stays. -/
theorem Reaches.problems_extend (h : c.Reaches c') : c.problems <+: c'.problems := by
  induction h with
  | refl => exact List.prefix_refl _
  | take _ ih =>
    refine ih.trans ?_
    unfold Cursor.take
    split <;> exact List.prefix_refl _
  | peek _ ih =>
    refine ih.trans ?_
    unfold Cursor.peek
    split <;> exact List.prefix_refl _
  | note p _ ih => exact ih.trans (List.prefix_append _ _)

/-- In front of a text all is in order. -/
theorem ordered_ofString {source : String} (h : Cursor.ofString source = .ok c) :
    c.Ordered ∧ c.problems = [] := by
  have hnext := (Lexer.stream_from (Lexer.ofString source)).next
  unfold Cursor.ofString at h
  split at h
  · next t ahead he =>
    cases h
    rw [he] at hnext
    exact ⟨⟨.nil, by simp, hnext.2⟩, rfl⟩
  · cases h

end Cursor
end WqSource
