import WqSource.Grammar.Block
import WqSource.Proofs.Grammar.Taking

/-!
# What is read between brackets

Every parser of items and statements passes over the words of what it reads, and opens no
bracket that it does not close. It takes no semicolon where no bracket is open. What an item
has to be is left to the parser of items; `Inner.Sound` says what is asked of the parsers of
expressions.

A line for the host is a token outside all brackets only. So the statements inside an
expression are expressions.

## Main definitions

* `Cursor.Legal`: what is known of the tokens of a text.
* `Cursor.Passes`, `Cursor.Closes`: words between two cursors.
* `Cursor.Reads`: a tree between two cursors.
* `Grammar.Inner.Sound`.

## Main statements

* `items_passes`, `functionBody_passes`, `arm_passes`, `firstArm_passes`, `head_passes`.
-/

namespace WqSource
open Grammar WqSource.Parser

namespace Cursor

/-! ## Words between two cursors -/

/-- A line for the host stands outside all brackets. -/
def Legal (c : Cursor) : Prop :=
  c.Each fun depth t => ∀ payload, t.kind = .magic payload → depth = 0

/-- Between the two cursors such tokens are taken as leave the given words, and all
brackets opened there are closed. Semicolons are inside brackets. -/
structure Passes (c : Cursor) (ws : List Token.Kind) (c' : Cursor) : Prop where
  gives : c.Gives ws c'
  depth_eq : c'.depth = c.depth
  inside : c.TakesInside c'

/-- Words, and then a closing bracket. -/
def Closes (c : Cursor) (ws : List Token.Kind) (close : Punct) (c' : Cursor) : Prop :=
  ∃ c₁, c.Passes ws c₁ ∧ c₁.looksAt close = true ∧ c₁.take = (.ok c₁.current, c')

variable {a b c : Cursor} {ws vs : List Token.Kind}

theorem looksAt_iff {p : Punct} : c.looksAt p = true ↔ c.current.kind = .punct p := by
  simp [looksAt]

theorem Passes.legal (h : a.Passes ws b) (ha : a.Legal) : b.Legal := Each.gives ha h.gives

theorem Legal.take {t : Token} (ha : a.Legal) (h : a.take = (.ok t, b)) : b.Legal :=
  Each.take ha h

theorem depth_take {t : Token} (h : a.take = (.ok t, b)) :
    b.depth = a.current.kind.depthAfter a.depth := by
  obtain ⟨rfl, next, ahead, -, rfl⟩ := take_ok h
  rfl

theorem depth_take_opening {t : Token} {o : Punct} (h : a.take = (.ok t, b))
    (hopen : a.looksAt o = true) (ho : ∀ d, o.depthAfter d = d + 1) : b.depth = a.depth + 1 := by
  rw [depth_take h, looksAt_iff.1 hopen]
  exact ho a.depth

/-- Separators open and close no brackets. -/
theorem depth_separator {t : Token} (h : a.take = (.ok t, b))
    (ha : a.current.kind.isWord = false) : b.depth = a.depth := by
  rw [depth_take h]
  cases hk : a.current.kind with
  | punct p =>
    obtain rfl : p = .semicolon := by simpa [hk] using ha
    rfl
  | _ => rfl

theorem ne_semicolon_of_isWord {k : Token.Kind} (hk : k.isWord = true) :
    k ≠ .punct .semicolon := by
  rintro rfl
  cases hk

namespace Passes

theorem refl (c : Cursor) : c.Passes [] c := ⟨.refl c, rfl, .refl c⟩

theorem trans (h₁ : a.Passes ws b) (h₂ : b.Passes vs c) : a.Passes (ws ++ vs) c :=
  ⟨h₁.gives.trans h₂.gives, h₂.depth_eq.trans h₁.depth_eq, h₁.inside.trans h₂.inside⟩

/-- A separator is passed without a trace, a semicolon inside brackets only. -/
theorem separator (h : a.take = (.ok a.current, b)) (ha : a.current.kind.isWord = false)
    (hd : a.current.kind = .punct .semicolon → 0 < a.depth) : a.Passes [] b :=
  ⟨.separator h ha, depth_separator h ha, .take (.refl a) h hd⟩

theorem newline (h : a.take = (.ok a.current, b)) (ha : a.atNewline = true) : a.Passes [] b := by
  have hk : a.current.kind = .newline := by simpa [Cursor.atNewline] using ha
  exact .separator h (by rw [hk]; rfl) (by simp [hk])

/-- A token that is no bracket is passed as the spelling it is read as. -/
theorem word {k : Token.Kind} (h : a.take = (.ok a.current, b))
    (hk : a.current.kind.canonical = k) (ha : a.current.kind.isWord = true)
    (hd : ∀ d, a.current.kind.depthAfter d = d) : a.Passes [k] b := by
  refine ⟨.word h hk ha ?_, by rw [depth_take h, hd], .of_ne h (ne_semicolon_of_isWord ha)⟩
  rintro rfl
  have hopen : a.current.kind = .punct .openBrace := by
    cases hkind : a.current.kind with
    | punct p => cases p <;> simp_all [Token.Kind.canonical]
    | _ => simp_all [Token.Kind.canonical]
  simpa [hopen, Token.Kind.depthAfter, Punct.depthAfter] using hd 0

/-- An operator is passed as itself. -/
theorem punct {p : Punct} (h : a.take = (.ok a.current, b)) (ha : a.looksAt p = true)
    (hp : p ≠ .semicolon ∧ p ≠ .tilde) (hd : ∀ d, p.depthAfter d = d) :
    a.Passes [.punct p] b := by
  rw [looksAt_iff] at ha
  refine .word h ?_ (by simp [ha, hp.1]) (by rw [ha]; exact hd)
  rw [ha]
  cases p <;> first | rfl | exact absurd rfl hp.2

/-- Words between brackets other than braces. -/
theorem enclosed {opening closing : Punct} (h : a.take = (.ok a.current, b))
    (ha : a.looksAt opening = true) (h' : b.Closes ws closing c)
    (ho : opening = .openParen ∨ opening = .openBracket)
    (hc : closing = .closeParen ∨ closing = .closeBracket) :
    a.Passes (.punct opening :: (ws ++ [.punct closing])) c := by
  rw [looksAt_iff] at ha
  obtain ⟨d, hws, hd, hclose⟩ := h'
  rw [looksAt_iff] at hd
  have hopening : a.Gives [.punct opening] b := by
    rcases ho with rfl | rfl <;>
      exact .word h (by rw [ha]; rfl) (by rw [ha]; rfl) (by simp)
  have hclosing : d.Gives [.punct closing] c := by
    rcases hc with rfl | rfl <;>
      exact .word hclose (by rw [hd]; rfl) (by rw [hd]; rfl) (by simp)
  refine ⟨hopening.trans (hws.gives.trans hclosing), ?_, ?_⟩
  · rw [depth_take hclose, hws.depth_eq, depth_take h, ha, hd]
    rcases ho with rfl | rfl <;> rcases hc with rfl | rfl <;> rfl
  · have hfirst : a.TakesInside b := .of_ne h (by rcases ho with rfl | rfl <;> simp [ha])
    have hlast : d.TakesInside c := .of_ne hclose (by rcases hc with rfl | rfl <;> simp [hd])
    exact hfirst.trans (hws.inside.trans hlast)

/-- Words between braces. They do not look like empty brackets of parameters. -/
theorem braces (h : a.take = (.ok a.current, b)) (ha : a.looksAt .openBrace = true)
    (h' : b.Closes ws .closeBrace c)
    (hws : ws.head? ≠ some (.punct .openBracket) ∨
      ∃ k vs, ws = .punct .openBracket :: k :: vs ∧ k ≠ .punct .closeBracket) :
    a.Passes (.punct .openBrace :: (ws ++ [.punct .closeBrace])) c := by
  rw [looksAt_iff] at ha
  obtain ⟨d, hd, hlook, hclose⟩ := h'
  rw [looksAt_iff] at hlook
  have hinside : b.Gives (ws ++ [.punct .closeBrace]) c :=
    hd.gives.trans (.word hclose (by rw [hlook]; rfl) (by simp [hlook]) (by simp))
  have hfirst : a.TakesInside b := .of_ne h (by simp [ha])
  have hlast : d.TakesInside c := .of_ne hclose (by simp [hlook])
  refine ⟨?_, by rw [depth_take hclose, hd.depth_eq, depth_take h, ha, hlook]; rfl,
    hfirst.trans (hd.inside.trans hlast)⟩
  cases ws with
  | nil => exact .brace h ha hinside (.inl (by simp))
  | cons k ws =>
    refine .brace h ha hinside ?_
    rcases hws with hk | ⟨l, vs, hk, hl⟩
    · exact .inl (by simpa using hk)
    · obtain ⟨-, rfl⟩ := List.cons.inj hk
      exact .inr ⟨l, vs ++ [.punct .closeBrace], rfl, hl⟩

/-- Words between braces, with empty brackets of parameters in front. -/
theorem bracesBrackets {b₁ b₂ : Cursor} (h : a.take = (.ok a.current, b₁))
    (ha : a.looksAt .openBrace = true) (h₁ : b₁.take = (.ok b₁.current, b₂))
    (ho : b₁.looksAt .openBracket = true) (h₂ : b₂.take = (.ok b₂.current, b))
    (hp : b₂.looksAt .closeBracket = true) (h' : b.Closes ws .closeBrace c) :
    a.Passes (.punct .openBrace :: (ws ++ [.punct .closeBrace])) c := by
  rw [looksAt_iff] at ha ho hp
  obtain ⟨d, hd, hlook, hclose⟩ := h'
  rw [looksAt_iff] at hlook
  have hinside : b.Gives (ws ++ [.punct .closeBrace]) c :=
    hd.gives.trans (.word hclose (by rw [hlook]; rfl) (by simp [hlook]) (by simp))
  refine ⟨.braceBrackets h ha h₁ ho h₂ hp hinside, ?_, ?_⟩
  · rw [depth_take hclose, hd.depth_eq, depth_take h₂, depth_take h₁, depth_take h, ha, ho, hp,
      hlook]
    rfl
  · have hbrackets : a.TakesInside b :=
      .trans (.trans (.of_ne h (by simp [ha])) (.of_ne h₁ (by simp [ho]))) (.of_ne h₂ (by simp [hp]))
    exact hbrackets.trans (hd.inside.trans (.of_ne hclose (by simp [hlook])))

end Passes

theorem Closes.before (h₁ : a.Passes ws b) {close : Punct} (h₂ : b.Closes vs close c) :
    a.Closes (ws ++ vs) close c := by
  obtain ⟨d, h, hd, hc⟩ := h₂
  exact ⟨d, h₁.trans h, hd, hc⟩

end Cursor

/-! ## Trees between two cursors -/

namespace Cursor

/-- Whether the current token touches the last one taken. -/
def touching (c : Cursor) : Bool := c.current.span.start.offset == c.lastEnd.offset

/-- Whether a tier and all tighter ones stop at the current token. -/
def StopsAt (c : Cursor) (r : Rank) : Prop := c.current.kind.StopsAt c.touching r

/-- A tree with no more than `n` levels in it is read between the two cursors, and what is
open at its end does not go on behind it. -/
structure Reads (n : Nat) (c : Cursor) (e : Expr) (c' : Cursor) : Prop where
  passes : c.Passes e.words c'
  regular : e.Regular n
  admits : e.ending.Admits c'.touching c'.current.kind
  /-- A literal is read from one token. -/
  literal : ∀ s v, e = .literal s v →
    c.current.kind = v.kind ∧ c.take = (.ok c.current, c')

/-- The cursor looks at a symbol and a colon behind it. -/
def StartsEntry (c : Cursor) : Prop :=
  ∃ key, c.current.kind = .symbol key ∧ c.peek = (.ok (.punct .colon), c)

end Cursor

/-- What is asked of the parsers of expressions inside one with `n` levels in it. -/
structure Grammar.Inner.Sound (inner : Inner) (n : Nat) : Prop where
  expression : ∀ c : Cursor, c.Legal → inner.expression.Ensures c fun e c' =>
    (∃ m, n = m + 1 ∧ c.Reads m e c') ∧ c'.StopsAt .assignment ∧
      (e.isEntry = true → c.StartsEntry)
  exponent : ∀ c : Cursor, c.Legal → inner.exponent.Ensures c fun e c' =>
    (∃ m, n = m + 1 ∧ c.Reads m e c') ∧ .unary ≤ e.rank ∧ c'.StopsAt .unary

/-- A branch inside an expression with `n` levels in it. -/
structure Branch.NestsIn (n : Nat) (b : Branch) : Prop where
  nonempty : b.statements ≠ []
  expressions : ∀ s ∈ b.statements, ∃ e, s = .expression e ∧ e.NestsIn n

theorem Branch.NestsIn.wellShaped {n : Nat} {b : Branch} (h : b.NestsIn n) : b.WellShaped := by
  refine ⟨h.nonempty, fun s hs => ?_⟩
  obtain ⟨e, rfl, -⟩ := h.expressions s hs
  rfl

theorem Branch.NestsIn.of_mem {n : Nat} {b : Branch} {x : Expr} (h : b.NestsIn n)
    (hx : x ∈ b.expressions) : x.NestsIn n := by
  obtain ⟨s, hs, hx⟩ := List.mem_filterMap.1 hx
  obtain ⟨e, rfl, he⟩ := h.expressions s hs
  cases hx
  exact he

/-- The parts that a branch is divided into have the statements of the branch. -/
theorem Branch.splitLast?_eq_some {b first last : Branch} (h : b.splitLast? = some (first, last)) :
    first.statements ≠ [] ∧ last.statements ≠ [] ∧
      b.statements = first.statements ++ last.statements := by
  unfold Branch.splitLast? at h
  split at h
  · next s t rest hb =>
    cases h
    refine ⟨by simp [Branch.ofStatements, Branch.statements], by
      simp [Branch.ofStatements, Branch.statements], ?_⟩
    have := List.dropLast_append_getLast (l := t :: rest) (by simp)
    simp only [Branch.ofStatements, Branch.statements, List.cons_append, this]
    exact hb
  · cases h

/-! ## Separators -/

namespace Grammar
variable {c c₁ : Cursor}

theorem skipNewlines_passes :
    skipNewlines.Ensures c fun _ c' => c.Passes [] c' ∧ c'.atNewline = false := by
  refine (Ensures.skipWhile (I := c.Passes []) (.refl c) ?_).mono ?_
  · intro c₁ c₂ h hnewline hc
    exact h.trans (.newline hc hnewline)
  · rintro - c' ⟨h, hend⟩
    refine ⟨h, hend.elim (fun hend => ?_) id⟩
    have hend : c'.current.kind = .endOfInput := by simpa [Cursor.atEnd] using hend
    simp [Cursor.atNewline, hend]

theorem isWord_of_atSeparator (h : c.atSeparator = true) : c.current.kind.isWord = false := by
  simp_all [Cursor.atSeparator, Token.Kind.isWord]

theorem skipSeparators_passes (hd : 0 < c.depth) :
    skipSeparators.Ensures c fun _ c' => c.Passes [] c' := by
  refine (Ensures.skipWhile (I := c.Passes []) (.refl c) ?_).mono fun _ _ h => h.1
  intro c₁ c₂ h hsep hc
  have hd₁ := h.depth_eq
  exact h.trans (.separator hc (isWord_of_atSeparator hsep) fun _ => by omega)

theorem restOfSeparator_passes {t : Token} (hd : 0 < c.depth) :
    (restOfSeparator t).Ensures c fun _ c' => c.Passes [] c' := by
  unfold restOfSeparator
  split
  · refine Ensures.look_bind ?_
    split
    · next h =>
      refine Ensures.bind (Ensures.discard_take fun c₁ hc => ?_)
      rw [Cursor.looksAt_iff] at h
      have hc : c.Passes [] c₁ := .separator hc (by simp [h]) fun _ => hd
      exact skipNewlines_passes.mono fun _ _ h => hc.trans h.1
    · exact Ensures.pure (.refl c)
  · exact skipNewlines_passes.mono fun _ _ h => h.1

end Grammar

/-! ## Sequences -/

section Sequences
variable {α : Type} {item : Parser α} {w : α → List Token.Kind} {P : α → Prop} {c : Cursor}

/-- A sequence is passed as the words of its items. -/
theorem Parser.Ensures.separated_passes {sep : Cursor → Option (Token → Parser Unit)}
    {stop : Cursor → Bool} (hc : c.Legal)
    (hitem : ∀ c', c'.Legal → c'.depth = c.depth →
      item.Ensures c' fun a c'' => c'.Passes (w a) c'' ∧ P a)
    (hsep : ∀ c₁ goOn c₂, c₁.depth = c.depth → sep c₁ = some goOn →
      c₁.take = (.ok c₁.current, c₂) → (goOn c₁.current).Ensures c₂ fun _ c₃ => c₁.Passes [] c₃)
    (hstop : ∀ c₁, stop c₁ = true → sep c₁ = none) :
    (Parser.separated item sep stop).Ensures c fun as c' =>
      c.Passes ((as.1 :: as.2).flatMap w) c' ∧ ∀ a ∈ as.1 :: as.2, P a := by
  refine (Ensures.separated
    (I := fun as c' => c.Passes (as.flatMap w) c' ∧ ∀ a ∈ as, P a)
    (J := fun as c' => (c.Passes (as.flatMap w) c' ∧ ∀ a ∈ as, P a) ∧ stop c' = true)
    ?_ ?_ ?_).mono ?_
  · exact (hitem c hc rfl).mono fun a c' h => by simpa using h
  · intro as c₁ goOn c₂ hI hs ht
    refine (hsep c₁ goOn c₂ hI.1.depth_eq hs ht).mono fun _ c₃ h => ?_
    have hI₃ : c.Passes (as.flatMap w) c₃ ∧ ∀ a ∈ as, P a :=
      ⟨by simpa using hI.1.trans h, hI.2⟩
    split
    · next hstop => exact ⟨hI₃, hstop⟩
    · refine (hitem c₃ (hI₃.1.legal hc) hI₃.1.depth_eq).mono fun a c₄ ha => ?_
      refine ⟨by simpa using hI₃.1.trans ha.1, fun x hx => ?_⟩
      rcases List.mem_append.1 hx with hx | hx
      · exact hI.2 x hx
      · obtain rfl := List.mem_singleton.1 hx
        exact ha.2
  · exact fun as c₁ hJ => hstop c₁ hJ.2
  · rintro as c' (h | h)
    · exact h.1
    · exact h.1

theorem separator_passes {goOn : Token → Parser Unit} {c₁ : Cursor} (hd : 0 < c.depth)
    (h : separator c = some goOn) (hc : c.take = (.ok c.current, c₁)) :
    (goOn c.current).Ensures c₁ fun _ c₂ => c.Passes [] c₂ := by
  unfold separator at h
  split at h
  · next hsep =>
    cases h
    have hc : c.Passes [] c₁ := .separator hc (isWord_of_atSeparator hsep) fun _ => hd
    exact (restOfSeparator_passes (by rw [hc.depth_eq]; exact hd)).mono fun _ _ h => hc.trans h
  · cases h

theorem separator_eq_none {p : Punct} (hp : p ≠ .semicolon) (h : c.looksAt p = true) :
    separator c = none := by
  rw [Cursor.looksAt_iff] at h
  refine if_neg ?_
  simp only [Cursor.atSeparator, h, Bool.not_eq_true]
  cases p <;> first | rfl | exact absurd rfl hp

/-- Items are passed as their words and the closing bracket. -/
theorem items_passes {close : Punct} (hclose : close ≠ .semicolon) (hc : c.Legal)
    (hd : 0 < c.depth)
    (hitem : ∀ c', c'.Legal → c'.depth = c.depth →
      item.Ensures c' fun a c'' => c'.Passes (w a) c'' ∧ P a) :
    (items close item).Ensures c fun as c' =>
      c.Closes (as.flatMap w) close c' ∧ ∀ a ∈ as, P a := by
  refine Ensures.bind (skipNewlines_passes.mono fun _ c₁ h₁ => ?_)
  have closing (as : List α) (c₂ : Cursor)
      (h : c₁.Passes (as.flatMap w) c₂ ∧ ∀ a ∈ as, P a) :
      (do expect close (.itemEnd close); return as : Parser (List α)).Ensures c₂ fun as c' =>
        c.Closes (as.flatMap w) close c' ∧ ∀ a ∈ as, P a :=
    Ensures.bind (Ensures.expect fun c₃ hlook ht =>
      Ensures.pure ⟨⟨c₂, by simpa using h₁.1.trans h.1, hlook, ht⟩, h.2⟩)
  refine Ensures.look_bind ?_
  split
  · exact Ensures.bind (Ensures.pure (closing [] c₁ ⟨.refl c₁, by simp⟩))
  · refine Ensures.bind ((Ensures.separated_passes (h₁.1.legal hc)
      (fun c' hl hd' => hitem c' hl (hd'.trans h₁.1.depth_eq))
      (fun _ _ _ hd' => separator_passes (by rw [hd', h₁.1.depth_eq]; exact hd))
      fun _ => separator_eq_none hclose).mono fun as c₂ h => ?_)
    exact Ensures.bind (Ensures.pure (closing _ c₂ h))

/-- If nothing is to be skipped and the bracket is not closed here, the first item is what
the parser of items reads here. -/
theorem items_head {close : Punct} {F : α → Prop} (hc : c.atNewline = false)
    (hclose : c.looksAt close = false) (hitem : item.Ensures c fun a _ => F a) :
    (items close item).Ensures c fun as _ => as ≠ [] ∧ ∀ a ∈ as.head?, F a := by
  have hskip : skipNewlines.Ensures c fun _ c' => c' = c := by
    refine (Ensures.skipWhile (I := (· = c)) rfl ?_).mono fun _ _ h => h.1
    rintro c₁ c₂ rfl hnewline -
    rw [hc] at hnewline
    cases hnewline
  refine Ensures.bind (hskip.mono fun _ c₁ h₁ => ?_)
  subst h₁
  refine Ensures.look_bind ?_
  rw [if_neg (by simp [hclose])]
  unfold separated
  refine Ensures.bind (Ensures.bind (hitem.mono fun a c₂ ha => ?_))
  refine Ensures.bind fun as c₃ _ => Ensures.pure ?_
  refine Ensures.bind (Ensures.pure (Ensures.bind (Ensures.expect fun _ _ _ => Ensures.pure ?_)))
  simpa using ha

end Sequences

/-! ## Statements -/

namespace Grammar
variable {inner : Inner} {n : Nat} {c : Cursor}

/-- Between brackets, a statement is an expression. -/
theorem statement_passes (hi : inner.Sound n) (hc : c.Legal) (hd : 0 < c.depth) :
    (statement inner).Ensures c fun s c' =>
      c.Passes s.words c' ∧ ∃ e, s = .expression e ∧ e.NestsIn n := by
  refine Ensures.look_bind ?_
  split
  · next payload h =>
    have := hc.1 payload h
    omega
  · refine Ensures.bind ((hi.expression c hc).mono ?_)
    rintro e c' ⟨⟨m, hn, he⟩, -⟩
    exact Ensures.pure ⟨he.passes, e, rfl, m, hn, he.regular⟩

theorem statements_passes {sep : Cursor → Option (Token → Parser Unit)} {stop : Cursor → Bool}
    (hi : inner.Sound n) (hc : c.Legal) (hd : 0 < c.depth)
    (hsep : ∀ c₁ goOn c₂, c₁.depth = c.depth → sep c₁ = some goOn →
      c₁.take = (.ok c₁.current, c₂) → (goOn c₁.current).Ensures c₂ fun _ c₃ => c₁.Passes [] c₃)
    (hstop : ∀ c₁, stop c₁ = true → sep c₁ = none) :
    (statements inner sep stop).Ensures c fun b c' => c.Passes b.words c' ∧ b.NestsIn n := by
  refine Ensures.bind ((Ensures.separated_passes hc (fun c' hl hd' =>
    statement_passes hi hl (by omega)) hsep hstop).mono fun as c' h => Ensures.pure ⟨h.1, ?_⟩)
  exact ⟨by simp [Branch.ofStatements, Branch.statements], h.2⟩

theorem functionBody_passes (hi : inner.Sound n) (hc : c.Legal) (hd : 0 < c.depth) :
    (functionBody inner).Ensures c fun body c' =>
      c.Closes (body.elim [] Branch.words) .closeBrace c' ∧ ∀ b ∈ body, b.NestsIn n := by
  refine Ensures.bind ((skipSeparators_passes hd).mono fun _ c₁ h₁ => ?_)
  have closing (body : Option Branch) (c₂ : Cursor)
      (h : c₁.Passes (body.elim [] Branch.words) c₂ ∧ ∀ b ∈ body, b.NestsIn n) :
      (do expect .closeBrace .bodyStatementEnd; return body : Parser (Option Branch)).Ensures c₂
        fun body c' =>
          c.Closes (body.elim [] Branch.words) .closeBrace c' ∧ ∀ b ∈ body, b.NestsIn n :=
    Ensures.bind (Ensures.expect fun c₃ hlook ht =>
      Ensures.pure ⟨⟨c₂, by simpa using h₁.trans h.1, hlook, ht⟩, h.2⟩)
  refine Ensures.look_bind ?_
  split
  · exact Ensures.bind (Ensures.pure (closing none c₁ ⟨.refl c₁, by simp⟩))
  · refine Ensures.bind (Ensures.map ?_)
    have hd₁ := h₁.depth_eq
    refine (statements_passes hi (h₁.legal hc) (by omega) ?_ ?_).mono fun b c₂ h =>
      closing (some b) c₂ ⟨h.1, by simpa using h.2⟩
    · intro c₂ goOn c₃ hd₂ hs ht
      split at hs
      · next hsep =>
        cases hs
        have ht : c₂.Passes [] c₃ := .separator ht (isWord_of_atSeparator hsep) fun _ => by omega
        have hd₃ := ht.depth_eq
        exact (skipSeparators_passes (by omega)).mono fun _ _ h => ht.trans h
      · cases hs
    · intro c₂ hclose
      rw [Cursor.looksAt_iff] at hclose
      simp [Cursor.atSeparator, hclose, Token.Kind.isSeparator]

theorem arm_passes (hi : inner.Sound n) (hc : c.Legal) (hd : 0 < c.depth) :
    (arm inner).Ensures c fun b c' => c.Passes b.words c' ∧ b.NestsIn n := by
  refine Ensures.bind (skipNewlines_passes.mono fun _ c₁ h₁ => ?_)
  have hd₁ := h₁.1.depth_eq
  refine (statements_passes hi (h₁.1.legal hc) (by omega)
    (fun _ _ _ hd₂ => separator_passes (by omega))
    fun _ => separator_eq_none (by decide)).mono fun b c₂ h => ?_
  exact ⟨by simpa using h₁.1.trans h.1, h.2⟩

theorem firstArm_passes (hi : inner.Sound n) (hc : c.Legal) (hd : 0 < c.depth) :
    (firstArm inner).Ensures c fun b c' => c.Passes b.words c' ∧ b.NestsIn n := by
  refine Ensures.bind (skipNewlines_passes.mono fun _ c₁ h₁ => ?_)
  have hd₁ := h₁.1.depth_eq
  refine (statements_passes hi (h₁.1.legal hc) (by omega) ?_ ?_).mono fun b c₂ h =>
    ⟨by simpa using h₁.1.trans h.1, h.2⟩
  · intro c₂ goOn c₃ _ hs ht
    split at hs
    · next hnewline =>
      cases hs
      exact Ensures.pure (.newline ht hnewline)
    · cases hs
  · intro c₂ hclose
    simp only [Bool.or_eq_true, Cursor.looksAt_iff] at hclose
    rcases hclose with h | h <;> simp [Cursor.atNewline, h]

theorem head_passes (hi : inner.Sound n) (hc : c.Legal) (hd : 0 < c.depth) :
    (head inner).Ensures c fun e c' => c.Passes e.words c' ∧ e.NestsIn n := by
  refine Ensures.bind (skipNewlines_passes.mono fun _ c₁ h₁ => ?_)
  refine Ensures.bind ((hi.expression c₁ (h₁.1.legal hc)).mono ?_)
  rintro e c₂ ⟨⟨m, hn, he⟩, -⟩
  have hpasses : c.Passes e.words c₂ := by simpa using h₁.1.trans he.passes
  refine Ensures.bind (Ensures.choose fun goOn c₃ hs ht => ?_)
  have hd₂ := hpasses.depth_eq
  have hend : (goOn c₂.current).Ensures c₃ fun _ c₄ => c₂.Passes [] c₄ := by
    split at hs
    · next hnewline =>
      cases hs
      exact Ensures.pure (.newline ht hnewline)
    · split at hs
      · next hsemicolon =>
        cases hs
        rw [Cursor.looksAt_iff] at hsemicolon
        have ht : c₂.Passes [] c₃ := .separator ht (by simp [hsemicolon]) fun _ => by omega
        exact skipNewlines_passes.mono fun _ _ h => ht.trans h.1
      · cases hs
  refine hend.mono fun _ c₄ h => Ensures.pure ⟨by simpa using hpasses.trans h, m, hn, he.regular⟩

end Grammar
end WqSource
