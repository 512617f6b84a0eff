import WqSource.Name
import WqSource.Proofs.Grammar.Contract
import WqSource.Proofs.Tree.Words

/-!
# The tokens that are taken

`Cursor.Takes` says which tokens a cursor takes on its way to another one. A name that
spells a constant with capitals may draw a warning when it is taken; nothing else is noted.

What is read from tokens is less than the tokens: separators go, the short spelling of
inequality is read as the long one, and empty brackets of parameters leave no trace.
`Token.Kind.tidied` removes all that from a list of tokens, and `Cursor.Gives` says what
remains of those that are taken, whatever comes behind them.

## Main definitions

* `Cursor.Takes`: the tokens between two cursors.
* `Cursor.TakesInside`: that semicolons among them are inside brackets.
* `Token.Kind.tidied`: tokens without what leaves no trace in a tree.
* `Cursor.Gives`: what remains of the tokens between two cursors.
* `TokenStream.Each`, `Cursor.Each`: a property of every token ahead and of the number of
  brackets open in front of it.
-/

namespace WqSource

/-! ## Taking -/

namespace Cursor

/-- The first cursor takes the given tokens and is then the second one. -/
inductive Takes : Cursor → List Token → Cursor → Prop where
  | refl (c : Cursor) : Takes c [] c
  | take {b c c' : Cursor} {ts : List Token} {t : Token} :
    Takes b ts c → c.take = (.ok t, c') → Takes b (ts ++ [t]) c'
  /-- A warning belongs to the token taken last. -/
  | warn {b c c' : Cursor} {ts : List Token} {t : Token} {name word : String} :
    Takes b ts c → c.take = (.ok t, c') → t.kind = .identifier name →
      Name.constantSpelled? name = some word →
      Takes b (ts ++ [t]) (c'.note (.legacySpelling name word t.span))

theorem Takes.trans {a b c : Cursor} {ts us : List Token} (h₁ : a.Takes ts b)
    (h₂ : b.Takes us c) : a.Takes (ts ++ us) c := by
  induction h₂ with
  | refl => simpa using h₁
  | take _ ht ih =>
    rw [← List.append_assoc]
    exact .take ih ht
  | warn _ ht hk hw ih =>
    rw [← List.append_assoc]
    exact .warn ih ht hk hw

theorem Takes.single {c c' : Cursor} {t : Token} (h : c.take = (.ok t, c')) :
    c.Takes [t] c' :=
  .take (.refl c) h

/-- The first cursor leads to the second one, and semicolons are taken on the way only where a
bracket is open. -/
inductive TakesInside : Cursor → Cursor → Prop where
  | refl (c : Cursor) : TakesInside c c
  | take {b c c' : Cursor} {t : Token} : TakesInside b c → c.take = (.ok t, c') →
    (t.kind = .punct .semicolon → 0 < c.depth) → TakesInside b c'
  | note {b c : Cursor} (p : Problem) : TakesInside b c → TakesInside b (c.note p)

namespace TakesInside
variable {a b c c' : Cursor} {t : Token}

theorem trans (h₁ : a.TakesInside b) (h₂ : b.TakesInside c) : a.TakesInside c := by
  induction h₂ with
  | refl => exact h₁
  | take _ ht hsemicolon ih => exact .take ih ht hsemicolon
  | note p _ ih => exact .note p ih

/-- A token that is no semicolon may be taken anywhere. -/
theorem of_ne (h : c.take = (.ok t, c')) (ht : t.kind ≠ .punct .semicolon) : c.TakesInside c' :=
  .take (.refl c) h fun he => absurd he ht

end TakesInside
end Cursor

/-! ## What remains of tokens -/

namespace Token.Kind

/-- The spelling that a token is read as. Inequality has two. -/
def canonical : Kind → Kind
  | punct .tilde => punct .bangEqual
  | k => k

/-- Tokens without the empty brackets of parameters, directly behind an opening brace. -/
def dropEmptyParams : List Kind → List Kind
  | punct .openBrace :: punct .openBracket :: punct .closeBracket :: ks =>
    punct .openBrace :: dropEmptyParams ks
  | k :: ks => k :: dropEmptyParams ks
  | [] => []

/-- Tokens without those that leave no trace in a tree: no separators, one spelling of
inequality, and no empty brackets of parameters. -/
def tidied (ks : List Kind) : List Kind := dropEmptyParams ((words ks).map canonical)

theorem dropEmptyParams_brackets (ks : List Kind) :
    dropEmptyParams (punct .openBrace :: punct .openBracket :: punct .closeBracket :: ks) =
      punct .openBrace :: dropEmptyParams ks := by
  rw [dropEmptyParams]

theorem dropEmptyParams_cons {k : Kind} (hk : k ≠ punct .openBrace) (ks : List Kind) :
    dropEmptyParams (k :: ks) = k :: dropEmptyParams ks := by
  rw [dropEmptyParams]
  rintro ks' rfl
  exact absurd rfl hk

/-- The first token always remains. -/
theorem head?_dropEmptyParams (ks : List Kind) : (dropEmptyParams ks).head? = ks.head? := by
  fun_cases dropEmptyParams ks <;> rfl

/-- An opening brace remains, and so does what comes behind it, unless that is a pair of
brackets. -/
theorem dropEmptyParams_brace {k : Kind} {ks ws : List Kind}
    (h : dropEmptyParams ks = k :: ws)
    (hk : k ≠ punct .openBracket ∨ ∃ l vs, ws = l :: vs ∧ l ≠ punct .closeBracket) :
    dropEmptyParams (punct .openBrace :: ks) = punct .openBrace :: k :: ws := by
  rw [dropEmptyParams, h]
  rintro ks' - rfl
  have hk' : k = punct .openBracket := by
    have := head?_dropEmptyParams (punct .openBracket :: punct .closeBracket :: ks')
    rw [h] at this
    simpa using this
  subst hk'
  rw [dropEmptyParams_cons (by simp)] at h
  rcases hk with hk | ⟨l, vs, rfl, hl⟩
  · exact hk rfl
  · have := head?_dropEmptyParams (punct .closeBracket :: ks')
    rw [(List.cons.inj h).2] at this
    exact hl (by simpa using this)

end Token.Kind

open Token.Kind (dropEmptyParams)

/-- The words among tokens, in the spelling they are read as. -/
def Token.essence (ts : List Token) : List Token.Kind :=
  (Token.Kind.words (ts.map Token.kind)).map Token.Kind.canonical

@[simp] theorem Token.essence_append (ts us : List Token) :
    essence (ts ++ us) = essence ts ++ essence us := by
  simp [essence, Token.Kind.words]

namespace Cursor

/-- Between the two cursors such tokens are taken as leave the given words, whatever comes
behind them. -/
def Gives (c : Cursor) (ws : List Token.Kind) (c' : Cursor) : Prop :=
  ∃ ts, c.Takes ts c' ∧ ∀ us, dropEmptyParams (Token.essence ts ++ us) = ws ++ dropEmptyParams us

namespace Gives
variable {a b c : Cursor} {ws vs : List Token.Kind}

theorem refl (c : Cursor) : c.Gives [] c := ⟨[], .refl c, fun _ => rfl⟩

theorem trans (h₁ : a.Gives ws b) (h₂ : b.Gives vs c) : a.Gives (ws ++ vs) c := by
  obtain ⟨ts, ht, hws⟩ := h₁
  obtain ⟨us, hu, hvs⟩ := h₂
  refine ⟨ts ++ us, ht.trans hu, fun rest => ?_⟩
  rw [Token.essence_append, List.append_assoc, hws, hvs, List.append_assoc]

/-- A token that is no word leaves nothing. -/
theorem separator {t : Token} (h : b.take = (.ok t, c)) (ht : t.kind.isWord = false) :
    b.Gives [] c :=
  ⟨[t], .single h, fun us => by simp [Token.essence, Token.Kind.words, ht]⟩

/-- A word leaves the spelling it is read as. -/
theorem word {t : Token} {k : Token.Kind} (h : b.take = (.ok t, c)) (hk : t.kind.canonical = k)
    (ht : t.kind.isWord = true) (hb : k ≠ .punct .openBrace) : b.Gives [k] c :=
  ⟨[t], .single h, fun us => by
    simp [Token.essence, Token.Kind.words, ht, hk, Token.Kind.dropEmptyParams_cons hb]⟩

/-- A name that draws a warning leaves itself. -/
theorem warned {t : Token} {name word : String} (h : b.take = (.ok t, c))
    (hk : t.kind = .identifier name) (hw : Name.constantSpelled? name = some word) :
    b.Gives [.identifier name] (c.note (.legacySpelling name word t.span)) :=
  ⟨[t], .warn (.refl b) h hk hw, fun us => by
    simp [Token.essence, Token.Kind.words, hk, Token.Kind.isWord, Token.Kind.isSeparator,
      Token.Kind.canonical, Token.Kind.dropEmptyParams_cons]⟩

/-- An opening brace remains, unless a pair of brackets comes behind it. -/
theorem brace {t : Token} {k : Token.Kind} (h : a.take = (.ok t, b))
    (ht : t.kind = .punct .openBrace) (h' : b.Gives (k :: ws) c)
    (hk : k ≠ .punct .openBracket ∨ ∃ l vs, ws = l :: vs ∧ l ≠ .punct .closeBracket) :
    a.Gives (.punct .openBrace :: k :: ws) c := by
  obtain ⟨ts, hts, hws⟩ := h'
  refine ⟨[t] ++ ts, .trans (.single h) hts, fun us => ?_⟩
  have hbrace : Token.essence [t] = [.punct .openBrace] := by
    simp [Token.essence, Token.Kind.words, ht, Token.Kind.isWord, Token.Kind.isSeparator,
      Token.Kind.canonical]
  rw [Token.essence_append, hbrace, List.append_assoc]
  refine Token.Kind.dropEmptyParams_brace (hws us) ?_
  rcases hk with hk | ⟨l, vs, rfl, hl⟩
  · exact .inl hk
  · exact .inr ⟨l, vs ++ dropEmptyParams us, rfl, hl⟩

/-- An opening brace with a pair of brackets behind it leaves only itself. -/
theorem braceBrackets {t o p : Token} {b₁ b₂ : Cursor} (h : a.take = (.ok t, b₁))
    (ht : t.kind = .punct .openBrace) (h₁ : b₁.take = (.ok o, b₂))
    (ho : o.kind = .punct .openBracket) (h₂ : b₂.take = (.ok p, b))
    (hp : p.kind = .punct .closeBracket) (h' : b.Gives ws c) :
    a.Gives (.punct .openBrace :: ws) c := by
  obtain ⟨ts, hts, hws⟩ := h'
  refine ⟨[t] ++ [o] ++ [p] ++ ts,
    ((Takes.single h).trans (.single h₁)).trans (.single h₂) |>.trans hts, fun us => ?_⟩
  have hessence : Token.essence ([t] ++ [o] ++ [p]) =
      [.punct .openBrace, .punct .openBracket, .punct .closeBracket] := by
    simp [Token.essence, Token.Kind.words, ht, ho, hp, Token.Kind.isWord, Token.Kind.isSeparator,
      Token.Kind.canonical]
  rw [Token.essence_append, hessence, List.append_assoc]
  simp [Token.Kind.dropEmptyParams_brackets, hws]

end Gives
end Cursor

/-! ## Properties of the tokens ahead -/

/-- A property of every token of a stream, and of the number of brackets open in front of
the token. -/
def TokenStream.Each (P : Nat → Token → Prop) (depth : Nat) : TokenStream → Prop
  | ended place => P depth (.ending place)
  | token t rest => P depth t ∧ rest.Each P (t.kind.depthAfter depth)
  | stuck _ => True
  | fault _ rest => rest.Each P depth

/-- A property of the current token and every one ahead of it. -/
def Cursor.Each (P : Nat → Token → Prop) (c : Cursor) : Prop :=
  P c.depth c.current ∧ c.ahead.Each P (c.current.kind.depthAfter c.depth)

/-- What holds of every token of a stream holds of those that are left behind a read. -/
theorem TokenStream.Each.next {P : Nat → Token → Prop} {depth : Nat} {s : TokenStream}
    (h : s.Each P depth) :
    match s.next with
    | (.ok t, rest) => P depth t ∧ rest.Each P (t.kind.depthAfter depth)
    | (.error _, rest) => rest.Each P depth := by
  cases s with
  | ended place => exact ⟨h, h⟩
  | stuck e => exact h
  | token t rest => exact h
  | fault e rest => exact h

namespace Cursor
variable {P : Nat → Token → Prop} {c c' : Cursor}

theorem Each.take_snd (h : c.Each P) : c.take.2.Each P := by
  have hnext := h.2.next
  unfold Cursor.take
  split
  · next he =>
    rw [he] at hnext
    exact hnext
  · next he =>
    rw [he] at hnext
    exact ⟨h.1, hnext⟩

theorem Each.peek_snd (h : c.Each P) : c.peek.2.Each P := by
  have hnext := h.2.next
  unfold Cursor.peek
  split
  · exact h
  · next he =>
    rw [he] at hnext
    exact ⟨h.1, hnext⟩

/-- A property of the tokens ahead is kept by every move. -/
theorem Each.reaches (h : c.Each P) (hr : c.Reaches c') : c'.Each P := by
  induction hr with
  | refl => exact h
  | take _ ih => exact ih.take_snd
  | peek _ ih => exact ih.peek_snd
  | note p _ ih => exact ih

theorem Each.take {t : Token} (h : c.Each P) (ht : c.take = (.ok t, c')) : c'.Each P := by
  simpa [ht] using h.take_snd

/-- A property of the tokens ahead holds of those that are taken, and of what is ahead of
them. -/
theorem Each.takes {ts : List Token} (h : c.Each P) (ht : c.Takes ts c') :
    c'.Each P ∧ ∀ t ∈ ts, ∃ depth, P depth t := by
  induction ht with
  | refl => exact ⟨h, by simp⟩
  | @take c₁ c₂ ts t _ ht ih =>
    obtain ⟨rfl, -⟩ := take_ok ht
    refine ⟨ih.1.take ht, fun u hu => ?_⟩
    rcases List.mem_append.1 hu with hu | hu
    · exact ih.2 u hu
    · obtain rfl := List.mem_singleton.1 hu
      exact ⟨_, ih.1.1⟩
  | @warn c₁ c₂ ts t _ _ _ ht _ _ ih =>
    obtain ⟨rfl, -⟩ := take_ok ht
    have hnext : c₂.Each P := ih.1.take ht
    refine ⟨hnext, fun u hu => ?_⟩
    rcases List.mem_append.1 hu with hu | hu
    · exact ih.2 u hu
    · obtain rfl := List.mem_singleton.1 hu
      exact ⟨_, ih.1.1⟩

theorem Each.gives {ws : List Token.Kind} (h : c.Each P) (hg : c.Gives ws c') : c'.Each P := by
  obtain ⟨ts, ht, -⟩ := hg
  exact (h.takes ht).1

end Cursor
end WqSource
