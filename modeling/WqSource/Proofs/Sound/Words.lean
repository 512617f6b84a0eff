import WqSource.Proofs.Grammar.Faults
import WqSource.Proofs.Sound.Program
import WqSource.Proofs.Token.Valid
import WqSource.Proofs.Tree.Balance

/-!
# The words of a program are those of its text

What is read from a text has tokens that a text can have. If there is no error, everything
between the start of the text and its end is taken by some statement or is a separator, so that
what remains of the tokens of the text are the words of the program.

## Main definitions

* `Program.words`.

## Main statements

* `program_valid`: the tokens of every program are valid.
* `parse_words`: the words of a text without errors.
-/

namespace WqSource
open Grammar WqSource.Parser
open Token.Kind (dropEmptyParams)

/-! ## Valid words -/

/-- Whether a text may have such a token. Every text has its end. -/
def Token.Sayable (t : Token) : Prop := t.kind ≠ .endOfInput → t.kind.Valid

namespace Token.Kind
variable {k : Kind} {ks : List Kind}

theorem Valid.canonical (h : k.Valid) : k.canonical.Valid := by
  cases k with
  | punct p => cases p <;> trivial
  | _ => exact h

theorem mem_of_mem_dropEmptyParams (h : k ∈ dropEmptyParams ks) : k ∈ ks := by
  fun_induction dropEmptyParams ks with
  | case1 ks ih =>
    rcases List.mem_cons.1 h with rfl | h
    · simp
    · simp [ih h]
  | case2 l ks _ ih =>
    rcases List.mem_cons.1 h with rfl | h
    · simp
    · simp [ih h]
  | case3 => exact h

end Token.Kind

/-- What remains of tokens that a text can have are such tokens. -/
theorem Cursor.Gives.valid {c c' : Cursor} {ws : List Token.Kind} (h : c.Gives ws c')
    (hc : c.Each fun _ t => t.Sayable) : ∀ k ∈ ws, k.Valid := by
  obtain ⟨ts, htakes, hws⟩ := h
  have hall := hws []
  rw [List.append_nil, dropEmptyParams, List.append_nil] at hall
  intro k hk
  rw [← hall] at hk
  obtain ⟨l, hl, rfl⟩ := List.mem_map.1 (Token.Kind.mem_of_mem_dropEmptyParams hk)
  obtain ⟨hmem, hword⟩ := List.mem_filter.1 hl
  obtain ⟨t, ht, rfl⟩ := List.mem_map.1 hmem
  obtain ⟨depth, hsayable⟩ := (hc.takes htakes).2 t ht
  refine (hsayable ?_).canonical
  intro hend
  rw [hend] at hword
  cases hword

/-- If the words of a regular statement are valid, so are its separators. -/
theorem Statement.kinds_valid {s : Statement} (hs : s.Regular) (h : ∀ k ∈ s.words, k.Valid) :
    ∀ k ∈ s.kinds, k.Valid := by
  intro k hk
  by_cases hword : k.isWord = true
  · exact h k (List.mem_filter.2 ⟨hk, hword⟩)
  · cases s with
    | magic =>
      obtain rfl := List.mem_singleton.1 hk
      exact absurd (Token.Kind.isWord_magic _) hword
    | expression e =>
      have hcode := (Expr.balanced (show e.Regular maxDepth from hs)).code k hk
      cases k <;> trivial

namespace Grammar
variable {c : Cursor}

/-- The tokens of the statements of every program are valid. -/
theorem program_valid (recover : Bool) (hc : c.Legal) (hsayable : c.Each fun _ t => t.Sayable) :
    ∀ s ∈ (program recover c).1.result.statements, ∀ k ∈ s.kinds, k.Valid := by
  refine program_forall recover (I := fun c => c.Legal ∧ c.Each fun _ t => t.Sayable)
    (fun _ _ h hr => ⟨Cursor.Each.reaches h.1 hr, h.2.reaches hr⟩) ?_ ⟨hc, hsayable⟩
  rintro c ⟨hc, hsayable⟩
  refine (statement_regular hc).mono ?_
  rintro s c' ⟨hgives, hregular⟩
  exact Statement.kinds_valid hregular (hgives.valid hsayable)

/-- The shebang line of every program is one line. -/
theorem program_shebang (recover : Bool) (hsayable : c.Each fun _ t => t.Sayable) :
    ∀ text ∈ (program recover c).1.result.shebang, '\n' ∉ text.toList := by
  have hshebang : shebang.Ensures c fun text? _ => ∀ text ∈ text?, '\n' ∉ text.toList := by
    refine Ensures.look_bind ?_
    split
    · next text h =>
      have hvalid : c.current.kind.Valid := hsayable.1 (by simp [h])
      rw [h] at hvalid
      refine Ensures.bind (Ensures.discard_take fun c₁ _ => Ensures.pure fun text' htext => ?_)
      obtain rfl : text = text' := by simpa using htext
      exact hvalid
    · exact Ensures.pure nofun
  unfold program
  split
  · exact nofun
  · next c₁ hs => exact hshebang _ _ hs

end Grammar

/-! ## Texts without errors -/

/-- The words of a program. -/
def Program.words (p : Program) : List Token.Kind :=
  (p.shebang.map Token.Kind.shebang).toList ++ p.statements.flatMap Statement.words

theorem TokenStream.essence_next {s rest : TokenStream} {t : Token} (h : s.next = (.ok t, rest)) :
    Token.essence s.leading = Token.essence (t :: rest.leading) := by
  cases s <;> cases h <;> rfl

namespace Cursor
variable {c c' : Cursor}

/-- The tokens from the current one on. -/
def left (c : Cursor) : List Token := c.current :: c.ahead.leading

/-- What is left of a text is what is taken of it and what is left then. -/
theorem Takes.essence_left {ts : List Token} (h : c.Takes ts c') :
    Token.essence c.left = Token.essence ts ++ Token.essence c'.left := by
  have step {b d : Cursor} {ts : List Token} {t : Token} (ht : b.take = (.ok t, d))
      (ih : Token.essence c.left = Token.essence ts ++ Token.essence b.left) :
      Token.essence c.left = Token.essence (ts ++ [t]) ++ Token.essence d.left := by
    obtain ⟨rfl, next, ahead, hn, rfl⟩ := take_ok ht
    have hleft : Token.essence b.left = Token.essence [b.current] ++ Token.essence b.ahead.leading :=
      Token.essence_append [b.current] _
    rw [ih, hleft, TokenStream.essence_next hn, Token.essence_append, List.append_assoc]
    rfl
  induction h with
  | refl => rfl
  | take _ ht ih => exact step ht ih
  | warn _ ht _ _ ih => exact (step ht ih :)

/-- At the end nothing is left. -/
theorem Facing.essence_left {e : Option LexError} {ts : List Token} (h : c.Facing e ts)
    (hend : c.atEnd = true) : Token.essence c.left = [] := by
  obtain ⟨place, hahead⟩ := h.atEnd hend
  have hk : c.current.kind = .endOfInput := by simpa [Cursor.atEnd] using hend
  simp [left, hahead, TokenStream.leading, Token.essence, Token.Kind.words, hk, Token.ending,
    Token.Kind.isWord]

/-- What is given up to the end remains of all that was left. -/
theorem Gives.words_left {ws : List Token.Kind} {e : Option LexError} {ts : List Token}
    (h : c.Gives ws c') (hc : c.Facing e ts) (hend : c'.atEnd = true) :
    e = none ∧ dropEmptyParams (Token.essence c.left) = ws := by
  obtain ⟨us, htakes, hws⟩ := h
  have hc' := hc.leads ⟨us, htakes⟩
  refine ⟨hc'.fault_atEnd hend, ?_⟩
  rw [htakes.essence_left, hc'.essence_left hend, hws, dropEmptyParams, List.append_nil]

end Cursor

namespace Grammar
variable {c : Cursor}

/-- A part of a program without errors gives its words. -/
theorem optionalStatement_gives (hc : c.Legal) :
    (optionalStatement false).Ensures c fun o c' =>
      o.failure = none → c.Gives (o.result.flatMap Statement.words) c' := by
  refine Ensures.look_bind ?_
  split
  · exact Ensures.pure fun _ => .refl c
  · refine Ensures.bind (Ensures.attempt ?_)
    split
    · intro o c' hrun
      cases hrun
      exact nofun
    · next s hs =>
      have hgives := (statement_regular hc s _ (Prod.ext hs rfl)).1
      refine Ensures.look_bind ?_
      split
      · exact Ensures.pure fun _ => by simpa using hgives
      · refine Ensures.look_bind ?_
        intro o c' hrun
        cases hrun
        exact nofun

/-- Statements without errors give their words, and nothing is behind them. -/
theorem topLevel_gives (hc : c.Legal) (h : (topLevel false c).1.failure = none) :
    c.Gives ((topLevel false c).1.result.flatMap Statement.words) (topLevel false c).2 ∧
      (topLevel false c).2.atEnd = true := by
  unfold topLevel at h ⊢
  fun_induction collect (·.atSeparator) (optionalStatement false) c with
  | case1 c e c₁ hp =>
    obtain ⟨o, c', ho⟩ := optionalStatement_ok false c
    simp [hp] at ho
  | case2 | case4 => cases h
  | case3 c items c₁ hp hend => exact ⟨optionalStatement_gives hc _ _ hp rfl, hend⟩
  | case5 c items c₁ hp hend hagain t c₂ ht further c₃ hr ih =>
    have hgives := optionalStatement_gives hc _ _ hp rfl
    have hc₁ : c₁.Legal := Cursor.Each.gives hc hgives
    have hseparator : t.kind.isWord = false := by
      obtain ⟨rfl, -⟩ := Cursor.take_ok ht
      have hagain : c₁.current.kind.isSeparator = true := hagain
      simp [Token.Kind.isWord, hagain]
    rw [hr] at ih
    obtain ⟨hmore, hlast⟩ := ih (hc₁.take ht) h
    refine ⟨?_, hlast⟩
    rw [List.flatMap_append]
    exact hgives.trans ((Cursor.Gives.separator ht hseparator).trans hmore)
  | case6 c items c₁ hp hend hagain =>
    have hstop := optionalStatement_atStatementEnd _ _ hp rfl
    simp [atStatementEnd, hend, hagain] at hstop

/-- A program without errors gives its words, and nothing is behind it. -/
theorem program_gives (hc : c.Legal) (h : (program false c).1.failure = none) :
    c.Gives (program false c).1.result.words (program false c).2 ∧
      (program false c).2.atEnd = true := by
  have hshebang : shebang.Ensures c fun text? c' =>
      c.Gives (text?.map Token.Kind.shebang).toList c' := by
    refine Ensures.look_bind ?_
    split
    · next text h =>
      refine Ensures.bind (Ensures.discard_take fun c₁ ht => Ensures.pure ?_)
      exact .word ht (by rw [h]; rfl) (by rw [h]; rfl) (by simp)
    · exact Ensures.pure (.refl c)
  unfold program at h ⊢
  split
  · next e c₁ hs =>
    rw [hs] at h
    cases h
  · next text? c₁ hs =>
    rw [hs] at h
    have hfirst := hshebang _ _ hs
    obtain ⟨hmore, hlast⟩ := topLevel_gives (Cursor.Each.gives hc hfirst) h
    exact ⟨hfirst.trans hmore, hlast⟩

/-- A text without errors has the words of its program. -/
theorem parse_words {source : String} (h : (parse source false).errors = []) :
    ∃ ts, tokenize source = .ok ts ∧
      Token.Kind.tidied (ts.map Token.kind) = (parse source false).program.words := by
  rw [parse_eq_read] at h ⊢
  unfold read at h ⊢
  split at h
  · cases h
  · next c hc =>
    change (found (program false c)).errors = [] at h
    rw [errors_found (program_agrees_or_stops (warned_ofString hc)).1] at h
    have hfailure : (program false c).1.failure = none := by simpa using h
    obtain ⟨hgives, hend⟩ := program_gives (legal_ofString hc) hfailure
    obtain ⟨hfault, hwords⟩ := hgives.words_left (Cursor.facing_ofString hc) hend
    refine ⟨(Lexer.ofString source).stream.leading, ?_, ?_⟩
    · rw [tokenize, TokenStream.tokens_eq, hfault]
    · have hleft : Token.essence (Lexer.ofString source).stream.leading = Token.essence c.left := by
        unfold Cursor.ofString at hc
        split at hc
        · next t ahead hn =>
          cases hc
          exact TokenStream.essence_next hn
        · cases hc
      exact (congrArg dropEmptyParams hleft).trans hwords

end Grammar
end WqSource
