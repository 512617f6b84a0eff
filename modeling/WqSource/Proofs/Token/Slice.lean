import WqSource.Proofs.Alike.Cursor
import WqSource.Proofs.Alone.Cut
import WqSource.Proofs.Token.Place
import WqSource.Proofs.Token.Tiling

/-!
# Tokens cut out of a text

A row of tokens that is cut out of its text, from the start of the first lexeme through the end
of the last one, is read again as the same kinds of token. What ends a lexeme in the text ends it
in the slice, too, as the slice has nothing else behind it, if anything. Only lines for the host
depend on more than that; where there are none, a row reads the same everywhere.

## Main definitions

* `Lexer.FindsAll`: a row of tokens in front of a lexer.

## Main statements

* `Token.Kind.EndsBefore.of_append`: what ends in front of a text ends in front of the first part
  of it.
* `Lexer.FindsAll.alike`: a row of tokens by itself.
* `Lexer.findsAll_of_advances`: what a cursor takes is a row.
-/

namespace WqSource

/-! ## In front of less -/

variable {gap lexeme rest behind text cs : List Char} {k : Token.Kind} {ts : List Token}

theorem mem_head?_append {α : Type} {a : α} {cs behind : List α} (h : a ∈ cs.head?) :
    a ∈ (cs ++ behind).head? := by
  cases cs with
  | nil => cases h
  | cons => exact h

theorem IsGap.of_head (h : IsGap (lexeme ++ behind) gap) (hne : lexeme ≠ []) :
    IsGap (lexeme ++ cs) gap := by
  obtain ⟨c, tail, rfl⟩ := List.exists_cons_of_ne_nil hne
  cases h with
  | blanks hspaces => exact .blanks hspaces
  | comment hspaces htext hline => exact .comment hspaces htext fun d hd => hline d hd

/-- What ends in front of a text ends in front of the first part of it. -/
theorem Token.Kind.EndsBefore.of_append (h : k.EndsBefore (cs ++ behind)) : k.EndsBefore cs := by
  have head {P : Char → Prop} (h : ∀ c ∈ (cs ++ behind).head?, P c) : ∀ c ∈ cs.head?, P c :=
    fun c hc => h c (mem_head?_append hc)
  have headNe {d : Char} (h : (cs ++ behind).head? ≠ some d) : cs.head? ≠ some d :=
    fun hd => h (mem_head?_append hd)
  cases k with
  | integer n =>
    refine ⟨head h.1, fun c tail hcs => h.2 c (tail ++ behind) ?_⟩
    rw [hcs]
    rfl
  | float | symbol | boolean | infinity | notANumber | identifier | builtin | control | magic =>
    exact head h
  | punct p =>
    cases p with
    | slash => exact ⟨headNe h.1, headNe h.2⟩
    | percent | less | greater => exact headNe h
    | _ => trivial
  | newline =>
    -- If a line feed came next behind trivia, it would come next in the longer text, too.
    intro tail htail
    have hcs : cs = trivia cs ++ '\n' :: tail := by
      rw [← htail]
      exact (trivia_append_drop cs).symm
    obtain ⟨hgap, -⟩ := isGap_trivia hcs
    have hline : trivia ('\n' :: (tail ++ behind)) = [] :=
      trivia_eq_nil_iff.2 ⟨by rintro c ⟨⟩; exact isSpace_of_mem_marks (by decide), nofun⟩
    have hgap' : IsGap ('\n' :: (tail ++ behind)) (trivia cs) :=
      IsGap.of_head (show IsGap (['\n'] ++ tail) (trivia cs) from hgap) (by simp)
    have hlonger : cs ++ behind = trivia cs ++ '\n' :: (tail ++ behind) := calc
      cs ++ behind = (trivia cs ++ '\n' :: tail) ++ behind := by rw [← hcs]
      _ = trivia cs ++ '\n' :: (tail ++ behind) := by rw [List.append_assoc, List.cons_append]
    refine h (tail ++ behind) ?_
    rw [hlonger, hgap'.trivia_eq hline, List.drop_left]
  | _ => trivial

/-! ## Rows of tokens -/

/-- The tokens, and nothing else. -/
def TokenStream.ofTokens (ts : List Token) : TokenStream := ts.foldr .token (.ended .start)

namespace Lexer
variable {l l' m : Lexer} {t : Token}

/-- Where a lexer finds a token, another lexer finds it, too, unless it is a line for the host. -/
theorem Finds.elsewhere (h : l.Finds gap lexeme (text ++ behind) k)
    (hcode : ∀ payload, k ≠ .magic payload) (hm : m.rest = gap ++ (lexeme ++ text)) :
    m.Finds gap lexeme text k where
  rest_eq := hm
  gap := h.gap.of_head h.lexeme.ne_nil
  lexeme := h.lexeme
  ends := h.ends.of_append
  magic := fun payload hk => absurd hk (hcode payload)

/-- The tokens that are next in front of a lexer, the text from there through the last one, and
the lexer behind that. -/
inductive FindsAll : Lexer → List Token → List Char → Lexer → Prop where
  | nil (l : Lexer) : FindsAll l [] [] l
  | cons {l l' : Lexer} {gap lexeme rest text : List Char} {k : Token.Kind} {ts : List Token} :
    l.Finds gap lexeme rest k → FindsAll (l.moved gap lexeme rest k) ts text l' →
      FindsAll l (l.tokenBehind gap lexeme k :: ts) (gap ++ (lexeme ++ text)) l'

namespace FindsAll

theorem leadsTo (h : l.FindsAll ts text l') : l.LeadsTo text l' := by
  induction h with
  | nil l => exact ⟨rfl, rfl⟩
  | @cons l l' gap lexeme rest text k ts hfinds _ ih =>
    refine ⟨?_, ?_⟩
    · have hrest : rest = text ++ l'.rest := ih.rest
      rw [hfinds.rest_eq, hrest]
      simp only [List.append_assoc]
    · have hposition : l'.position = ((l.position.after gap).after lexeme).after text := ih.position
      rw [hposition, Position.after_append, Position.after_append]

/-- One more token. -/
theorem snoc (h : l.FindsAll ts text l') (hfinds : l'.Finds gap lexeme rest k) :
    l.FindsAll (ts ++ [l'.tokenBehind gap lexeme k]) (text ++ (gap ++ lexeme))
      (l'.moved gap lexeme rest k) := by
  induction h with
  | nil l => simpa using FindsAll.cons hfinds (.nil _)
  | cons hfirst _ ih => simpa using FindsAll.cons hfirst (ih hfinds)

/-- Behind the first token there is no shebang line. -/
theorem shebang?_eq_none (h : l.FindsAll ts text l') (hl : l.shebang? = none) :
    l'.shebang? = none := by
  induction h with
  | nil => exact hl
  | cons hfinds _ ih => exact ih hfinds.shebang?_moved

theorem kind_ne (h : l.FindsAll ts text l') : ∀ t ∈ ts, t.kind ≠ .endOfInput := by
  induction h with
  | nil => nofun
  | cons hfinds _ ih => exact List.forall_mem_cons.2 ⟨hfinds.lexeme.kind_ne.1, ih⟩

/-- The tokens are at the front of what is read. -/
theorem cut (h : l.FindsAll ts text l') (hl : l.shebang? = none) :
    l.stream.Cut ts.length (.ofTokens ts) := by
  induction h with
  | nil => exact .ended _ _
  | @cons l l' gap lexeme rest text k ts hfinds _ ih =>
    have hk : (l.tokenBehind gap lexeme k).kind ≠ .endOfInput := hfinds.lexeme.kind_ne.1
    rw [stream_of_next (hfinds.next hl) hk]
    exact .token hk (ih hfinds.shebang?_moved)

/-- A gap is empty if and only if what is behind it touches what is in front of it. -/
theorem offset_after_eq_iff (p : Position) (gap : List Char) :
    (p.after gap).offset = p.offset ↔ gap = [] := by
  constructor
  · intro h
    by_contra hne
    have hlt := Position.offset_lt_after (p := p) hne
    omega
  · rintro rfl
    rfl

/-- The tokens are read again where there is nothing else. -/
theorem alike (h : l.FindsAll ts text l') (hcode : ∀ t ∈ ts, ∀ payload, t.kind ≠ .magic payload)
    (hm : m.rest = text) (hnone : m.shebang? = none) (depth : Nat) :
    TokenStream.Alike none depth l.position.offset m.position.offset (.ofTokens ts) m.stream := by
  induction h generalizing m depth with
  | nil =>
    rw [stream_eq, next_of_isGap (by rw [hm]; exact isGap_nil) hnone]
    exact .ended _ _ rfl
  | @cons l l' gap lexeme rest text k ts hfinds hall ih =>
    have hrest : rest = text ++ l'.rest := hall.leadsTo.rest
    have hk : k ≠ .endOfInput := hfinds.lexeme.kind_ne.1
    obtain ⟨hfirst, hcode⟩ := List.forall_mem_cons.1 hcode
    rw [hrest] at hfinds
    have hagain := hfinds.elsewhere hfirst hm
    rw [stream_of_next (hagain.next hnone) hk]
    refine .token rfl hk (fun _ => ?_) (ih hcode rfl hagain.shebang?_moved _)
    exact (offset_after_eq_iff l.position gap).trans (offset_after_eq_iff m.position gap).symm

end FindsAll
end Lexer

/-! ## What a cursor takes -/

/-- What a cursor takes is a row of tokens, and the cursor is behind the last of them then. -/
theorem Lexer.findsAll_of_advances {l l₁ : Lexer} {n : Nat} {c c' : Cursor}
    (hnext : l.next = (.ok c.current, l₁)) (hahead : c.ahead = l₁.stream)
    (hl : l.shebang? = none) (h : c.Advances n c') :
    ∃ ts text l' l₁', ts.length = n ∧ l.FindsAll ts text l' ∧
      l'.next = (.ok c'.current, l₁') ∧ c'.ahead = l₁'.stream ∧
        (ts ++ [c'.current]).head? = some c.current ∧ (0 < n → c'.lastEnd = l'.position) := by
  induction h with
  | refl c => exact ⟨[], [], l, l₁, rfl, .nil l, hnext, hahead, rfl, nofun⟩
  | note p _ ih =>
    obtain ⟨ts, text, l', l₁', hlength, hall, hnext', hahead', hfirst, hlast⟩ := ih hnext hahead
    exact ⟨ts, text, l', l₁', hlength, hall, hnext', hahead', hfirst, hlast⟩
  | @take n b c c' _ hend ht ih =>
    obtain ⟨ts, text, l', l₁', rfl, hall, hnext', hahead', hfirst, -⟩ := ih hnext hahead
    obtain ⟨-, next, ahead, hn, rfl⟩ := Cursor.take_ok ht
    have hk : c.current.kind ≠ .endOfInput := by simpa [Cursor.atEnd] using hend
    obtain ⟨gap, lexeme, hfinds, htoken, hmoved⟩ :=
      finds_of_next hnext' (hall.shebang?_eq_none hl) hk
    rw [hahead'] at hn
    obtain ⟨l₂, hnext₂, rfl⟩ := stream_next hn
    have hsnoc := hall.snoc hfinds
    rw [← htoken, ← hmoved] at hsnoc
    refine ⟨_, _, l₁', l₂, by simp, hsnoc, hnext₂, rfl, mem_head?_append hfirst, fun _ => ?_⟩
    change c.current.span.stop = l₁'.position
    rw [htoken, hmoved]
    rfl

end WqSource
