import WqSource.Grammar.Primary
import WqSource.Proofs.Sound.Block

/-!
# Primaries are read as they are written

Behind its first token, every form of primary reads a regular tree, passes over the words
of that tree, and leaves nothing open that the current token could become part of.

## Main statements

* `primary?_reads`, `primary_reads`.
-/

namespace WqSource
open Grammar WqSource.Parser

namespace Grammar
variable {inner : Inner} {n : Nat} {c c₁ : Cursor}

/-! ## Functions -/

theorem param_passes :
    param.Ensures c fun p c' => c.Passes [.identifier p.name] c' := by
  refine Ensures.choose fun goOn c₁ hs ht => ?_
  split at hs
  · next name hk =>
    cases hs
    exact Ensures.pure (.word ht (by simp [hk, Token.Kind.canonical]) (by simp [hk])
      (by simp [hk, Token.Kind.depthAfter]))
  · cases hs

theorem params_passes (hc : c.Legal) (hd : 0 < c.depth) :
    params.Ensures c fun ps c' =>
      ps = [] ∧ c.looksAt .closeBracket = true ∧ c.take = (.ok c.current, c') ∨
        ps ≠ [] ∧ c.Closes (ps.map (.identifier ·.name)) .closeBracket c' := by
  refine Ensures.look_bind ?_
  split
  · refine Ensures.bind (Ensures.pure (Ensures.bind (Ensures.expect fun c₁ hlook ht => ?_)))
    exact Ensures.pure (.inl ⟨rfl, hlook, ht⟩)
  · refine Ensures.bind ((Ensures.separated_passes (w := fun p : Param => [.identifier p.name])
      (P := fun _ => True) hc (fun c' _ _ => param_passes.mono fun p c'' h => ⟨h, trivial⟩)
      ?_ (by simp)).mono fun ps c₁ h => ?_)
    · intro c₁ goOn c₂ hd₁ hs ht
      unfold atPunct at hs
      split at hs
      · next hsemicolon =>
        cases hs
        rw [Cursor.looksAt_iff] at hsemicolon
        exact Ensures.pure (.separator ht (by simp [hsemicolon]) fun _ => by omega)
      · cases hs
    · refine Ensures.bind (Ensures.pure (Ensures.bind (Ensures.expect fun c₂ hlook ht => ?_)))
      refine Ensures.pure (.inr ⟨by simp, c₁, ?_, hlook, ht⟩)
      rw [List.map_eq_flatMap]
      exact h.1

/-- The first word of the statements of a function, if there are any, begins an
expression. -/
theorem head?_body_ne_openBracket {body : Option Branch} (h : ∀ b ∈ body, b.NestsIn n) :
    (body.elim [] Branch.words).head? ≠ some (.punct .openBracket) := by
  cases body with
  | none => simp
  | some b =>
    obtain ⟨hne, hb⟩ := h b rfl
    obtain ⟨s, rest, hs⟩ := List.exists_cons_of_ne_nil hne
    obtain ⟨e, rfl, m, -, he⟩ := hb s (by simp [hs])
    obtain ⟨k, ks, hk, hstart⟩ := Expr.words_eq_cons he
    simp only [Option.elim_some, Branch.words, hs, List.flatMap_cons, Statement.words_expression,
      hk, List.cons_append, List.head?_cons, ne_eq, Option.some.injEq]
    rintro rfl
    cases hstart

theorem function_reads (hi : inner.Sound n) (hc : c.Legal) (ht : c.take = (.ok c.current, c₁))
    (hk : c.looksAt .openBrace = true) :
    (function inner c.current).Ensures c₁ fun e c' => c.Reads n e c' ∧ e.rank = .primary := by
  have reads (ps : List Param) (body : Option Branch) (s : Span) (c' : Cursor)
      (h : c.Passes (.punct .openBrace ::
        (Param.listWords ps ++ body.elim [] Branch.words ++ [.punct .closeBrace])) c')
      (hbody : ∀ b ∈ body, b.NestsIn n) :
      c.Reads n (.function s ps body) c' ∧ (Expr.function s ps body).rank = .primary := by
    refine ⟨⟨by rw [Expr.words_function, ← List.append_assoc]; exact h, ?_, trivial, by simp⟩, rfl⟩
    refine Expr.regular_iff.2 ⟨fun b hb => (hbody b hb).wellShaped, by simp [Expr.operands], ?_⟩
    cases body with
    | none => simp [Expr.nested]
    | some b => exact fun x hx => (hbody b rfl).of_mem hx
  have hc₁ : c₁.Legal := hc.take ht
  have hd : c₁.depth = c.depth + 1 :=
    Cursor.depth_take_opening ht hk fun _ => rfl
  refine Ensures.look_bind ?_
  split
  · next hopen =>
    refine Ensures.bind (Ensures.discard_take fun c₂ ht₁ => ?_)
    have hd₂ : c₂.depth = c₁.depth + 1 :=
      Cursor.depth_take_opening ht₁ hopen fun _ => rfl
    refine Ensures.bind ((params_passes (hc₁.take ht₁) (by omega)).mono ?_)
    rintro ps c₃ (⟨rfl, hclose, ht₂⟩ | ⟨hps, hclose⟩)
    · have hd₃ : c₃.depth = c₂.depth - 1 := by
        rw [Cursor.depth_take ht₂, (Cursor.looksAt_iff.1 hclose)]
        rfl
      refine Ensures.bind ((functionBody_passes hi ((hc₁.take ht₁).take ht₂) (by omega)).mono
        fun body c₄ hbody => Ensures.spanFrom_bind fun s => Ensures.pure ?_)
      exact reads [] body s c₄ (.bracesBrackets ht hk ht₁ hopen ht₂ hclose hbody.1) hbody.2
    · have hbrackets : c₁.Passes (Param.listWords ps) c₃ := by
        rw [Param.listWords, if_neg (by simpa using hps)]
        exact .enclosed ht₁ hopen hclose (.inr rfl) (.inr rfl)
      have hd₃ := hbrackets.depth_eq
      refine Ensures.bind ((functionBody_passes hi (hbrackets.legal hc₁) (by omega)).mono
        fun body c₄ hbody => Ensures.spanFrom_bind fun s => Ensures.pure ?_)
      refine reads ps body s c₄ (.braces ht hk (hbody.1.before hbrackets) (.inr ?_)) hbody.2
      obtain ⟨p, qs, rfl⟩ := List.exists_cons_of_ne_nil hps
      exact ⟨.identifier p.name, _, rfl, by simp⟩
  · refine Ensures.bind (Ensures.pure ?_)
    refine Ensures.bind ((functionBody_passes hi hc₁ (by omega)).mono
      fun body c₂ hbody => Ensures.spanFrom_bind fun s => Ensures.pure ?_)
    exact reads [] body s c₂ (.braces ht hk hbody.1 (.inl (head?_body_ne_openBracket hbody.2)))
      hbody.2

/-! ## Groups -/

theorem entry_passes (hi : inner.Sound n) (hc : c.Legal) :
    (entry inner).Ensures c fun e c' => c.Passes e.words c' ∧ e.value.NestsIn n := by
  refine Ensures.choose fun goOn c₁ hs ht => ?_
  split at hs
  · next key hk =>
    cases hs
    have hkey : c.Passes [.symbol key] c₁ :=
      .word ht (by simp [hk, Token.Kind.canonical]) (by simp [hk])
        (by simp [hk, Token.Kind.depthAfter])
    refine Ensures.bind (Ensures.expect fun c₂ hcolon ht₁ => ?_)
    have hcolon : c₁.Passes [.punct .colon] c₂ :=
      .punct ht₁ hcolon (by decide) fun _ => rfl
    have hboth := hkey.trans hcolon
    refine Ensures.bind ((hi.expression c₂ (hboth.legal hc)).mono ?_)
    rintro e c₃ ⟨⟨m, hn, he⟩, -⟩
    refine Ensures.pure ⟨?_, m, hn, he.regular⟩
    rw [Entry.words_mk]
    exact hboth.trans he.passes
  · cases hs

/-- A dict is not missed. -/
theorem startsDict_stays :
    startsDict.Ensures c fun b c' => c = c' ∧
      (b = true → ∃ key, c.current.kind = .symbol key) ∧ (b = false → ¬ c.StartsEntry) := by
  refine Ensures.look_bind ?_
  split
  · next key hk =>
    refine Ensures.bind (Ensures.peek fun k hpeek => Ensures.pure ⟨rfl, fun _ => ⟨key, hk⟩, ?_⟩)
    rintro hcolon ⟨-, -, h⟩
    obtain ⟨rfl, -⟩ := Prod.mk.inj (hpeek.symm.trans h) |>.imp Except.ok.inj id
    simp at hcolon
  · next hk =>
    refine Ensures.pure ⟨rfl, by simp, ?_⟩
    rintro - ⟨key, h, -⟩
    exact hk key h

theorem group_reads (hi : inner.Sound n) (hc : c.Legal) (ht : c.take = (.ok c.current, c₁))
    (hk : c.looksAt .openParen = true) :
    (group inner c.current).Ensures c₁ fun e c' => c.Reads n e c' ∧ e.rank = .primary := by
  have hc₁ : c₁.Legal := hc.take ht
  refine Ensures.bind (skipNewlines_passes.mono fun _ c₂ h₂ => ?_)
  obtain ⟨h₂, hnewline⟩ := h₂
  refine Ensures.look_bind ?_
  split
  · next hclose =>
    refine Ensures.bind (Ensures.discard_take fun c₃ ht₂ => ?_)
    refine Ensures.spanFrom_bind fun s => Ensures.pure ⟨⟨?_, ?_, trivial, by simp⟩, rfl⟩
    · exact .enclosed ht hk ⟨c₂, h₂, hclose, ht₂⟩ (.inl rfl) (.inl rfl)
    · exact Expr.regular_iff.2 ⟨trivial, by simp [Expr.operands], by simp [Expr.nested]⟩
  · next hclose =>
    have hc₂ := h₂.legal hc₁
    have hd₂ : 0 < c₂.depth := by
      rw [h₂.depth_eq, Cursor.depth_take ht, Cursor.looksAt_iff.1 hk]
      exact Nat.succ_pos _
    refine Ensures.bind (startsDict_stays.mono ?_)
    rintro b c₃ ⟨hsame, hdict, hlist⟩
    subst hsame
    split
    · next hb =>
      subst hb
      refine Ensures.bind (((items_passes (by decide) hc₂ hd₂ fun c' hl _ =>
        entry_passes hi hl).and (items_head (F := fun _ => True) hnewline (by simpa using hclose)
          fun _ _ _ => trivial)).mono ?_)
      rintro es c₃ ⟨⟨hes, hvalues⟩, hne, -⟩
      refine Ensures.spanFrom_bind fun s => Ensures.pure ⟨⟨?_, ?_, trivial, by simp⟩, rfl⟩
      · rw [Expr.words_dict]
        exact .enclosed ht hk (hes.before h₂) (.inl rfl) (.inl rfl)
      · refine Expr.regular_iff.2 ⟨hne, by simp [Expr.operands], fun x hx => ?_⟩
        obtain ⟨entry, hentry, rfl⟩ := List.mem_map.1 hx
        exact hvalues entry hentry
    · next hb =>
      refine Ensures.bind (((items_passes (w := Expr.words) (P := Expr.NestsIn n) (by decide) hc₂ hd₂
        fun c' hl _ => (hi.expression c' hl).mono ?_).and (items_head
          (F := fun e => e.isEntry = false) hnewline (by simpa using hclose) ?_)).mono ?_)
      · rintro e c' ⟨⟨m, hn, he⟩, -⟩
        exact ⟨he.passes, m, hn, he.regular⟩
      · refine (hi.expression c₂ hc₂).mono ?_
        rintro e c' ⟨-, -, hentry⟩
        by_contra h
        exact hlist (by simpa using hb) (hentry (by simpa using h))
      · rintro es c₃ ⟨⟨hes, hnests⟩, hne, hhead⟩
        refine Ensures.spanFrom_bind fun s => Ensures.pure ⟨⟨?_, ?_, trivial, by simp⟩, rfl⟩
        · rw [Expr.words_list]
          exact .enclosed ht hk (hes.before h₂) (.inl rfl) (.inl rfl)
        · exact Expr.regular_iff.2 ⟨⟨hne, hhead⟩, by simp [Expr.operands], hnests⟩

/-! ## Control forms -/

theorem arms_passes (hi : inner.Sound n) (hc : c.Legal) (hd : 0 < c.depth) :
    (arms inner).Ensures c fun bs c' =>
      c.Passes (bs.1.words ++ bs.2.words) c' ∧ bs.1.NestsIn n ∧ bs.2.NestsIn n := by
  refine Ensures.bind ((firstArm_passes hi hc hd).mono fun first c₁ h₁ => ?_)
  obtain ⟨h₁, hfirst⟩ := h₁
  refine Ensures.look_bind ?_
  split
  · split
    · next both hsplit =>
      obtain ⟨hne, hne', hstatements⟩ := Branch.splitLast?_eq_some hsplit
      refine Ensures.pure ⟨?_, ⟨hne, fun s hs => ?_⟩, ⟨hne', fun s hs => ?_⟩⟩
      · rw [Branch.words, hstatements, List.flatMap_append] at h₁
        exact h₁
      · exact hfirst.expressions s (by simp [hstatements, hs])
      · exact hfirst.expressions s (by simp [hstatements, hs])
    · exact Ensures.fail
  · refine Ensures.bind (Ensures.expect fun c₂ hlook ht => ?_)
    rw [Cursor.looksAt_iff] at hlook
    have h₂ : c.Passes first.words c₂ := by
      have hd₁ := h₁.depth_eq
      simpa using h₁.trans (.separator ht (by simp [hlook]) fun _ => by omega)
    have hd₂ := h₂.depth_eq
    exact Ensures.bind ((arm_passes hi (h₂.legal hc) (by omega)).mono fun second c₃ h₃ =>
      Ensures.pure ⟨h₂.trans h₃.1, hfirst, h₃.2⟩)

theorem conditional_reads (hi : inner.Sound n) (hc : c.Legal)
    (ht : c.take = (.ok c.current, c₁)) (hk : c.looksAt .dollar = true) :
    (conditional inner c.current).Ensures c₁ fun e c' =>
      c.Reads n e c' ∧ e.rank = .primary := by
  have hdollar : c.Passes [.punct .dollar] c₁ := .punct ht hk (by decide) fun _ => rfl
  have hc₁ := hdollar.legal hc
  refine Ensures.look_bind ?_
  split
  · next hdot =>
    refine Ensures.bind (Ensures.discard_take fun c₂ ht₁ => ?_)
    have hdot : c₁.Passes [.punct .dot] c₂ := .punct ht₁ hdot (by decide) fun _ => rfl
    have hc₂ := hdot.legal hc₁
    refine Ensures.bind (Ensures.expect fun c₃ hopen ht₂ => ?_)
    have hd₃ : c₃.depth = c₂.depth + 1 :=
      Cursor.depth_take_opening ht₂ hopen fun _ => rfl
    refine Ensures.bind ((head_passes hi (hc₂.take ht₂) (by omega)).mono fun condition c₄ h₄ => ?_)
    obtain ⟨h₄, hcondition⟩ := h₄
    have hd₄ := h₄.depth_eq
    refine Ensures.bind ((arm_passes hi (h₄.legal (hc₂.take ht₂)) (by omega)).mono
      fun body c₅ h₅ => ?_)
    obtain ⟨h₅, hbody⟩ := h₅
    refine Ensures.bind (Ensures.expect fun c₆ hclose ht₅ => ?_)
    refine Ensures.spanFrom_bind fun s => Ensures.pure ⟨⟨?_, ?_, trivial, by simp⟩, rfl⟩
    · have hinside : c₂.Passes _ c₆ :=
        .enclosed ht₂ hopen ⟨c₅, h₄.trans h₅, hclose, ht₅⟩ (.inr rfl) (.inr rfl)
      rw [Expr.words_guarded]
      simpa using hdollar.trans (hdot.trans hinside)
    · refine Expr.regular_iff.2 ⟨hbody.wellShaped, by simp [Expr.operands], fun x hx => ?_⟩
      rcases List.mem_cons.1 hx with rfl | hx
      · exact hcondition
      · exact hbody.of_mem hx
  · refine Ensures.bind (Ensures.expect fun c₂ hopen ht₁ => ?_)
    have hd₂ : c₂.depth = c₁.depth + 1 :=
      Cursor.depth_take_opening ht₁ hopen fun _ => rfl
    refine Ensures.bind ((head_passes hi (hc₁.take ht₁) (by omega)).mono fun condition c₃ h₃ => ?_)
    obtain ⟨h₃, hcondition⟩ := h₃
    have hd₃ := h₃.depth_eq
    refine Ensures.bind ((arms_passes hi (h₃.legal (hc₁.take ht₁)) (by omega)).mono
      fun both c₄ h₄ => ?_)
    obtain ⟨h₄, hthen, helse⟩ := h₄
    refine Ensures.bind (Ensures.expect fun c₅ hclose ht₄ => ?_)
    refine Ensures.spanFrom_bind fun s => Ensures.pure ⟨⟨?_, ?_, trivial, by simp⟩, rfl⟩
    · have hinside : c₁.Passes _ c₅ :=
        .enclosed ht₁ hopen ⟨c₄, h₃.trans h₄, hclose, ht₄⟩ (.inr rfl) (.inr rfl)
      rw [Expr.words_conditional]
      simpa using hdollar.trans hinside
    · refine Expr.regular_iff.2 ⟨⟨hthen.wellShaped, helse.wellShaped⟩, by simp [Expr.operands],
        fun x hx => ?_⟩
      simp only [Expr.nested, List.mem_cons, List.mem_append] at hx
      rcases hx with rfl | hx | hx
      · exact hcondition
      · exact hthen.of_mem hx
      · exact helse.of_mem hx

/-- The loops are the two that are written with their names. -/
theorem loopOfName?_eq_some {name : String} {node : Span → Expr → Branch → Expr}
    (h : loopOfName? name = some node) :
    name = "W" ∧ node = .whileLoop ∨ name = "N" ∧ node = .countLoop := by
  unfold loopOfName? at h
  split at h <;> cases h
  · exact .inl ⟨rfl, rfl⟩
  · exact .inr ⟨rfl, rfl⟩

theorem loop_reads {name : String} {node : Span → Expr → Branch → Expr} (hi : inner.Sound n)
    (hc : c.Legal) (ht : c.take = (.ok c.current, c₁)) (hk : c.current.kind = .identifier name)
    (hname : loopOfName? name = some node) (hopen : c₁.looksAt .openBracket = true) :
    (loop inner node c.current).Ensures c₁ fun e c' => c.Reads n e c' ∧ e.rank = .primary := by
  have hword : c.Passes [.identifier name] c₁ :=
    .word ht (by simp [hk, Token.Kind.canonical]) (by simp [hk])
      (by simp [hk, Token.Kind.depthAfter])
  have hc₁ := hword.legal hc
  refine Ensures.bind (Ensures.discard_take fun c₂ ht₁ => ?_)
  have hd₂ : c₂.depth = c₁.depth + 1 :=
    Cursor.depth_take_opening ht₁ hopen fun _ => rfl
  refine Ensures.bind ((head_passes hi (hc₁.take ht₁) (by omega)).mono fun condition c₃ h₃ => ?_)
  obtain ⟨h₃, hcondition⟩ := h₃
  have hd₃ := h₃.depth_eq
  refine Ensures.bind ((arm_passes hi (h₃.legal (hc₁.take ht₁)) (by omega)).mono
    fun body c₄ h₄ => ?_)
  obtain ⟨h₄, hbody⟩ := h₄
  refine Ensures.bind (Ensures.expect fun c₅ hclose ht₄ => ?_)
  have hinside : c₁.Passes _ c₅ :=
    .enclosed ht₁ hopen ⟨c₄, h₃.trans h₄, hclose, ht₄⟩ (.inr rfl) (.inr rfl)
  have hall := hword.trans hinside
  have hnested : ∀ x ∈ condition :: body.expressions, x.NestsIn n := fun x hx => by
    rcases List.mem_cons.1 hx with rfl | hx
    · exact hcondition
    · exact hbody.of_mem hx
  refine Ensures.spanFrom_bind fun s => Ensures.pure ?_
  rcases loopOfName?_eq_some hname with ⟨rfl, rfl⟩ | ⟨rfl, rfl⟩
  · refine ⟨⟨by simpa [Expr.words_whileLoop] using hall, ?_, trivial, by simp⟩, rfl⟩
    exact Expr.regular_iff.2 ⟨hbody.wellShaped, by simp [Expr.operands], hnested⟩
  · refine ⟨⟨by simpa [Expr.words_countLoop] using hall, ?_, trivial, by simp⟩, rfl⟩
    exact Expr.regular_iff.2 ⟨hbody.wellShaped, by simp [Expr.operands], hnested⟩

/-- A name that begins a loop has no bracket behind it where it stands for itself. -/
theorem nameEnding_admits {name : String} {touching : Bool} {k : Token.Kind}
    (h : (loopOfName? name).isSome = true → k ≠ .punct .openBracket) :
    (nameEnding name false).Admits touching k := by
  unfold nameEnding
  split
  · next hloop => exact h (by simpa using hloop)
  · trivial

theorem identifier_reads {name : String} (hi : inner.Sound n) (hc : c.Legal)
    (ht : c.take = (.ok c.current, c₁)) (hk : c.current.kind = .identifier name) :
    (identifier inner name c.current).Ensures c₁ fun e c' =>
      c.Reads n e c' ∧ e.rank = .primary := by
  refine Ensures.look_bind ?_
  split
  · next node hname hopen => exact loop_reads hi hc ht hk hname hopen
  · next hloop =>
    have hadmits : (nameEnding name false).Admits c₁.touching c₁.current.kind := by
      refine nameEnding_admits fun hsome hopen => ?_
      obtain ⟨node, hnode⟩ := Option.isSome_iff_exists.1 hsome
      exact hloop node hnode (Cursor.looksAt_iff.2 hopen)
    have regular (s : Span) : (Expr.name s name false).Regular n :=
      Expr.regular_iff.2 ⟨trivial, by simp [Expr.operands], by simp [Expr.nested]⟩
    split
    · next word hword =>
      refine Ensures.bind (Ensures.note (Ensures.pure
        ⟨⟨⟨.warned ht hk hword, ?_, .note _ (.of_ne ht (by simp [hk]))⟩, regular _, hadmits,
          by simp⟩, rfl⟩))
      change c₁.depth = c.depth
      rw [Cursor.depth_take ht, hk]
      rfl
    · refine Ensures.pure ⟨⟨?_, regular _, hadmits, by simp⟩, rfl⟩
      exact .word ht (by simp [hk, Token.Kind.canonical]) (by simp [hk])
        (by simp [hk, Token.Kind.depthAfter])

theorem control_reads {word : ControlWord} (hi : inner.Sound n) (hc : c.Legal)
    (ht : c.take = (.ok c.current, c₁)) (hk : c.current.kind = .control word) :
    (control inner c.current word).Ensures c₁ fun e c' =>
      c.Reads n e c' ∧ e.rank = .primary := by
  have hword : c.Passes [.control word] c₁ :=
    .word ht (by simp [hk, Token.Kind.canonical]) (by simp [hk])
      (by simp [hk, Token.Kind.depthAfter])
  have hvalue : inner.expression.Ensures c₁ fun e c' =>
      c.Passes (.control word :: e.words) c' ∧ e.NestsIn n ∧ c'.StopsAt .assignment := by
    refine (hi.expression c₁ (hword.legal hc)).mono ?_
    rintro e c' ⟨⟨m, hn, he⟩, hstops, -⟩
    exact ⟨hword.trans he.passes, ⟨m, hn, he.regular⟩, hstops⟩
  cases word with
  | returning =>
    refine Ensures.look_bind ?_
    split
    · refine Ensures.bind (Ensures.map (hvalue.mono fun e c' h => ?_))
      obtain ⟨hpasses, he, hstops⟩ := h
      refine Ensures.spanFrom_bind fun s => Ensures.pure ⟨⟨?_, ?_, ?_, by simp⟩, rfl⟩
      · simpa [Expr.words_returning] using hpasses
      · exact Expr.regular_iff.2 ⟨trivial, by simp [Expr.operands], by simpa [Expr.nested]⟩
      · exact Token.Kind.stopsAt_assignment.1 hstops
    · next hnot =>
      refine Ensures.bind (Ensures.pure (Ensures.spanFrom_bind fun s =>
        Ensures.pure ⟨⟨?_, ?_, ?_, by simp⟩, rfl⟩))
      · simpa [Expr.words_returning] using hword
      · exact Expr.regular_iff.2 ⟨trivial, by simp [Expr.operands], by simp [Expr.nested]⟩
      · exact eq_false_of_ne_true hnot
  | breaking | continuing =>
    refine Ensures.pure ⟨⟨hword, ?_, trivial, by simp⟩, rfl⟩
    exact Expr.regular_iff.2 ⟨trivial, by simp [Expr.operands], by simp [Expr.nested]⟩
  | asserting | trying =>
    refine Ensures.bind (hvalue.mono fun e c' h => ?_)
    obtain ⟨hpasses, he, hstops⟩ := h
    refine Ensures.spanFrom_bind fun s => Ensures.pure ⟨⟨?_, ?_, ?_, by simp⟩, rfl⟩
    · simpa [Expr.words_asserting, Expr.words_trying] using hpasses
    · exact Expr.regular_iff.2 ⟨trivial, by simp [Expr.operands], by simpa [Expr.nested]⟩
    · exact Token.Kind.stopsAt_assignment.1 hstops

/-! ## All of them -/

theorem literal_reads {v : Literal} (s : Span) (ht : c.take = (.ok c.current, c₁))
    (hk : c.current.kind = v.kind) :
    c.Reads n (.literal s v) c₁ ∧ (Expr.literal s v).rank = .primary := by
  refine ⟨⟨?_, ?_, trivial, fun s' v' h => ?_⟩, rfl⟩
  · rw [Expr.words_literal]
    exact .word ht (by rw [hk]; cases v <;> rfl) (by simp [hk]) (by rw [hk]; cases v <;> simp
      [Literal.kind, Token.Kind.depthAfter])
  · exact Expr.regular_iff.2 ⟨trivial, by simp [Expr.operands], by simp [Expr.nested]⟩
  · cases h
    exact ⟨hk, ht⟩

/-- A primary is read from its first token on. -/
theorem primary?_reads {goOn : Token → Parser Expr} (hi : inner.Sound n) (hc : c.Legal)
    (ht : c.take = (.ok c.current, c₁)) (hs : primary? inner c.current.kind = some goOn) :
    (goOn c.current).Ensures c₁ fun e c' => c.Reads n e c' ∧ e.rank = .primary := by
  unfold primary? at hs
  split at hs <;> cases hs
  case h_1 v h => exact Ensures.pure (literal_reads (v := .integer v) _ ht h)
  case h_2 v h => exact Ensures.pure (literal_reads (v := .float v) _ ht h)
  case h_3 v h => exact Ensures.pure (literal_reads (v := .character v) _ ht h)
  case h_4 v h => exact Ensures.pure (literal_reads (v := .string v) _ ht h)
  case h_5 v h => exact Ensures.pure (literal_reads (v := .symbol v) _ ht h)
  case h_6 v h => exact Ensures.pure (literal_reads (v := .boolean v) _ ht h)
  case h_7 h => exact Ensures.pure (literal_reads (v := .infinity) _ ht h)
  case h_8 h => exact Ensures.pure (literal_reads (v := .notANumber) _ ht h)
  case h_9 name h => exact identifier_reads hi hc ht h
  case h_10 name h =>
    refine Ensures.pure ⟨⟨?_, ?_, trivial, by simp⟩, rfl⟩
    · exact .word ht (by simp [h, Token.Kind.canonical]) (by simp [h])
        (by simp [h, Token.Kind.depthAfter])
    · exact Expr.regular_iff.2 ⟨trivial, by simp [Expr.operands], by simp [Expr.nested]⟩
  case h_11 h => exact function_reads hi hc ht (Cursor.looksAt_iff.2 h)
  case h_12 h => exact group_reads hi hc ht (Cursor.looksAt_iff.2 h)
  case h_13 h => exact conditional_reads hi hc ht (Cursor.looksAt_iff.2 h)
  case h_14 word h => exact control_reads hi hc ht h

theorem primary_reads (hi : inner.Sound n) (hc : c.Legal) :
    (primary inner).Ensures c fun e c' => c.Reads n e c' ∧ e.rank = .primary :=
  Ensures.choose fun _ _ hs ht => primary?_reads hi hc ht hs

end Grammar
end WqSource
