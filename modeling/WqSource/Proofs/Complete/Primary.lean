import WqSource.Proofs.Complete.Block
import WqSource.Proofs.Sound.Primary

/-!
# Primaries that are written are read back

The first token of a primary says which form it is, and that form reads back what is
written behind the token. Lists and dicts begin alike; a list is not taken for a dict,
because an assignment to a symbol is not its first item.

## Main statements

* `Expr.kinds_symbol`: what may stand behind a symbol that begins an expression.
* `primary?_rereads`.
-/

namespace WqSource
open Grammar WqSource.Parser
open Token.Kind (front StartsExpression)

/-! ## Symbols that begin expressions -/

theorem Expr.isEntry_of_rank {e : Expr} (h : .assignment < e.rank) : e.isEntry = false := by
  cases e with
  | assignment => exact absurd h (by simp [rank])
  | _ => rfl

theorem BinaryOp.punct_ne_colon (op : BinaryOp) : op.punct ≠ .colon := by cases op <;> decide

/-- If an expression begins with a symbol, it is the symbol or has no colon behind it, unless
it is an assignment to the symbol. -/
theorem Expr.kinds_symbol {n : Nat} {e : Expr} (he : e.Regular n) {key : String}
    {ls : List Token.Kind} (hk : e.kinds = .symbol key :: ls) :
    (ls = [] → ∃ s, e = .literal s (.symbol key)) ∧
      (e.isEntry = false → ls.head? ≠ some (.punct .colon)) := by
  induction e using induction_parts generalizing ls with
  | h e operands nested =>
  obtain ⟨hshape, hoperands, -⟩ := regular_iff.1 he
  -- The symbol belongs to the first operand, and behind that there is more.
  have behind {x : Expr} (hx : x ∈ e.operands) {k : Token.Kind} {ks : List Token.Kind}
      (hall : e.kinds = x.kinds ++ k :: ks) (hcolon : k ≠ .punct .colon)
      (hentry : x.isEntry = false) :
      (ls = [] → ∃ s, e = .literal s (.symbol key)) ∧
        (e.isEntry = false → ls.head? ≠ some (.punct .colon)) := by
    obtain ⟨first, xs, hxs, -⟩ := kinds_eq_cons (hoperands x hx)
    rw [hk, hxs, List.cons_append] at hall
    obtain ⟨rfl, rfl⟩ := List.cons.inj hall
    obtain ⟨-, hnot⟩ := operands x hx (hoperands x hx) hxs
    refine ⟨by simp, fun _ => ?_⟩
    cases xs with
    | nil => simpa using hcolon
    | cons => exact hnot hentry
  cases e with
  | assignment s target value =>
    obtain ⟨first, xs, hxs, -⟩ := kinds_eq_cons (hoperands target (by simp [Expr.operands]))
    rw [kinds_assignment, hxs, List.cons_append] at hk
    obtain ⟨rfl, rfl⟩ := List.cons.inj hk
    obtain ⟨hsymbol, hnot⟩ := operands target (by simp [Expr.operands])
      (hoperands target (by simp [Expr.operands])) hxs
    refine ⟨by simp, fun hentry => ?_⟩
    cases xs with
    | nil =>
      obtain ⟨s', rfl⟩ := hsymbol rfl
      cases hentry
    | cons => exact hnot (isEntry_of_rank hshape.1)
  | pipe s es | join s es =>
    obtain ⟨hlength, hrank, -⟩ := hshape
    obtain ⟨x, y, es, rfl⟩ : ∃ x y zs, es = x :: y :: zs := by
      rcases es with _ | ⟨x, _ | ⟨y, zs⟩⟩
      · simp at hlength
      · simp at hlength
      · exact ⟨x, y, zs, rfl⟩
    refine behind (x := x) (by simp [Expr.operands])
      (by simp [intercalate_cons_eq_flatMap]; exact ⟨rfl, rfl⟩) (by decide)
      (isEntry_of_rank ?_)
    exact lt_trans (by decide) (hrank x (by simp))
  | binary s op left right =>
    refine behind (x := left) (by simp [Expr.operands]) (kinds_binary ..)
      (by simpa using op.punct_ne_colon) (isEntry_of_rank (lt_of_lt_of_le ?_ hshape.1))
    cases op <;> decide
  | unary s ops operand =>
    obtain ⟨op, ops, rfl⟩ := List.exists_cons_of_ne_nil hshape.1
    simp at hk
  | power s base exponent =>
    refine behind (x := base) (by simp [Expr.operands]) (kinds_power ..) (by decide)
      (isEntry_of_rank (lt_of_lt_of_le (by decide) (chain_le_rank_of_isIndexed hshape.1)))
  | chain s base suffixes =>
    obtain ⟨hbase, hne, -⟩ := hshape
    obtain ⟨suffix, rest, rfl⟩ := List.exists_cons_of_ne_nil hne
    have hentry : base.isEntry = false := isEntry_of_rank (by rw [hbase]; decide)
    cases suffix with
    | index s' args =>
      exact behind (x := base) (by simp [Expr.operands])
        (by simp [kinds_chain]; exact ⟨rfl, rfl⟩) (by decide) hentry
    | apply arg =>
      obtain ⟨k, ks, hks, hstart, -⟩ :=
        kinds_eq_cons (hoperands arg (by simp [Expr.operands, Suffix.argument?]))
      refine behind (x := base) (by simp [Expr.operands])
        (by simp [kinds_chain, hks]; exact ⟨rfl, rfl⟩) ?_ hentry
      rintro rfl
      cases hstart
  | literal s v =>
    rw [kinds_literal] at hk
    obtain ⟨hv, rfl⟩ := List.cons.inj hk
    refine ⟨fun _ => ⟨s, ?_⟩, by simp⟩
    cases v <;> cases hv
    rfl
  | name s name reserved => cases reserved <;> simp at hk
  | _ => simp at hk

/-! ## Forms -/

theorem Branch.WellShaped.nestsIn {n : Nat} {b : Branch} (hb : b.WellShaped)
    (h : ∀ x ∈ b.expressions, x.NestsIn n) : b.NestsIn n := by
  refine ⟨hb.1, fun s hs => ?_⟩
  have hsome := hb.2 s hs
  cases s with
  | magic => cases hsome
  | expression e => exact ⟨e, rfl, h e (List.mem_filterMap.2 ⟨_, hs, rfl⟩)⟩

namespace Grammar
variable {inner : Inner} {n : Nat} {ks : List Token.Kind} (t : Token)

/-- A parameter is its name. -/
theorem param_rereads (p : Param) : param.Rereads Param.erase p [.identifier p.name] ks := by
  intro c hc
  obtain ⟨c₁, ht, hc₁⟩ := hc.take
  have hk : c.current.kind = .identifier p.name := hc.kind
  refine Succeeds.choose (?_ : _ = some fun t => pure ⟨p.name, t.span⟩) ht
    (Succeeds.pure ⟨rfl, hc₁⟩)
  simp only [hk]

theorem params_rereads (ps : List Param) :
    params.Rereads (List.map Param.erase) ps
      ([.punct .semicolon].intercalate (ps.map fun p => [.identifier p.name]) ++
        [.punct .closeBracket]) ks := by
  intro c hc
  rw [List.append_assoc, List.singleton_append] at hc
  have closing (qs : List Param) (c₁ : Cursor) (h : qs.map Param.erase = ps.map Param.erase)
      (hc₁ : c₁.Views (.punct .closeBracket :: ks)) :
      (do expect .closeBracket .parameterEnd; return qs : Parser (List Param)).Succeeds c₁
        fun qs c' => qs.map Param.erase = ps.map Param.erase ∧ c'.Views ks :=
    Succeeds.bind (Succeeds.expect_views hc₁ fun c₂ hc₂ => Succeeds.pure ⟨h, hc₂⟩)
  cases ps with
  | nil =>
    refine Succeeds.look_bind ?_
    rw [if_pos (by simp [hc.looksAt])]
    exact Succeeds.bind (Succeeds.pure (closing [] c rfl hc))
  | cons p ps =>
    refine Succeeds.look_bind ?_
    rw [if_neg (by simp [hc.looksAt, intercalate_cons_eq_flatMap])]
    refine Succeeds.bind ((Succeeds.separated_rereads (f := Param.erase)
      (w := fun p : Param => [.identifier p.name]) (by simp) (fun q _ _ _ => param_rereads q)
      (fun q _ => param_rereads q) (fun q _ ls c c₁ hc ht hc₁ => ?_) (fun c hc => ?_) hc).mono
        fun qs c₁ h => ?_)
    · exact ⟨_, if_pos (by simp [hc.looksAt]), Succeeds.pure ⟨hc₁, rfl⟩⟩
    · exact if_neg (by simp [hc.looksAt])
    · exact Succeeds.bind (Succeeds.pure (closing _ c₁ h.1 h.2))

theorem function_rereads (hi : inner.Complete n) {s : Span} {ps : List Param}
    {body : Option Branch} (hbody : ∀ b ∈ body, b.NestsIn n) :
    (function inner t).Rereads Expr.erase (.function s ps body)
      (Param.listKinds ps ++ body.elim [] (Branch.kinds [.punct .semicolon]) ++
        [.punct .closeBrace]) ks := by
  intro c hc
  have rest (qs : List Param) (c₁ : Cursor) (hqs : qs.map Param.erase = ps.map Param.erase)
      (hc₁ : c₁.Views (body.elim [] (Branch.kinds [.punct .semicolon]) ++ [.punct .closeBrace] ++
        ks)) :
      (do
        let body ← functionBody inner
        return .function (← spanFrom t.span.start) qs body : Parser Expr).Succeeds c₁
          fun e c' => e.erase = (Expr.function s ps body).erase ∧ c'.Views ks := by
    refine Succeeds.bind ((functionBody_rereads hi hbody c₁ hc₁).mono fun body' c₂ h =>
      Succeeds.spanFrom_bind fun s' => Succeeds.pure ⟨?_, h.2⟩)
    obtain ⟨h, -⟩ := h
    cases body <;> cases body' <;> simp_all [Expr.erase]
  refine Succeeds.look_bind ?_
  cases ps with
  | nil =>
    rw [show Param.listKinds [] = [] from rfl, List.nil_append] at hc
    rw [if_neg]
    · exact Succeeds.bind (Succeeds.pure (rest [] c rfl hc))
    · rw [hc.looksAt]
      cases body with
      | none => simp
      | some b =>
        rw [List.append_assoc]
        simpa using (hbody b rfl).front_ne (k := .punct .openBracket) rfl _ _
  | cons p ps =>
    rw [Param.listKinds, if_neg (by simp), List.append_assoc, List.append_assoc,
      List.cons_append] at hc
    rw [if_pos (by simp [hc.looksAt])]
    refine Succeeds.bind (Succeeds.discard_take_views hc fun c₁ hc₁ => Succeeds.bind ?_)
    refine (params_rereads (p :: ps) c₁ hc₁).mono fun qs c₂ h => rest qs c₂ h.1 ?_
    simpa using h.2

/-! ## Groups -/

theorem entry_rereads (hi : inner.Complete n) {e : Entry} (he : e.value.NestsIn n)
    (hks : (front ks).joinsAt? true = none) : (entry inner).Rereads Entry.erase e e.kinds ks := by
  obtain ⟨key, span, value⟩ := e
  intro c hc
  rw [Entry.kinds_mk, List.cons_append, List.cons_append] at hc
  obtain ⟨c₁, ht, hc₁⟩ := hc.take
  have hk : c.current.kind = .symbol key := hc.kind
  refine Succeeds.choose (by simp only [hk] : _ = some fun t => do
    expect .colon .entryColon
    return .mk key t.span (← inner.expression)) ht ?_
  refine Succeeds.bind (Succeeds.expect_views hc₁ fun c₂ hc₂ => Succeeds.bind ?_)
  refine (hi.expression value ks he hks c₂ hc₂).mono fun x c₃ h => Succeeds.pure ⟨?_, h.2⟩
  rw [Entry.erase, Entry.erase, h.1]

/-- A group is taken for a dict if a colon comes behind a symbol. -/
theorem startsDict_views {c : Cursor} {k : Token.Kind} {ls : List Token.Kind}
    (hc : c.Views (k :: ls)) :
    startsDict.Succeeds c fun b c' => c' = c ∧
      (b = true ↔ (∃ key, k = .symbol key) ∧ front ls = .punct .colon) := by
  have hk : c.current.kind = k := hc.kind
  refine Succeeds.look_bind ?_
  split
  · next key h =>
    refine Succeeds.bind ⟨front ls, c, hc.peek, Succeeds.pure ⟨rfl, ?_⟩⟩
    rw [← hk, h]
    simp
  · next h =>
    refine Succeeds.pure ⟨rfl, ?_⟩
    simp only [Bool.false_eq_true, false_iff, not_and]
    rintro ⟨key, rfl⟩
    exact absurd hk (h key)

/-- Items in parentheses have a first token, and that ends nothing. -/
theorem group_front {α : Type} {w : α → List Token.Kind} {as : List α} (hne : as ≠ [])
    (hstart : ∀ a ∈ as, StartsExpression (w a)) {k : Token.Kind}
    (hk : k.startsExpression = false) (sep ls : List Token.Kind) :
    front (sep.intercalate (as.map w) ++ ls) ≠ k := by
  obtain ⟨a, as, rfl⟩ := List.exists_cons_of_ne_nil hne
  rw [List.map_cons, intercalate_cons_eq_flatMap, List.append_assoc]
  exact (hstart a (by simp)).front_ne hk _

/-- In front of its items, a group is not closed. -/
theorem group_start {α β : Type} {w : α → List Token.Kind} {as : List α} {c : Cursor}
    {close p : Parser β} {Q : β → Cursor → Prop} (hne : as ≠ [])
    (hstart : ∀ a ∈ as, StartsExpression (w a))
    (hc : c.Views ([.punct .semicolon].intercalate (as.map w) ++ [.punct .closeParen] ++ ks))
    (h : p.Succeeds c Q) :
    (do skipNewlines; if ← look (·.looksAt .closeParen) then close else p).Succeeds c Q := by
  have hfront (k : Token.Kind) (hk : k.startsExpression = false) := by
    simpa only [List.append_assoc] using
      group_front hne hstart hk [.punct .semicolon] ([.punct .closeParen] ++ ks)
  refine Succeeds.bind (Succeeds.skipNewlines hc (by simpa using hfront _ rfl)
    (Succeeds.look_bind ?_))
  rwa [if_neg (by simpa [hc.looksAt] using hfront (.punct .closeParen) rfl)]

theorem unit_rereads (s : Span) :
    (group inner t).Rereads Expr.erase (.unit s) [.punct .closeParen] ks := by
  intro c hc
  refine Succeeds.bind (Succeeds.skipNewlines hc (by simp) (Succeeds.look_bind ?_))
  rw [if_pos (by simp [hc.looksAt])]
  exact Succeeds.bind (Succeeds.discard_take_views hc fun c₁ hc₁ =>
    Succeeds.spanFrom_bind fun s' => Succeeds.pure ⟨rfl, hc₁⟩)

theorem list_rereads (hi : inner.Complete n) {s : Span} {es : List Expr} (hne : es ≠ [])
    (hentry : ∀ e ∈ es.head?, e.isEntry = false) (hes : ∀ e ∈ es, e.NestsIn n) :
    (group inner t).Rereads Expr.erase (.list s es)
      ([.punct .semicolon].intercalate (es.map Expr.kinds) ++ [.punct .closeParen]) ks := by
  intro c hc
  have hstart : ∀ e ∈ es, StartsExpression e.kinds := fun e he => (hes e he).startsExpression
  refine group_start hne hstart hc ?_
  have hdict : startsDict.Succeeds c fun b c' => c' = c ∧ b = false := by
    obtain ⟨e, es, rfl⟩ := List.exists_cons_of_ne_nil hne
    obtain ⟨m, -, he⟩ := hes e (by simp)
    obtain ⟨k, ls, hkinds, -⟩ := Expr.kinds_eq_cons he
    have hc' := hc
    rw [List.map_cons, intercalate_cons_eq_flatMap, hkinds] at hc'
    simp only [List.cons_append, List.append_assoc] at hc'
    refine (startsDict_views hc').mono fun b c' h => ⟨h.1, ?_⟩
    by_contra hb
    obtain ⟨⟨key, rfl⟩, hcolon⟩ := h.2.1 (by simpa using hb)
    have hnot := (Expr.kinds_symbol he hkinds).2 (hentry e (by simp))
    cases ls with
    | nil => cases es <;> simp at hcolon
    | cons l ls => exact hnot (congrArg some hcolon)
  refine Succeeds.bind (hdict.mono ?_)
  rintro b c' ⟨rfl, rfl⟩
  rw [if_neg (by simp)]
  refine Succeeds.bind ((items_rereads (.inl rfl) hstart (fun e he ls hls =>
    hi.expression e ls (hes e he) hls) c' hc).mono fun es' c₁ h => ?_)
  refine Succeeds.spanFrom_bind fun s' => Succeeds.pure ⟨?_, h.2⟩
  simp [Expr.erase, h.1]

theorem dict_rereads (hi : inner.Complete n) {s : Span} {es : List Entry} (hne : es ≠ [])
    (hes : ∀ e ∈ es, e.value.NestsIn n) :
    (group inner t).Rereads Expr.erase (.dict s es)
      ([.punct .semicolon].intercalate (es.map Entry.kinds) ++ [.punct .closeParen]) ks := by
  intro c hc
  have hstart : ∀ e ∈ es, StartsExpression e.kinds := fun e _ => by
    obtain ⟨key, span, value⟩ := e
    exact ⟨_, _, Entry.kinds_mk .., rfl⟩
  refine group_start hne hstart hc ?_
  have hdict : startsDict.Succeeds c fun b c' => c' = c ∧ b = true := by
    obtain ⟨⟨key, span, value⟩, es, rfl⟩ := List.exists_cons_of_ne_nil hne
    have hc' := hc
    rw [List.map_cons, intercalate_cons_eq_flatMap, Entry.kinds_mk] at hc'
    simp only [List.cons_append, List.append_assoc] at hc'
    exact (startsDict_views hc').mono fun b c' h => ⟨h.1, h.2.2 ⟨⟨key, rfl⟩, rfl⟩⟩
  refine Succeeds.bind (hdict.mono ?_)
  rintro b c' ⟨rfl, rfl⟩
  rw [if_pos rfl]
  refine Succeeds.bind ((items_rereads (.inl rfl) hstart (fun e he ls hls =>
    entry_rereads hi (hes e he) hls) c' hc).mono fun es' c₁ h => ?_)
  refine Succeeds.spanFrom_bind fun s' => Succeeds.pure ⟨?_, h.2⟩
  simp [Expr.erase, h.1]

/-! ## Control forms -/

/-- The two arms of a conditional are read back, with the semicolon that is written between
them. -/
theorem arms_rereads (hi : inner.Complete n) {first second : Branch} (hfirst : first.NestsIn n)
    (hsecond : second.NestsIn n) {c : Cursor}
    (hc : c.Views (first.kinds [.newline] ++ .punct .semicolon ::
      (second.kinds [.punct .semicolon] ++ .punct .closeBracket :: ks))) :
    (arms inner).Succeeds c fun bs c' => bs.1.erase = first.erase ∧ bs.2.erase = second.erase ∧
      c'.Views (.punct .closeBracket :: ks) := by
  refine Succeeds.bind ((firstArm_rereads hi hfirst c hc).mono fun b c₁ h => ?_)
  obtain ⟨hb, hc₁⟩ := h
  refine Succeeds.look_bind ?_
  rw [if_neg (by simp [hc₁.looksAt])]
  refine Succeeds.bind (Succeeds.expect_views hc₁ fun c₂ hc₂ => Succeeds.bind ?_)
  exact (arm_rereads hi hsecond c₂ hc₂).mono fun b' c₃ h => Succeeds.pure ⟨hb, h.1, h.2⟩

theorem conditional_rereads (hi : inner.Complete n) {s : Span} {condition : Expr}
    {thenArm elseArm : Branch} (hcondition : condition.NestsIn n) (hthen : thenArm.NestsIn n)
    (helse : elseArm.NestsIn n) :
    (conditional inner t).Rereads Expr.erase (.conditional s condition thenArm elseArm)
      (.punct .openBracket :: (condition.kinds ++ .punct .semicolon ::
        (thenArm.kinds [.newline] ++ .punct .semicolon ::
          (elseArm.kinds [.punct .semicolon] ++ [.punct .closeBracket])))) ks := by
  intro c hc
  refine Succeeds.look_bind ?_
  rw [if_neg (by simp [hc.looksAt])]
  refine Succeeds.bind (Succeeds.expect_views hc fun c₁ hc₁ => Succeeds.bind ?_)
  simp only [List.append_assoc, List.cons_append, List.append_eq] at hc₁
  refine (head_rereads hi hcondition (hthen.front_ne rfl _ _) c₁ (by simpa using hc₁)).mono
    fun e c₂ h₂ => Succeeds.bind ?_
  refine (arms_rereads hi hthen helse h₂.2).mono fun bs c₃ h₃ => Succeeds.bind ?_
  refine Succeeds.expect_views h₃.2.2 fun c₄ hc₄ => Succeeds.spanFrom_bind fun s' => ?_
  refine Succeeds.pure ⟨?_, hc₄⟩
  rw [Expr.erase, Expr.erase, h₂.1, h₃.1, h₃.2.1]

/-- A head and an arm in brackets are read back. Guarded arms and loops consist of them. -/
theorem head_arm_rereads (hi : inner.Complete n) {condition : Expr} {body : Branch}
    (hcondition : condition.NestsIn n) (hbody : body.NestsIn n) {c : Cursor}
    (hc : c.Views (condition.kinds ++ .punct .semicolon ::
      (body.kinds [.punct .semicolon] ++ .punct .closeBracket :: ks)))
    {goOn : Expr → Branch → Parser Expr} {Q : Expr → Cursor → Prop}
    (h : ∀ e b c', e.erase = condition.erase → b.erase = body.erase →
      c'.Views (.punct .closeBracket :: ks) → (goOn e b).Succeeds c' Q) :
    (do
      let e ← head inner
      let b ← arm inner
      goOn e b : Parser Expr).Succeeds c Q := by
  refine Succeeds.bind ?_
  refine (head_rereads hi hcondition (hbody.front_ne rfl _ _) c (by simpa using hc)).mono
    fun e c₁ h₁ => Succeeds.bind ?_
  exact (arm_rereads hi hbody c₁ h₁.2).mono fun b c₂ h₂ => h e b c₂ h₁.1 h₂.1 h₂.2

theorem guarded_rereads (hi : inner.Complete n) {s : Span} {condition : Expr} {body : Branch}
    (hcondition : condition.NestsIn n) (hbody : body.NestsIn n) :
    (conditional inner t).Rereads Expr.erase (.guarded s condition body)
      (.punct .dot :: .punct .openBracket :: (condition.kinds ++ .punct .semicolon ::
        (body.kinds [.punct .semicolon] ++ [.punct .closeBracket]))) ks := by
  intro c hc
  refine Succeeds.look_bind ?_
  rw [if_pos (by simp [hc.looksAt])]
  refine Succeeds.bind (Succeeds.discard_take_views hc fun c₁ hc₁ => Succeeds.bind ?_)
  refine Succeeds.expect_views hc₁ fun c₂ hc₂ => ?_
  simp only [List.append_assoc, List.cons_append, List.append_eq] at hc₂
  refine head_arm_rereads hi hcondition hbody hc₂ fun e b c₃ he hb hc₃ => Succeeds.bind ?_
  refine Succeeds.expect_views hc₃ fun c₄ hc₄ => Succeeds.spanFrom_bind fun s' => ?_
  refine Succeeds.pure ⟨?_, hc₄⟩
  rw [Expr.erase, Expr.erase, he, hb]

theorem loop_rereads (hi : inner.Complete n) {name : String}
    {node : Span → Expr → Branch → Expr} (hname : loopOfName? name = some node) {s : Span}
    {condition : Expr} {body : Branch} (hcondition : condition.NestsIn n)
    (hbody : body.NestsIn n) :
    (identifier inner name t).Rereads Expr.erase (node s condition body)
      (.punct .openBracket :: (condition.kinds ++ .punct .semicolon ::
        (body.kinds [.punct .semicolon] ++ [.punct .closeBracket]))) ks := by
  intro c hc
  refine Succeeds.look_bind ?_
  rw [hname, show c.looksAt .openBracket = true by simp [hc.looksAt]]
  refine Succeeds.bind (Succeeds.discard_take_views hc fun c₁ hc₁ => ?_)
  simp only [List.append_assoc, List.cons_append, List.append_eq] at hc₁
  refine head_arm_rereads hi hcondition hbody hc₁ fun e b c₂ he hb hc₂ => Succeeds.bind ?_
  refine Succeeds.expect_views hc₂ fun c₃ hc₃ => Succeeds.spanFrom_bind fun s' => ?_
  refine Succeeds.pure ⟨?_, hc₃⟩
  rcases loopOfName?_eq_some hname with ⟨-, rfl⟩ | ⟨-, rfl⟩ <;>
    rw [Expr.erase, Expr.erase, he, hb]

/-- A name begins no loop if no bracket is behind it. -/
theorem identifier_rereads {name : String} {s : Span}
    (hks : (nameEnding name false).Admits true (front ks)) :
    (identifier inner name t).Rereads Expr.erase (.name s name false) [] ks := by
  intro c hc
  refine Succeeds.look_bind ?_
  split
  · next node hname hopen =>
    rw [Cursor.Views.looksAt hc] at hopen
    rw [nameEnding, if_pos (by simp [hname])] at hks
    exact absurd (by simpa using hopen) hks
  · split
    · exact Succeeds.note_bind (Succeeds.pure ⟨rfl, Cursor.Views.note hc _⟩)
    · exact Succeeds.pure ⟨rfl, hc⟩

theorem returning_rereads (hi : inner.Complete n) {s : Span} {value : Option Expr}
    (hvalue : ∀ e ∈ value, e.NestsIn n)
    (hks : (Expr.returning s value).ending.Admits true (front ks)) :
    (control inner t .returning).Rereads Expr.erase (.returning s value)
      (value.elim [] Expr.kinds) ks := by
  intro c hc
  refine Succeeds.look_bind ?_
  cases value with
  | none =>
    rw [Expr.ending] at hks
    have hstart : c.current.kind.startsExpression = false := by
      rw [Cursor.Views.kind hc]
      exact hks
    rw [if_neg (by simp [hstart])]
    exact Succeeds.bind (Succeeds.pure (Succeeds.spanFrom_bind fun s' =>
      Succeeds.pure ⟨rfl, hc⟩))
  | some e =>
    rw [Expr.ending] at hks
    have hstart : c.current.kind.startsExpression = true := by
      obtain ⟨k, ls, hk, hstart⟩ := (hvalue e rfl).startsExpression
      rw [Option.elim_some, hk] at hc
      rwa [Cursor.Views.kind hc]
    rw [if_pos hstart]
    refine Succeeds.bind (Succeeds.map ((hi.expression e ks (hvalue e rfl) hks c hc).mono
      fun x c₁ h => Succeeds.spanFrom_bind fun s' => Succeeds.pure ⟨?_, h.2⟩))
    rw [Expr.erase, Expr.erase, h.1]

/-! ## All of them -/

/-- Behind its first token, a primary is read back by the form that the token says. -/
theorem primary?_rereads (hi : inner.Complete n) {e : Expr} (he : e.Regular n)
    (hrank : e.rank = .primary) (hks : e.ending.Admits true (front ks)) :
    ∃ k ws goOn, e.kinds = k :: ws ∧ primary? inner k = some goOn ∧
      ∀ t, (goOn t).Rereads Expr.erase e ws ks := by
  obtain ⟨hshape, -, hnested⟩ := Expr.regular_iff.1 he
  cases e with
  | literal s v =>
    have here (t : Token) : (pure (.literal t.span v) : Parser Expr).Rereads Expr.erase
        (.literal s v) [] ks := fun c hc => Succeeds.pure ⟨rfl, hc⟩
    cases v <;> exact ⟨_, _, _, rfl, rfl, here⟩
  | name s name reserved =>
    cases reserved with
    | true => exact ⟨_, _, _, rfl, rfl, fun t c hc => Succeeds.pure ⟨rfl, hc⟩⟩
    | false =>
      rw [Expr.ending] at hks
      exact ⟨_, _, _, rfl, rfl, fun t => identifier_rereads t hks⟩
  | function s ps body =>
    refine ⟨_, _, _, Expr.kinds_function .., rfl, fun t => function_rereads t hi ?_⟩
    rintro b rfl
    exact (hshape b rfl).nestsIn hnested
  | unit s => exact ⟨_, _, _, rfl, rfl, fun t => unit_rereads t s⟩
  | list s es =>
    exact ⟨_, _, _, Expr.kinds_list .., rfl, fun t =>
      list_rereads t hi hshape.1 hshape.2 hnested⟩
  | dict s es =>
    exact ⟨_, _, _, Expr.kinds_dict .., rfl, fun t => dict_rereads t hi hshape fun entry h =>
      hnested _ (List.mem_map_of_mem h)⟩
  | conditional s condition thenArm elseArm =>
    refine ⟨_, _, _, Expr.kinds_conditional .., rfl, fun t => conditional_rereads t hi
      (hnested _ (by simp [Expr.nested])) (hshape.1.nestsIn fun x hx => hnested x ?_)
      (hshape.2.nestsIn fun x hx => hnested x ?_)⟩
    · simp [Expr.nested, hx]
    · simp [Expr.nested, hx]
  | guarded s condition body =>
    exact ⟨_, _, _, Expr.kinds_guarded .., rfl, fun t => guarded_rereads t hi
      (hnested _ (by simp [Expr.nested]))
      (Branch.WellShaped.nestsIn hshape fun x hx => hnested x (by simp [Expr.nested, hx]))⟩
  | whileLoop s condition body =>
    exact ⟨_, _, _, Expr.kinds_whileLoop .., rfl, fun t => loop_rereads t hi rfl
      (hnested _ (by simp [Expr.nested]))
      (Branch.WellShaped.nestsIn hshape fun x hx => hnested x (by simp [Expr.nested, hx]))⟩
  | countLoop s count body =>
    exact ⟨_, _, _, Expr.kinds_countLoop .., rfl, fun t => loop_rereads t hi rfl
      (hnested _ (by simp [Expr.nested]))
      (Branch.WellShaped.nestsIn hshape fun x hx => hnested x (by simp [Expr.nested, hx]))⟩
  | returning s value =>
    exact ⟨_, _, _, Expr.kinds_returning .., rfl, fun t => returning_rereads t hi
      (fun x hx => hnested x (by simpa [Expr.nested] using hx)) hks⟩
  | breaking s => exact ⟨_, _, _, rfl, rfl, fun t c hc => Succeeds.pure ⟨rfl, hc⟩⟩
  | continuing s => exact ⟨_, _, _, rfl, rfl, fun t c hc => Succeeds.pure ⟨rfl, hc⟩⟩
  | asserting s claim =>
    rw [Expr.ending] at hks
    refine ⟨_, _, _, Expr.kinds_asserting .., rfl, fun t c hc => Succeeds.bind ?_⟩
    refine (hi.expression claim ks (hnested _ (by simp [Expr.nested])) hks c hc).mono
      fun x c₁ h => Succeeds.spanFrom_bind fun s' => Succeeds.pure ⟨?_, h.2⟩
    rw [Expr.erase, Expr.erase, h.1]
  | trying s attempt =>
    rw [Expr.ending] at hks
    refine ⟨_, _, _, Expr.kinds_trying .., rfl, fun t c hc => Succeeds.bind ?_⟩
    refine (hi.expression attempt ks (hnested _ (by simp [Expr.nested])) hks c hc).mono
      fun x c₁ h => Succeeds.spanFrom_bind fun s' => Succeeds.pure ⟨?_, h.2⟩
    rw [Expr.erase, Expr.erase, h.1]
  | binary s op => cases op <;> cases hrank
  | _ => cases hrank

theorem primary_rereads (hi : inner.Complete n) {e : Expr} (he : e.Regular n)
    (hrank : e.rank = .primary) (hks : e.ending.Admits true (front ks)) :
    (primary inner).Rereads Expr.erase e e.kinds ks := by
  intro c hc
  obtain ⟨k, ws, goOn, hkinds, hgoOn, hrereads⟩ := primary?_rereads hi he hrank hks
  rw [hkinds] at hc
  obtain ⟨c₁, ht, hc₁⟩ := hc.take
  have hk : c.current.kind = k := hc.kind
  exact Succeeds.choose (by rw [hk, hgoOn]) ht (hrereads c.current c₁ hc₁)

end Grammar
end WqSource
