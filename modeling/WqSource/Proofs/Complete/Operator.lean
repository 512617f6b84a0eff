import WqSource.Proofs.Complete.Primary
import WqSource.Proofs.Sound.Operator

/-!
# Operators that are written are read back

A tier reads back a tree of its own form or of a tighter one in front of any token that it
stops at, unless that becomes part of what is open at the end of the tree. Each operand is
in front of the operator behind it then, and that is where the shape of the tree says that
it lets go.

## Main definitions

* `Parser.RereadsAt`: what a tier reads back.

## Main statements

* `argument?_rereads`, `chain_rereads`, `unary_rereads`, `binary_rereads`, `listed_rereads`.
* `level_complete`: every level reads back what has no more levels in it.
-/

namespace WqSource
open Grammar WqSource.Parser
open Token.Kind (front StartsExpression)

/-- A tier reads back what it can read. -/
def Parser.RereadsAt (p : Parser Expr) (r : Rank) (n : Nat) : Prop :=
  ∀ (e : Expr) ks, e.Regular n → r ≤ e.rank → (front ks).StopsAt true r →
    e.ending.Admits true (front ks) → p.Rereads Expr.erase e e.kinds ks

/-- What no tier goes on at may stand behind every end. -/
theorem Ending.admits_of_joinsAt? {k : Token.Kind} (h : k.joinsAt? true = none) (e : Ending) :
    e.Admits true k := by
  cases e with
  | closed => trivial
  | loopName =>
    rintro rfl
    cases h
  | bareReturn =>
    refine eq_false_of_ne_true fun hstart => ?_
    rcases Bool.or_eq_true_iff.1 hstart with hargument | hminus
    · rw [Token.Kind.joinsAt?_eq_chain.2 (.inl hargument)] at h
      cases h
    · obtain rfl : k = .punct .minus := by simpa using hminus
      cases h
  | openWord => exact h

/-! ## Bases with suffixes -/

/-- A base with the given suffixes, or the base itself if there are none. -/
def Expr.IsChain (base : Expr) (suffixes : List Suffix) (e : Expr) : Prop :=
  suffixes = [] ∧ e = base ∨ suffixes ≠ [] ∧ ∃ s, e = .chain s base suffixes

namespace Expr.IsChain
variable {base e : Expr} {suffixes : List Suffix}

theorem kinds_eq (h : IsChain base suffixes e) :
    e.kinds = base.kinds ++ suffixes.flatMap Suffix.kinds := by
  rcases h with ⟨rfl, rfl⟩ | ⟨-, s, rfl⟩ <;> simp

theorem ending_eq (h : IsChain base suffixes e) :
    e.ending = Suffix.lastEnding base.ending suffixes := by
  rcases h with ⟨rfl, rfl⟩ | ⟨-, s, rfl⟩
  · rw [Suffix.lastEnding]
  · rw [Expr.ending]

end Expr.IsChain

/-- What a regular chain consists of. -/
structure Suffix.Follow (n : Nat) (base : Expr) (suffixes : List Suffix) : Prop where
  rank : base.rank = .primary
  regular : base.Regular n
  first : ∀ s ∈ suffixes.head?, s.Follows base.ending
  precedes : suffixes.IsChain Suffix.Precedes
  arguments : ∀ arg, .apply arg ∈ suffixes → arg.isArgument = true ∧ arg.Regular n
  indices : ∀ s args, .index s args ∈ suffixes → ∀ x ∈ args, x.NestsIn n

/-- A tree that is as tight as a chain is a primary with suffixes behind it. -/
theorem Expr.Regular.isChain {n : Nat} {e : Expr} (he : e.Regular n) (h : .chain ≤ e.rank) :
    ∃ base suffixes, IsChain base suffixes e ∧ Suffix.Follow n base suffixes := by
  by_cases hrank : e.rank = .primary
  · exact ⟨e, [], .inl ⟨rfl, rfl⟩, hrank, he, nofun, .nil, nofun, nofun⟩
  · obtain ⟨hshape, hoperands, hnested⟩ := regular_iff.1 he
    cases e with
    | chain s base suffixes =>
      obtain ⟨hbase, hne, hfirst, hprecedes, harguments⟩ := hshape
      refine ⟨base, suffixes, .inr ⟨hne, s, rfl⟩, hbase, hoperands base (by simp [operands]),
        hfirst, hprecedes, fun arg h => ⟨harguments arg h, hoperands arg ?_⟩,
        fun s' args h x hx => hnested x ?_⟩
      · exact List.mem_cons_of_mem _ (List.mem_filterMap.2 ⟨_, h, rfl⟩)
      · exact List.mem_flatMap.2 ⟨_, h, hx⟩
    | binary s op => cases op <;> exact absurd h (by simp only [rank]; decide)
    | assignment | pipe | join | unary | power => exact absurd h (by simp only [rank]; decide)
    | _ => exact absurd rfl hrank

theorem Expr.lastEnding_eq {es : List Expr} {e : Expr} (h : es.getLast? = some e) :
    Expr.lastEnding es = e.ending := by
  obtain ⟨init, rfl⟩ := List.getLast?_eq_some_iff.1 h
  exact Expr.lastEnding_append ..

/-- What may stand behind an argument. -/
structure Expr.IsFollowed (arg : Expr) (k : Token.Kind) : Prop where
  bracket : k ≠ .punct .openBracket
  caret : k ≠ .punct .caret
  raised : arg.isRaised = true → k.StopsAt true .unary
  admits : arg.ending.Admits true k

namespace Grammar
variable {inner : Inner} {n : Nat} {ks : List Token.Kind} {c : Cursor}

theorem index_rereads (hi : inner.Complete n) (t : Token) {s : Span} {args : List Expr}
    (hargs : ∀ x ∈ args, x.NestsIn n) :
    (Grammar.index inner t).Rereads Suffix.erase (.index s args)
      ([.punct .semicolon].intercalate (args.map Expr.kinds) ++ [.punct .closeBracket]) ks := by
  intro c hc
  refine Succeeds.bind ((items_rereads (.inr rfl) (fun e he => (hargs e he).startsExpression)
    (fun e he ls hls => hi.expression e ls (hargs e he) hls) c hc).mono fun args' c₁ h => ?_)
  refine Succeeds.spanFrom_bind fun s' => Succeeds.pure ⟨?_, h.2⟩
  simp [Suffix.erase, h.1]

/-- An index bracket is read back in front of the suffixes behind it. -/
theorem index_step (hi : inner.Complete n)
    {next : List Suffix → Cursor → Option (Token → Parser (List Suffix))}
    {Q : List Suffix → Cursor → Prop} {acc ss : List Suffix} {s : Span} {args : List Expr}
    (hnext : c.atAdjacentBracket = true →
      next acc c = some fun t => return acc ++ [← index inner t])
    (hargs : ∀ x ∈ args, x.NestsIn n)
    (hc : c.Views ((Suffix.index s args :: ss).flatMap Suffix.kinds ++ ks))
    (further : ∀ suffix c₁, suffix.erase = (Suffix.index s args).erase →
      c₁.Views (ss.flatMap Suffix.kinds ++ ks) →
        (repeatTaking next (acc ++ [suffix])).Succeeds c₁ Q) :
    (repeatTaking next acc).Succeeds c Q := by
  rw [List.flatMap_cons, Suffix.kinds_index, List.cons_append, List.cons_append,
    List.append_assoc] at hc
  obtain ⟨c₁, ht, hc₁⟩ := hc.take
  refine Succeeds.repeatTaking_step hc.atEnd_eq_false (hnext (by simp [hc.atAdjacentBracket])) ht ?_
  exact Succeeds.bind ((index_rereads hi c.current hargs c₁ hc₁).mono fun suffix c₂ h =>
    Succeeds.pure (further suffix c₂ h.1 h.2))

theorem chained_rereads {base base' e : Expr} {suffixes suffixes' : List Suffix}
    (h : Expr.IsChain base suffixes e) (hbase : base'.erase = base.erase)
    (hsuffixes : suffixes'.map Suffix.erase = suffixes.map Suffix.erase) (hc : c.Views ks) :
    (chained base' suffixes').Succeeds c fun e' c' => e'.erase = e.erase ∧ c'.Views ks := by
  unfold chained
  rcases h with ⟨rfl, rfl⟩ | ⟨hne, s, rfl⟩
  · obtain rfl : suffixes' = [] := by simpa using hsuffixes
    exact Succeeds.pure ⟨hbase, hc⟩
  · rw [if_neg]
    · refine Succeeds.spanFrom_bind fun s' => Succeeds.pure ⟨?_, hc⟩
      simp [Expr.erase, hbase, hsuffixes]
    · rintro hempty
      rw [List.isEmpty_iff.1 hempty, List.map_nil, eq_comm, List.map_eq_nil_iff] at hsuffixes
      exact hne hsuffixes

/-- The index brackets behind a primary are read back if no more of them are behind. -/
theorem indexed_rereads (hi : inner.Complete n) {base base' e : Expr} {suffixes : List Suffix}
    (h : Expr.IsChain base suffixes e) (hfollow : Suffix.Follow n base suffixes)
    (hindex : ∀ s ∈ suffixes, s.isIndex = true) (hbase : base'.erase = base.erase)
    (hks : front ks ≠ .punct .openBracket)
    (hc : c.Views (suffixes.flatMap Suffix.kinds ++ ks)) :
    (indexed inner base').Succeeds c fun e' c' => e'.erase = e.erase ∧ c'.Views ks := by
  have rest (ss : List Suffix) (hss : ss ⊆ suffixes) : ∀ (acc : List Suffix) (c : Cursor),
      c.Views (ss.flatMap Suffix.kinds ++ ks) →
        (repeatTaking (fun suffixes c => if c.atAdjacentBracket then
          some fun t => return suffixes ++ [← index inner t] else none) acc).Succeeds c
            fun ss' c' => ss'.map Suffix.erase = acc.map Suffix.erase ++ ss.map Suffix.erase ∧
              c'.Views ks := by
    induction ss with
    | nil =>
      intro acc c hc
      refine Succeeds.repeatTaking_stop (if_neg ?_) ⟨by simp, hc⟩
      simpa [Cursor.Views.atAdjacentBracket (show c.Views ks from hc)] using hks
    | cons suffix ss ih =>
      intro acc c hc
      have hmem : suffix ∈ suffixes := hss (by simp)
      cases suffix with
      | apply => cases hindex _ hmem
      | index s args =>
        refine index_step hi (fun h => if_pos h) (hfollow.indices s args hmem) hc
          fun suffix' c₁ h₁ hc₁ => ?_
        refine (ih (fun _ h => hss (by simp [h])) _ c₁ hc₁).mono fun ss' c' h' => ⟨?_, h'.2⟩
        simp [h'.1, h₁]
  refine Succeeds.bind ((rest suffixes (fun _ h => h) [] c hc).mono fun ss' c₁ h₁ => ?_)
  exact chained_rereads h hbase (by simpa using h₁.1) h₁.2

/-! ## Exponents and signs -/

/-- Without an exponent behind it, a base stands for itself. -/
theorem raised_stop {base : Expr} {Q : Expr → Cursor → Prop} (hc : c.Views ks)
    (hks : front ks ≠ .punct .caret) (h : Q base c) : (raised inner base).Succeeds c Q := by
  refine Succeeds.look_bind ?_
  rw [if_neg (by simpa [hc.looksAt] using hks)]
  exact Succeeds.pure h

/-- The exponent of a power is read back behind its base. -/
theorem raised_rereads (hi : inner.Complete n) {s : Span} {base base' exponent : Expr}
    (he : (Expr.power s base exponent).Regular n) (hbase : base'.erase = base.erase)
    (hks : (front ks).StopsAt true .unary) (hend : exponent.ending.Admits true (front ks))
    (hc : c.Views (.punct .caret :: (exponent.kinds ++ ks))) :
    (raised inner base').Succeeds c fun e' c' =>
      e'.erase = (Expr.power s base exponent).erase ∧ c'.Views ks := by
  obtain ⟨⟨-, hrank, -⟩, -, hnested⟩ := Expr.regular_iff.1 he
  refine Succeeds.look_bind ?_
  rw [if_pos (by simp [hc.looksAt])]
  refine Succeeds.bind (Succeeds.discard_take_views hc fun c₁ hc₁ => Succeeds.bind ?_)
  refine (hi.exponent exponent ks (hnested _ (by simp [Expr.nested])) hrank hks hend c₁ hc₁).mono
    fun x c₂ h => Succeeds.pure ⟨?_, h.2⟩
  rw [Expr.erase, Expr.erase, hbase, h.1]

/-- Signs are read back in front of what is none. -/
theorem signs_rereads {next : List UnaryOp → Cursor → Option (Token → Parser (List UnaryOp))}
    {ops : List UnaryOp}
    (hgo : ∀ op ∈ ops, ∀ (acc : List UnaryOp) (c : Cursor),
      c.current.kind = .punct op.punct → next acc c = some fun _ => return acc ++ [op])
    (hstop : ∀ (acc : List UnaryOp) (c : Cursor), c.Views ks → next acc c = none)
    (acc : List UnaryOp) (hc : c.Views (ops.map (.punct ·.punct) ++ ks)) :
    (repeatTaking next acc).Succeeds c fun ops' c' => ops' = acc ++ ops ∧ c'.Views ks := by
  induction ops generalizing acc c with
  | nil => exact Succeeds.repeatTaking_stop (hstop acc c hc) ⟨by simp, hc⟩
  | cons op ops ih =>
    rw [List.map_cons, List.cons_append] at hc
    obtain ⟨c₁, ht, hc₁⟩ := hc.take
    refine Succeeds.repeatTaking_step hc.atEnd_eq_false (hgo op (by simp) acc c hc.kind) ht
      (Succeeds.pure ?_)
    refine (ih (fun op h => hgo op (by simp [h])) _ hc₁).mono fun ops' c' h => ⟨?_, h.2⟩
    simpa using h.1

/-- An operand behind its signs. -/
theorem counted_rereads (start : Position) {s : Span} {ops : List UnaryOp}
    {operand operand' : Expr} (hne : ops ≠ []) (h : operand'.erase = operand.erase)
    (hc : c.Views ks) :
    (counted start ops operand').Succeeds c fun e' c' =>
      e'.erase = (Expr.unary s ops operand).erase ∧ c'.Views ks := by
  unfold counted
  rw [if_neg (by simpa using hne)]
  refine Succeeds.spanFrom_bind fun s' => Succeeds.pure ⟨?_, hc⟩
  rw [Expr.erase, Expr.erase, h]

/-! ## Arguments -/

/-- Behind its first token, a primary with its index brackets is read back. -/
theorem indexed_begins (hi : inner.Complete n) {e : Expr} (he : e.Regular n)
    (hindexed : e.isIndexed = true) (hbracket : front ks ≠ .punct .openBracket)
    (hend : e.ending.Admits true (front ks)) :
    ∃ k ws goOn, e.kinds = k :: ws ∧ primary? inner k = some goOn ∧
      ∀ (t : Token) (c : Cursor), c.Views (ws ++ ks) → (goOn t).Succeeds c fun base c₁ =>
        (indexed inner base).Succeeds c₁ fun e' c' => e'.erase = e.erase ∧ c'.Views ks := by
  obtain ⟨base, suffixes, hchain, hfollow⟩ :=
    he.isChain (Expr.chain_le_rank_of_isIndexed hindexed)
  have hall : ∀ s ∈ suffixes, s.isIndex = true := by
    rcases hchain with ⟨rfl, rfl⟩ | ⟨-, s, rfl⟩
    · exact nofun
    · simpa [Expr.isIndexed] using hindexed
  have hbase : base.ending.Admits true (front (suffixes.flatMap Suffix.kinds ++ ks)) := by
    cases suffixes with
    | nil => simpa [hchain.ending_eq, Suffix.lastEnding] using hend
    | cons suffix suffixes =>
      cases suffix with
      | index s args =>
        have hfirst : base.ending.Admits true (.punct .openBracket) := hfollow.first _ rfl
        simpa using hfirst
      | apply arg =>
        have hnot := hall (.apply arg) (by simp)
        cases hnot
  obtain ⟨k, ws, goOn, hkinds, hgoOn, hrereads⟩ :=
    primary?_rereads hi hfollow.regular hfollow.rank hbase
  refine ⟨k, ws ++ suffixes.flatMap Suffix.kinds, goOn, by simp [hchain.kinds_eq, hkinds], hgoOn,
    fun t c hc => ?_⟩
  rw [List.append_assoc] at hc
  exact (hrereads t c hc).mono fun base' c₁ h =>
    indexed_rereads hi hchain hfollow hall h.1 hbracket h.2

/-- Behind its first token, a primary with its index brackets and its exponent is read
back. -/
theorem raised_begins (hi : inner.Complete n) {e : Expr} (he : e.Regular n)
    (hform : e.isIndexed = true ∨ ∃ s b x, e = .power s b x) (hks : e.IsFollowed (front ks)) :
    ∃ k ws goOn, e.kinds = k :: ws ∧ primary? inner k = some goOn ∧
      ∀ (t : Token) (c : Cursor), c.Views (ws ++ ks) → (goOn t).Succeeds c fun base c₁ =>
        (indexed inner base).Succeeds c₁ fun e₁ c₂ =>
          (raised inner e₁).Succeeds c₂ fun e' c' => e'.erase = e.erase ∧ c'.Views ks := by
  rcases hform with hindexed | ⟨s, b, x, rfl⟩
  · obtain ⟨k, ws, goOn, hkinds, hgoOn, hrereads⟩ :=
      indexed_begins hi he hindexed hks.bracket hks.admits
    refine ⟨k, ws, goOn, hkinds, hgoOn, fun t c hc => (hrereads t c hc).mono fun base c₁ h₁ =>
      h₁.mono fun e' c₂ h₂ => raised_stop h₂.2 hks.caret h₂⟩
  · obtain ⟨⟨hindexed, -, hbase⟩, hoperands, -⟩ := Expr.regular_iff.1 he
    have hcaret : front (.punct .caret :: (x.kinds ++ ks)) ≠ .punct .openBracket := by simp
    obtain ⟨k, ws, goOn, hkinds, hgoOn, hrereads⟩ := indexed_begins hi
      (hoperands b (by simp [Expr.operands])) hindexed hcaret hbase
    refine ⟨k, ws ++ .punct .caret :: x.kinds, goOn, by simp [hkinds], hgoOn, fun t c hc => ?_⟩
    rw [List.append_assoc, List.cons_append] at hc
    have hend := hks.admits
    rw [Expr.ending] at hend
    exact (hrereads t c hc).mono fun base c₁ h₁ => h₁.mono fun b' c₂ h₂ =>
      raised_rereads hi he h₂.1 (hks.raised rfl) hend h₂.2

/-- Behind its first token, an argument is read back. -/
theorem argument?_rereads (hi : inner.Complete n) {e : Expr} (he : e.Regular n)
    (hargument : e.isArgument = true) (hks : e.IsFollowed (front ks)) :
    ∃ k ws goOn, e.kinds = k :: ws ∧ argument? inner k = some goOn ∧
      ∀ t, (goOn t).Rereads Expr.erase e ws ks := by
  -- Without signs, the first token is that of a primary.
  have unsigned (hform : e.isIndexed = true ∨ ∃ s b x, e = .power s b x) :
      ∃ k ws goOn, e.kinds = k :: ws ∧ argument? inner k = some goOn ∧
        ∀ t, (goOn t).Rereads Expr.erase e ws ks := by
    obtain ⟨k, ws, goOn, hkinds, hgoOn, hrereads⟩ := raised_begins hi he hform hks
    refine ⟨k, ws, fun t => do raised inner (← indexed inner (← goOn t)), hkinds, ?_,
      fun t c hc => ?_⟩
    · unfold argument?
      split
      · cases hgoOn
      · rw [hgoOn]
        rfl
    · exact Succeeds.bind ((hrereads t c hc).mono fun base c₁ h₁ => Succeeds.bind h₁)
  have signed (s : Span) (ops : List UnaryOp) (operand : Expr) (hunary : e = .unary s ops operand)
      (hops : ops.all (· == .count) = true)
      (hform : operand.isIndexed = true ∨ ∃ s b x, operand = .power s b x) :
      ∃ k ws goOn, e.kinds = k :: ws ∧ argument? inner k = some goOn ∧
        ∀ t, (goOn t).Rereads Expr.erase e ws ks := by
    subst hunary
    obtain ⟨⟨hne, -⟩, hoperands, -⟩ := Expr.regular_iff.1 he
    obtain ⟨op, ops, rfl⟩ := List.exists_cons_of_ne_nil hne
    have hcount : ∀ o ∈ op :: ops, o = .count := by simpa using hops
    obtain rfl : op = .count := hcount op (by simp)
    have hbehind : operand.IsFollowed (front ks) := by
      refine ⟨hks.bracket, hks.caret, fun h => hks.raised ?_, by simpa [Expr.ending] using
        hks.admits⟩
      rcases hform with hindexed | ⟨s, b, x, rfl⟩
      · simp [(Expr.isArgument_of_isIndexed hindexed).2] at h
      · rfl
    obtain ⟨k, ws, goOn, hkinds, hgoOn, hrereads⟩ :=
      raised_begins hi (hoperands operand (by simp [Expr.operands])) hform hbehind
    refine ⟨_, _, _, Expr.kinds_unary .., rfl, fun t c hc => ?_⟩
    change c.Views (ops.map (.punct ·.punct) ++ operand.kinds ++ ks) at hc
    rw [List.append_assoc, hkinds, List.cons_append] at hc
    refine Succeeds.bind ((signs_rereads ?_ ?_ [.count] hc).mono fun ops' c₁ h₁ => ?_)
    · intro o ho acc c hc
      obtain rfl := hcount o (by simp [ho])
      exact if_pos (by simp [Cursor.looksAt, hc, UnaryOp.punct])
    · intro acc c hc
      refine if_neg ?_
      rw [hc.looksAt, Token.Kind.front_cons]
      intro hk
      rw [show k = .punct .hash by simpa using hk] at hgoOn
      cases hgoOn
    · obtain ⟨rfl, hc₁⟩ := h₁
      obtain ⟨c₂, ht, hc₂⟩ := hc₁.take
      refine Succeeds.bind (Succeeds.choose (by rw [hc₁.kind]; exact hgoOn) ht ?_)
      refine (hrereads _ c₂ hc₂).mono fun base c₃ h₃ => Succeeds.bind (h₃.mono
        fun e₁ c₄ h₄ => Succeeds.bind (h₄.mono fun operand' c₅ h₅ => ?_))
      exact counted_rereads _ (by simp) h₅.1 h₅.2
  unfold Expr.isArgument at hargument
  split at hargument
  · exact unsigned (.inr ⟨_, _, _, rfl⟩)
  · exact signed _ _ _ rfl hargument (.inr ⟨_, _, _, rfl⟩)
  · rw [Bool.and_eq_true] at hargument
    exact signed _ _ _ rfl hargument.1 (.inl hargument.2)
  · exact unsigned (.inl hargument)

/-! ## Chains -/

/-- The first token of an argument begins arguments. -/
theorem startsArgument_of_argument? {k : Token.Kind} {goOn : Token → Parser Expr}
    (h : argument? inner k = some goOn) : k.startsArgument = true := by
  rw [← isSome_argument? inner, h]
  rfl

theorem kinds_argument (hi : inner.Complete n) {e : Expr} (he : e.Regular n)
    (hargument : e.isArgument = true) :
    ∃ k ws, e.kinds = k :: ws ∧ k.startsArgument = true := by
  have hks : e.IsFollowed (front []) :=
    ⟨by simp, by simp, fun _ => nofun, Ending.admits_of_joinsAt? rfl _⟩
  obtain ⟨k, ws, goOn, hkinds, hgoOn, -⟩ := argument?_rereads hi he hargument hks
  exact ⟨k, ws, hkinds, startsArgument_of_argument? hgoOn⟩

/-- An argument may have the suffixes behind it that its chain has there. -/
theorem argument_isFollowed (hi : inner.Complete n) {arg : Expr} {ss : List Suffix}
    (hprecedes : (Suffix.apply arg :: ss).IsChain Suffix.Precedes)
    (harguments : ∀ arg, .apply arg ∈ ss → arg.isArgument = true ∧ arg.Regular n)
    (hlast : ss = [] → arg.IsFollowed (front ks)) :
    arg.IsFollowed (front (ss.flatMap Suffix.kinds ++ ks)) := by
  cases ss with
  | nil => exact hlast rfl
  | cons suffix ss =>
    obtain ⟨hindex, hfollows, hraised⟩ := (List.isChain_cons_cons.1 hprecedes).1
    cases suffix with
    | index => cases hindex rfl
    | apply arg' =>
      obtain ⟨hargument, harg⟩ := harguments arg' (by simp)
      obtain ⟨k, ws, hkinds, hstart⟩ := kinds_argument hi harg hargument
      simp only [List.flatMap_cons, Suffix.kinds_apply, hkinds, List.cons_append,
        Token.Kind.front_cons]
      refine ⟨?_, ?_, fun h => ?_, hfollows k hstart⟩
      · rintro rfl
        cases hstart
      · rintro rfl
        cases hstart
      · simp [hraised arg rfl] at h

/-- Suffixes are read back if what is behind them may follow the last of them. -/
theorem suffixes_rereads (hi : inner.Complete n) {ss : List Suffix}
    (hprecedes : ss.IsChain Suffix.Precedes)
    (harguments : ∀ arg, .apply arg ∈ ss → arg.isArgument = true ∧ arg.Regular n)
    (hindices : ∀ s args, .index s args ∈ ss → ∀ x ∈ args, x.NestsIn n)
    (hlast : ∀ arg, ss.getLast? = some (.apply arg) → arg.IsFollowed (front ks))
    (hks : (front ks).StopsAt true .chain) (acc : List Suffix)
    (hc : c.Views (ss.flatMap Suffix.kinds ++ ks)) :
    (repeatTaking (fun suffixes c =>
      if c.atAdjacentBracket then some fun t => return suffixes ++ [← index inner t]
      else (argument? inner c.current.kind).map fun goOn t =>
        return suffixes ++ [.apply (← goOn t)]) acc).Succeeds c fun ss' c' =>
          ss'.map Suffix.erase = acc.map Suffix.erase ++ ss.map Suffix.erase ∧ c'.Views ks := by
  induction ss generalizing acc c with
  | nil =>
    have hnot (h : (front ks).startsArgument = true ∨
        front ks = .punct .openBracket ∧ true = true) : False :=
      absurd (hks .chain (Token.Kind.joinsAt?_eq_chain.2 h)) (lt_irrefl _)
    have hc : c.Views ks := hc
    refine Succeeds.repeatTaking_stop ?_ ⟨by simp, hc⟩
    rw [if_neg, Option.map_eq_none_iff, ← Option.not_isSome_iff_eq_none, isSome_argument?, hc.kind]
    · exact fun h => hnot (.inl h)
    · rw [hc.atAdjacentBracket]
      exact fun h => hnot (.inr ⟨by simpa using h, rfl⟩)
  | cons suffix ss ih =>
    have further (acc : List Suffix) (c : Cursor) (hc : c.Views (ss.flatMap Suffix.kinds ++ ks)) :=
      ih hprecedes.of_cons (fun arg h => harguments arg (by simp [h]))
        (fun s args h => hindices s args (by simp [h])) (fun arg h => hlast arg (by
          cases ss with
          | nil => cases h
          | cons => simpa using h)) acc hc
    cases suffix with
    | index s args =>
      refine index_step hi (fun h => if_pos h) (hindices s args (by simp)) hc
        fun suffix' c₁ h₁ hc₁ => ?_
      refine (further _ c₁ hc₁).mono fun ss' c' h' => ⟨?_, h'.2⟩
      simp [h'.1, h₁]
    | apply arg =>
      obtain ⟨hargument, harg⟩ := harguments arg (by simp)
      have hfollowed : arg.IsFollowed (front (ss.flatMap Suffix.kinds ++ ks)) :=
        argument_isFollowed hi hprecedes (fun arg h => harguments arg (by simp [h])) fun hnil => by
          subst hnil
          exact hlast arg rfl
      obtain ⟨k, ws, goOn, hkinds, hgoOn, hrereads⟩ := argument?_rereads hi harg hargument hfollowed
      have hstart := startsArgument_of_argument? hgoOn
      rw [List.flatMap_cons, Suffix.kinds_apply, hkinds, List.cons_append, List.cons_append,
        List.append_assoc] at hc
      obtain ⟨c₁, ht, hc₁⟩ := hc.take
      refine Succeeds.repeatTaking_step hc.atEnd_eq_false (by
        rw [if_neg, hc.kind, Token.Kind.front_cons, hgoOn]
        · rfl
        · rw [hc.atAdjacentBracket]
          intro h
          rw [show k = .punct .openBracket by simpa using h] at hstart
          cases hstart) ht ?_
      refine Succeeds.bind ((hrereads c.current c₁ hc₁).mono fun arg' c₂ h₂ => Succeeds.pure ?_)
      refine (further _ c₂ h₂.2).mono fun ss' c' h' => ⟨?_, h'.2⟩
      simp [h'.1, h₂.1, Suffix.erase]

theorem chain_rereads (hi : inner.Complete n) {e : Expr} (he : e.Regular n)
    (hrank : .chain ≤ e.rank) (hks : (front ks).StopsAt true .chain)
    (hcaret : front ks = .punct .caret → e.isIndexed = true)
    (hend : e.ending.Admits true (front ks)) :
    (chain inner).Rereads Expr.erase e e.kinds ks := by
  intro c hc
  obtain ⟨base, suffixes, hchain, hfollow⟩ := he.isChain hrank
  have hlast (arg : Expr) (h : suffixes.getLast? = some (.apply arg)) :
      arg.IsFollowed (front ks) := by
    obtain ⟨init, rfl⟩ := List.getLast?_eq_some_iff.1 h
    have hnot : front ks ≠ .punct .caret := fun hk => by
      have hindexed := hcaret hk
      rcases hchain with ⟨hnil, -⟩ | ⟨-, s, rfl⟩
      · simp at hnil
      · simp [Expr.isIndexed, Suffix.isIndex] at hindexed
    refine ⟨fun hk => ?_, hnot, fun _ => ?_, ?_⟩
    · exact absurd (hks .chain (Token.Kind.joinsAt?_eq_chain.2 (.inr ⟨hk, rfl⟩))) (lt_irrefl _)
    · refine Token.Kind.StopsAt.looser (q := .power) ?_ (by intro s; cases s <;> decide) (by simp)
      refine hks.looser (by intro s; cases s <;> decide) ?_
      rwa [ne_eq, Token.Kind.joinsAt?_eq_power]
    · rwa [hchain.ending_eq, Suffix.lastEnding_append] at hend
  have hbase : base.ending.Admits true (front (suffixes.flatMap Suffix.kinds ++ ks)) := by
    cases suffixes with
    | nil => simpa [hchain.ending_eq, Suffix.lastEnding] using hend
    | cons suffix suffixes =>
      cases suffix with
      | index s args =>
        have hfirst : base.ending.Admits true (.punct .openBracket) := hfollow.first _ rfl
        simpa using hfirst
      | apply arg =>
        obtain ⟨hargument, harg⟩ := hfollow.arguments arg (by simp)
        obtain ⟨k, ws, hkinds, hstart⟩ := kinds_argument hi harg hargument
        have hfirst : base.ending.Admits true k := hfollow.first _ rfl k hstart
        simpa [hkinds] using hfirst
  rw [hchain.kinds_eq, List.append_assoc] at hc
  refine Succeeds.bind ((primary_rereads hi hfollow.regular hfollow.rank hbase c hc).mono
    fun base' c₁ h₁ => Succeeds.bind ?_)
  refine (suffixes_rereads hi hfollow.precedes hfollow.arguments hfollow.indices hlast hks []
    h₁.2).mono fun ss c₂ h₂ => ?_
  exact chained_rereads hchain h₁.1 (by simpa using h₂.1) h₂.2

/-! ## Operators -/

theorem power_rereads (hi : inner.Complete n) : (power inner).RereadsAt .power n := by
  intro e ks he hrank hks hend c hc
  have hcaret : front ks ≠ .punct .caret := fun hk =>
    absurd (hks .power (Token.Kind.joinsAt?_eq_power.2 hk)) (lt_irrefl _)
  by_cases hpower : e.rank = .power
  · cases e with
    | power s base exponent =>
      obtain ⟨⟨hindexed, -, hbase⟩, hoperands, -⟩ := Expr.regular_iff.1 he
      rw [Expr.kinds_power, List.append_assoc, List.cons_append] at hc
      rw [Expr.ending] at hend
      have hstops : (front (.punct .caret :: (exponent.kinds ++ ks))).StopsAt true .chain := by
        intro q hq
        obtain rfl : .power = q := by simpa [Token.Kind.joinsAt?, Punct.joinsAt?] using hq
        decide
      refine Succeeds.bind ((chain_rereads hi (hoperands base (by simp [Expr.operands]))
        (Expr.chain_le_rank_of_isIndexed hindexed) hstops (fun _ => hindexed) hbase c hc).mono
          fun base' c₁ h => raised_rereads hi he h.1 ?_ hend h.2)
      · exact hks.looser (by intro s; cases s <;> decide) (by simp)
    | binary s op => cases op <;> cases hpower
    | _ => cases hpower
  · have hchain : .chain ≤ e.rank := by
      revert hrank hpower
      cases e.rank <;> decide
    refine Succeeds.bind ((chain_rereads hi he hchain (hks.mono (by decide))
      (fun hk => absurd hk hcaret) hend c hc).mono fun e' c₁ h => ?_)
    exact raised_stop h.2 hcaret h

theorem unary_rereads (hi : inner.Complete n) : (unary inner).RereadsAt .unary n := by
  intro e ks he hrank hks hend c hc
  have hpower : (front ks).StopsAt true .power := hks.mono (by decide)
  -- Behind the signs is a power, and that begins with no sign.
  have behind (operand : Expr) (hoperand : operand.Regular n) (hr : .power ≤ operand.rank)
      (acc : List UnaryOp) (c : Cursor) (hc : c.Views (operand.kinds ++ ks)) :
      unaryOp? c.current.kind = none := by
    obtain ⟨k, ws, hkinds, -, hstart⟩ := Expr.kinds_eq_cons hoperand
    rw [hkinds] at hc
    rw [hc.kind, List.cons_append, Token.Kind.front_cons]
    have hstart := hstart hr
    unfold unaryOp?
    split <;> first | rfl | cases hstart
  refine Succeeds.look_bind (Succeeds.bind ?_)
  by_cases hunary : e.rank = .unary
  · cases e with
    | unary s ops operand =>
      obtain ⟨⟨hne, hr⟩, hoperands, -⟩ := Expr.regular_iff.1 he
      have hoperand := hoperands operand (by simp [Expr.operands])
      have hr : .power ≤ operand.rank := by
        revert hr
        cases operand.rank <;> decide
      rw [Expr.kinds_unary, List.append_assoc] at hc
      rw [Expr.ending] at hend
      refine (signs_rereads ?_ ?_ [] hc).mono fun ops' c₁ h₁ => Succeeds.bind ?_
      · intro op _ acc c hk
        rw [hk]
        cases op <;> rfl
      · intro acc c hc
        rw [behind operand hoperand hr acc c hc]
        rfl
      · obtain ⟨rfl, hc₁⟩ := h₁
        refine (power_rereads hi operand ks hoperand hr hpower hend c₁ hc₁).mono fun e' c₂ h₂ => ?_
        exact counted_rereads _ hne h₂.1 h₂.2
    | binary s op => cases op <;> cases hunary
    | _ => cases hunary
  · have hr : .power ≤ e.rank := by
      revert hrank hunary
      cases e.rank <;> decide
    refine Succeeds.repeatTaking_stop (by rw [behind e he hr [] c hc]; rfl) (Succeeds.bind ?_)
    refine (power_rereads hi e ks he hr hpower hend c hc).mono fun e' c₁ h => ?_
    exact Succeeds.pure h

/-- The operators of a tier are read from their own spelling. -/
theorem Tier.op?_punct {tier : Tier} {op : BinaryOp} (h : op.rank = tier.rank) :
    tier.op? (.punct op.punct) = some op := by
  cases tier <;> cases op <;> first | rfl | cases h

theorem binary_rereads (tier : Tier) {operand : Parser Expr} {r : Rank} (hr : tier.rank < r)
    (htighter : ∀ s, tier.rank < s → r ≤ s) (hoperand : operand.RereadsAt r n) :
    (binary tier operand).RereadsAt tier.rank n := by
  -- Operands are read from the left, so what is read behind a tree is left open here.
  have spine (e : Expr) (he : e.Regular n) (hrank : tier.rank ≤ e.rank)
      {Q : Expr → Cursor → Prop} : ∀ (c : Cursor) (ks : List Token.Kind),
        c.Views (e.kinds ++ ks) → (front ks).StopsAt true r → e.ending.Admits true (front ks) →
        (∀ e' c', e'.erase = e.erase → c'.Views ks →
          (repeatTaking (fun (left : Expr) (c : Cursor) =>
            (tier.op? c.current.kind).map fun op _ => do
              let right ← operand
              return .binary (left.span.merge right.span) op left right) e').Succeeds c' Q) →
        (binary tier operand).Succeeds c Q := by
    induction e using Expr.induction_parts with
    | h e operands nested =>
    intro c ks hc hks hend hrest
    by_cases hsame : e.rank = tier.rank
    · cases e with
      | binary s op left right =>
        obtain ⟨⟨hleft, hright, hadmits⟩, hoperands, -⟩ := Expr.regular_iff.1 he
        have hop : op.rank = tier.rank := hsame
        have hjoins : (Token.Kind.punct op.punct).joinsAt? true = some tier.rank := by
          rw [Token.Kind.joinsAt?_eq_rank, Tier.op?_punct hop]
          rfl
        rw [Expr.kinds_binary, List.append_assoc, List.cons_append] at hc
        rw [Expr.ending] at hend
        refine operands left (by simp [Expr.operands]) (hoperands left (by simp [Expr.operands]))
          (hop ▸ hleft) c _ hc ?_ hadmits fun left' c₁ hleft' hc₁ => ?_
        · intro q hq
          obtain rfl : tier.rank = q := by simpa [hjoins] using hq
          exact hr
        · obtain ⟨c₂, ht, hc₂⟩ := hc₁.take
          refine Succeeds.repeatTaking_step hc₁.atEnd_eq_false (by
            rw [hc₁.kind, Token.Kind.front_cons, Tier.op?_punct hop]
            rfl) ht ?_
          refine Succeeds.bind ((hoperand right ks (hoperands right (by simp [Expr.operands]))
            (htighter _ (hop ▸ hright)) hks hend c₂ hc₂).mono fun right' c₃ h => Succeeds.pure ?_)
          refine hrest _ c₃ ?_ h.2
          rw [Expr.erase, Expr.erase, hleft', h.1]
      | _ => cases tier <;> cases hsame
    · have htight : r ≤ e.rank := htighter _ (lt_of_le_of_ne hrank (Ne.symm hsame))
      exact Succeeds.bind ((hoperand e ks he htight hks hend c hc).mono fun e' c₁ h =>
        hrest e' c₁ h.1 h.2)
  intro e ks he hrank hks hend c hc
  refine spine e he hrank c ks hc (hks.mono hr.le) hend fun e' c' he' hc' => ?_
  refine Succeeds.repeatTaking_stop ?_ ⟨he', hc'⟩
  rw [Option.map_eq_none_iff, ← Option.not_isSome_iff_eq_none, hc'.kind]
  exact fun h => absurd (hks _ ((Token.Kind.joinsAt?_eq_rank tier).2 h)) (lt_irrefl _)

theorem multiplicative_rereads (hi : inner.Complete n) :
    (multiplicative inner).RereadsAt .multiplicative n :=
  binary_rereads .multiplicative (r := .unary) (by decide) (by intro s; cases s <;> decide)
    (unary_rereads hi)

theorem additive_rereads (hi : inner.Complete n) : (additive inner).RereadsAt .additive n :=
  binary_rereads .additive (r := .multiplicative) (by decide) (by intro s; cases s <;> decide)
    (multiplicative_rereads hi)

theorem comparison_rereads (hi : inner.Complete n) :
    (comparison inner).RereadsAt .comparison n :=
  binary_rereads .comparison (r := .additive) (by decide) (by intro s; cases s <;> decide)
    (additive_rereads hi)

/-- A form of expressions that are written as tighter ones with a separator between every
two, as far as it is written and read back. -/
structure Writes (p : Punct) (node : Span → List Expr → Expr) (q r : Rank) : Prop where
  joins : ∀ (k : Token.Kind) touching, k.joinsAt? touching = some q ↔ k = .punct p
  kinds : ∀ s es, (node s es).kinds = [.punct p].intercalate (es.map Expr.kinds)
  ending : ∀ s es, (node s es).ending = Expr.lastEnding es
  erase : ∀ s es, (node s es).erase = node default (es.map Expr.erase)
  form : ∀ n (e : Expr), e.Regular n → e.rank = q → ∃ s es, e = node s es ∧ 2 ≤ es.length ∧
    (∀ x ∈ es, x.Regular n ∧ r ≤ x.rank) ∧ ∀ x ∈ es.dropLast, x.ending.Admits true (.punct p)

theorem listed_rereads {p : Punct} {node : Span → List Expr → Expr} {operand : Parser Expr}
    {q r : Rank} (hwrites : Writes p node q r) (hr : q < r) (htighter : ∀ s, q < s → r ≤ s)
    (hoperand : operand.RereadsAt r n) : (listed p node operand).RereadsAt q n := by
  intro e ks he hrank hks hend c hc
  have hstop : front ks ≠ .punct p := fun hk =>
    absurd (hks q ((hwrites.joins _ _).2 hk)) (lt_irrefl _)
  have hpunct : (Token.Kind.punct p).StopsAt true r := by
    intro s hs
    rw [(hwrites.joins _ _).2 rfl] at hs
    obtain rfl : q = s := by simpa using hs
    exact hr
  -- Several operands and a single one are read in the same way.
  have all (es : List Expr) (hne : es ≠ []) (hes : ∀ x ∈ es, x.Regular n ∧ r ≤ x.rank)
      (hinit : ∀ x ∈ es.dropLast, x.ending.Admits true (.punct p))
      (hlast : ∀ x ∈ es.getLast?, x.ending.Admits true (front ks))
      (hc : c.Views ([.punct p].intercalate (es.map Expr.kinds) ++ ks)) :
      (separated operand (atPunct p fun _ => pure ()) fun _ => false).Succeeds c fun xs c' =>
        (xs.1 :: xs.2).map Expr.erase = es.map Expr.erase ∧ c'.Views ks := by
    refine Succeeds.separated_rereads hne (fun x hx ls hls => ?_) (fun x hx => ?_)
      (fun x hx ls c c₁ hc ht hc₁ => ?_) (fun c hc => ?_) hc
    · obtain ⟨hregular, hrank⟩ := hes x (List.dropLast_subset _ hx)
      exact hoperand x ls hregular hrank (by rwa [hls]) (by rw [hls]; exact hinit x hx)
    · obtain ⟨hregular, hrank⟩ := hes x (List.mem_of_getLast? hx)
      exact hoperand x ks hregular hrank (hks.mono hr.le) (hlast x hx)
    · exact ⟨_, if_pos (by simp [hc.looksAt]), Succeeds.pure ⟨hc₁, rfl⟩⟩
    · exact if_neg (by simpa [hc.looksAt] using hstop)
  by_cases hsame : e.rank = q
  · obtain ⟨s, es, rfl, hlength, hes, hinit⟩ := hwrites.form n e he hsame
    rw [hwrites.kinds] at hc
    rw [hwrites.ending] at hend
    refine Succeeds.bind ((all es (by rintro rfl; simp at hlength) hes hinit (fun x hx => by
      rwa [Expr.lastEnding_eq hx] at hend) hc).mono fun xs c₁ h => ?_)
    have hxs := congrArg List.length h.1
    simp only [List.length_map, List.length_cons] at hxs
    dsimp only
    rw [if_neg (by rw [List.isEmpty_iff, ← List.length_eq_zero_iff]; omega)]
    refine Succeeds.spanFrom_bind fun s' => Succeeds.pure ⟨?_, h.2⟩
    rw [hwrites.erase, hwrites.erase, h.1]
  · have htight : r ≤ e.rank := htighter _ (lt_of_le_of_ne hrank (Ne.symm hsame))
    refine Succeeds.bind ((all [e] (by simp) (by simpa using ⟨he, htight⟩) (by simp)
      (by simpa using hend) (by simpa using hc)).mono fun xs c₁ h => ?_)
    obtain ⟨first, rest⟩ := xs
    obtain ⟨hfirst, hrest⟩ := List.cons.inj h.1
    obtain rfl : rest = [] := by simpa using hrest
    exact Succeeds.pure ⟨hfirst, h.2⟩

theorem join_writes : Writes .comma .join .join .comparison where
  joins _ _ := Token.Kind.joinsAt?_eq_join
  kinds := Expr.kinds_join
  ending s es := by rw [Expr.ending]
  erase s es := by rw [Expr.erase, Expr.eraseList_eq]
  form n e he hrank := by
    cases e with
    | join s es =>
      obtain ⟨⟨hlength, hranks, hinit⟩, hoperands, -⟩ := Expr.regular_iff.1 he
      refine ⟨s, es, rfl, hlength, fun x hx => ⟨hoperands x hx, ?_⟩, hinit⟩
      have hx := hranks x hx
      revert hx
      cases x.rank <;> decide
    | binary s op => cases op <;> cases hrank
    | _ => cases hrank

theorem pipe_writes : Writes .pipe .pipe .pipe .join where
  joins _ _ := Token.Kind.joinsAt?_eq_pipe
  kinds := Expr.kinds_pipe
  ending s es := by rw [Expr.ending]
  erase s es := by rw [Expr.erase, Expr.eraseList_eq]
  form n e he hrank := by
    cases e with
    | pipe s es =>
      obtain ⟨⟨hlength, hranks, hinit⟩, hoperands, -⟩ := Expr.regular_iff.1 he
      refine ⟨s, es, rfl, hlength, fun x hx => ⟨hoperands x hx, ?_⟩, hinit⟩
      have hx := hranks x hx
      revert hx
      cases x.rank <;> decide
    | binary s op => cases op <;> cases hrank
    | _ => cases hrank

theorem join_rereads (hi : inner.Complete n) : (join inner).RereadsAt .join n :=
  listed_rereads join_writes (by decide) (by intro s; cases s <;> decide) (comparison_rereads hi)

theorem pipe_rereads (hi : inner.Complete n) : (pipe inner).RereadsAt .pipe n :=
  listed_rereads pipe_writes (by decide) (by intro s; cases s <;> decide) (join_rereads hi)

theorem assignment_rereads (hi : inner.Complete n) :
    (assignment inner).RereadsAt .assignment n := by
  intro e ks he hrank hks hend c hc
  by_cases hassignment : e.rank = .assignment
  · cases e with
    | assignment s target value =>
      obtain ⟨⟨htarget, hadmits⟩, hoperands, hnested⟩ := Expr.regular_iff.1 he
      rw [Expr.kinds_assignment, List.append_assoc, List.cons_append] at hc
      have hr : .pipe ≤ target.rank := by
        revert htarget
        cases target.rank <;> decide
      have hstops : (front (.punct .colon :: (value.kinds ++ ks))).StopsAt true .pipe := by
        intro q hq
        obtain rfl : .assignment = q := by simpa [Token.Kind.joinsAt?, Punct.joinsAt?] using hq
        decide
      refine Succeeds.bind ((pipe_rereads hi target _ (hoperands target (by simp [Expr.operands]))
        hr hstops hadmits c hc).mono fun target' c₁ h₁ => Succeeds.look_bind ?_)
      rw [if_pos (by simp [h₁.2.looksAt])]
      refine Succeeds.bind (Succeeds.discard_take_views h₁.2 fun c₂ hc₂ => Succeeds.bind ?_)
      refine (hi.expression value ks (hnested value (by simp [Expr.nested]))
        (Token.Kind.stopsAt_assignment.1 hks) c₂ hc₂).mono fun value' c₃ h₃ =>
          Succeeds.pure ⟨?_, h₃.2⟩
      rw [Expr.erase, Expr.erase, h₁.1, h₃.1]
    | binary s op => cases op <;> cases hassignment
    | _ => cases hassignment
  · have hr : .pipe ≤ e.rank := by
      revert hrank hassignment
      cases e.rank <;> decide
    refine Succeeds.bind ((pipe_rereads hi e ks he hr (hks.mono (by decide)) hend c hc).mono
      fun e' c₁ h => Succeeds.look_bind ?_)
    have hcolon : front ks ≠ .punct .colon := fun hk =>
      absurd (hks _ (Token.Kind.joinsAt?_eq_assignment.2 hk)) (lt_irrefl _)
    rw [if_neg (by simpa [h.2.looksAt] using hcolon)]
    exact Succeeds.pure h

/-! ## Levels -/

/-- The parsers of every level read back what has no more levels in it. -/
theorem level_complete (n : Nat) : (level n).Complete n := by
  induction n with
  | zero =>
    refine ⟨?_, ?_⟩
    · rintro e ks ⟨m, hm, -⟩
      omega
    · rintro e ks ⟨m, hm, -⟩
      omega
  | succ n ih =>
    refine ⟨fun e ks ⟨m, hm, he⟩ hks => ?_, fun e ks ⟨m, hm, he⟩ hrank hks hend => ?_⟩
    · obtain rfl : n = m := by omega
      refine assignment_rereads ih e ks he ?_ (Token.Kind.stopsAt_assignment.2 hks)
        (Ending.admits_of_joinsAt? hks _)
      cases e.rank <;> decide
    · obtain rfl : n = m := by omega
      exact unary_rereads ih e ks he hrank hks hend

end Grammar
end WqSource
