import WqSource.Grammar.Operator
import WqSource.Proofs.Sound.Primary

/-!
# Operators are read as they are written

A tier reads a tree of its own form or of a tighter one, and it stops at the token behind.
What an operand has left for the token behind it decides what a looser tier finds there:
that index brackets come in front of all arguments, and that nothing with arguments is the
base of a power, follows from it.

## Main definitions

* `Suffixed`: the invariant of a chain.
* `Cursor.ReadsAt`: what a tier reads.

## Main statements

* `chain_reads`, `unary_reads`, `binary_reads`, `listed_reads`, `assignment_reads`.
-/

namespace WqSource
open Grammar WqSource.Parser

/-! ## What ends let go of -/

namespace Ending
variable {e : Ending} {k k' : Token.Kind} {touching : Bool}

/-- If one token that begins arguments may stand behind an end, all of them may. -/
theorem Admits.startsArgument (h : e.Admits touching k) (hk : k.startsArgument = true)
    (hk' : k'.startsArgument = true) : e.Admits true k' := by
  cases e with
  | closed => trivial
  | loopName =>
    rintro rfl
    cases hk'
  | bareReturn => simp [Admits, Token.Kind.startsExpression, hk] at h
  | openWord =>
    have hjoins : k.joinsAt? touching = some .chain := Token.Kind.joinsAt?_eq_chain.2 (.inl hk)
    simp [Admits, hjoins] at h

/-- What goes on with an operand may stand behind it if it touches it, if it may stand
there at all. -/
theorem Admits.touch (h : e.Admits touching k) (hk : k.joinsAt? touching ≠ none) :
    e.Admits true k := by
  cases e with
  | openWord => exact absurd h hk
  | _ => exact h

theorem Admits.bangEqual (h : e.Admits touching (.punct .tilde)) :
    e.Admits true (.punct .bangEqual) := by
  cases e with
  | openWord => cases h
  | _ => simp_all [Admits, Token.Kind.startsExpression, Token.Kind.startsArgument,
      Token.Kind.startsPrimary]

end Ending

@[simp] theorem Suffix.lastEnding_append (before : Ending) (ss : List Suffix) (s : Suffix) :
    Suffix.lastEnding before (ss ++ [s]) = s.ending := by
  induction ss with
  | nil => rw [List.nil_append, Suffix.lastEnding]
  | cons t ss ih =>
    cases ss with
    | nil => rw [List.cons_append, List.nil_append, Suffix.lastEnding, Suffix.lastEnding]; simp
    | cons u ss => simpa [Suffix.lastEnding] using ih

@[simp] theorem Expr.lastEnding_append (es : List Expr) (e : Expr) :
    Expr.lastEnding (es ++ [e]) = e.ending := by
  induction es with
  | nil => rw [List.nil_append, Expr.lastEnding]
  | cons d es ih =>
    cases es with
    | nil => rw [List.cons_append, List.nil_append, Expr.lastEnding, Expr.lastEnding]; simp
    | cons u es => simpa [Expr.lastEnding] using ih

theorem Expr.isIndexed_of_rank {e : Expr} (h : e.rank = .primary) : e.isIndexed = true := by
  cases e <;> simp_all [Expr.isIndexed, Expr.rank]

theorem Expr.isArgument_of_isIndexed {e : Expr} (h : e.isIndexed = true) :
    e.isArgument = true ∧ e.isRaised = false := by
  cases e <;> simp_all [Expr.isIndexed, Expr.rank, Expr.isArgument, Expr.isRaised]

theorem Expr.isArgument_unary {ops : List UnaryOp} {e : Expr} (s : Span)
    (hops : ops.all (· == .count) = true) (h : e.isIndexed = true) :
    (unary s ops e).isArgument = true ∧ (unary s ops e).isRaised = false := by
  cases e with
  | power => cases h
  | _ => exact ⟨by simp only [isArgument, hops, h, Bool.and_self], rfl⟩

namespace Cursor
variable {c : Cursor} {r : Rank}

theorem atAdjacentBracket_iff :
    c.atAdjacentBracket = true ↔ c.current.kind = .punct .openBracket ∧ c.touching = true := by
  simp [atAdjacentBracket, looksAt, touching]

theorem StopsAt.ne_joins (h : c.StopsAt r) {q : Rank} (hq : r ≤ q) :
    c.current.kind.joinsAt? c.touching ≠ some q :=
  fun hk => absurd (h q hk) (not_lt.2 hq)

/-- What a tier reads between two cursors. -/
structure ReadsAt (r : Rank) (n : Nat) (c : Cursor) (e : Expr) (c' : Cursor) : Prop where
  reads : c.Reads n e c'
  rank_le : r ≤ e.rank
  stops : c'.StopsAt r

end Cursor

namespace Grammar
variable {inner : Inner} {n : Nat} {c c₁ c₂ : Cursor}

/-! ## Chains -/

/-- What follows an argument: no bracket that touches it, no exponent, and nothing that
could be applied to an exponent that it has. -/
structure Behind (arg : Expr) (c : Cursor) : Prop where
  bracket : c.atAdjacentBracket = false
  caret : c.looksAt .caret = false
  raised : arg.isRaised = true → c.StopsAt .unary

/-- The suffixes read behind a base. -/
structure Suffixed (n : Nat) (c : Cursor) (base : Expr) (suffixes : List Suffix) (c' : Cursor) :
    Prop where
  passes : c.Passes (base.words ++ suffixes.flatMap Suffix.words) c'
  follows : ∀ s ∈ suffixes.head?, s.Follows base.ending
  precedes : suffixes.IsChain Suffix.Precedes
  arguments : ∀ arg, .apply arg ∈ suffixes → arg.isArgument = true ∧ arg.Regular n
  indices : ∀ x ∈ suffixes.flatMap Suffix.indices, x.NestsIn n
  admits : (Suffix.lastEnding base.ending suffixes).Admits c'.touching c'.current.kind
  last : ∀ arg, suffixes.getLast? = some (.apply arg) → Behind arg c'
  indexed : (∀ s ∈ suffixes, s.isIndex = true) ∨ ∃ arg, suffixes.getLast? = some (.apply arg)

namespace Suffixed
variable {base : Expr} {suffixes : List Suffix}

theorem nil (h : c.Reads n base c₁) : Suffixed n c base [] c₁ where
  passes := by simpa using h.passes
  follows := nofun
  precedes := .nil
  arguments := nofun
  indices := nofun
  admits := h.admits
  last := nofun
  indexed := .inl nofun

/-- The last suffix may stand behind those in front of it, or behind the base. -/
theorem follows_append {s : Suffix} (h : Suffixed n c base suffixes c₁)
    (hs : s.Follows (Suffix.lastEnding base.ending suffixes)) :
    ∀ t ∈ (suffixes ++ [s]).head?, t.Follows base.ending := by
  cases suffixes with
  | nil => simpa [Suffix.lastEnding] using hs
  | cons t ts => exact h.follows

theorem precedes_append {s : Suffix} (h : Suffixed n c base suffixes c₁)
    (hs : ∀ t, suffixes.getLast? = some t → t.Precedes s) :
    (suffixes ++ [s]).IsChain Suffix.Precedes := by
  refine List.isChain_append.2 ⟨h.precedes, .singleton _, fun t ht u hu => ?_⟩
  obtain rfl : s = u := by simpa using hu
  exact hs t ht

theorem lastEnding_of_getLast? (before : Ending) {t : Suffix}
    (h : suffixes.getLast? = some t) : Suffix.lastEnding before suffixes = t.ending := by
  obtain ⟨ts, rfl⟩ := List.getLast?_eq_some_iff.1 h
  exact Suffix.lastEnding_append ..

/-- Index brackets touch what is in front of them, so that is no argument. -/
theorem index {s : Span} {args : List Expr} (h : Suffixed n c base suffixes c₁)
    (hbracket : c₁.atAdjacentBracket = true)
    (hargs : c₁.Passes (Suffix.index s args).words c₂) (hnests : ∀ x ∈ args, x.NestsIn n) :
    Suffixed n c base (suffixes ++ [.index s args]) c₂ := by
  obtain ⟨hopen, htouch⟩ := Cursor.atAdjacentBracket_iff.1 hbracket
  have hnoArgument (arg : Expr) : suffixes.getLast? ≠ some (.apply arg) := fun harg => by
    simp [(h.last arg harg).bracket] at hbracket
  have hall : ∀ s ∈ suffixes, s.isIndex = true :=
    h.indexed.resolve_right fun ⟨arg, harg⟩ => hnoArgument arg harg
  have hfollows := h.admits
  rw [hopen, htouch] at hfollows
  refine ⟨?_, h.follows_append hfollows, h.precedes_append fun t ht => ?_, ?_, ?_, ?_, ?_, ?_⟩
  · simpa using h.passes.trans hargs
  · refine ⟨fun _ => hall t (List.mem_of_getLast? ht), ?_, ?_⟩
    · rw [← lastEnding_of_getLast? base.ending ht]
      exact hfollows
    · rintro arg rfl
      exact absurd ht (hnoArgument arg)
  · intro arg harg
    exact h.arguments arg (by simpa using harg)
  · intro x hx
    rw [List.flatMap_append, List.mem_append] at hx
    rcases hx with hx | hx
    · exact h.indices x hx
    · exact hnests x (by simpa [Suffix.indices] using hx)
  · rw [Suffix.lastEnding_append]
    trivial
  · intro arg harg
    simp at harg
  · refine .inl fun t ht => ?_
    rcases List.mem_append.1 ht with ht | ht
    · exact hall t ht
    · obtain rfl := List.mem_singleton.1 ht
      rfl

theorem apply {arg : Expr} (h : Suffixed n c base suffixes c₁)
    (hstart : c₁.current.kind.startsArgument = true) (harg : c₁.Reads n arg c₂)
    (hargument : arg.isArgument = true) (hbehind : Behind arg c₂) :
    Suffixed n c base (suffixes ++ [.apply arg]) c₂ := by
  have hfollows : (Suffix.apply arg).Follows (Suffix.lastEnding base.ending suffixes) :=
    fun k hk => h.admits.startsArgument hstart hk
  refine ⟨?_, h.follows_append hfollows, h.precedes_append fun t ht => ?_, ?_, ?_, ?_, ?_, ?_⟩
  · simpa [Suffix.words_apply] using h.passes.trans harg.passes
  · refine ⟨nofun, by rwa [← lastEnding_of_getLast? base.ending ht], ?_⟩
    rintro a rfl
    by_contra hraised
    have hstops := (h.last a ht).raised (by simpa using hraised)
    exact hstops.ne_joins (q := .chain) (by decide) (Token.Kind.joinsAt?_eq_chain.2 (.inl hstart))
  · intro a ha
    rcases List.mem_append.1 ha with ha | ha
    · exact h.arguments a ha
    · obtain rfl : a = arg := by simpa using ha
      exact ⟨hargument, harg.regular⟩
  · intro x hx
    exact h.indices x (by simpa [Suffix.indices] using hx)
  · rw [Suffix.lastEnding_append]
    exact harg.admits
  · intro a ha
    obtain rfl : a = arg := by simpa [eq_comm] using ha
    exact hbehind
  · exact .inr ⟨arg, by simp⟩

/-- A base and its suffixes are a chain. -/
theorem reads_chain (h : Suffixed n c base suffixes c₁) (hbase : base.Regular n)
    (hrank : base.rank = .primary) (hne : suffixes ≠ []) (s : Span) :
    c.Reads n (.chain s base suffixes) c₁ := by
  refine ⟨by rw [Expr.words_chain]; exact h.passes, Expr.regular_iff.2 ⟨⟨hrank, hne, h.follows,
    h.precedes, fun arg harg => (h.arguments arg harg).1⟩, fun x hx => ?_, h.indices⟩,
    h.admits, nofun⟩
  rcases List.mem_cons.1 hx with rfl | hx
  · exact hbase
  · obtain ⟨t, ht, hx⟩ := List.mem_filterMap.1 hx
    cases t with
    | index => cases hx
    | apply arg =>
      cases hx
      exact (h.arguments _ ht).2

end Suffixed

theorem index_passes (hi : inner.Sound n) (hc : c.Legal)
    (ht : c.take = (.ok c.current, c₁)) (hopen : c.looksAt .openBracket = true) :
    (Grammar.index inner c.current).Ensures c₁ fun suffix c' =>
      ∃ s args, suffix = .index s args ∧ c.Passes suffix.words c' ∧
        ∀ x ∈ args, x.NestsIn n := by
  have hd : c₁.depth = c.depth + 1 := Cursor.depth_take_opening ht hopen fun _ => rfl
  refine Ensures.bind ((items_passes (w := Expr.words) (P := Expr.NestsIn n) (by decide)
    (hc.take ht) (by omega) fun c' hl _ => (hi.expression c' hl).mono ?_).mono fun args c₂ h => ?_)
  · rintro e c' ⟨⟨m, hn, he⟩, -⟩
    exact ⟨he.passes, m, hn, he.regular⟩
  · refine Ensures.spanFrom_bind fun s => Ensures.pure ⟨s, args, rfl, ?_, h.2⟩
    rw [Suffix.words_index]
    exact .enclosed ht hopen h.1 (.inr rfl) (.inr rfl)

/-- A base with the suffixes read behind it. -/
theorem chained_reads {base : Expr} {suffixes : List Suffix} (hbase : c.Reads n base c₁)
    (hrank : base.rank = .primary) (h : Suffixed n c base suffixes c₂)
    (hnil : suffixes = [] → c₁ = c₂) :
    (chained base suffixes).Ensures c₂ fun e c' => c₂ = c' ∧ c.Reads n e c' ∧
      (suffixes = [] ∧ e = base ∨ ∃ s, e = .chain s base suffixes) := by
  unfold chained
  split
  · next hempty =>
    have hempty : suffixes = [] := by simpa using hempty
    obtain rfl := hnil hempty
    exact Ensures.pure ⟨rfl, hbase, .inl ⟨hempty, rfl⟩⟩
  · next hne =>
    refine Ensures.spanFrom_bind fun s => Ensures.pure ⟨rfl, ?_, ?_⟩
    · exact h.reads_chain hbase.regular hrank (by simpa using hne) s
    · exact .inr ⟨s, rfl⟩

/-! ## Arguments -/

theorem indexed_reads {base : Expr} (hi : inner.Sound n) (hc : c.Legal)
    (hbase : c.Reads n base c₁) (hrank : base.rank = .primary) :
    (indexed inner base).Ensures c₁ fun e c' =>
      c.Reads n e c' ∧ e.isIndexed = true ∧ c'.atAdjacentBracket = false := by
  refine Ensures.bind ((Ensures.repeatTaking (I := fun suffixes c' =>
    Suffixed n c base suffixes c' ∧ (∀ s ∈ suffixes, s.isIndex = true) ∧
      (suffixes = [] → c₁ = c')) ⟨.nil hbase, nofun, fun _ => rfl⟩ ?_).mono ?_)
  · rintro suffixes c₂ goOn c₃ ⟨h, hall, -⟩ hs ht
    split at hs
    · next hbracket =>
      cases hs
      have hopen := Cursor.looksAt_iff.2 (Cursor.atAdjacentBracket_iff.1 hbracket).1
      refine Ensures.bind ((index_passes hi (h.passes.legal hc) ht hopen).mono ?_)
      rintro _ c₄ ⟨s, args, rfl, hargs, hnests⟩
      refine Ensures.pure ⟨h.index hbracket hargs hnests, fun t hs => ?_, by simp⟩
      rcases List.mem_append.1 hs with hs | hs
      · exact hall t hs
      · obtain rfl := List.mem_singleton.1 hs
        rfl
    · cases hs
  · rintro suffixes c₂ ⟨⟨h, hall, hnil⟩, hend⟩
    have hbracket : c₂.atAdjacentBracket = false := by
      rcases hend with hend | hend
      · have hend : c₂.current.kind = .endOfInput := by simpa [Cursor.atEnd] using hend
        simp [Cursor.atAdjacentBracket, Cursor.looksAt, hend]
      · simpa using hend
    refine (chained_reads hbase hrank h hnil).mono ?_
    rintro e c₃ ⟨rfl, he, ⟨-, rfl⟩ | ⟨s, rfl⟩⟩
    · exact ⟨he, Expr.isIndexed_of_rank hrank, hbracket⟩
    · exact ⟨he, by simpa [Expr.isIndexed] using hall, hbracket⟩

/-- A base, with its exponent if there is one. -/
theorem raised_reads {base : Expr} (hi : inner.Sound n) (hc : c.Legal)
    (hbase : c.Reads n base c₁) (hcaret : c₁.looksAt .caret = true → base.isIndexed = true) :
    (raised inner base).Ensures c₁ fun e c' => c.Reads n e c' ∧
      (e = base ∧ c₁ = c' ∧ c₁.looksAt .caret = false ∨
        (∃ s x, e = .power s base x) ∧ c'.StopsAt .unary) := by
  refine Ensures.look_bind ?_
  split
  · next hlook =>
    refine Ensures.bind (Ensures.discard_take fun c₂ ht => ?_)
    have hpasses : c₁.Passes [.punct .caret] c₂ := .punct ht hlook (by decide) fun _ => rfl
    refine Ensures.bind ((hi.exponent c₂ (hpasses.legal (hbase.passes.legal hc))).mono ?_)
    rintro x c₃ ⟨⟨m, hn, hx⟩, hrank, hstops⟩
    have hadmits := hbase.admits
    rw [Cursor.looksAt_iff.1 hlook] at hadmits
    refine Ensures.pure ⟨⟨?_, ?_, hx.admits, nofun⟩, .inr ⟨⟨_, x, rfl⟩, hstops⟩⟩
    · rw [Expr.words_power]
      exact hbase.passes.trans (hpasses.trans hx.passes)
    · refine Expr.regular_iff.2 ⟨⟨hcaret hlook, hrank, hadmits.touch nofun⟩, ?_, ?_⟩
      · simpa [Expr.operands] using hbase.regular
      · simpa [Expr.nested] using ⟨m, hn, hx.regular⟩
  · next hlook => exact Ensures.pure ⟨hbase, .inl ⟨rfl, rfl, eq_false_of_ne_true hlook⟩⟩

/-- An operand with the operators in front of it. -/
theorem counted_reads {start : Position} {ops : List UnaryOp} {operand : Expr}
    (hops : c.Passes (ops.map (.punct ·.punct)) c₁) (hnil : ops = [] → c = c₁)
    (hoperand : c₁.Reads n operand c₂) (hrank : ops ≠ [] → .unary < operand.rank) :
    (counted start ops operand).Ensures c₂ fun e c' => c₂ = c' ∧ c.Reads n e c' ∧
      (ops = [] ∧ e = operand ∨ ops ≠ [] ∧ ∃ s, e = .unary s ops operand) := by
  unfold counted
  split
  · next hempty =>
    have hempty : ops = [] := by simpa using hempty
    obtain rfl := hnil hempty
    exact Ensures.pure ⟨rfl, hoperand, .inl ⟨hempty, rfl⟩⟩
  · next hne =>
    have hne : ops ≠ [] := by simpa using hne
    refine Ensures.spanFrom_bind fun s =>
      Ensures.pure ⟨rfl, ⟨?_, ?_, hoperand.admits, nofun⟩, .inr ⟨hne, s, rfl⟩⟩
    · rw [Expr.words_unary]
      exact hops.trans hoperand.passes
    · refine Expr.regular_iff.2 ⟨⟨hne, hrank hne⟩, ?_, by simp [Expr.nested]⟩
      simpa [Expr.operands] using hoperand.regular

theorem Behind.of_stopsAt {arg : Expr} (h : c.StopsAt .unary) : Behind arg c where
  bracket := by
    by_contra hbracket
    have hbracket := Cursor.atAdjacentBracket_iff.1 (by simpa using hbracket)
    exact h.ne_joins (q := .chain) (by decide) (Token.Kind.joinsAt?_eq_chain.2 (.inr hbracket))
  caret := by
    by_contra hcaret
    have hcaret := Cursor.looksAt_iff.1 (by simpa using hcaret)
    exact h.ne_joins (q := .power) (by decide) (Token.Kind.joinsAt?_eq_power.2 hcaret)
  raised := fun _ => h

/-- A primary with its index brackets and its exponent. -/
theorem raised_indexed_reads {base : Expr} (hi : inner.Sound n) (hc : c.Legal)
    (hbase : c.Reads n base c₁) (hrank : base.rank = .primary) :
    (do raised inner (← indexed inner base) : Parser Expr).Ensures c₁ fun e c' =>
      c.Reads n e c' ∧ Behind e c' ∧ (e.isIndexed = true ∨ ∃ s b x, e = .power s b x) := by
  refine Ensures.bind ((indexed_reads hi hc hbase hrank).mono ?_)
  rintro e c₂ ⟨he, hindexed, hbracket⟩
  refine (raised_reads hi hc he fun _ => hindexed).mono ?_
  rintro e' c₃ ⟨he', ⟨rfl, rfl, hcaret⟩ | ⟨⟨s, x, rfl⟩, hstops⟩⟩
  · refine ⟨he', ⟨hbracket, hcaret, fun h => ?_⟩, .inl hindexed⟩
    rw [(Expr.isArgument_of_isIndexed hindexed).2] at h
    cases h
  · exact ⟨he', .of_stopsAt hstops, .inr ⟨s, e, x, rfl⟩⟩

theorem argument?_reads {goOn : Token → Parser Expr} (hi : inner.Sound n) (hc : c.Legal)
    (ht : c.take = (.ok c.current, c₁)) (hs : argument? inner c.current.kind = some goOn) :
    (goOn c.current).Ensures c₁ fun e c' =>
      c.Reads n e c' ∧ e.isArgument = true ∧ Behind e c' := by
  unfold argument? at hs
  split at hs
  · next hk =>
    cases hs
    have hfirst : c.Passes [.punct .hash] c₁ :=
      .punct ht (Cursor.looksAt_iff.2 hk) (by decide) fun _ => rfl
    refine Ensures.bind ((Ensures.repeatTaking (I := fun ops c' =>
      c.Passes (ops.map (.punct ·.punct)) c' ∧ ops ≠ [] ∧ ops.all (· == .count) = true)
      ⟨hfirst, by simp, rfl⟩ ?_).mono ?_)
    · rintro ops c₂ goOn c₃ ⟨hops, -, hall⟩ hs ht
      unfold atPunct at hs
      split at hs
      · next hhash =>
        cases hs
        refine Ensures.pure ⟨?_, by simp, by simpa using hall⟩
        rw [List.map_append]
        exact hops.trans (.punct ht hhash (by decide) fun _ => rfl)
      · cases hs
    · rintro ops c₂ ⟨⟨hops, hne, hall⟩, -⟩
      have hc₂ := hops.legal hc
      refine Ensures.bind ((primary_reads hi hc₂).mono ?_)
      rintro base c₃ ⟨hbase, hrank⟩
      refine Ensures.bind ((indexed_reads hi hc₂ hbase hrank).mono ?_)
      rintro e c₄ ⟨he, hindexed, hbracket⟩
      refine Ensures.bind ((raised_reads hi hc₂ he fun _ => hindexed).mono ?_)
      rintro e' c₅ ⟨he', hform⟩
      have hrank' : .unary < e'.rank := by
        rcases hform with ⟨rfl, -, -⟩ | ⟨⟨s, x, rfl⟩, -⟩
        · exact lt_of_lt_of_le (by decide) (Expr.chain_le_rank_of_isIndexed hindexed)
        · simp only [Expr.rank]
          decide
      refine (counted_reads hops (fun h => absurd h hne) he' fun _ => hrank').mono ?_
      rintro e'' c₆ ⟨rfl, he'', ⟨h, -⟩ | ⟨-, s, rfl⟩⟩
      · exact absurd h hne
      · refine ⟨he'', ?_⟩
        rcases hform with ⟨rfl, rfl, hcaret⟩ | ⟨⟨s, x, rfl⟩, hstops⟩
        · obtain ⟨hargument, hraised⟩ := Expr.isArgument_unary s hall hindexed
          exact ⟨hargument, hbracket, hcaret, fun h => by simp [hraised] at h⟩
        · exact ⟨by simpa [Expr.isArgument] using hall, .of_stopsAt hstops⟩
  · obtain ⟨goOn', hprimary, rfl⟩ := Option.map_eq_some_iff.1 hs
    refine Ensures.bind ((primary?_reads hi hc ht hprimary).mono ?_)
    rintro base c₂ ⟨hbase, hrank⟩
    refine (raised_indexed_reads hi hc hbase hrank).mono ?_
    rintro e c₃ ⟨he, hbehind, hindexed | ⟨s, b, x, rfl⟩⟩
    · exact ⟨he, (Expr.isArgument_of_isIndexed hindexed).1, hbehind⟩
    · exact ⟨he, rfl, hbehind⟩

/-- A chain takes all index brackets that touch it and all arguments. What has arguments
has no exponent behind it. -/
theorem chain_reads (hi : inner.Sound n) (hc : c.Legal) :
    (chain inner).Ensures c fun e c' =>
      c.ReadsAt .chain n e c' ∧ (c'.looksAt .caret = true → e.isIndexed = true) := by
  refine Ensures.bind ((primary_reads hi hc).mono ?_)
  rintro base c₁ ⟨hbase, hrank⟩
  refine Ensures.bind ((Ensures.repeatTaking (I := fun suffixes c' =>
    Suffixed n c base suffixes c' ∧ (suffixes = [] → c₁ = c'))
    ⟨.nil hbase, fun _ => rfl⟩ ?_).mono ?_)
  · rintro suffixes c₂ goOn c₃ ⟨h, -⟩ hs ht
    have hc₂ := h.passes.legal hc
    split at hs
    · next hbracket =>
      cases hs
      have hopen := Cursor.looksAt_iff.2 (Cursor.atAdjacentBracket_iff.1 hbracket).1
      refine Ensures.bind ((index_passes hi hc₂ ht hopen).mono ?_)
      rintro _ c₄ ⟨s, args, rfl, hargs, hnests⟩
      exact Ensures.pure ⟨h.index hbracket hargs hnests, by simp⟩
    · obtain ⟨goOn', hargument, rfl⟩ := Option.map_eq_some_iff.1 hs
      have hstart : c₂.current.kind.startsArgument = true := by
        rw [← isSome_argument? inner, hargument]
        rfl
      refine Ensures.bind ((argument?_reads hi hc₂ ht hargument).mono ?_)
      rintro arg c₄ ⟨harg, hform, hbehind⟩
      exact Ensures.pure ⟨h.apply hstart harg hform hbehind, by simp⟩
  · rintro suffixes c₂ ⟨⟨h, hnil⟩, hend⟩
    have hstops : c₂.StopsAt .chain := by
      refine Token.Kind.stopsAt_primary.looser (by intro s; cases s <;> decide) ?_
      rw [ne_eq, Token.Kind.joinsAt?_eq_chain, ← Cursor.atAdjacentBracket_iff]
      rcases hend with hend | hend
      · have hend : c₂.current.kind = .endOfInput := by simpa [Cursor.atEnd] using hend
        simp [Cursor.atAdjacentBracket, Cursor.looksAt, hend, Token.Kind.startsArgument,
          Token.Kind.startsPrimary]
      · split at hend
        · cases hend
        · next hbracket =>
          rw [Option.map_eq_none_iff] at hend
          simp [← isSome_argument? inner, hend, hbracket]
    refine (chained_reads hbase hrank h hnil).mono ?_
    rintro e c₃ ⟨rfl, he, ⟨-, rfl⟩ | ⟨s, rfl⟩⟩
    · exact ⟨⟨he, by rw [hrank]; decide, hstops⟩, fun _ => Expr.isIndexed_of_rank hrank⟩
    · refine ⟨⟨he, le_rfl, hstops⟩, fun hcaret => ?_⟩
      rcases h.indexed with hall | ⟨arg, harg⟩
      · simpa [Expr.isIndexed] using hall
      · simp [(h.last arg harg).caret] at hcaret

/-! ## Operators -/

theorem power_reads (hi : inner.Sound n) (hc : c.Legal) :
    (power inner).Ensures c (c.ReadsAt .power n) := by
  refine Ensures.bind ((chain_reads hi hc).mono ?_)
  rintro base c₁ ⟨hbase, hcaret⟩
  refine (raised_reads hi hc hbase.reads hcaret).mono ?_
  rintro e c₂ ⟨he, ⟨rfl, rfl, hnot⟩ | ⟨⟨s, x, rfl⟩, hstops⟩⟩
  · refine ⟨he, le_trans (by decide) hbase.rank_le, ?_⟩
    refine hbase.stops.looser (by intro s; cases s <;> decide) ?_
    rw [ne_eq, Token.Kind.joinsAt?_eq_power, ← Cursor.looksAt_iff]
    simp [hnot]
  · exact ⟨he, le_rfl, hstops.mono (by decide)⟩

theorem unary_reads (hi : inner.Sound n) (hc : c.Legal) :
    (unary inner).Ensures c (c.ReadsAt .unary n) := by
  refine Ensures.look_bind (Ensures.bind ((Ensures.repeatTaking (I := fun ops c' =>
    c.Passes (ops.map (.punct ·.punct)) c' ∧ (ops = [] → c = c')) ⟨.refl c, fun _ => rfl⟩
    ?_).mono ?_))
  · rintro ops c₁ goOn c₂ ⟨hops, -⟩ hs ht
    obtain ⟨op, hop, rfl⟩ := Option.map_eq_some_iff.1 hs
    have hkind : c₁.current.kind = .punct op.punct := by
      unfold unaryOp? at hop
      split at hop <;> cases hop <;> assumption
    refine Ensures.pure ⟨?_, by simp⟩
    rw [List.map_append]
    exact hops.trans (.punct ht (Cursor.looksAt_iff.2 hkind) (by cases op <;> decide)
      (by cases op <;> exact fun _ => rfl))
  · rintro ops c₁ ⟨⟨hops, hnil⟩, -⟩
    refine Ensures.bind ((power_reads hi (hops.legal hc)).mono fun operand c₂ h => ?_)
    have hrank := h.rank_le
    refine (counted_reads hops hnil h.reads fun _ => lt_of_lt_of_le (by decide) hrank).mono ?_
    rintro e c₃ ⟨rfl, he, hform⟩
    refine ⟨he, ?_, h.stops.looser (by intro s; cases s <;> decide) (by simp)⟩
    rcases hform with ⟨-, rfl⟩ | ⟨-, s, rfl⟩
    · exact le_trans (by decide) hrank
    · exact le_rfl

/-- Operands with operators of a tier between them, if the operands are tighter. -/
theorem binary_reads (tier : Tier) {operand : Parser Expr} {r : Rank} (hr : tier.rank < r)
    (hlooser : ∀ s, s < r → s ≤ tier.rank)
    (hoperand : ∀ c : Cursor, c.Legal → operand.Ensures c (c.ReadsAt r n)) (hc : c.Legal) :
    (binary tier operand).Ensures c (c.ReadsAt tier.rank n) := by
  refine Ensures.bind ((hoperand c hc).mono fun first c₁ hfirst => ?_)
  refine (Ensures.repeatTaking (I := fun left c' =>
    c.Reads n left c' ∧ tier.rank ≤ left.rank ∧ c'.StopsAt r)
    ⟨hfirst.reads, hr.le.trans hfirst.rank_le, hfirst.stops⟩ ?_).mono ?_
  · rintro left c₂ goOn c₃ ⟨hleft, hrank, -⟩ hs ht
    obtain ⟨op, hop, rfl⟩ := Option.map_eq_some_iff.1 hs
    obtain ⟨htier, hkind⟩ := Tier.op?_eq_some hop
    have hpasses : c₂.Passes [.punct op.punct] c₃ := by
      rcases hkind with hkind | ⟨hkind, rfl⟩
      · exact .word ht (by rw [hkind]; cases op <;> rfl) (by simp [hkind])
          (by rw [hkind]; cases op <;> exact fun _ => rfl)
      · exact .word ht (by rw [hkind]; rfl) (by simp [hkind]) (by rw [hkind]; exact fun _ => rfl)
    have hadmits : left.ending.Admits true (.punct op.punct) := by
      have hadmits := hleft.admits
      rcases hkind with hkind | ⟨hkind, rfl⟩
      · rw [hkind] at hadmits hop
        refine hadmits.touch ?_
        rw [(Token.Kind.joinsAt?_eq_rank tier).2 (by rw [hop]; rfl)]
        simp
      · rw [hkind] at hadmits
        exact hadmits.bangEqual
    refine Ensures.bind ((hoperand c₃ (hpasses.legal (hleft.passes.legal hc))).mono
      fun right c₄ hright => Ensures.pure ⟨⟨?_, ?_, hright.reads.admits, nofun⟩, ?_, hright.stops⟩)
    · rw [Expr.words_binary]
      exact hleft.passes.trans (hpasses.trans hright.reads.passes)
    · refine Expr.regular_iff.2 ⟨⟨by rwa [htier], ?_, hadmits⟩, ?_, by simp [Expr.nested]⟩
      · rw [htier]
        exact lt_of_lt_of_le hr hright.rank_le
      · simpa [Expr.operands] using ⟨hleft.regular, hright.reads.regular⟩
    · exact (htier ▸ le_rfl : tier.rank ≤ op.rank)
  · rintro e c₂ ⟨⟨he, hrank, hstops⟩, hend⟩
    refine ⟨he, hrank, hstops.looser hlooser ?_⟩
    rw [ne_eq, Token.Kind.joinsAt?_eq_rank]
    rcases hend with hend | hend
    · have hend : c₂.current.kind = .endOfInput := by simpa [Cursor.atEnd] using hend
      rw [hend]
      cases tier <;> decide
    · simpa using hend

theorem multiplicative_reads (hi : inner.Sound n) (hc : c.Legal) :
    (multiplicative inner).Ensures c (c.ReadsAt .multiplicative n) :=
  binary_reads .multiplicative (r := .unary) (by decide)
    (by intro s; cases s <;> decide) (fun _ => unary_reads hi) hc

theorem additive_reads (hi : inner.Sound n) (hc : c.Legal) :
    (additive inner).Ensures c (c.ReadsAt .additive n) :=
  binary_reads .additive (r := .multiplicative) (by decide)
    (by intro s; cases s <;> decide) (fun _ => multiplicative_reads hi) hc

theorem comparison_reads (hi : inner.Sound n) (hc : c.Legal) :
    (comparison inner).Ensures c (c.ReadsAt .comparison n) :=
  binary_reads .comparison (r := .additive) (by decide)
    (by intro s; cases s <;> decide) (fun _ => additive_reads hi) hc

/-- The last list is behind the separator that was put behind the others. -/
theorem intercalate_append {α : Type} {sep l : List α} {ls : List (List α)} (h : ls ≠ []) :
    sep.intercalate (ls ++ [l]) = sep.intercalate ls ++ (sep ++ l) := by
  obtain ⟨m, ms, rfl⟩ := List.exists_cons_of_ne_nil h
  simp [intercalate_cons_eq_flatMap]

/-- A form of expressions that are written as tighter ones with a separator between every
two. -/
structure Lists (p : Punct) (node : Span → List Expr → Expr) (q r : Rank) : Prop where
  joins : ∀ (k : Token.Kind) touching, k.joinsAt? touching = some q ↔ k = .punct p
  words : ∀ s es, (node s es).words = [.punct p].intercalate (es.map Expr.words)
  rank : ∀ s es, (node s es).rank = q
  ending : ∀ s es, (node s es).ending = Expr.lastEnding es
  literal : ∀ s es s' v, node s es ≠ .literal s' v
  regular : ∀ n s es, 2 ≤ es.length → (∀ e ∈ es, e.Regular n ∧ r ≤ e.rank) →
    (∀ e ∈ es.dropLast, e.ending.Admits true (.punct p)) → (node s es).Regular n

/-- From the one cursor to the other, operands are read with a separator between every two. -/
structure ReadsList (p : Punct) (r : Rank) (n : Nat) (c : Cursor) (es : List Expr) (c' : Cursor) :
    Prop where
  passes : c.Passes ([.punct p].intercalate (es.map Expr.words)) c'
  operands : ∀ e ∈ es, e.Regular n ∧ r ≤ e.rank
  admits_separator : ∀ e ∈ es.dropLast, e.ending.Admits true (.punct p)
  admits : (Expr.lastEnding es).Admits c'.touching c'.current.kind
  stops : c'.StopsAt r
  ne_nil : es ≠ []
  reads : ∀ e, es = [e] → c.Reads n e c'

theorem ReadsList.single {p : Punct} {r : Rank} {e : Expr} {c' : Cursor} (h : c.ReadsAt r n e c') :
    ReadsList p r n c [e] c' where
  passes := by simpa using h.reads.passes
  operands := by simpa using ⟨h.reads.regular, h.rank_le⟩
  admits_separator := by simp
  admits := by simpa [Expr.lastEnding] using h.reads.admits
  stops := h.stops
  ne_nil := by simp
  reads e' he := by
    obtain rfl := List.singleton_inj.1 he
    exact h.reads

theorem ReadsList.more {p : Punct} {r : Rank} {es : List Expr} {e : Expr} {c₁ c₂ c₃ : Cursor}
    (h : ReadsList p r n c es c₁) (hlook : c₁.looksAt p = true)
    (hjoins : ∀ touching, (Token.Kind.punct p).joinsAt? touching ≠ none)
    (hsep : c₁.Passes [.punct p] c₂) (hlast : c₂.ReadsAt r n e c₃) :
    ReadsList p r n c (es ++ [e]) c₃ where
  passes := by
    rw [List.map_append, List.map_singleton, intercalate_append (by simpa using h.ne_nil)]
    exact h.passes.trans (hsep.trans hlast.reads.passes)
  operands x hx := by
    rcases List.mem_append.1 hx with hx | hx
    · exact h.operands x hx
    · obtain rfl := List.mem_singleton.1 hx
      exact ⟨hlast.reads.regular, hlast.rank_le⟩
  admits_separator x hx := by
    rw [List.dropLast_concat] at hx
    obtain ⟨init, last, rfl⟩ := (List.eq_nil_or_concat es).resolve_left h.ne_nil
    have hadmits := h.admits
    have hinit := h.admits_separator
    rw [List.concat_eq_append] at hx hinit hadmits
    rcases List.mem_append.1 hx with hx | hx
    · exact hinit x (by simpa using hx)
    · obtain rfl := List.mem_singleton.1 hx
      rw [Expr.lastEnding_append, Cursor.looksAt_iff.1 hlook] at hadmits
      exact hadmits.touch (hjoins _)
  admits := by
    rw [Expr.lastEnding_append]
    exact hlast.reads.admits
  stops := hlast.stops
  ne_nil := by simp
  reads x hx := by
    have hlength := congrArg List.length hx
    simp at hlength
    exact absurd hlength h.ne_nil

/-- Operands with one separator between all of them, if the operands are tighter. -/
theorem listed_reads {p : Punct} {node : Span → List Expr → Expr} {operand : Parser Expr}
    {q r : Rank} (hlists : Lists p node q r) (hr : q < r) (hlooser : ∀ s, s < r → s ≤ q)
    (hpunct : (p ≠ .semicolon ∧ p ≠ .tilde) ∧ ∀ d, p.depthAfter d = d)
    (hoperand : ∀ c : Cursor, c.Legal → operand.Ensures c (c.ReadsAt r n)) (hc : c.Legal) :
    (listed p node operand).Ensures c (c.ReadsAt q n) := by
  refine Ensures.bind ((Ensures.separated (I := ReadsList p r n c) (J := fun _ _ => False)
    ?_ ?_ nofun).mono ?_)
  · exact (hoperand c hc).mono fun e c₁ h => .single h
  · rintro es c₁ goOn c₂ h hs ht
    unfold atPunct at hs
    split at hs
    · next hlook =>
      cases hs
      refine Ensures.pure ?_
      rw [if_neg (by simp)]
      have hsep : c₁.Passes [.punct p] c₂ := .punct ht hlook hpunct.1 hpunct.2
      have hjoins : ∀ touching, (Token.Kind.punct p).joinsAt? touching ≠ none := by
        intro touching
        rw [(hlists.joins _ _).2 rfl]
        simp
      exact (hoperand c₂ (hsep.legal (h.passes.legal hc))).mono fun e c₃ hlast =>
        h.more hlook hjoins hsep hlast
    · cases hs
  · rintro ⟨first, rest⟩ c₁ (⟨h, hend⟩ | h)
    · -- Behind the last operand there is no separator, so nothing looser goes on there.
      have hstops : c₁.StopsAt q := by
        refine h.stops.looser hlooser ?_
        rw [ne_eq, hlists.joins]
        rcases hend with hend | hend
        · have hend : c₁.current.kind = .endOfInput := by simpa [Cursor.atEnd] using hend
          simp [hend]
        · rw [← Cursor.looksAt_iff]
          intro hlook
          simp [atPunct, hlook] at hend
      dsimp only
      split
      · next hempty =>
        obtain rfl : rest = [] := by simpa using hempty
        exact Ensures.pure ⟨h.reads first rfl, hr.le.trans (h.operands first (by simp)).2, hstops⟩
      · next hne =>
        refine Ensures.spanFrom_bind fun s => Ensures.pure ?_
        refine ⟨⟨?_, ?_, ?_, fun s' v h => absurd h (hlists.literal _ _ s' v)⟩,
          (hlists.rank _ _).ge, hstops⟩
        · rw [hlists.words]
          exact h.passes
        · refine hlists.regular n _ _ ?_ h.operands h.admits_separator
          have hpos := List.length_pos_iff.2 (show rest ≠ [] by simpa using hne)
          simp only [List.length_cons]
          omega
        · rw [hlists.ending]
          exact h.admits
    · exact h.elim

theorem join_lists : Lists .comma .join .join .comparison where
  joins _ _ := Token.Kind.joinsAt?_eq_join
  words := Expr.words_join
  rank _ _ := rfl
  ending s es := by rw [Expr.ending]
  literal := nofun
  regular n s es hlength hes hinit := Expr.regular_iff.2
    ⟨⟨hlength, fun e he => lt_of_lt_of_le (by decide) (hes e he).2, hinit⟩,
      fun x hx => (hes x hx).1, by simp [Expr.nested]⟩

theorem pipe_lists : Lists .pipe .pipe .pipe .join where
  joins _ _ := Token.Kind.joinsAt?_eq_pipe
  words := Expr.words_pipe
  rank _ _ := rfl
  ending s es := by rw [Expr.ending]
  literal := nofun
  regular n s es hlength hes hinit := Expr.regular_iff.2
    ⟨⟨hlength, fun e he => lt_of_lt_of_le (by decide) (hes e he).2, hinit⟩,
      fun x hx => (hes x hx).1, by simp [Expr.nested]⟩

theorem join_reads (hi : inner.Sound n) (hc : c.Legal) :
    (join inner).Ensures c (c.ReadsAt .join n) :=
  listed_reads join_lists (by decide) (by intro s; cases s <;> decide)
    ⟨by decide, fun _ => rfl⟩ (fun _ => comparison_reads hi) hc

theorem pipe_reads (hi : inner.Sound n) (hc : c.Legal) :
    (pipe inner).Ensures c (c.ReadsAt .pipe n) :=
  listed_reads pipe_lists (by decide) (by intro s; cases s <;> decide)
    ⟨by decide, fun _ => rfl⟩ (fun _ => join_reads hi) hc

/-- An assignment to a symbol is read where an entry of a dict would start. -/
theorem assignment_reads (hi : inner.Sound n) (hc : c.Legal) :
    (assignment inner).Ensures c fun e c' =>
      c.ReadsAt .assignment n e c' ∧ (e.isEntry = true → c.StartsEntry) := by
  refine Ensures.bind ((pipe_reads hi hc).mono fun target c₁ h => Ensures.look_bind ?_)
  split
  · next hcolon =>
    refine Ensures.bind (Ensures.discard_take fun c₂ ht => ?_)
    have hpasses : c₁.Passes [.punct .colon] c₂ := .punct ht hcolon (by decide) fun _ => rfl
    refine Ensures.bind ((hi.expression c₂ (hpasses.legal (h.reads.passes.legal hc))).mono ?_)
    rintro value c₃ ⟨⟨m, hn, hvalue⟩, hstops, -⟩
    have hadmits := h.reads.admits
    rw [Cursor.looksAt_iff.1 hcolon] at hadmits
    refine Ensures.pure ⟨⟨⟨?_, ?_, hvalue.admits, nofun⟩, le_rfl, hstops⟩, fun hentry => ?_⟩
    · rw [Expr.words_assignment]
      exact h.reads.passes.trans (hpasses.trans hvalue.passes)
    · refine Expr.regular_iff.2 ⟨⟨lt_of_lt_of_le (by decide) h.rank_le, hadmits.touch nofun⟩,
        ?_, ?_⟩
      · simpa [Expr.operands] using h.reads.regular
      · simpa [Expr.nested] using ⟨m, hn, hvalue.regular⟩
    · unfold Expr.isEntry at hentry
      split at hentry
      · next s s' key v hsymbol =>
        cases hsymbol
        obtain ⟨hkind, hsingle⟩ := h.reads.literal _ _ rfl
        refine ⟨key, hkind, ?_⟩
        obtain ⟨-, next, ahead, hnext, rfl⟩ := Cursor.take_ok hsingle
        have hcolon : next.kind = .punct .colon := Cursor.looksAt_iff.1 hcolon
        simp [Cursor.peek, hnext, hcolon]
      · cases hentry
  · next hcolon =>
    refine Ensures.pure ⟨⟨h.reads, le_trans (by decide) h.rank_le, ?_⟩, fun hentry => ?_⟩
    · refine h.stops.looser (by intro s; cases s <;> decide) ?_
      rw [ne_eq, Token.Kind.joinsAt?_eq_assignment, ← Cursor.looksAt_iff]
      exact hcolon
    · have hrank := h.rank_le
      cases target <;> simp [Expr.isEntry, Expr.rank] at hentry hrank
      exact absurd hrank (by decide)

/-! ## Levels -/

/-- The parsers of every level are as those of expressions inside one have to be. -/
theorem level_sound (n : Nat) : (level n).Sound n := by
  induction n with
  | zero => exact ⟨fun c _ => Ensures.fail, fun c _ => Ensures.fail⟩
  | succ n ih =>
    refine ⟨fun c hc => ?_, fun c hc => ?_⟩
    · refine (assignment_reads ih hc).mono ?_
      rintro e c' ⟨h, hentry⟩
      exact ⟨⟨n, rfl, h.reads⟩, h.stops, hentry⟩
    · refine (unary_reads ih hc).mono fun e c' h => ?_
      exact ⟨⟨n, rfl, h.reads⟩, h.rank_le, h.stops⟩

end Grammar
end WqSource
