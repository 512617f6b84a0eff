import WqSource.Proofs.Separators.Items

/-!
# The arms of a conditional

Behind the condition of a conditional there are statements on lines of their own. The first
semicolon behind them ends the first arm, and what is behind it is the second one. If the closing
bracket comes first, the last line is the second arm, so that there have to be two.

The parser of the first arm takes the line feeds that it finds behind a statement before it looks
whether the arm is at its end. So line feeds may stand in front of what ends the arm, too.

## Main definitions

* `Filler.EndsHead`: what stands behind a condition.
* `Row.OnLines`: statements on lines of their own behind a condition.

## Main statements

* `head_filler`, `firstArm_row`, `arm_row`: the parts of a conditional.
* `arms_divided`, `arms_undivided`, `arms_single`: what is read of the lines.
-/

namespace WqSource
open Grammar WqSource.Parser
open Token.Kind (front StartsExpression)
open Filler (semicolonKinds)

/-- What stands behind a condition: a semicolon, perhaps with line feeds behind it, or line feeds
alone. -/
def Filler.EndsHead (f : Filler) : Prop :=
  f.front = none ∧ f.semicolons.length = 1 ∨ f.front ≠ none ∧ f.semicolons = []

theorem Filler.EndsHead.isEmpty {f : Filler} (h : f.EndsHead) : f.isEmpty = false := by
  obtain ⟨front, semicolons⟩ := f
  rcases h with ⟨-, h⟩ | ⟨h, -⟩
  · cases semicolons with
    | nil => cases h
    | cons => exact Bool.and_false _
  · cases front with
    | none => exact absurd rfl h
    | some => rfl

namespace Row
variable {α : Type}

/-- Between the items there are line feeds and nothing else, in front of them there is what stands
behind a condition, and behind them there may be line feeds. -/
structure OnLines (r : Row α) : Prop where
  opening : r.opening.EndsHead
  parted : r.Parted
  more : ∀ next ∈ r.more, next.1.semicolons = []
  closing : r.closing.semicolons = []

theorem onLines_map {β : Type} {f : α → β} {r : Row α} : (r.map f).OnLines ↔ r.OnLines :=
  ⟨fun h => ⟨h.opening, parted_map.1 h.parted, List.forall_mem_map.1 h.more, h.closing⟩,
    fun h => ⟨h.opening, parted_map.2 h.parted, List.forall_mem_map.2 h.more, h.closing⟩⟩

/-- The items of a row as the statements of an arm. -/
def arm (r : Row Statement) : Branch := .mk default r.items

end Row

theorem Filler.kinds_of_semicolons {f : Filler} (h : f.semicolons = []) :
    f.kinds = Feeds.kinds f.front := by
  rw [kinds, h]
  exact List.append_nil _

/-- Line feeds are there if a filler is not empty and has no semicolons. -/
theorem Filler.kinds_eq_newline {f : Filler} (h : f.semicolons = []) (hempty : f.isEmpty = false) :
    f.kinds = [.newline] := by
  rw [kinds_of_semicolons h]
  obtain ⟨front, semicolons⟩ := f
  obtain rfl : semicolons = [] := h
  cases front with
  | none => cases hempty
  | some => rfl

theorem Branch.splitLast?_append {b : Branch} {first : List Statement} {last : Statement}
    (hne : first ≠ []) (h : b.statements = first ++ [last]) :
    ∃ both, b.splitLast? = some both ∧ both.1.statements = first ∧ both.2.statements = [last] := by
  match first, hne with
  | [s], _ => exact ⟨_, by rw [splitLast?, h]; rfl, rfl, rfl⟩
  | s :: t :: ss, _ =>
    refine ⟨_, by rw [splitLast?, h]; rfl, ?_, ?_⟩
    · exact @List.dropLast_concat _ (s :: t :: ss) last
    · simp [ofStatements, statements]

namespace Grammar
variable {inner : Inner} {n : Nat} {ks ls : List Token.Kind} {c : Cursor} {t : Token}

/-! ## The condition -/

/-- A condition is read, and what stands behind it is taken. -/
theorem head_filler (hi : inner.Complete n) {e : Expr} (he : e.NestsIn n) {filler : Filler}
    (hfiller : filler.EndsHead) (hls : front ls ≠ .newline)
    (hc : c.Views (e.kinds ++ (filler.kinds ++ ls))) :
    (head inner).Succeeds c fun e' c' => e'.erase = e.erase ∧ c'.Views ls := by
  have hjoins : (front (filler.kinds ++ ls)).joinsAt? true = none := by
    refine front_filler filler (P := fun k => k.joinsAt? true = none) rfl rfl fun hempty => ?_
    rw [hfiller.isEmpty] at hempty
    cases hempty
  refine Succeeds.bind (Succeeds.skipNewlines hc (he.startsExpression.front_ne rfl _) ?_)
  refine Succeeds.bind ((hi.expression e _ he hjoins c hc).mono fun e' c₁ h => ?_)
  obtain ⟨herase, hc₁⟩ := h
  obtain ⟨feeds, semicolons⟩ := filler
  rcases hfiller with ⟨hfront, hlength⟩ | ⟨hfront, hnone⟩
  · obtain rfl : feeds = none := hfront
    obtain ⟨behind, rfl⟩ := List.length_eq_one_iff.1 hlength
    have hc₁ : c₁.Views (.punct .semicolon :: (Feeds.kinds behind ++ [] ++ ls)) := hc₁
    rw [List.append_nil] at hc₁
    obtain ⟨c₂, ht, hc₂⟩ := hc₁.take
    refine Succeeds.bind (Succeeds.choose (by
      rw [if_neg (by simp [hc₁.atNewline]), if_pos (by simp [hc₁.looksAt])]) ht ?_)
    exact (skipNewlines_feeds behind hls hc₂).mono fun _ c₃ hc₃ => Succeeds.pure ⟨herase, hc₃⟩
  · obtain rfl : semicolons = [] := hnone
    obtain ⟨feeds, rfl⟩ := Option.ne_none_iff_exists'.1 hfront
    have hc₁ : c₁.Views (.newline :: ls) := hc₁
    obtain ⟨c₂, ht, hc₂⟩ := hc₁.take
    refine Succeeds.bind (Succeeds.choose (by rw [if_pos (by simp [hc₁.atNewline])]) ht ?_)
    exact Succeeds.pure (Succeeds.pure ⟨herase, hc₂⟩)

/-! ## Statements on lines -/

/-- What there is behind a line feed: the end of the first arm, or another statement. -/
def nextLine (inner : Inner) (ss : List Statement) : Parser (List Statement) := do
  if ← look fun c => c.looksAt .closeBracket || c.looksAt .semicolon then return ss
  return ss ++ [← statement inner]

/-- How the first arm goes on behind a statement. -/
def furtherLine (inner : Inner) (ss : List Statement) (c : Cursor) :
    Option (Token → Parser (List Statement)) :=
  (if c.atNewline then some fun _ => (pure () : Parser Unit) else none).map fun goOn t => do
    goOn t
    nextLine inner ss

theorem separated_lines (inner : Inner) :
    separated (statement inner)
        (fun c => if c.atNewline then some fun _ => pure () else none)
        (fun c => c.looksAt .closeBracket || c.looksAt .semicolon) = do
      let first ← statement inner
      return (first, ← repeatTaking (furtherLine inner) []) := rfl

/-- A round goes on behind line feeds. -/
theorem furtherLine_succeeds {ss : List Statement} {Q : List Statement → Cursor → Prop}
    (hc : c.Views (.newline :: ls))
    (h : ∀ c₁ : Cursor, c₁.Views ls → (nextLine inner ss).Succeeds c₁ fun ss' c₂ =>
      (repeatTaking (furtherLine inner) ss').Succeeds c₂ Q) :
    (repeatTaking (furtherLine inner) ss).Succeeds c Q := by
  obtain ⟨c₁, ht, hc₁⟩ := hc.take
  have hnewline : furtherLine inner ss c = some fun _ => (do pure (); nextLine inner ss) := by
    rw [furtherLine, if_pos (by simp [hc.atNewline])]
    rfl
  refine Succeeds.repeatTaking_step hc.atEnd_eq_false hnewline ht ?_
  exact Succeeds.bind (Succeeds.pure (h c₁ hc₁))

/-- The marks that end the first arm. -/
def EndsLines (mark : Punct) : Prop := mark = .semicolon ∨ mark = .closeBracket

theorem EndsLines.joinsAt? {mark : Punct} (h : EndsLines mark) :
    (Token.Kind.punct mark).joinsAt? true = none := by
  rcases h with rfl | rfl <;> rfl

/-- Statements are read, each on a line of its own, up to what ends the arm. -/
theorem furtherLine_row (hi : inner.Complete n) {mark : Punct} (hmark : EndsLines mark)
    {more : List (Filler × Statement)} {closing : Filler}
    (hparted : ∀ next ∈ more, next.1.isEmpty = false)
    (hmore : ∀ next ∈ more, next.1.semicolons = []) (hclosing : closing.semicolons = [])
    (hitem : ∀ next ∈ more, ∃ e, next.2 = .expression e ∧ e.NestsIn n) (ss : List Statement)
    (hc : c.Views (Row.behind Filler.kinds Statement.kinds more closing ++ .punct mark :: ks)) :
    (repeatTaking (furtherLine inner) ss).Succeeds c fun ss' c' =>
      ss'.map Statement.erase = (ss ++ more.map Prod.snd).map Statement.erase ∧
        c'.Views (.punct mark :: ks) := by
  have hbehind : (front (.punct mark :: ks)).joinsAt? true = none := hmark.joinsAt?
  have stops {c : Cursor} (hc : c.Views (.punct mark :: ks)) (ss : List Statement) :
      (repeatTaking (furtherLine inner) ss).Succeeds c fun ss' c' =>
        ss'.map Statement.erase = ss.map Statement.erase ∧ c'.Views (.punct mark :: ks) := by
    refine Succeeds.repeatTaking_stop ?_ ⟨rfl, hc⟩
    rw [furtherLine, if_neg (by simp [hc.atNewline])]
    rfl
  induction more generalizing ss c with
  | nil =>
    have hc : c.Views (closing.kinds ++ .punct mark :: ks) := hc
    by_cases hempty : closing.isEmpty = true
    · rw [Filler.kinds_of_isEmpty hempty] at hc
      simpa using stops hc ss
    · rw [Filler.kinds_eq_newline hclosing (by simpa using hempty)] at hc
      refine furtherLine_succeeds hc fun c₁ hc₁ => Succeeds.look_bind ?_
      rw [if_pos (by rcases hmark with rfl | rfl <;> simp [hc₁.looksAt])]
      exact Succeeds.pure (by simpa using stops hc₁ ss)
  | cons next more ih =>
    obtain ⟨hfiller, hparted⟩ := List.forall_mem_cons.1 hparted
    obtain ⟨hfeeds, hmore⟩ := List.forall_mem_cons.1 hmore
    obtain ⟨⟨e, hnext, he⟩, hitem⟩ := List.forall_mem_cons.1 hitem
    have hstart : StartsExpression next.2.kinds := by
      rw [hnext]
      exact he.startsExpression
    rw [Row.behind_cons, Filler.kinds_eq_newline hfeeds hfiller] at hc
    refine furtherLine_succeeds hc fun c₁ hc₁ => Succeeds.look_bind ?_
    have hclose := hstart.front_ne (k := .punct .closeBracket) rfl
      (Row.behind Filler.kinds Statement.kinds more closing ++ .punct mark :: ks)
    have hsemicolon := hstart.front_ne (k := .punct .semicolon) rfl
      (Row.behind Filler.kinds Statement.kinds more closing ++ .punct mark :: ks)
    rw [if_neg (by simp [hc₁.looksAt, hclose, hsemicolon])]
    rw [hnext] at hc₁
    have hread := statement_rereads hi he (front_behind closing hparted hbehind) c₁ hc₁
    refine Succeeds.bind (hread.mono fun s c₂ h => Succeeds.pure ?_)
    refine (ih hparted hmore hitem (ss ++ [s]) h.2).mono fun ss' c' hss' => ⟨?_, hss'.2⟩
    simp [hss'.1, h.1, hnext]

/-- The first arm is read behind the condition, up to what ends it. -/
theorem firstArm_row (hi : inner.Complete n) {mark : Punct} (hmark : EndsLines mark)
    {r : Row Statement} (hlines : r.OnLines) (hr : r.arm.NestsIn n)
    (hc : c.Views (r.first.kinds ++
      (Row.behind Filler.kinds Statement.kinds r.more r.closing ++ .punct mark :: ks))) :
    (firstArm inner).Succeeds c fun b c' =>
      b.erase = r.arm.erase ∧ c'.Views (.punct mark :: ks) := by
  obtain ⟨⟨e, he, hnests⟩, hmore⟩ := List.forall_mem_cons.1 hr.expressions
  have hnext : ∀ next ∈ r.more, ∃ e, next.2 = .expression e ∧ e.NestsIn n :=
    fun next hnext => hmore _ (List.mem_map_of_mem hnext)
  have hbehind : (front (Row.behind Filler.kinds Statement.kinds r.more r.closing ++
      .punct mark :: ks)).joinsAt? true = none :=
    front_behind r.closing hlines.parted hmark.joinsAt?
  have hlinesRead : (separated (statement inner)
      (fun c => if c.atNewline then some fun _ => pure () else none)
      (fun c => c.looksAt .closeBracket || c.looksAt .semicolon)).Succeeds c fun ss c' =>
        (ss.1 :: ss.2).map Statement.erase = r.items.map Statement.erase ∧
          c'.Views (.punct mark :: ks) := by
    rw [he] at hc
    rw [separated_lines]
    refine Succeeds.bind ?_
    refine (statement_rereads hi hnests hbehind c hc).mono fun s c₁ h₁ => Succeeds.bind ?_
    refine (furtherLine_row hi hmark hlines.parted hlines.more hlines.closing hnext [] h₁.2).mono
      fun ss c₂ h₂ => Succeeds.pure ⟨?_, h₂.2⟩
    simp [Row.items, h₁.1, h₂.1, he]
  have hnewline := (hr.startsExpression (s := r.first) List.mem_cons_self).front_ne
    (k := .newline) rfl
  refine Succeeds.bind (Succeeds.skipNewlines hc (hnewline _) (Succeeds.bind ?_))
  refine hlinesRead.mono fun ss c' h => Succeeds.pure ⟨?_, h.2⟩
  rw [Branch.erase_eq, Branch.erase_eq]
  exact congrArg (Branch.mk default) h.1

/-- The second arm is read, up to the closing bracket. -/
theorem arm_row (hi : inner.Complete n) {r : Row Statement} (hparted : r.Parted)
    (haccepted : r.Accepted) (hr : r.arm.NestsIn n)
    (hc : c.Views (r.kinds Statement.kinds ++ .punct .closeBracket :: ks)) :
    (arm inner).Succeeds c fun b c' =>
      b.erase = r.arm.erase ∧ c'.Views (.punct .closeBracket :: ks) := by
  have hstart : ∀ s ∈ r.items, StartsExpression s.kinds := fun s hs => hr.startsExpression hs
  have hitem : ∀ s ∈ r.items, ∀ ls, (front ls).joinsAt? true = none →
      (statement inner).Rereads Statement.erase s s.kinds ls := by
    intro s hs ls hls
    obtain ⟨e, rfl, he⟩ := hr.expressions s hs
    exact statement_rereads hi he hls
  rw [Row.kinds_append, Filler.kinds_of_semicolons haccepted.opening] at hc
  have hfirst := (hstart _ List.mem_cons_self).front_ne (k := .newline) rfl
  refine Succeeds.bind ((skipNewlines_feeds _ (hfirst _) hc).mono fun _ c₁ hc₁ => Succeeds.bind ?_)
  refine (separated_row (.inr rfl) hparted haccepted hstart hitem hc₁).mono fun ss c₂ h =>
    Succeeds.pure ⟨?_, h.2⟩
  rw [Branch.erase_eq, Branch.erase_eq]
  exact congrArg (Branch.mk default) h.1

/-! ## Arms -/

/-- With a semicolon behind the lines, the lines are the first arm. -/
theorem arms_divided (hi : inner.Complete n) {lines elseRow : Row Statement}
    (hlines : lines.OnLines) (hnests : lines.arm.NestsIn n) (hparted : elseRow.Parted)
    (haccepted : elseRow.Accepted) (helse : elseRow.arm.NestsIn n)
    (hc : c.Views (lines.first.kinds ++
      (Row.behind Filler.kinds Statement.kinds lines.more lines.closing ++ .punct .semicolon ::
        (elseRow.kinds Statement.kinds ++ .punct .closeBracket :: ks)))) :
    (arms inner).Succeeds c fun bs c' =>
      bs.1.erase = lines.arm.erase ∧ bs.2.erase = elseRow.arm.erase ∧
        c'.Views (.punct .closeBracket :: ks) := by
  refine Succeeds.bind ((firstArm_row hi (.inl rfl) hlines hnests hc).mono fun b c₁ h₁ => ?_)
  obtain ⟨herase, hc₁⟩ := h₁
  refine Succeeds.look_bind ?_
  rw [if_neg (by simp [hc₁.looksAt])]
  refine Succeeds.bind (Succeeds.expect_views hc₁ fun c₂ hc₂ => Succeeds.bind ?_)
  refine (arm_row hi hparted haccepted helse hc₂).mono fun b' c₃ h₃ => Succeeds.pure ?_
  exact ⟨herase, h₃.1, h₃.2⟩

/-- In front of the closing bracket, the lines are what is divided. -/
theorem firstArm_whole (hi : inner.Complete n) {lines : Row Statement} (hlines : lines.OnLines)
    (hnests : lines.arm.NestsIn n)
    (hc : c.Views (lines.first.kinds ++
      (Row.behind Filler.kinds Statement.kinds lines.more lines.closing ++
        .punct .closeBracket :: ks))) :
    (firstArm inner).Succeeds c fun b c' =>
      b.statements.map Statement.erase = lines.items.map Statement.erase ∧
        c'.Views (.punct .closeBracket :: ks) := by
  refine (firstArm_row hi (.inr rfl) hlines hnests hc).mono fun b c' h => ⟨?_, h.2⟩
  have herase := h.1
  rw [Branch.erase_eq, Branch.erase_eq] at herase
  exact congrArg Branch.statements herase

/-- Without a semicolon, the last line is the second arm. -/
theorem arms_undivided (hi : inner.Complete n) {lines : Row Statement} (hlines : lines.OnLines)
    (hnests : lines.arm.NestsIn n) {first : List Statement} {last : Statement} (hne : first ≠ [])
    (hitems : lines.items = first ++ [last])
    (hc : c.Views (lines.first.kinds ++
      (Row.behind Filler.kinds Statement.kinds lines.more lines.closing ++
        .punct .closeBracket :: ks))) :
    (arms inner).Succeeds c fun bs c' =>
      bs.1.erase = (Branch.mk default first).erase ∧ bs.2.erase = (Branch.mk default [last]).erase ∧
        c'.Views (.punct .closeBracket :: ks) := by
  refine Succeeds.bind ((firstArm_whole hi hlines hnests hc).mono fun b c₁ h => ?_)
  obtain ⟨herase, hc₁⟩ := h
  rw [hitems, List.map_append, List.map_singleton] at herase
  obtain ⟨front, back, hb, hfront, hback⟩ := List.map_eq_append_iff.1 herase
  obtain ⟨s, rfl, hs⟩ := List.map_eq_singleton_iff.1 hback
  have hfrontNe : front ≠ [] := by
    rintro rfl
    exact hne (List.map_eq_nil_iff.1 hfront.symm)
  obtain ⟨both, hsplit, hfirst, hlast⟩ := Branch.splitLast?_append hfrontNe hb
  refine Succeeds.look_bind ?_
  rw [if_pos (by simp [hc₁.looksAt]), hsplit]
  refine Succeeds.pure ⟨?_, ?_, hc₁⟩
  · rw [Branch.erase_eq, hfirst, hfront, Branch.erase_eq]
    rfl
  · rw [Branch.erase_eq, hlast, Branch.erase_eq]
    simp [Branch.statements, hs]

/-- A single line cannot be divided. -/
theorem arms_single (hi : inner.Complete n) {lines : Row Statement} (hlines : lines.OnLines)
    (hnests : lines.arm.NestsIn n) (hmore : lines.more = [])
    (hc : c.Views (lines.first.kinds ++
      (Row.behind Filler.kinds Statement.kinds lines.more lines.closing ++
        .punct .closeBracket :: ks))) :
    (arms inner).Refuses c := by
  have hread := (firstArm_whole hi hlines hnests hc).ensures
  refine Ensures.bind (hread.mono fun b c₁ h => Ensures.look_bind ?_)
  obtain ⟨herase, hc₁⟩ := h
  rw [Row.items, hmore] at herase
  obtain ⟨s, hs, -⟩ := List.map_eq_singleton_iff.1 herase
  have hnone : b.splitLast? = none := by
    rw [Branch.splitLast?, hs]
  rw [if_pos (by simp [hc₁.looksAt]), hnone]
  exact Ensures.fail

/-! ## Conditionals -/

/-- Behind the condition and what ends it, the first line is next. -/
theorem head_row (hi : inner.Complete n) {e : Expr} (he : e.NestsIn n) {lines : Row Statement}
    (hlines : lines.OnLines) (hnests : lines.arm.NestsIn n)
    (hc : c.Views (e.kinds ++ (lines.kinds Statement.kinds ++ ls))) :
    (head inner).Succeeds c fun e' c' => e'.erase = e.erase ∧ c'.Views (lines.first.kinds ++
      (Row.behind Filler.kinds Statement.kinds lines.more lines.closing ++ ls)) := by
  have hstart := hnests.startsExpression (s := lines.first) List.mem_cons_self
  rw [Row.kinds_append] at hc
  exact head_filler hi he hlines.opening (hstart.front_ne rfl _) hc

/-- A conditional is read if its arms are. -/
theorem conditional_succeeds (hi : inner.Complete n) {e : Expr} (he : e.NestsIn n)
    {lines : Row Statement} (hlines : lines.OnLines) (hnests : lines.arm.NestsIn n)
    {thenArm elseArm : Branch} (s : Span)
    (hc : c.Views (.punct .openBracket :: (e.kinds ++ (lines.kinds Statement.kinds ++ ls))))
    (h : ∀ c₁ : Cursor, c₁.Views (lines.first.kinds ++
        (Row.behind Filler.kinds Statement.kinds lines.more lines.closing ++ ls)) →
      (arms inner).Succeeds c₁ fun bs c₂ =>
        bs.1.erase = thenArm.erase ∧ bs.2.erase = elseArm.erase ∧
          c₂.Views (.punct .closeBracket :: ks)) :
    (conditional inner t).Succeeds c fun e' c' =>
      e'.erase = (Expr.conditional s e thenArm elseArm).erase ∧ c'.Views ks := by
  refine Succeeds.look_bind ?_
  rw [if_neg (by simp [Cursor.Views.looksAt hc])]
  refine Succeeds.bind (Succeeds.expect_views hc fun c₁ hc₁ => Succeeds.bind ?_)
  refine (head_row hi he hlines hnests hc₁).mono fun e' c₂ h₂ => Succeeds.bind ?_
  refine (h c₂ h₂.2).mono fun bs c₃ h₃ => Succeeds.bind ?_
  obtain ⟨hthen, helse, hc₃⟩ := h₃
  refine Succeeds.expect_views hc₃ fun c₄ hc₄ => Succeeds.spanFrom_bind fun s' => ?_
  refine Succeeds.pure ⟨?_, hc₄⟩
  rw [Expr.erase, Expr.erase, h₂.1, hthen, helse]

/-- A conditional is not read if its arms are not. -/
theorem conditional_refuses (hi : inner.Complete n) {e : Expr} (he : e.NestsIn n)
    {lines : Row Statement} (hlines : lines.OnLines) (hnests : lines.arm.NestsIn n)
    (hc : c.Views (.punct .openBracket :: (e.kinds ++ (lines.kinds Statement.kinds ++ ls))))
    (h : ∀ c₁ : Cursor, c₁.Views (lines.first.kinds ++
        (Row.behind Filler.kinds Statement.kinds lines.more lines.closing ++ ls)) →
      (arms inner).Refuses c₁) :
    (conditional inner t).Refuses c := by
  refine Ensures.look_bind ?_
  rw [if_neg (by simp [Cursor.Views.looksAt hc])]
  have hopen : (expect .openBracket .conditionalBracket).Succeeds c fun _ c₁ => c₁.Views _ :=
    Succeeds.expect_views hc fun _ hc₁ => hc₁
  refine Ensures.bind (hopen.ensures.mono fun _ c₁ hc₁ => Ensures.bind ?_)
  exact (head_row hi he hlines hnests hc₁).ensures.mono fun e' c₂ h₂ => (h c₂ h₂.2).bind

end Grammar
end WqSource
