import WqSource.Proofs.Alone.Program
import WqSource.Proofs.Complete.Operator
import WqSource.Proofs.Separators.Items
import WqSource.Proofs.Tree.Height

/-!
# Lists, dicts and arguments in rows

Three forms hold items: a list and a dict, between parentheses, and the arguments between index
brackets. Which of the first two it is, is decided behind the line feeds in front of the first
item, and so it does not depend on the fillers.

If a row is not accepted, none of the forms is read. This does not ask which form it would be:
a row of expressions may be tried as a dict, and then every entry that is read is one of the
expressions.

## Main statements

* `list_row`, `dict_row`, `index_row`: rows that are accepted.
* `group_list_refused`, `group_dict_refused`, `index_refused`: rows that are not.
-/

namespace WqSource
open Grammar WqSource.Parser
open Token.Kind (front StartsExpression)
open Filler (semicolonKinds)

theorem Expr.NestsIn.of_nested {n : Nat} {e x : Expr} (he : e.NestsIn n) (hx : x ∈ e.nested) :
    x.NestsIn n := by
  obtain ⟨m, rfl, he⟩ := he
  exact ⟨m, rfl, he.of_within (.nested hx (.refl x))⟩

theorem Entry.startsExpression (e : Entry) : StartsExpression e.kinds := by
  obtain ⟨key, span, value⟩ := e
  exact ⟨_, _, Entry.kinds_mk .., rfl⟩

namespace Grammar
variable {α : Type} {inner : Inner} {n : Nat} {w : α → List Token.Kind} {ks ls : List Token.Kind}
  {c : Cursor} {t : Token}

/-! ## In front of the first item -/

theorem skipNewlines_row {r : Row α} (hstart : StartsExpression (w r.first))
    (hc : c.Views (r.kinds w ++ ls)) :
    skipNewlines.Succeeds c fun _ c' => c'.Views (r.skipped.kinds w ++ ls) := by
  rw [Row.kinds_append, Filler.kinds, List.append_assoc] at hc
  have hnewline := front_semicolonKinds r.opening.semicolons (hstart.front_ne (k := .newline) rfl
    (Row.behind Filler.kinds w r.more r.closing ++ ls))
  refine (skipNewlines_feeds _ hnewline hc).mono fun _ c' hc' => ?_
  rw [Row.kinds_append]
  exact hc'

/-- A colon behind a symbol that begins an item is the colon of an entry. -/
theorem isEntry_of_colon {e : Expr} (he : e.NestsIn n) {key : String} {ws : List Token.Kind}
    (hk : e.kinds = .symbol key :: ws) (hls : (front ls).joinsAt? true = none)
    (hcolon : front (ws ++ ls) = .punct .colon) : e.isEntry = true := by
  obtain ⟨m, -, he⟩ := he
  by_contra hentry
  cases ws with
  | nil =>
    have hcolon : front ls = .punct .colon := hcolon
    rw [hcolon] at hls
    cases hls
  | cons k ws =>
    refine (Expr.kinds_symbol he hk).2 (by simpa using hentry) ?_
    exact congrArg some hcolon

/-- A row is taken for a list if its first item is no entry. -/
theorem startsDict_list {r : Row Expr} (hparted : r.Parted) (hfirst : r.first.NestsIn n)
    (hentry : r.first.isEntry = false)
    (hc : c.Views (r.first.kinds ++
      (Row.behind Filler.kinds Expr.kinds r.more r.closing ++ .punct .closeParen :: ks))) :
    startsDict.Succeeds c fun b c' => c' = c ∧ b = false := by
  obtain ⟨k, ws, hk, -⟩ := hfirst.startsExpression
  have hbehind : (front (Row.behind Filler.kinds Expr.kinds r.more r.closing ++
      .punct .closeParen :: ks)).joinsAt? true = none :=
    front_behind r.closing hparted rfl
  rw [hk] at hc
  refine (startsDict_views hc).mono fun b c' h => ⟨h.1, ?_⟩
  by_contra hb
  obtain ⟨⟨key, rfl⟩, hcolon⟩ := h.2.1 (by simpa using hb)
  rw [isEntry_of_colon hfirst hk hbehind hcolon] at hentry
  cases hentry

/-- A row of entries is taken for a dict. -/
theorem startsDict_dict {e : Entry} (hc : c.Views (e.kinds ++ ls)) :
    startsDict.Succeeds c fun b c' => c' = c ∧ b = true := by
  obtain ⟨key, span, value⟩ := e
  rw [Entry.kinds_mk, List.cons_append, List.cons_append] at hc
  exact (startsDict_views hc).mono fun b c' h => ⟨h.1, h.2.2 ⟨⟨key, rfl⟩, rfl⟩⟩

/-! ## Rows that are accepted -/

theorem list_row (hi : inner.Complete n) {r : Row Expr} (hparted : r.Parted)
    (haccepted : r.Accepted) (hitems : ∀ e ∈ r.items, e.NestsIn n)
    (hentry : r.first.isEntry = false) (s : Span)
    (hc : c.Views (r.kinds Expr.kinds ++ .punct .closeParen :: ks)) :
    (group inner t).Succeeds c fun e c' => e.erase = (Expr.list s r.items).erase ∧ c'.Views ks := by
  have hstart : ∀ e ∈ r.items, StartsExpression e.kinds := fun e he =>
    (hitems e he).startsExpression
  have hfirst : r.first.NestsIn n := hitems _ List.mem_cons_self
  refine Succeeds.bind ((skipNewlines_row hfirst.startsExpression hc).mono fun _ c₁ hc₁ =>
    Succeeds.look_bind ?_)
  have hviews := hc₁
  rw [Row.kinds_skipped haccepted.opening] at hviews
  have hclose := hfirst.startsExpression.front_ne (k := .punct .closeParen) rfl
    (Row.behind Filler.kinds Expr.kinds r.more r.closing ++ .punct .closeParen :: ks)
  rw [if_neg (by simpa [hviews.looksAt] using hclose)]
  refine Succeeds.bind ((startsDict_list hparted hfirst hentry hviews).mono fun b c₂ h => ?_)
  obtain ⟨rfl, rfl⟩ := h
  rw [if_neg (by simp)]
  refine Succeeds.bind ((items_row (r := r.skipped) (.inl rfl) hparted
    (Row.skipped_accepted.2 haccepted) hstart
    (fun e he ls hls => hi.expression e ls (hitems e he) hls) hc₁).mono fun es c₃ h => ?_)
  refine Succeeds.spanFrom_bind fun s' => Succeeds.pure ⟨?_, h.2⟩
  simp [Expr.erase, h.1, Row.items, Row.skipped]

theorem dict_row (hi : inner.Complete n) {r : Row Entry} (hparted : r.Parted)
    (haccepted : r.Accepted) (hitems : ∀ e ∈ r.items, e.value.NestsIn n) (s : Span)
    (hc : c.Views (r.kinds Entry.kinds ++ .punct .closeParen :: ks)) :
    (group inner t).Succeeds c fun e c' => e.erase = (Expr.dict s r.items).erase ∧ c'.Views ks := by
  have hfirst := r.first.startsExpression
  refine Succeeds.bind ((skipNewlines_row hfirst hc).mono fun _ c₁ hc₁ => Succeeds.look_bind ?_)
  have hviews := hc₁
  rw [Row.kinds_skipped haccepted.opening] at hviews
  have hclose := hfirst.front_ne (k := .punct .closeParen) rfl
    (Row.behind Filler.kinds Entry.kinds r.more r.closing ++ .punct .closeParen :: ks)
  rw [if_neg (by simpa [hviews.looksAt] using hclose)]
  refine Succeeds.bind ((startsDict_dict hviews).mono fun b c₂ h => ?_)
  obtain ⟨rfl, rfl⟩ := h
  rw [if_pos rfl]
  refine Succeeds.bind ((items_row (r := r.skipped) (.inl rfl) hparted
    (Row.skipped_accepted.2 haccepted) (fun e _ => e.startsExpression)
    (fun e he ls hls => entry_rereads hi (hitems e he) hls) hc₁).mono fun es c₃ h => ?_)
  refine Succeeds.spanFrom_bind fun s' => Succeeds.pure ⟨?_, h.2⟩
  simp [Expr.erase, h.1, Row.items, Row.skipped]

theorem index_row (hi : inner.Complete n) {r : Row Expr} (hparted : r.Parted)
    (haccepted : r.Accepted) (hitems : ∀ e ∈ r.items, e.NestsIn n) (s : Span)
    (hc : c.Views (r.kinds Expr.kinds ++ .punct .closeBracket :: ks)) :
    (index inner t).Succeeds c fun suffix c' =>
      suffix.erase = (Suffix.index s r.items).erase ∧ c'.Views ks := by
  refine Succeeds.bind ((items_row (.inr rfl) hparted haccepted
    (fun e he => (hitems e he).startsExpression)
    (fun e he ls hls => hi.expression e ls (hitems e he) hls) hc).mono fun args c₁ h => ?_)
  refine Succeeds.spanFrom_bind fun s' => Succeeds.pure ⟨?_, h.2⟩
  simp [Suffix.erase, h.1]

/-! ## Rows that are not accepted -/

/-- An expression that is read as an entry is one. -/
theorem entry_ensures (hi : inner.Complete n) {e : Expr} (he : e.NestsIn n)
    (hls : (front ls).joinsAt? true = none) (hc : c.Views (e.kinds ++ ls)) :
    (entry inner).Ensures c fun _ c' => c'.Views ls := by
  by_cases hentry : e.isEntry = true
  · obtain ⟨s, s', key, value, rfl⟩ : ∃ s s' key value,
        e = .assignment s (.literal s' (.symbol key)) value := by
      unfold Expr.isEntry at hentry
      split at hentry
      · next s s' key value => exact ⟨s, s', key, value, rfl⟩
      · cases hentry
    have hvalue : value.NestsIn n := he.of_nested (by simp [Expr.nested])
    have hc : c.Views ((Entry.mk key s' value).kinds ++ ls) := hc
    have hread : (entry inner).Rereads Entry.erase (.mk key s' value) _ ls :=
      entry_rereads hi hvalue hls
    exact (hread c hc).ensures.mono fun _ _ h => h.2
  · obtain ⟨k, ws, hk, -⟩ := he.startsExpression
    have hviews := hc
    rw [hk] at hviews
    obtain ⟨c₁, ht, hc₁⟩ := hviews.take
    refine Ensures.choose fun goOn c₂ hgoOn ht' => ?_
    obtain rfl : c₂ = c₁ := (Prod.mk.inj (ht'.symm.trans ht)).2
    split at hgoOn
    · next key hkey =>
      cases hgoOn
      obtain rfl : k = .symbol key := hviews.kind.symm.trans hkey
      refine Ensures.bind (Ensures.expect fun c₃ hcolon _ => ?_)
      have hcolon : front (ws ++ ls) = .punct .colon := by simpa [hc₁.looksAt] using hcolon
      exact absurd (isEntry_of_colon he hk hls hcolon) hentry
    · cases hgoOn

/-- No entry begins where no expression does. -/
theorem entry_refuses (hk : c.current.kind = .punct .semicolon) : (entry inner).Refuses c := by
  refine Ensures.choose fun goOn c₁ hgoOn _ => ?_
  rw [hk] at hgoOn
  cases hgoOn

variable (hrefuse : ∀ c : Cursor, c.current.kind = .punct .semicolon → inner.expression.Refuses c)

include hrefuse

/-- No group is read if its items are read neither as entries nor as expressions, or begin with
an entry and are not read as entries. -/
theorem group_refused {r : Row α} (hfirst : StartsExpression (w r.first))
    (hentries : ∀ c : Cursor, c.Views (r.skipped.kinds w ++ ls) →
      (items .closeParen (entry inner)).Refuses c)
    (hitems : r.opening.semicolons = [] → ∀ c : Cursor, c.Views (r.skipped.kinds w ++ ls) →
      (items .closeParen inner.expression).Refuses c ∨
        startsDict.Succeeds c fun b c' => c' = c ∧ b = true)
    (hc : c.Views (r.kinds w ++ ls)) : (group inner t).Refuses c := by
  have hskip := (skipNewlines_row hfirst hc).ensures
  refine Ensures.bind (hskip.mono fun _ c₁ hc₁ => Ensures.look_bind ?_)
  have hviews := hc₁
  by_cases hopening : r.opening.semicolons = []
  · rw [Row.kinds_skipped hopening] at hviews
    rw [if_neg (by simpa [hviews.looksAt] using hfirst.front_ne (k := .punct .closeParen) rfl _)]
    obtain ⟨k, ws, hk, -⟩ := hfirst
    rw [hk] at hviews
    have hdict := (startsDict_views hviews).ensures
    refine Ensures.bind fun b c₂ hrun => ?_
    obtain ⟨rfl, -⟩ := hdict b c₂ hrun
    cases b with
    | true => exact (hentries c₂ hc₁).bind
    | false =>
      rcases hitems hopening c₂ hc₁ with hrefused | htrue
      · exact hrefused.bind
      · have hb := (htrue.ensures false c₂ hrun).2
        cases hb
  · obtain ⟨feeds, semicolons, hsemicolons⟩ := List.exists_cons_of_ne_nil hopening
    rw [Row.kinds_append, Filler.kinds, Row.skipped, hsemicolons, semicolonKinds_cons] at hviews
    have hviews : c₁.Views (.punct .semicolon :: _) := hviews
    have hk : c₁.current.kind = .punct .semicolon := hviews.kind
    rw [if_neg (by simp [Cursor.looksAt, hk])]
    refine Ensures.bind ((startsDict_views hviews).ensures.mono fun b c₂ h => ?_)
    obtain ⟨rfl, hb⟩ := h
    rw [if_neg (by simpa using hb)]
    exact (items_refused_at (.inl rfl) hrefuse hk).bind

variable (hi : inner.Complete n)

include hi

theorem items_expression_refused {close : Punct} {r : Row Expr} (hclose : ClosesRow close)
    (hparted : r.Parted) (hrejected : ¬r.Accepted) (hitems : ∀ e ∈ r.items, e.NestsIn n)
    (hc : c.Views (r.kinds Expr.kinds ++ .punct close :: ks)) :
    (items close inner.expression).Refuses c := by
  refine items_row_refused hclose hparted hrejected (fun e he => (hitems e he).startsExpression)
    (fun e he ls c hls hc => ?_) hrefuse hc
  exact (hi.expression e ls (hitems e he) hls c hc).ensures.mono fun _ _ h => h.2

theorem group_list_refused {r : Row Expr} (hparted : r.Parted) (hrejected : ¬r.Accepted)
    (hitems : ∀ e ∈ r.items, e.NestsIn n)
    (hc : c.Views (r.kinds Expr.kinds ++ .punct .closeParen :: ks)) :
    (group inner t).Refuses c := by
  have hskipped : ¬r.skipped.Accepted := fun h => hrejected (Row.skipped_accepted.1 h)
  have hstart : ∀ e ∈ r.items, StartsExpression e.kinds := fun e he =>
    (hitems e he).startsExpression
  refine group_refused hrefuse (hstart _ List.mem_cons_self) (fun c₁ hc₁ => ?_)
    (fun _ c₁ hc₁ => .inl ?_) hc
  · refine items_row_refused (r := r.skipped) (.inl rfl) hparted hskipped hstart
      (fun e he ls c₂ hls hc₂ => ?_) (fun c₂ hk => entry_refuses hk) hc₁
    exact entry_ensures hi (hitems e he) hls hc₂
  · exact items_expression_refused hrefuse hi (r := r.skipped) (.inl rfl) hparted hskipped hitems
      hc₁

theorem group_dict_refused {r : Row Entry} (hparted : r.Parted) (hrejected : ¬r.Accepted)
    (hitems : ∀ e ∈ r.items, e.value.NestsIn n)
    (hc : c.Views (r.kinds Entry.kinds ++ .punct .closeParen :: ks)) :
    (group inner t).Refuses c := by
  have hskipped : ¬r.skipped.Accepted := fun h => hrejected (Row.skipped_accepted.1 h)
  refine group_refused hrefuse r.first.startsExpression (fun c₁ hc₁ => ?_)
    (fun hopening c₁ hc₁ => .inr ?_) hc
  · refine items_row_refused (r := r.skipped) (.inl rfl) hparted hskipped
      (fun e _ => e.startsExpression) (fun e he ls c₂ hls hc₂ => ?_)
      (fun c₂ hk => entry_refuses hk) hc₁
    exact (entry_rereads hi (hitems e he) hls c₂ hc₂).ensures.mono fun _ _ h => h.2
  · rw [Row.kinds_skipped hopening] at hc₁
    exact startsDict_dict hc₁

theorem index_refused {r : Row Expr} (hparted : r.Parted) (hrejected : ¬r.Accepted)
    (hitems : ∀ e ∈ r.items, e.NestsIn n)
    (hc : c.Views (r.kinds Expr.kinds ++ .punct .closeBracket :: ks)) :
    (index inner t).Refuses c :=
  (items_expression_refused hrefuse hi (.inr rfl) hparted hrejected hitems hc).bind

end Grammar
end WqSource
