import WqSource.Proofs.Complete.Block
import WqSource.Proofs.Separators.Filler

/-!
# Rows of items are read exactly

A separator takes as much of a filler as a separator may have: line feeds, a semicolon, and the
line feeds behind that. If there is more of the filler, a second semicolon is next, and no item
begins there. So items in a row are read if every filler is a separator, and if one of them is
not, then there is no result.

That there is none is shown for items that need not be read either, or are read as something else:
it is enough that where an item is read, what is behind it is next.

## Main statements

* `filler_taken`: what a separator takes.
* `items_row`: rows that are accepted.
* `items_row_refused`: rows that are not.
-/

namespace WqSource
open Grammar WqSource.Parser
open Token.Kind (front StartsExpression)
open Filler (semicolonKinds)

namespace Grammar
variable {α β : Type} {item : Parser α} {f : α → β} {w : α → List Token.Kind} {close : Punct}
  {ks ls : List Token.Kind} {c : Cursor}

/-! ## Fillers -/

/-- Line feeds are skipped. -/
theorem skipNewlines_feeds (feeds : Option Feeds) (hls : front ls ≠ .newline)
    (hc : c.Views (Feeds.kinds feeds ++ ls)) :
    skipNewlines.Succeeds c fun _ c' => c'.Views ls := by
  cases feeds with
  | none => exact Succeeds.skipNewlines hc hls hc
  | some feeds =>
    have hc : c.Views (.newline :: ls) := hc
    obtain ⟨c₁, ht, hc₁⟩ := hc.take
    have hat : c.atNewline = true := by simp [hc.atNewline]
    refine Succeeds.repeatTaking_step hc.atEnd_eq_false (if_pos hat) ht (Succeeds.pure ?_)
    exact Succeeds.skipNewlines hc₁ hls hc₁

theorem semicolonKinds_cons (feeds : Option Feeds) (semicolons : List (Option Feeds)) :
    semicolonKinds (feeds :: semicolons) =
      .punct .semicolon :: (Feeds.kinds feeds ++ semicolonKinds semicolons) := rfl

/-- Behind semicolons there are no line feeds. -/
theorem front_semicolonKinds (semicolons : List (Option Feeds)) (hls : front ls ≠ .newline) :
    front (semicolonKinds semicolons ++ ls) ≠ .newline := by
  cases semicolons with
  | nil => exact hls
  | cons => simp [semicolonKinds_cons]

/-- Of a filler, a separator takes the first semicolon and the line feeds around it. -/
theorem filler_taken {filler : Filler} (hfiller : filler.isEmpty = false)
    (hnewline : front ls ≠ .newline) (hsemicolon : front ls ≠ .punct .semicolon)
    (hc : c.Views (filler.kinds ++ ls)) :
    c.atEnd = false ∧ separator c = some restOfSeparator ∧ ∃ c₁, c.take = (.ok c.current, c₁) ∧
      (restOfSeparator c.current).Succeeds c₁ fun _ c₂ =>
        c₂.Views (semicolonKinds filler.semicolons.tail ++ ls) := by
  obtain ⟨feeds, semicolons⟩ := filler
  cases feeds with
  | some feeds =>
    have hc : c.Views (.newline :: (semicolonKinds semicolons ++ ls)) := hc
    obtain ⟨c₁, ht, hc₁⟩ := hc.take
    refine ⟨hc.atEnd_eq_false, if_pos (by rw [hc.atSeparator]; rfl), c₁, ht, ?_⟩
    unfold restOfSeparator
    rw [if_pos (by simp [hc.kind])]
    refine Succeeds.look_bind ?_
    cases semicolons with
    | nil =>
      have hc₁ : c₁.Views ls := hc₁
      rw [if_neg (by simpa [hc₁.looksAt] using hsemicolon)]
      exact Succeeds.pure hc₁
    | cons feeds' semicolons =>
      rw [semicolonKinds_cons, List.cons_append, List.append_assoc] at hc₁
      rw [if_pos (by simp [hc₁.looksAt])]
      refine Succeeds.bind (Succeeds.discard_take_views hc₁ fun c₂ hc₂ => ?_)
      exact skipNewlines_feeds feeds' (front_semicolonKinds semicolons hnewline) hc₂
  | none =>
    cases semicolons with
    | nil => cases hfiller
    | cons feeds semicolons =>
      have hc : c.Views
          (.punct .semicolon :: (Feeds.kinds feeds ++ semicolonKinds semicolons ++ ls)) :=
        hc
      rw [List.append_assoc] at hc
      obtain ⟨c₁, ht, hc₁⟩ := hc.take
      refine ⟨hc.atEnd_eq_false, if_pos (by rw [hc.atSeparator]; rfl), c₁, ht, ?_⟩
      unfold restOfSeparator
      rw [if_neg (by simp [hc.kind])]
      exact skipNewlines_feeds feeds (front_semicolonKinds semicolons hnewline) hc₁

/-- What stands in front of a filler may stand in front of the closing bracket. -/
theorem front_filler (filler : Filler) {P : Token.Kind → Prop} (hnewline : P .newline)
    (hsemicolon : P (.punct .semicolon)) (hls : filler.isEmpty = true → P (front ls)) :
    P (front (filler.kinds ++ ls)) := by
  obtain ⟨feeds, semicolons⟩ := filler
  cases feeds with
  | some => exact hnewline
  | none =>
    cases semicolons with
    | nil => exact hls rfl
    | cons => exact hsemicolon

/-- Behind the first item there is nothing that joins it. -/
theorem front_behind {more : List (Filler × α)} (closing : Filler)
    (hparted : ∀ next ∈ more, next.1.isEmpty = false) (hls : (front ls).joinsAt? true = none) :
    (front (Row.behind Filler.kinds w more closing ++ ls)).joinsAt? true = none := by
  cases more with
  | nil => exact front_filler closing (P := fun k => k.joinsAt? true = none) rfl rfl fun _ => hls
  | cons next more =>
    rw [Row.behind_cons]
    refine front_filler next.1 (P := fun k => k.joinsAt? true = none) rfl rfl fun hempty => ?_
    rw [hparted next (by simp)] at hempty
    cases hempty

/-! ## Behind the first item -/

/-- What there is behind a separator: the closing bracket, or another item. -/
def nextItem (item : Parser α) (close : Punct) (as : List α) : Parser (List α) := do
  if ← look (·.looksAt close) then return as
  return as ++ [← item]

/-- How items go on behind one of them. -/
def furtherItem (item : Parser α) (close : Punct) (as : List α) (c : Cursor) :
    Option (Token → Parser (List α)) :=
  (separator c).map fun goOn t => do
    goOn t
    nextItem item close as

theorem separated_eq (item : Parser α) (close : Punct) :
    separated item separator (·.looksAt close) = do
      let first ← item
      return (first, ← repeatTaking (furtherItem item close) []) := rfl

/-- The brackets that close rows. -/
def ClosesRow (close : Punct) : Prop := close = .closeParen ∨ close = .closeBracket

theorem ClosesRow.kind (h : ClosesRow close) :
    (Token.Kind.punct close).joinsAt? true = none ∧
      (Token.Kind.punct close).startsExpression = false ∧
        (Token.Kind.punct close).isSeparator = false ∧ close ≠ .semicolon := by
  rcases h with rfl | rfl <;> exact ⟨rfl, rfl, rfl, by decide⟩

/-- A round goes on behind the separator. -/
theorem furtherItem_succeeds {filler : Filler} (hfiller : filler.isEmpty = false)
    (hnewline : front ls ≠ .newline) (hsemicolon : front ls ≠ .punct .semicolon)
    (hc : c.Views (filler.kinds ++ ls)) {as : List α} {Q : List α → Cursor → Prop}
    (h : ∀ c₂ : Cursor, c₂.Views (semicolonKinds filler.semicolons.tail ++ ls) →
      (nextItem item close as).Succeeds c₂ fun bs c₃ =>
        (repeatTaking (furtherItem item close) bs).Succeeds c₃ Q) :
    (repeatTaking (furtherItem item close) as).Succeeds c Q := by
  obtain ⟨hend, hseparator, c₁, ht, hrest⟩ := filler_taken hfiller hnewline hsemicolon hc
  refine Succeeds.repeatTaking_step hend (by rw [furtherItem, hseparator]; rfl) ht ?_
  exact Succeeds.bind (hrest.mono fun _ c₂ hc₂ => h c₂ hc₂)

theorem furtherItem_ensures {filler : Filler} (hfiller : filler.isEmpty = false)
    (hnewline : front ls ≠ .newline) (hsemicolon : front ls ≠ .punct .semicolon)
    (hc : c.Views (filler.kinds ++ ls)) {as : List α} {Q : List α → Cursor → Prop}
    (h : ∀ c₂ : Cursor, c₂.Views (semicolonKinds filler.semicolons.tail ++ ls) →
      (nextItem item close as).Ensures c₂ fun bs c₃ =>
        (repeatTaking (furtherItem item close) bs).Ensures c₃ Q) :
    (repeatTaking (furtherItem item close) as).Ensures c Q := by
  obtain ⟨hend, hseparator, c₁, ht, hrest⟩ := filler_taken hfiller hnewline hsemicolon hc
  refine Ensures.repeatTaking_step hend (by rw [furtherItem, hseparator]; rfl) fun c₂ ht' => ?_
  obtain rfl : c₂ = c₁ := (Prod.mk.inj (ht'.symm.trans ht)).2
  exact Ensures.bind (hrest.ensures.mono fun _ c₂ hc₂ => h c₂ hc₂)

/-- One semicolon is all that a separator takes. -/
theorem semicolonKinds_tail {filler : Filler} (h : filler.semicolons.length ≤ 1) :
    semicolonKinds filler.semicolons.tail = [] := by
  have htail : filler.semicolons.tail = [] := List.length_eq_zero_iff.1 (by simp; omega)
  rw [htail]
  rfl

/-- Behind the first of two semicolons there is the second one. -/
theorem front_tail {filler : Filler} (h : ¬filler.semicolons.length ≤ 1) :
    front (semicolonKinds filler.semicolons.tail ++ ls) = .punct .semicolon := by
  obtain ⟨feeds, semicolons⟩ := filler
  match semicolons, h with
  | [], h | [_], h => exact absurd (by simp) h
  | _ :: _ :: _, _ => rfl

/-- Items behind the first one are read behind separators. -/
theorem furtherItem_row {more : List (Filler × α)} {closing : Filler} (hclose : ClosesRow close)
    (hparted : ∀ next ∈ more, next.1.isEmpty = false)
    (hmore : ∀ next ∈ more, next.1.semicolons.length ≤ 1) (hclosing : closing.semicolons.length ≤ 1)
    (hstart : ∀ next ∈ more, StartsExpression (w next.2))
    (hitem : ∀ next ∈ more, ∀ ls, (front ls).joinsAt? true = none →
      item.Rereads f next.2 (w next.2) ls) (as : List α)
    (hc : c.Views (Row.behind Filler.kinds w more closing ++ .punct close :: ks)) :
    (repeatTaking (furtherItem item close) as).Succeeds c fun bs c' =>
      bs.map f = as.map f ++ more.map (fun next => f next.2) ∧ c'.Views (.punct close :: ks) := by
  obtain ⟨hjoins, hstarts, hseparates, hsemicolon⟩ := hclose.kind
  have hbehind : (front (.punct close :: ks)).joinsAt? true = none := hjoins
  have stops {as : List α} {c : Cursor} (hc : c.Views (.punct close :: ks)) :
      (repeatTaking (furtherItem item close) as).Succeeds c fun bs c' =>
        bs.map f = as.map f ∧ c'.Views (.punct close :: ks) := by
    refine Succeeds.repeatTaking_stop ?_ ⟨rfl, hc⟩
    rw [furtherItem, separator, if_neg (by simpa [hc.atSeparator] using hseparates)]
    rfl
  induction more generalizing as c with
  | nil =>
    have hc : c.Views (closing.kinds ++ .punct close :: ks) := hc
    by_cases hempty : closing.isEmpty = true
    · rw [Filler.kinds_of_isEmpty hempty] at hc
      simpa using stops hc
    · refine furtherItem_succeeds (by simpa using hempty) (by simp) (by simpa using hsemicolon) hc
        fun c₂ hc₂ => Succeeds.look_bind ?_
      rw [semicolonKinds_tail hclosing] at hc₂
      rw [if_pos (by simp [Cursor.Views.looksAt hc₂])]
      exact Succeeds.pure (by simpa using stops hc₂)
  | cons next more ih =>
    obtain ⟨hfiller, hparted⟩ := List.forall_mem_cons.1 hparted
    obtain ⟨hsingle, hmore⟩ := List.forall_mem_cons.1 hmore
    obtain ⟨hfirst, hstart⟩ := List.forall_mem_cons.1 hstart
    obtain ⟨hnext, hitem⟩ := List.forall_mem_cons.1 hitem
    rw [Row.behind_cons] at hc
    refine furtherItem_succeeds hfiller (hfirst.front_ne rfl _) (hfirst.front_ne rfl _) hc
      fun c₂ hc₂ => Succeeds.look_bind ?_
    rw [semicolonKinds_tail hsingle, List.nil_append] at hc₂
    rw [if_neg (by simpa [hc₂.looksAt] using hfirst.front_ne hstarts _)]
    have hread := hnext _ (front_behind closing hparted hbehind) c₂ hc₂
    refine Succeeds.bind (hread.mono fun b c₃ h => Succeeds.pure ?_)
    refine (ih hparted hmore hstart hitem (as ++ [b]) h.2).mono fun bs c' hbs => ⟨?_, hbs.2⟩
    simp [hbs.1, h.1]

/-- At the second semicolon of a filler no item begins. -/
theorem nextItem_refuses (hclose : ClosesRow close)
    (hrefuse : ∀ c : Cursor, c.current.kind = .punct .semicolon → item.Refuses c)
    (hk : c.current.kind = .punct .semicolon) (as : List α) :
    (nextItem item close as).Refuses c := by
  refine Ensures.look_bind ?_
  rw [if_neg (by simpa [Cursor.looksAt, hk] using hclose.kind.2.2.2.symm)]
  exact (hrefuse c hk).bind

/-- Items behind the first one are not read if there are two semicolons in a filler. -/
theorem furtherItem_refused {item : Parser β} {more : List (Filler × α)} {closing : Filler}
    (hclose : ClosesRow close) (hparted : ∀ next ∈ more, next.1.isEmpty = false)
    (hdouble : ¬((∀ next ∈ more, next.1.semicolons.length ≤ 1) ∧ closing.semicolons.length ≤ 1))
    (hstart : ∀ next ∈ more, StartsExpression (w next.2))
    (hitem : ∀ next ∈ more, ∀ (ls : List Token.Kind) (c : Cursor),
      (front ls).joinsAt? true = none → c.Views (w next.2 ++ ls) →
        item.Ensures c fun _ c' => c'.Views ls)
    (hrefuse : ∀ c : Cursor, c.current.kind = .punct .semicolon → item.Refuses c) (as : List β)
    (hc : c.Views (Row.behind Filler.kinds w more closing ++ .punct close :: ks)) :
    (repeatTaking (furtherItem item close) as).Refuses c := by
  obtain ⟨hjoins, hstarts, -, hsemicolon⟩ := hclose.kind
  have hbehind : (front (.punct close :: ks)).joinsAt? true = none := hjoins
  induction more generalizing as c with
  | nil =>
    have hc : c.Views (closing.kinds ++ .punct close :: ks) := hc
    have hclosing : ¬closing.semicolons.length ≤ 1 := fun h => hdouble ⟨nofun, h⟩
    have hnonempty : closing.isEmpty = false := by
      by_contra hempty
      simp [Filler.isEmpty] at hempty
      simp [hempty] at hclosing
    refine furtherItem_ensures hnonempty (by simp) (by simpa using hsemicolon) hc fun c₂ hc₂ => ?_
    have hk : c₂.current.kind = .punct .semicolon := hc₂.kind.trans (front_tail hclosing)
    exact (nextItem_refuses hclose hrefuse hk as).mono fun _ _ h => h.elim
  | cons next more ih =>
    obtain ⟨hfiller, hparted⟩ := List.forall_mem_cons.1 hparted
    obtain ⟨hfirst, hstart⟩ := List.forall_mem_cons.1 hstart
    obtain ⟨hnext, hitem⟩ := List.forall_mem_cons.1 hitem
    rw [Row.behind_cons] at hc
    refine furtherItem_ensures hfiller (hfirst.front_ne rfl _) (hfirst.front_ne rfl _) hc
      fun c₂ hc₂ => ?_
    by_cases hsingle : next.1.semicolons.length ≤ 1
    · rw [semicolonKinds_tail hsingle, List.nil_append] at hc₂
      refine Ensures.look_bind ?_
      rw [if_neg (by simpa [hc₂.looksAt] using hfirst.front_ne hstarts _)]
      have hread := hnext _ c₂ (front_behind closing hparted hbehind) hc₂
      refine Ensures.bind (hread.mono fun b c₃ hc₃ => Ensures.pure ?_)
      refine ih hparted (fun h => hdouble ⟨?_, h.2⟩) hstart hitem (as ++ [b]) hc₃
      exact List.forall_mem_cons.2 ⟨hsingle, h.1⟩
    · have hk : c₂.current.kind = .punct .semicolon := hc₂.kind.trans (front_tail hsingle)
      exact (nextItem_refuses hclose hrefuse hk as).mono fun _ _ h => h.elim

/-! ## Rows -/

/-- Rows that are accepted are read, from the first item on. -/
theorem separated_row {r : Row α} (hclose : ClosesRow close) (hparted : r.Parted)
    (haccepted : r.Accepted) (hstart : ∀ a ∈ r.items, StartsExpression (w a))
    (hitem : ∀ a ∈ r.items, ∀ ls, (front ls).joinsAt? true = none → item.Rereads f a (w a) ls)
    (hc : c.Views (w r.first ++
      (Row.behind Filler.kinds w r.more r.closing ++ .punct close :: ks))) :
    (separated item separator (·.looksAt close)).Succeeds c fun as c' =>
      (as.1 :: as.2).map f = r.items.map f ∧ c'.Views (.punct close :: ks) := by
  obtain ⟨-, hmore⟩ := List.forall_mem_cons.1 hstart
  obtain ⟨hread, hitems⟩ := List.forall_mem_cons.1 hitem
  have hnext {P : α → Prop} (h : ∀ a ∈ r.more.map Prod.snd, P a) : ∀ next ∈ r.more, P next.2 :=
    fun next hnext => h _ (List.mem_map_of_mem hnext)
  have hbehind : (front (.punct close :: ks)).joinsAt? true = none := hclose.kind.1
  rw [separated_eq]
  refine Succeeds.bind ?_
  refine (hread _ (front_behind r.closing hparted hbehind) c hc).mono fun a c₂ h₂ => ?_
  refine Succeeds.bind ((furtherItem_row hclose hparted haccepted.more haccepted.closing
    (hnext hmore) (hnext hitems) [] h₂.2).mono fun as c₃ h₃ => Succeeds.pure ⟨?_, h₃.2⟩)
  simp [Row.items, h₂.1, h₃.1, Function.comp_def]

/-- Rows that are accepted are read. -/
theorem items_row {r : Row α} (hclose : ClosesRow close) (hparted : r.Parted)
    (haccepted : r.Accepted) (hstart : ∀ a ∈ r.items, StartsExpression (w a))
    (hitem : ∀ a ∈ r.items, ∀ ls, (front ls).joinsAt? true = none → item.Rereads f a (w a) ls)
    (hc : c.Views (r.kinds w ++ .punct close :: ks)) :
    (items close item).Succeeds c fun as c' => as.map f = r.items.map f ∧ c'.Views ks := by
  have hfirst := hstart _ List.mem_cons_self
  rw [Row.kinds_append, Filler.kinds, haccepted.opening] at hc
  simp only [semicolonKinds, List.flatMap_nil, List.append_nil] at hc
  refine Succeeds.bind ((skipNewlines_feeds _ (hfirst.front_ne rfl _) hc).mono fun _ c₁ hc₁ => ?_)
  refine Succeeds.look_bind ?_
  rw [if_neg (by simpa [hc₁.looksAt] using hfirst.front_ne hclose.kind.2.1 _)]
  refine Succeeds.bind ?_
  refine (separated_row hclose hparted haccepted hstart hitem hc₁).mono fun as c₂ h => ?_
  refine Succeeds.bind (Succeeds.pure (Succeeds.bind ?_))
  exact Succeeds.expect_views h.2 fun c₃ hc₃ => Succeeds.pure ⟨h.1, hc₃⟩

/-- Where a semicolon is first, no items are read. -/
theorem items_refused_at (hclose : ClosesRow close)
    (hrefuse : ∀ c : Cursor, c.current.kind = .punct .semicolon → item.Refuses c)
    (hk : c.current.kind = .punct .semicolon) : (items close item).Refuses c := by
  have hskip : skipNewlines.Succeeds c fun _ c₁ => c₁ = c :=
    Succeeds.skipWhile_stop (by simp [Cursor.atNewline, hk]) rfl
  refine Ensures.bind (hskip.ensures.mono fun _ c₁ h => Ensures.look_bind ?_)
  obtain rfl := h
  rw [if_neg (by simpa [Cursor.looksAt, hk] using hclose.kind.2.2.2.symm), separated_eq]
  exact Refuses.bind (hrefuse c₁ hk).bind

/-- Rows that are not accepted are not read. -/
theorem items_row_refused {item : Parser β} {r : Row α} (hclose : ClosesRow close)
    (hparted : r.Parted) (hrejected : ¬r.Accepted) (hstart : ∀ a ∈ r.items, StartsExpression (w a))
    (hitem : ∀ a ∈ r.items, ∀ (ls : List Token.Kind) (c : Cursor),
      (front ls).joinsAt? true = none → c.Views (w a ++ ls) →
        item.Ensures c fun _ c' => c'.Views ls)
    (hrefuse : ∀ c : Cursor, c.current.kind = .punct .semicolon → item.Refuses c)
    (hc : c.Views (r.kinds w ++ .punct close :: ks)) : (items close item).Refuses c := by
  obtain ⟨hjoins, hstarts, -, hsemicolon⟩ := hclose.kind
  obtain ⟨hfirst, hmore⟩ := List.forall_mem_cons.1 hstart
  obtain ⟨hread, hitems⟩ := List.forall_mem_cons.1 hitem
  have hnext {P : α → Prop} (h : ∀ a ∈ r.more.map Prod.snd, P a) : ∀ next ∈ r.more, P next.2 :=
    fun next hnext => h _ (List.mem_map_of_mem hnext)
  have hbehind : (front (.punct close :: ks)).joinsAt? true = none := hjoins
  rw [Row.kinds_append, Filler.kinds, List.append_assoc] at hc
  have hnewline := front_semicolonKinds r.opening.semicolons (hfirst.front_ne (k := .newline) rfl
    (Row.behind Filler.kinds w r.more r.closing ++ .punct close :: ks))
  have hskip := (skipNewlines_feeds _ hnewline hc).ensures
  refine Ensures.bind (hskip.mono fun _ c₁ hc₁ => Ensures.look_bind ?_)
  by_cases hopening : r.opening.semicolons = []
  · rw [hopening] at hc₁
    have hc₁ : c₁.Views (w r.first ++ _) := hc₁
    rw [if_neg (by simpa [hc₁.looksAt] using hfirst.front_ne hstarts _), separated_eq]
    have hdouble : ¬((∀ next ∈ r.more, next.1.semicolons.length ≤ 1) ∧
        r.closing.semicolons.length ≤ 1) :=
      fun h => hrejected ⟨hopening, h.1, h.2⟩
    refine Refuses.bind (Ensures.bind ?_)
    refine (hread _ c₁ (front_behind r.closing hparted hbehind) hc₁).mono fun a c₂ hc₂ => ?_
    have hrefused := furtherItem_refused hclose hparted hdouble (hnext hmore) (hnext hitems)
      hrefuse [] hc₂
    exact hrefused.bind
  · obtain ⟨feeds, semicolons, hsemicolons⟩ := List.exists_cons_of_ne_nil hopening
    rw [hsemicolons, semicolonKinds_cons] at hc₁
    have hk : c₁.current.kind = .punct .semicolon := hc₁.kind
    rw [if_neg (by simpa [Cursor.looksAt, hk] using hsemicolon.symm), separated_eq]
    exact Refuses.bind (hrefuse c₁ hk).bind

end Grammar
end WqSource
