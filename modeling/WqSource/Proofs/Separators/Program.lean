import WqSource.Proofs.Nesting.Limit
import WqSource.Proofs.Separators.Forms

/-!
# Separators are accepted exactly

Expressions that occur in programs are written in a row: in parentheses, with keys in
parentheses, and in brackets behind a name. Whatever the fillers are, what is read is a list, a
dict or arguments with the expressions of the row in order, if there is no semicolon more than
there may be. If there is one, all three texts are in error.

## Main definitions

* `Item`: an expression with a key and a layout.
* `Row.IsRead`, `Row.IsFaulty`: what the three texts of a row are parsed to.

## Main statements

* `parse_row`.
-/

namespace WqSource
open Grammar WqSource.Parser
open Token.Kind (front)

namespace Grammar
variable {inner : Inner} {n : Nat} {c : Cursor} {P : Expr → Prop} {name : String}
  {ks : List Token.Kind} {Q : Expr → Cursor → Prop}

/-! ## At the end of a text -/

theorem binary_ended (tier : Tier) {operand : Parser Expr}
    (h : operand.Succeeds c fun e c' => P e ∧ c'.Views []) :
    (binary tier operand).Succeeds c fun e c' => P e ∧ c'.Views [] := by
  refine Succeeds.bind (h.mono fun e c' h => Succeeds.repeatTaking_stop ?_ h)
  rw [h.2.kind]
  cases tier <;> rfl

theorem listed_ended (mark : Punct) (node : Span → List Expr → Expr) {operand : Parser Expr}
    (h : operand.Succeeds c fun e c' => P e ∧ c'.Views []) :
    (listed mark node operand).Succeeds c fun e c' => P e ∧ c'.Views [] := by
  refine Succeeds.bind (Succeeds.bind (h.mono fun e c' h => Succeeds.bind ?_))
  refine Succeeds.repeatTaking_stop ?_ (Succeeds.pure (Succeeds.pure h))
  rw [atPunct, if_neg (by simp [h.2.looksAt])]
  rfl

/-- A chain with nothing behind it is an expression. -/
theorem assignment_ended (hsign : unaryOp? c.current.kind = none)
    (h : (chain inner).Succeeds c fun e c' => P e ∧ c'.Views []) :
    (assignment inner).Succeeds c fun e c' => P e ∧ c'.Views [] := by
  have hpower : (power inner).Succeeds c fun e c' => P e ∧ c'.Views [] :=
    Succeeds.bind (h.mono fun e c' h => raised_stop h.2 (by simp) h)
  have hunary : (unary inner).Succeeds c fun e c' => P e ∧ c'.Views [] := by
    refine Succeeds.look_bind (Succeeds.bind (Succeeds.repeatTaking_stop ?_ (Succeeds.bind ?_)))
    · rw [hsign]
      rfl
    · exact hpower.mono fun e c' h => Succeeds.pure h
  have hcomparison : (comparison inner).Succeeds c fun e c' => P e ∧ c'.Views [] :=
    binary_ended _ (binary_ended _ (binary_ended _ hunary))
  have hpipe : (pipe inner).Succeeds c fun e c' => P e ∧ c'.Views [] :=
    listed_ended _ _ (listed_ended _ _ hcomparison)
  refine Succeeds.bind (hpipe.mono fun e c' h => Succeeds.look_bind ?_)
  rw [if_neg (by simp [h.2.looksAt])]
  exact Succeeds.pure h

/-- Without a chain there is no expression. -/
theorem assignment_refused (hsign : unaryOp? c.current.kind = none) (h : (chain inner).Refuses c) :
    (assignment inner).Refuses c := by
  have hpower : (power inner).Refuses c := h.bind
  have hunary : (unary inner).Refuses c := by
    refine Ensures.look_bind (Ensures.bind (Ensures.repeatTaking_stop ?_ hpower.bind))
    rw [hsign]
    rfl
  have hcomparison : (comparison inner).Refuses c := hunary.bind.bind.bind
  have hjoin : (join inner).Refuses c := hcomparison.bind.bind
  exact hjoin.bind.bind.bind

/-! ## Groups and arguments at the end of a text -/

theorem chain_ended (h : (primary inner).Succeeds c fun e c' => P e ∧ c'.Views []) :
    (chain inner).Succeeds c fun e c' => P e ∧ c'.Views [] := by
  refine Succeeds.bind (h.mono fun e c' h => Succeeds.bind ?_)
  refine Succeeds.repeatTaking_stop ?_ (Succeeds.pure h)
  rw [if_neg (by simp [h.2.atAdjacentBracket]), h.2.kind]
  rfl

/-- A primary is read if what is behind its first token is. -/
theorem primary_succeeds {k : Token.Kind} {goOn : Token → Parser Expr}
    (hk : primary? inner k = some goOn) (hc : c.Views (k :: ks))
    (h : ∀ c₁ : Cursor, c₁.Views ks → (goOn c.current).Succeeds c₁ Q) :
    (primary inner).Succeeds c Q := by
  obtain ⟨c₁, ht, hc₁⟩ := hc.take
  have hfirst : c.current.kind = k := hc.kind
  exact Succeeds.choose (by rw [hfirst, hk]) ht (h c₁ hc₁)

theorem primary_refused {k : Token.Kind} {goOn : Token → Parser Expr}
    (hk : primary? inner k = some goOn) (hc : c.Views (k :: ks))
    (h : ∀ c₁ : Cursor, c₁.Views ks → (goOn c.current).Refuses c₁) :
    (primary inner).Refuses c := by
  obtain ⟨c₁, ht, hc₁⟩ := hc.take
  refine Ensures.choose fun goOn' c₂ hgoOn ht' => ?_
  obtain rfl : c₂ = c₁ := (Prod.mk.inj (ht'.symm.trans ht)).2
  have hfirst : c.current.kind = k := hc.kind
  rw [hfirst, hk] at hgoOn
  cases hgoOn
  exact h c₂ hc₁

/-- A name that begins no loop is read in front of its arguments. -/
theorem primary_name (hi : inner.Complete n) (hname : loopOfName? name = none)
    (hc : c.Views (.identifier name :: ks)) :
    (primary inner).Succeeds c fun e c' =>
      e.erase = (Expr.name default name false).erase ∧ c'.Views ks := by
  have hregular : (Expr.name default name false).Regular n :=
    Expr.regular_iff.2 ⟨trivial, nofun, nofun⟩
  refine primary_rereads hi hregular rfl ?_ c hc
  rw [Expr.ending, nameEnding, if_neg (by simp [hname])]
  trivial

theorem chain_index_row (hi : inner.Complete n) (hname : loopOfName? name = none) {r : Row Expr}
    (hparted : r.Parted) (haccepted : r.Accepted) (hitems : ∀ e ∈ r.items, e.NestsIn n)
    (hc : c.Views (.identifier name :: .punct .openBracket ::
      (r.kinds Expr.kinds ++ [.punct .closeBracket]))) :
    (chain inner).Succeeds c fun e c' =>
      e.erase = (Expr.chain default (.name default name false) [.index default r.items]).erase ∧
        c'.Views [] := by
  refine Succeeds.bind ((primary_name hi hname hc).mono fun base c₁ h₁ => Succeeds.bind ?_)
  obtain ⟨c₂, ht, hc₂⟩ := h₁.2.take
  refine Succeeds.repeatTaking_step h₁.2.atEnd_eq_false
    (if_pos (by simp [h₁.2.atAdjacentBracket])) ht (Succeeds.bind ?_)
  refine (index_row hi hparted haccepted hitems default hc₂).mono fun suffix c₃ h₃ =>
    Succeeds.pure (Succeeds.repeatTaking_stop ?_ ?_)
  · rw [if_neg (by simp [h₃.2.atAdjacentBracket]), h₃.2.kind]
    rfl
  · exact chained_rereads (.inr ⟨by simp, default, rfl⟩) h₁.1 (by simp [h₃.1]) h₃.2

theorem chain_index_refused (hi : inner.Complete n)
    (hrefuse : ∀ c : Cursor, c.current.kind = .punct .semicolon → inner.expression.Refuses c)
    (hname : loopOfName? name = none) {r : Row Expr}
    (hparted : r.Parted) (hrejected : ¬r.Accepted) (hitems : ∀ e ∈ r.items, e.NestsIn n)
    (hc : c.Views (.identifier name :: .punct .openBracket ::
      (r.kinds Expr.kinds ++ [.punct .closeBracket]))) : (chain inner).Refuses c := by
  have hbase := (primary_name hi hname hc).ensures
  refine Ensures.bind (hbase.mono fun base c₁ h₁ => Refuses.bind ?_)
  obtain ⟨c₂, ht, hc₂⟩ := h₁.2.take
  refine Ensures.repeatTaking_step h₁.2.atEnd_eq_false
    (if_pos (by simp [h₁.2.atAdjacentBracket])) fun c₃ ht' => ?_
  obtain rfl : c₃ = c₂ := (Prod.mk.inj (ht'.symm.trans ht)).2
  exact (index_refused hrefuse hi hparted hrejected hitems hc₂).bind.mono fun _ _ h => h.elim

/-- No expression begins at a semicolon. -/
theorem level_refuses (n : Nat) (hk : c.current.kind = .punct .semicolon) :
    (level n).expression.Refuses c := by
  cases n with
  | zero => exact Ensures.fail
  | succ n =>
    refine assignment_starts.mono fun _ _ hstarts => ?_
    have hfirst := hstarts.first
    rw [hk] at hfirst
    cases hfirst

/-! ## Texts of a chain -/

/-- What a chain begins with is no sign. -/
theorem unaryOp?_of_startsPrimary {k : Token.Kind} (h : k.startsPrimary = true) :
    unaryOp? k = none := by
  unfold unaryOp?
  split <;> first | rfl | cases h

/-- A text of a chain is that expression. -/
theorem isExpression_of_chain {text : List Char} {e : Expr} (htext : Spells [] text ks)
    (hsign : text.head? ≠ some '#') (hstart : (front ks).startsPrimary = true)
    (h : ∀ c : Cursor, c.Views ks → (chain (level maxDepth)).Succeeds c fun e' c' =>
      e'.erase = e.erase ∧ c'.Views []) (again : Bool) :
    (parse (String.ofList text) again).IsExpression e := by
  obtain ⟨c, hsource, hc⟩ := htext.views hsign
  rw [← hc.kind] at hstart
  obtain ⟨e', c', hrun, herase, hend⟩ :=
    assignment_ended (unaryOp?_of_startsPrimary hstart) (h c hc)
  have hexpression := isExpression_of_run hsource
    (Token.Kind.startsExpression_of_startsPrimary hstart) hrun hend herase
  have hsame : parse (String.ofList text) false = parse (String.ofList text) again :=
    parse_eq_of_errors_eq_nil hexpression.errors
  rwa [hsame] at hexpression

/-- A text of which no chain is read is in error. -/
theorem errors_of_chain_refused {text : List Char} (htext : Spells [] text ks)
    (hsign : text.head? ≠ some '#') (hstart : (front ks).startsPrimary = true)
    (h : ∀ c : Cursor, c.Views ks → (chain (level maxDepth)).Refuses c) (again : Bool) :
    (parse (String.ofList text) again).errors ≠ [] := by
  obtain ⟨c, hsource, hc⟩ := htext.views hsign
  rw [← hc.kind] at hstart
  have hexpression := Token.Kind.startsExpression_of_startsPrimary hstart
  have hrefused : (level maxNesting).expression.Refuses c :=
    assignment_refused (unaryOp?_of_startsPrimary hstart) (h c hc)
  have hstatement : (statement (level maxNesting)).Refuses c := by
    refine Ensures.look_bind ?_
    split
    · next payload hk =>
      rw [hk] at hexpression
      cases hexpression
    · exact hrefused.bind
  obtain ⟨e, c', hrun⟩ := hstatement.run
  intro hnone
  have hsame : parse (String.ofList text) again = parse (String.ofList text) false :=
    parse_eq_of_errors_eq_nil hnone
  rw [hsame, errors_parse hsource, program_failure hexpression hrun] at hnone
  cases hnone

end Grammar

/-! ## Expressions of programs -/

namespace Expr.OccursIn
variable {e : Expr} {source : String} {recover : Bool}

/-- An expression of a program may stand a level deeper than a statement, if there is room. -/
theorem nestsIn (h : e.OccursIn (parse source recover).program) (hroom : e.levels < maxNesting) :
    e.NestsIn maxDepth := by
  obtain ⟨s, hs, k, he⟩ := h
  have hregular : s.Regular maxDepth := parse_regular source recover _ hs
  have hshape := (Expr.regular_iff_levels.1 (hregular.of_within he)).1
  exact ⟨_, rfl, Expr.regular_iff_levels.2 ⟨hshape, Nat.le_of_lt_succ hroom⟩⟩

/-- The text of an expression of a program can stand between marks. -/
theorem part (h : e.OccursIn (parse source recover).program) (hroom : e.levels < maxNesting)
    (l : Layout) : Part (e.text l).toList e.kinds := by
  obtain ⟨m, -, hregular⟩ := h.nestsIn hroom
  obtain ⟨s, hs, k, he⟩ := h
  have hvalid := (parse_writable source recover).valid _ hs
  exact hregular.part (fun k hk => hvalid k (he.kinds_subset hk)) l

end Expr.OccursIn

/-! ## Rows of expressions -/

/-- An expression, the layout it is written in, and the key that is in front of it in a dict. -/
structure Item where
  key : String
  value : Expr
  layout : Layout

namespace Item

/-- The text of the expression. -/
def text (i : Item) : List Char := (i.value.text i.layout).toList

/-- The text of the expression with its key. -/
def entryText (i : Item) : List Char := '\x60' :: (i.key.toList ++ ':' :: i.text)

/-- The expression with its key. -/
def entry (i : Item) : Entry := .mk i.key default i.value

/-- Whether the key is a name, and the expression one of a program that may stand a level deeper
than a statement. -/
structure Readable (i : Item) : Prop where
  key : Name.WellFormed i.key.toList
  occurs : ∃ source recover, i.value.OccursIn (parse source recover).program
  room : i.value.levels < maxNesting

variable {i : Item}

theorem Readable.nestsIn (h : i.Readable) : i.value.NestsIn maxDepth := by
  obtain ⟨source, recover, hoccurs⟩ := h.occurs
  exact hoccurs.nestsIn h.room

theorem Readable.part (h : i.Readable) : Part i.text i.value.kinds := by
  obtain ⟨source, recover, hoccurs⟩ := h.occurs
  exact hoccurs.part h.room i.layout

theorem Readable.entryPart (h : i.Readable) : Part i.entryText i.entry.kinds := by
  refine ⟨⟨_, _, rfl, by decide, by decide, by decide⟩, fun rest hrest => ?_⟩
  have hends : (Token.Kind.symbol i.key).EndsBefore (':' :: (i.text ++ rest)) := by
    intro c hc
    obtain rfl := Option.some.inj hc
    decide +kernel
  have hlexeme : (Token.Kind.symbol (String.ofList i.key.toList)).Lexeme ('\x60' :: i.key.toList) :=
    .symbol h.key
  rw [String.ofList_toList] at hlexeme
  have hkey := Spells.token hlexeme hends nofun
  have hcolon : Spells (i.text ++ rest) [':'] [.punct .colon] :=
    Spells.punct (p := .colon) trivial
  have hall := hkey.append (hcolon.append (h.part.spells rest hrest))
  rw [entry, Entry.kinds_mk]
  simpa [entryText] using hall

end Item

namespace Row

/-- Items that are readable, with something between every two. -/
structure Readable (r : Row Item) : Prop where
  parted : r.Parted
  items : ∀ i ∈ r.items, i.Readable

/-- The items in parentheses. -/
def listText (r : Row Item) : List Char := '(' :: (r.text Item.text ++ [')'])

/-- The items in parentheses, with their keys. -/
def dictText (r : Row Item) : List Char := '(' :: (r.text Item.entryText ++ [')'])

/-- The items in brackets behind a name. -/
def indexText (name : String) (r : Row Item) : List Char :=
  name.toList ++ '[' :: (r.text Item.text ++ [']'])

/-- In each of the three forms exactly the items are read, in order. -/
structure IsRead (r : Row Item) (name : String) (again : Bool) : Prop where
  /-- An entry as the first item would make it a dict. -/
  list : r.first.value.isEntry = false →
    (parse (String.ofList r.listText) again).IsExpression (.list default (r.items.map Item.value))
  dict : (parse (String.ofList r.dictText) again).IsExpression
    (.dict default (r.items.map Item.entry))
  index : (parse (String.ofList (r.indexText name)) again).IsExpression
    (.chain default (.name default name false) [.index default (r.items.map Item.value)])

/-- Each of the three forms is in error. -/
structure IsFaulty (r : Row Item) (name : String) (again : Bool) : Prop where
  list : (parse (String.ofList r.listText) again).errors ≠ []
  dict : (parse (String.ofList r.dictText) again).errors ≠ []
  index : (parse (String.ofList (r.indexText name)) again).errors ≠ []

namespace Readable
variable {r : Row Item} {name : String}

/-! ### Texts and tokens -/

theorem listText_spells (h : r.Readable) :
    Spells [] r.listText
      (.punct .openParen :: ((r.map Item.value).kinds Expr.kinds ++ [.punct .closeParen])) := by
  rw [kinds_map]
  exact enclosed_spells (o := .openParen) (c := .closeParen) h.parted
    (fun i hi => (h.items i hi).part) (fun _ => trivial) rfl (by decide)

theorem dictText_spells (h : r.Readable) :
    Spells [] r.dictText
      (.punct .openParen :: ((r.map Item.entry).kinds Entry.kinds ++ [.punct .closeParen])) := by
  rw [kinds_map]
  exact enclosed_spells (o := .openParen) (c := .closeParen) h.parted
    (fun i hi => (h.items i hi).entryPart) (fun _ => trivial) rfl (by decide)

theorem indexText_spells (h : r.Readable) (hname : Name.WellFormed name.toList)
    (hword : wordKind name = .identifier name) :
    Spells [] (r.indexText name) (.identifier name :: .punct .openBracket ::
      ((r.map Item.value).kinds Expr.kinds ++ [.punct .closeBracket])) := by
  have hbrackets := enclosed_spells (o := .openBracket) (c := .closeBracket) h.parted
    (fun i hi => (h.items i hi).part) (fun _ => trivial) rfl (by decide)
  have hlexeme : (Token.Kind.identifier name).Lexeme name.toList :=
    .word hname (by rw [String.ofList_toList, hword])
  have hends : (Token.Kind.identifier name).EndsBefore
      ('[' :: (r.text Item.text ++ [']']) ++ []) := by
    intro c hc
    obtain rfl := Option.some.inj hc
    decide +kernel
  rw [kinds_map]
  exact (Spells.token hlexeme hends nofun).append hbrackets

theorem head_indexText (hname : Name.WellFormed name.toList) :
    (r.indexText name).head? ≠ some '#' := by
  obtain ⟨c, tail, hcs, hstart⟩ := hname.head
  rw [indexText, hcs]
  rintro ⟨⟩
  exact absurd hstart (by decide +kernel)

theorem values (h : r.Readable) : ∀ e ∈ (r.map Item.value).items, e.NestsIn maxDepth := by
  rw [items_map, List.forall_mem_map]
  exact fun i hi => (h.items i hi).nestsIn

theorem entries (h : r.Readable) : ∀ e ∈ (r.map Item.entry).items, e.value.NestsIn maxDepth := by
  rw [items_map, List.forall_mem_map]
  exact fun i hi => (h.items i hi).nestsIn

/-! ### The three forms -/

theorem isRead (h : r.Readable) (hname : Name.WellFormed name.toList)
    (hword : wordKind name = .identifier name) (hloop : loopOfName? name = none)
    (haccepted : r.Accepted) (again : Bool) : r.IsRead name again := by
  have hi := level_complete maxDepth
  have haccepted {β : Type} (f : Item → β) : (r.map f).Accepted := accepted_map.2 haccepted
  have hparted {β : Type} (f : Item → β) : (r.map f).Parted := parted_map.2 h.parted
  refine ⟨fun hentry => ?_, ?_, ?_⟩
  · rw [← items_map]
    refine isExpression_of_chain h.listText_spells (by simp [listText]) rfl
      (fun c hc => chain_ended (primary_succeeds rfl hc fun c₁ hc₁ => ?_)) again
    exact list_row hi (hparted _) (haccepted _) h.values hentry default hc₁
  · rw [← items_map]
    refine isExpression_of_chain h.dictText_spells (by simp [dictText]) rfl
      (fun c hc => chain_ended (primary_succeeds rfl hc fun c₁ hc₁ => ?_)) again
    exact dict_row hi (hparted _) (haccepted _) h.entries default hc₁
  · rw [← items_map]
    refine isExpression_of_chain (h.indexText_spells hname hword) (head_indexText hname) rfl
      (fun c hc => ?_) again
    exact chain_index_row hi hloop (hparted _) (haccepted _) h.values hc

theorem isFaulty (h : r.Readable) (hname : Name.WellFormed name.toList)
    (hword : wordKind name = .identifier name) (hloop : loopOfName? name = none)
    (hrejected : ¬r.Accepted) (again : Bool) : r.IsFaulty name again := by
  have hi := level_complete maxDepth
  have hrefuse (c : Cursor) (hk : c.current.kind = .punct .semicolon) :
      (level maxDepth).expression.Refuses c :=
    level_refuses maxDepth hk
  have hrejected {β : Type} (f : Item → β) : ¬(r.map f).Accepted := mt accepted_map.1 hrejected
  have hparted {β : Type} (f : Item → β) : (r.map f).Parted := parted_map.2 h.parted
  refine ⟨?_, ?_, ?_⟩
  · refine errors_of_chain_refused h.listText_spells (by simp [listText]) rfl
      (fun c hc => (primary_refused rfl hc fun c₁ hc₁ => ?_).bind) again
    exact group_list_refused hrefuse hi (hparted _) (hrejected _) h.values hc₁
  · refine errors_of_chain_refused h.dictText_spells (by simp [dictText]) rfl
      (fun c hc => (primary_refused rfl hc fun c₁ hc₁ => ?_).bind) again
    exact group_dict_refused hrefuse hi (hparted _) (hrejected _) h.entries hc₁
  · refine errors_of_chain_refused (h.indexText_spells hname hword) (head_indexText hname) rfl
      (fun c hc => ?_) again
    exact chain_index_refused hi hrefuse hloop (hparted _) (hrejected _) h.values hc

end Readable
end Row

namespace Grammar

theorem loopOfName?_eq_none {name : String} (hw : name ≠ "W") (hn : name ≠ "N") :
    loopOfName? name = none := by
  unfold loopOfName?
  split
  · exact absurd rfl hw
  · exact absurd rfl hn
  · rfl

/-- Separators are accepted exactly. Items in a row are read in each of the three forms if no
filler has more semicolons than it may have, and if one of them has, then none of the forms is. -/
theorem parse_row (r : Row Item) (name : String) (again : Bool) (hreadable : r.Readable)
    (hname : Name.WellFormed name.toList) (hword : wordKind name = .identifier name)
    (hw : name ≠ "W") (hn : name ≠ "N") :
    (r.Accepted → r.IsRead name again) ∧ (¬r.Accepted → r.IsFaulty name again) := by
  have hloop := loopOfName?_eq_none hw hn
  constructor
  · intro haccepted
    exact hreadable.isRead hname hword hloop haccepted again
  · intro hrejected
    exact hreadable.isFaulty hname hword hloop hrejected again

/-- An item twice, with a semicolon between line feeds. -/
def twice (i : Item) (closing : Filler) : Row Item :=
  ⟨⟨none, []⟩, i, [(⟨some ⟨['\n'], .single⟩, [some ⟨['\n'], .single⟩]⟩, i)], closing⟩

/-- A number is an expression of a program, and there is nothing inside it. -/
theorem exists_number :
    ∃ e : Expr, e.OccursIn (parse "7" false).program ∧ e.text .compact = "7" ∧
      e.isEntry = false ∧ e.levels ≤ 1 := by
  have hread : (parse "7" false).program.statements.any (fun s => s.expression?.any fun e =>
      e.text .compact == "7" && !e.isEntry && e.operands.isEmpty && e.nested.isEmpty) = true := by
    decide +kernel
  obtain ⟨e, hs, ⟨⟨htext, hentry⟩, hoperands⟩, hnested⟩ :
      ∃ e, .expression e ∈ (parse "7" false).program.statements ∧
        ((e.text .compact = "7" ∧ e.isEntry = false) ∧ e.operands = []) ∧ e.nested = [] := by
    obtain ⟨s, hs, hnumber⟩ := List.any_eq_true.1 hread
    cases s with
    | magic => cases hnumber
    | expression e => exact ⟨e, hs, by simpa [Statement.expression?] using hnumber⟩
  have hlevels : e.levels ≤ 1 :=
    Expr.levels_le_iff.2 ⟨by simp [hoperands], by simp [hnested], le_rfl⟩
  exact ⟨e, ⟨e, hs, 0, .refl e⟩, htext, hentry, hlevels⟩

/-- A number twice, with one semicolon or two at the end. -/
theorem parse_row_number :
    ∃ e : Expr, e.OccursIn (parse "7" false).program ∧
      (parse "(7\n;\n7;)" true).IsExpression (.list default [e, e]) ∧
        (parse "(7\n;\n7;;)" true).errors ≠ [] := by
  obtain ⟨e, hoccurs, htext, hentry, hlevels⟩ := exists_number
  have hstart : Name.isStart 'k' = true := by decide +kernel
  have hkey : Name.WellFormed "k".toList :=
    ⟨⟨'k', rfl, hstart⟩, by simpa using Name.isContinue_of_isStart hstart⟩
  obtain ⟨i, hi, hvalue, htext⟩ : ∃ i : Item, i.Readable ∧ i.value = e ∧ i.text = ['7'] := by
    have hitem : Item.Readable ⟨"k", e, .compact⟩ :=
      ⟨hkey, ⟨_, _, hoccurs⟩, hlevels.trans_lt (by decide)⟩
    exact ⟨_, hitem, rfl, by simp [Item.text, htext]⟩
  have hreadable (closing : Filler) : (twice i closing).Readable :=
    ⟨by simp [twice, Row.Parted, Filler.isEmpty], by simpa [twice, Row.items] using hi⟩
  have hrow (closing : Filler) :
      (twice i closing).listText = "(7\n;\n7".toList ++ (closing.text ++ [')']) := by
    simp [twice, Row.listText, Row.text, Row.behind, htext, Filler.text, Feeds.text]
  have hparse (closing : Filler) := parse_row (twice i closing) "k" true (hreadable closing) hkey
    (by decide +kernel) (by decide) (by decide)
  refine ⟨e, hoccurs, ?_, ?_⟩
  · have hread := ((hparse ⟨none, [none]⟩).1 ⟨rfl, by simp [twice], by simp [twice]⟩).list
      (by rw [twice, hvalue]; exact hentry)
    rw [hrow] at hread
    simp only [twice, Row.items, List.map_cons, List.map_nil, hvalue] at hread
    exact hread
  · have hrejected (h : (twice i ⟨none, [none, none]⟩).Accepted) : False :=
      absurd h.closing (by simp [twice])
    have hfaulty := ((hparse _).2 hrejected).list
    rw [hrow] at hfaulty
    exact hfaulty

end Grammar
end WqSource
