import WqSource.Proofs.Complete.Spelling

/-!
# What stands between items

Between items, and around them, there may be line feeds and semicolons. As line feeds run
together, a filler is semicolons, each perhaps with line feeds behind it, and perhaps line feeds in
front of the first. With one semicolon at most, and not empty, it is one of the five separators
there are: line feeds, a semicolon, or a semicolon with line feeds in front, behind, or on both
sides.

A row is items with fillers between them and around them. What its items and its fillers are
written with makes up its text and its tokens.

## Main definitions

* `Feeds`, `Filler`: line feeds and semicolons.
* `Row`: items with fillers.
* `Row.Accepted`: where every filler is what it may be.

## Main statements

* `Row.spells`: the text of a row spells its tokens.
-/

namespace WqSource

/-- Line feeds, with blank lines and comment lines among them. -/
structure Feeds where
  chars : List Char
  feeds : LineFeeds chars

/-- Line feeds and semicolons. -/
structure Filler where
  /-- The line feeds in front of the first semicolon. -/
  front : Option Feeds
  /-- The semicolons, by the line feeds behind them. -/
  semicolons : List (Option Feeds)

/-- The text of line feeds, if there are any. -/
def Feeds.text (feeds : Option Feeds) : List Char := feeds.elim [] Feeds.chars

/-- The token of line feeds, if there are any. -/
def Feeds.kinds (feeds : Option Feeds) : List Token.Kind := feeds.elim [] fun _ => [.newline]

namespace Filler

/-- The text of a filler. -/
def text (f : Filler) : List Char :=
  Feeds.text f.front ++ f.semicolons.flatMap fun feeds => ';' :: Feeds.text feeds

/-- The tokens of semicolons with line feeds behind them. -/
def semicolonKinds (semicolons : List (Option Feeds)) : List Token.Kind :=
  semicolons.flatMap fun feeds => .punct .semicolon :: Feeds.kinds feeds

/-- The tokens of a filler. -/
def kinds (f : Filler) : List Token.Kind := Feeds.kinds f.front ++ semicolonKinds f.semicolons

/-- Whether nothing is there. -/
def isEmpty (f : Filler) : Bool := f.front.isNone && f.semicolons.isEmpty

theorem kinds_of_isEmpty {f : Filler} (h : f.isEmpty = true) : f.kinds = [] := by
  obtain ⟨front, semicolons⟩ := f
  cases front <;> cases semicolons <;> first | rfl | cases h

end Filler

/-- Items with fillers between them, in front of them and behind them. -/
structure Row (α : Type) where
  opening : Filler
  first : α
  more : List (Filler × α)
  closing : Filler

namespace Row
variable {α γ : Type}

/-- The items of a row. -/
def items (r : Row α) : List α := r.first :: r.more.map Prod.snd

/-- What is behind the first item, if items and fillers are written as given. -/
def behind (fill : Filler → List γ) (write : α → List γ) (more : List (Filler × α))
    (closing : Filler) : List γ :=
  more.flatMap (fun next => fill next.1 ++ write next.2) ++ fill closing

/-- The text of a row, from the texts of its items. -/
def text (write : α → List Char) (r : Row α) : List Char :=
  r.opening.text ++ (write r.first ++ behind Filler.text write r.more r.closing)

/-- The tokens of a row, from the tokens of its items. -/
def kinds (write : α → List Token.Kind) (r : Row α) : List Token.Kind :=
  r.opening.kinds ++ (write r.first ++ behind Filler.kinds write r.more r.closing)

theorem behind_cons (fill : Filler → List γ) (write : α → List γ) (next : Filler × α)
    (more : List (Filler × α)) (closing : Filler) (tail : List γ) :
    behind fill write (next :: more) closing ++ tail =
      fill next.1 ++ (write next.2 ++ (behind fill write more closing ++ tail)) := by
  simp only [behind, List.flatMap_cons, List.append_assoc]

theorem kinds_append (write : α → List Token.Kind) (r : Row α) (ks : List Token.Kind) :
    r.kinds write ++ ks =
      r.opening.kinds ++ (write r.first ++ (behind Filler.kinds write r.more r.closing ++ ks)) := by
  simp only [kinds, List.append_assoc]

/-- Between every two items there is something. -/
def Parted (r : Row α) : Prop := ∀ next ∈ r.more, next.1.isEmpty = false

/-- No filler has more semicolons than it may have: one between two items or behind the last one,
and none in front of the first. -/
structure Accepted (r : Row α) : Prop where
  opening : r.opening.semicolons = []
  more : ∀ next ∈ r.more, next.1.semicolons.length ≤ 1
  closing : r.closing.semicolons.length ≤ 1

/-- A row without the line feeds that are first. -/
def skipped (r : Row α) : Row α := { r with opening := ⟨none, r.opening.semicolons⟩ }

theorem skipped_accepted {r : Row α} : r.skipped.Accepted ↔ r.Accepted :=
  ⟨fun h => ⟨h.opening, h.more, h.closing⟩, fun h => ⟨h.opening, h.more, h.closing⟩⟩

/-- A row that is accepted begins with its first item then. -/
theorem kinds_skipped {r : Row α} (h : r.opening.semicolons = []) (write : α → List Token.Kind)
    (ks : List Token.Kind) :
    r.skipped.kinds write ++ ks =
      write r.first ++ (behind Filler.kinds write r.more r.closing ++ ks) := by
  rw [kinds_append, Filler.kinds, skipped, h]
  rfl

/-! ### Rows of what items are mapped to -/

variable {β : Type} {f : α → β} {r : Row α}

/-- The row of what the items are mapped to. -/
def map (f : α → β) (r : Row α) : Row β :=
  ⟨r.opening, f r.first, r.more.map fun next => (next.1, f next.2), r.closing⟩

theorem items_map (f : α → β) (r : Row α) : (r.map f).items = r.items.map f := by
  simp [items, map, Function.comp_def]

theorem kinds_map (f : α → β) (w : β → List Token.Kind) (r : Row α) :
    (r.map f).kinds w = r.kinds (w ∘ f) := by
  simp [kinds, behind, map, List.flatMap_map]

theorem parted_map : (r.map f).Parted ↔ r.Parted := List.forall_mem_map

theorem accepted_map : (r.map f).Accepted ↔ r.Accepted :=
  ⟨fun h => ⟨h.opening, List.forall_mem_map.1 h.more, h.closing⟩,
    fun h => ⟨h.opening, List.forall_mem_map.2 h.more, h.closing⟩⟩

end Row

variable {rest : List Char}

/-! ## Fillers -/

theorem Feeds.spells (feeds : Option Feeds) (h : Begins rest) :
    Spells rest (text feeds) (kinds feeds) := by
  cases feeds with
  | none => exact .nil
  | some feeds => exact .token (.newline feeds.feeds) h.newline_endsBefore nofun

theorem begins_semicolons (semicolons : List (Option Feeds)) (h : Begins rest) :
    Begins (semicolons.flatMap (fun feeds => ';' :: Feeds.text feeds) ++ rest) := by
  cases semicolons with
  | nil => exact h
  | cons feeds semicolons => exact begins_mark (by decide) (by decide) (by decide)

theorem semicolons_spells (semicolons : List (Option Feeds)) (h : Begins rest) :
    Spells rest (semicolons.flatMap fun feeds => ';' :: Feeds.text feeds)
      (Filler.semicolonKinds semicolons) := by
  induction semicolons with
  | nil => exact .nil
  | cons feeds semicolons ih =>
    have hfeeds := (Feeds.spells feeds (begins_semicolons semicolons h)).append ih
    exact (Spells.punct (p := .semicolon) trivial).append hfeeds

/-- A filler spells its tokens in front of what line feeds do not run on into. -/
theorem Filler.spells (f : Filler) (h : Begins rest) : Spells rest f.text f.kinds :=
  (Feeds.spells f.front (begins_semicolons f.semicolons h)).append
    (semicolons_spells f.semicolons h)

/-- An expression may stand in front of a filler that is not empty. -/
theorem Filler.closes (f : Filler) (h : f.isEmpty = true → Closes rest) :
    Closes (f.text ++ rest) := by
  obtain ⟨front, semicolons⟩ := f
  cases front with
  | some feeds =>
    obtain ⟨tail, hchars⟩ := feeds.feeds.head
    have htext : Feeds.text (some feeds) = '\n' :: tail := hchars
    rw [text, htext]
    exact closes_cons (by decide)
  | none =>
    cases semicolons with
    | nil => exact h rfl
    | cons feeds semicolons => exact closes_cons (by decide)

/-! ## Rows -/

namespace Row
variable {α : Type} {write : α → List Char} {kind : α → List Token.Kind}

theorem behind_closes {more : List (Filler × α)} (closing : Filler)
    (hparted : ∀ next ∈ more, next.1.isEmpty = false) (hrest : Closes rest) :
    Closes (behind Filler.text write more closing ++ rest) := by
  cases more with
  | nil => exact closing.closes fun _ => hrest
  | cons next more =>
    rw [behind_cons]
    refine next.1.closes fun hempty => ?_
    rw [hparted next (by simp)] at hempty
    cases hempty

/-- What is behind the first item spells its tokens. -/
theorem behind_spells {more : List (Filler × α)} (closing : Filler)
    (hparted : ∀ next ∈ more, next.1.isEmpty = false)
    (hpart : ∀ next ∈ more, Part (write next.2) (kind next.2)) (hbegins : Begins rest)
    (hcloses : Closes rest) :
    Spells rest (behind Filler.text write more closing)
      (behind Filler.kinds kind more closing) := by
  induction more with
  | nil => exact closing.spells hbegins
  | cons next more ih =>
    obtain ⟨-, hparted'⟩ := List.forall_mem_cons.1 hparted
    obtain ⟨hnext, hpart'⟩ := List.forall_mem_cons.1 hpart
    have hitem := (hnext.spells _ (behind_closes closing hparted' hcloses)).append
      (ih hparted' hpart')
    have hfiller := (next.1.spells (hnext.begins.append.append)).append hitem
    simpa only [behind, List.flatMap_cons, List.append_assoc] using hfiller

/-- A row of parts spells its tokens. -/
theorem spells {r : Row α} (hparted : r.Parted) (hpart : ∀ a ∈ r.items, Part (write a) (kind a))
    (hbegins : Begins rest) (hcloses : Closes rest) :
    Spells rest (r.text write) (r.kinds kind) := by
  obtain ⟨hfirst, hmore⟩ := List.forall_mem_cons.1 hpart
  have hnext : ∀ next ∈ r.more, Part (write next.2) (kind next.2) :=
    fun next hnext => hmore _ (List.mem_map_of_mem hnext)
  have hitems := (hfirst.spells _ (behind_closes r.closing hparted hcloses)).append
    (behind_spells r.closing hparted hnext hbegins hcloses)
  exact (r.opening.spells hfirst.begins.append.append).append hitems

/-- A row between brackets spells its tokens and theirs. -/
theorem enclosed_spells {o c : Punct} {r : Row α} (hparted : r.Parted)
    (hpart : ∀ a ∈ r.items, Part (write a) (kind a))
    (ho : ∀ rest, (Token.Kind.punct o).EndsBefore rest) {mark : Char}
    (hc : c.spelling.toList = [mark])
    (hmark : mark ∈ marks ∧ mark ≠ '.' ∧ mark ≠ '/' ∧ mark ≠ '\n') :
    Spells [] (o.spelling.toList ++ (r.text write ++ [mark]))
      (.punct o :: (r.kinds kind ++ [.punct c])) := by
  have hclosing : Spells [] [mark] [.punct c] := by
    rw [← hc]
    exact .punct Token.Kind.endsBefore_nil
  have hbegins : Begins [mark] := begins_mark hmark.1 hmark.2.2.1 hmark.2.2.2
  have hrow := spells hparted hpart hbegins (closes_cons ⟨hmark.1, hmark.2.1⟩)
  rw [← List.append_nil [mark]] at hrow
  exact (Spells.punct (ho _)).append (hrow.append hclosing)

end Row
end WqSource
