import WqSource.Proofs.Grammar.Contract
import WqSource.Proofs.Spans.Node
import WqSource.Proofs.Token.Extent

/-!
# What is read between two cursors

Tokens stand in a text one behind the other, so that what one parser reads and what the next
one reads are in order. `Cursor.Lays` says that of the nodes that are read between two cursors.
A node that is all there is between them begins with the first token and ends with the last one:
`Cursor.Yields`.

## Main definitions

* `TokenStream.Placed`, `Cursor.Placed`: tokens one behind the other, in a text so long.
* `Cursor.Lays`, `Cursor.Yields`: nodes between two cursors.

## Main statements

* `Cursor.Placed.reaches`: whatever a parser does, it does not go back.
* `Cursor.Placed.yields`, `Cursor.Yields.pair`, `Cursor.Lays.yields`: how expressions get their
  spans.
-/

namespace WqSource

/-! ## Tokens in a text -/

/-- The tokens ahead stand one behind the other, from the given byte on and up to byte `n`. -/
def TokenStream.Placed (n : Nat) : Nat → TokenStream → Prop
  | first, ended place => first ≤ place.offset ∧ place.offset ≤ n
  | _, stuck _ => True
  | first, token t rest =>
    first ≤ t.span.start.offset ∧ t.span.start.offset < t.span.stop.offset ∧
      t.span.stop.offset ≤ n ∧ rest.Placed n t.span.stop.offset
  | first, fault _ rest => rest.Placed n first

theorem TokenStream.Placed.mono {n a b : Nat} {s : TokenStream} (h : s.Placed n b)
    (hab : a ≤ b) : s.Placed n a := by
  induction s generalizing a b with
  | ended => exact ⟨Nat.le_trans hab h.1, h.2⟩
  | stuck => trivial
  | token => exact ⟨Nat.le_trans hab h.1, h.2⟩
  | fault _ _ ih => exact ih h hab

namespace Lexer
variable {l l' : Lexer} {taken : List Char}

/-- The length of the text does not change while it is read. -/
theorem LeadsTo.length (h : l.LeadsTo taken l') :
    l'.position.offset + byteLength l'.rest = l.position.offset + byteLength l.rest := by
  rw [h.position, h.rest, Position.offset_after, byteLength_append, Nat.add_assoc]

theorem LeadsTo.le (h : l.LeadsTo taken l') : l.position.offset ≤ l'.position.offset := by
  rw [h.position]
  exact Position.offset_le_after _ _

theorem stream_placed {n : Nat} (h : l.position.offset + byteLength l.rest = n) :
    l.stream.Placed n l.position.offset := by
  fun_induction stream l with
  | case1 l t ht hk =>
    obtain ⟨taken, hleads⟩ := (next_extent l).leadsTo
    have hreads : l.Reads t l.next.2 := next_reads (by rw [← ht])
    have hlength := hleads.length
    have hle := hreads.start_le
    exact ⟨hreads.le_start, by omega⟩
  | case2 l t ht hk ih =>
    obtain ⟨⟨taken, hleads⟩, hstop, hnonempty⟩ := next_extent l
    have hreads : l.Reads t l.next.2 := next_reads (by rw [← ht])
    have hlength := hleads.length
    refine ⟨hreads.le_start, hnonempty t ht hk, ?_, ?_⟩
    · rw [hstop t ht]
      omega
    · rw [hstop t ht]
      exact ih (by omega)
  | case3 => trivial
  | case4 l e he hs ih =>
    obtain ⟨taken, hleads⟩ := (next_extent l).leadsTo
    have hlength := hleads.length
    exact (ih (by omega)).mono hleads.le

end Lexer

namespace Cursor
variable {n : Nat} {c c₁ c₂ c' : Cursor} {x y : Node} {xs ys : List Node}

/-- The current token stands behind those taken, and the tokens ahead stand behind it. -/
structure Placed (n : Nat) (c : Cursor) : Prop where
  behind : c.lastEnd.offset ≤ c.current.span.start.offset
  nonempty : c.atEnd = false → c.current.span.start.offset < c.current.span.stop.offset
  ordered : c.current.span.start.offset ≤ c.current.span.stop.offset
  inside : c.current.span.stop.offset ≤ n
  ahead : c.ahead.Placed n c.current.span.stop.offset

theorem placed_ofString {source : String} (h : Cursor.ofString source = .ok c) :
    c.Placed source.utf8ByteSize := by
  have hlength : (Lexer.ofString source).position.offset + byteLength (Lexer.ofString source).rest =
      source.utf8ByteSize := by
    simp [Lexer.ofString, byteLength, Position.start]
  have hstream := Lexer.stream_placed hlength
  unfold Cursor.ofString at h
  generalize (Lexer.ofString source).stream = s at h hstream
  cases s with
  | ended place =>
    cases h
    exact ⟨Nat.zero_le _, by simp [atEnd, Token.ending], Nat.le_refl _, hstream.2,
      Nat.le_refl _, hstream.2⟩
  | token t rest =>
    cases h
    exact ⟨Nat.zero_le _, fun _ => hstream.2.1, Nat.le_of_lt hstream.2.1, hstream.2.2.1,
      hstream.2.2.2⟩
  | stuck | fault => cases h

namespace Placed

theorem note (h : c.Placed n) (p : Problem) : (c.note p).Placed n :=
  ⟨h.behind, h.nonempty, h.ordered, h.inside, h.ahead⟩

/-- Taking a token leads behind it. -/
theorem take (h : c.Placed n) {t : Token} (ht : c.take = (.ok t, c')) :
    c'.Placed n ∧ c'.lastEnd = c.current.span.stop := by
  obtain ⟨-, next, ahead, hn, rfl⟩ := take_ok ht
  refine ⟨?_, rfl⟩
  have hahead := h.ahead
  cases hs : c.ahead with
  | ended place =>
    rw [hs] at hn hahead
    cases hn
    exact ⟨hahead.1, by simp [atEnd, shift, Token.ending], Nat.le_refl _, hahead.2,
      Nat.le_refl _, hahead.2⟩
  | token u rest =>
    rw [hs] at hn hahead
    cases hn
    exact ⟨hahead.1, fun _ => hahead.2.1, Nat.le_of_lt hahead.2.1, hahead.2.2.1, hahead.2.2.2⟩
  | stuck | fault =>
    rw [hs] at hn
    cases hn

/-- Dropping a fault changes nothing. -/
theorem drop (h : c.Placed n) {e : LexError} {ahead : TokenStream}
    (hn : c.ahead.next = (.error e, ahead)) : { c with ahead := ahead }.Placed n := by
  refine ⟨h.behind, h.nonempty, h.ordered, h.inside, ?_⟩
  have hahead := h.ahead
  cases hs : c.ahead <;> rw [hs] at hn hahead <;> cases hn <;> exact hahead

end Placed

/-! ## Nodes between two cursors -/

/-- Between the two cursors the given nodes stand in a row. -/
structure Lays (n : Nat) (c : Cursor) (xs : List Node) (c' : Cursor) : Prop where
  laid : Laid c.lastEnd.offset xs c'.lastEnd.offset
  placed : c'.Placed n

/-- A node is all there is between the two cursors. -/
structure Yields (n : Nat) (c : Cursor) (x : Node) (c' : Cursor) : Prop where
  start : x.span.start = c.current.span.start
  stop : x.span.stop = c'.lastEnd
  nested : x.Nested
  placed : c'.Placed n

theorem Lays.refl (h : c.Placed n) : c.Lays n [] c := ⟨Nat.le_refl _, h⟩

theorem Lays.trans (h : c.Lays n xs c₁) (h' : c₁.Lays n ys c₂) : c.Lays n (xs ++ ys) c₂ :=
  ⟨h.laid.append h'.laid, h'.placed⟩

theorem Yields.lays (hc : c.Placed n) (h : c.Yields n x c') : c.Lays n [x] c' := by
  refine ⟨.single h.nested ?_ ?_, h.placed⟩
  · rw [Node.start, h.start]
    exact hc.behind
  · rw [Node.stop, h.stop]

theorem Placed.lays_take (h : c.Placed n) {t : Token} (ht : c.take = (.ok t, c')) :
    c.Lays n [] c' := by
  obtain ⟨hplaced, hlast⟩ := h.take ht
  have hbehind := h.behind
  have hordered := h.ordered
  refine ⟨?_, hplaced⟩
  rw [Laid, hlast]
  omega

/-- Whatever a parser does, it does not go back. -/
theorem Placed.reaches (h : c.Placed n) (hr : c.Reaches c') : c.Lays n [] c' := by
  induction hr with
  | refl => exact .refl h
  | @take c₁ _ ih =>
    cases ht : c₁.take with
    | mk r c₂ =>
      cases r with
      | ok t => exact ih.trans (ih.placed.lays_take ht)
      | error e =>
        unfold Cursor.take at ht
        split at ht <;> cases ht
        next hn => exact ⟨ih.laid, ih.placed.drop hn⟩
  | @peek c₁ _ ih =>
    unfold Cursor.peek
    split
    · exact ih
    · next hn => exact ⟨ih.laid, ih.placed.drop hn⟩
  | note p _ ih => exact ⟨ih.laid, ih.placed.note p⟩

/-- A row may begin where something else has been passed. -/
theorem Lays.behind (h : c.Lays n [] c₁) (h' : c₁.Lays n xs c₂) : c.Lays n xs c₂ := h.trans h'

/-- A row may end in front of something else that is passed. -/
theorem Lays.before (h : c.Lays n xs c₁) (h' : c₁.Lays n [] c₂) : c.Lays n xs c₂ := by
  simpa using h.trans h'

/-! ## Expressions -/

variable {e : Expr}

theorem Yields.of_laid (hstart : e.span.start = c.current.span.start)
    (hstop : e.span.stop = c'.lastEnd) (hlt : e.span.start.offset < e.span.stop.offset)
    (h : Laid e.span.start.offset e.parts e.span.stop.offset) (hc : c'.Placed n) :
    c.Yields n (.expression e) c' :=
  ⟨hstart, hstop, Node.nested_of_laid hlt h (by simp), hc⟩

/-- An expression from a token through the last one taken has for parts what is read behind
that token. -/
theorem Placed.yields (hc : c.Placed n) (ht : c.take = (.ok c.current, c₁))
    (hend : c.atEnd = false) (h : c₁.Lays n e.parts c')
    (hspan : e.span = ⟨c.current.span.start, c'.lastEnd⟩) : c.Yields n (.expression e) c' := by
  obtain ⟨-, hlast⟩ := hc.take ht
  have hnonempty := hc.nonempty hend
  have hlaid := h.laid
  rw [hlast] at hlaid
  have hle := hlaid.le
  refine .of_laid (by rw [hspan]) (by rw [hspan]) ?_ ?_ h.placed
  · rw [hspan]
    exact Nat.lt_of_lt_of_le hnonempty hle
  · rw [hspan]
    exact hlaid.mono (Nat.le_of_lt hnonempty) (Nat.le_refl _)

/-- An expression without parts is a token. -/
theorem Placed.yields_token (hc : c.Placed n) (ht : c.take = (.ok c.current, c₁))
    (hend : c.atEnd = false) (hspan : e.span = c.current.span) (hparts : e.parts = []) :
    c.Yields n (.expression e) c₁ := by
  obtain ⟨hplaced, hlast⟩ := hc.take ht
  refine hc.yields ht hend ?_ (by rw [hspan, hlast])
  rw [hparts]
  exact .refl hplaced

/-- An expression from one part through another, with a token between them. -/
theorem Yields.pair {a b : Expr} (ha : c.Yields n (.expression a) c₁)
    (ht : c₁.take = (.ok c₁.current, c₂)) (hb : c₂.Yields n (.expression b) c')
    (hspan : e.span = a.span.merge b.span)
    (hparts : e.parts = [.expression a, .expression b]) : c.Yields n (.expression e) c' := by
  have hfirst := (Node.nested_iff.1 ha.nested).1.nonempty
  have hsecond := (Node.nested_iff.1 hb.nested).1.nonempty
  have hrow := (ha.placed.lays_take ht).behind (hb.lays (ha.placed.take ht).1)
  have hle : a.span.stop.offset ≤ b.span.start.offset := by
    have hlaid := hrow.laid.1
    rwa [← ha.stop] at hlaid
  have hmerge : e.span = ⟨a.span.start, b.span.stop⟩ := by
    rw [hspan]
    exact Span.merge_of_ordered (Nat.le_of_lt hfirst) hle hsecond
  refine .of_laid ?_ ?_ ?_ ?_ hb.placed
  · rw [hmerge]
    exact ha.start
  · rw [hmerge]
    exact hb.stop
  · rw [hmerge]
    exact Nat.lt_of_lt_of_le hfirst (Nat.le_trans hle (Nat.le_of_lt hsecond))
  · rw [hmerge, hparts]
    exact ⟨Nat.le_refl _, ha.nested, hle, hb.nested, Nat.le_refl _⟩

/-- An expression from its first part through the last token taken. -/
theorem Lays.yields {first : Expr} (h : c.Lays n (.expression first :: xs) c')
    (hstart : first.span.start = c.current.span.start)
    (hspan : e.span = ⟨first.span.start, c'.lastEnd⟩)
    (hparts : e.parts = .expression first :: xs) : c.Yields n (.expression e) c' := by
  have hrow := h.laid.from_first
  have hfirst := (Node.nested_iff.1 hrow.2.1).1.nonempty
  refine .of_laid ?_ (by rw [hspan]) ?_ ?_ h.placed
  · rw [hspan]
    exact hstart
  · rw [hspan]
    exact Nat.lt_of_lt_of_le hfirst hrow.2.2.le
  · rw [hspan, hparts]
    exact hrow

end Cursor
end WqSource
