import WqSource.Proofs.Token.Place

/-!
# Reads one behind the other

A lexer can be asked for tokens for as long as one likes, also behind a read that failed. What
such a run of reads is like follows from what one read does: it takes characters, and then it has
come further in the text, or it takes nothing but trivia, and then it says the same again and
again. There is no third way, so a run never reads a text twice and never skips one.

## Main definitions

* `Lexer.behind`, `Lexer.read`: the lexer behind a number of reads, and what it reads.
* `Lexer.StandsBehind`: where a lexer stands, as it is counted.
* `Lexer.Advances`: how the reads of a text go on.

## Main statements

* `Lexer.next_again`, `Lexer.next_moves`, `Lexer.reported_next`: one read.
* `Lexer.read_advances`: all reads.
-/

namespace WqSource

/-- What no token begins with, no line for the host begins with. -/
theorem scan_illegal_again {hostLine : Bool} {cs : List Char} {c : Char}
    (h : scan hostLine cs = .illegal c) : scan false cs = .illegal c := by
  cases hostLine with
  | false => exact h
  | true =>
    unfold scan at h ⊢
    split at h
    · cases h
    · split at h <;> simp_all

/-- Characters that are taken in vain begin a token. -/
theorem scan_fault_ne {hostLine : Bool} {cs taken : List Char} {fault : LexFault}
    (h : scan hostLine cs = .read taken (.error fault)) (c : Char) :
    fault ≠ .illegalCharacter c := by
  rintro rfl
  cases scan_cases h with
  | number _ hnumber =>
    cases hnumber with
    | integer _ _ _ _ hfault => cases integerOf_error hfault
    | float _ _ _ _ hfault => cases floatOf_error hfault

namespace Lexer
variable {l : Lexer} {source : String}

/-- The lexer behind a number of reads, whether they succeed or fail. -/
def behind (l : Lexer) : Nat → Lexer
  | 0 => l
  | count + 1 => (l.behind count).next.2

/-- What is read behind a number of reads. -/
def read (l : Lexer) (count : Nat) : Except LexError Token := (l.behind count).next.1

theorem behind_next (l : Lexer) (count : Nat) : l.next.2.behind count = l.behind (count + 1) := by
  induction count with
  | zero => rfl
  | succ count ih => exact congrArg (·.next.2) ih

/-- The reads in a row are the reads one by one. -/
theorem steps_eq_map (l : Lexer) (count : Nat) : l.steps count = (List.range count).map l.read := by
  induction count generalizing l with
  | zero => rfl
  | succ count ih =>
    have htail : l.next.2.read = l.read ∘ Nat.succ := by
      funext i
      rw [read, behind_next]
      rfl
    rw [steps, ih, htail, List.range_succ_eq_map, List.map_cons, List.map_map]
    rfl

/-- The stretch of text that a read is about. -/
def reported : Except LexError Token → Span
  | .ok t => t.span
  | .error e => e.span

/-! ## One read -/

theorem trivia_skipTrivia (l : Lexer) : trivia l.skipTrivia.rest = [] :=
  (isGap_trivia (trivia_append_drop l.rest).symm).2

theorem skipTrivia_of_trivia (h : trivia l.rest = []) : l.skipTrivia = l := by
  rw [skipTrivia, h]
  rfl

/-- A last read stays in front of what it reads, and reads it again. -/
theorem next_again (h : isLast l.next.1 = true) : l.next.2.next = l.next := by
  have hshebang : l.shebang? = none := by
    cases hline : l.shebang? with
    | none => rfl
    | some line =>
      rw [(next_of_shebang hline).1] at h
      cases h
  have htrivia := trivia_skipTrivia l
  rw [next_of_shebang_eq_none hshebang] at h ⊢
  generalize l.skipTrivia = m at *
  -- A shebang line begins with a number sign, and that is read as what it is.
  have again (m' : Lexer) (hrest : m'.rest = m.rest)
      (hsign : scan m.atHostLine m.rest ≠ .read ['#'] (.ok (.punct .hash))) :
      m'.next = m'.nextAt := by
    have hnone : m'.shebang? = none := shebang?_eq_none_of_rest fun tail htail => by
      rw [← hrest, htail] at hsign
      exact hsign rfl
    rw [next_of_shebang_eq_none hnone, skipTrivia_of_trivia (by rw [hrest, htrivia])]
  cases hscan : scan m.atHostLine m.rest with
  | finished =>
    have hnext : m.nextAt = (.ok (.ending m.position), m) := by simp only [nextAt, hscan]
    rw [hnext, again m rfl (by rw [hscan]; simp), hnext]
  | illegal c =>
    have hnext : m.nextAt =
        (.error ⟨.illegalCharacter c, ⟨m.position, m.position.step c⟩⟩,
          { m with lineStart := false }) := by
      simp only [nextAt, hscan]
    have hscan' : scan false m.rest = .illegal c := scan_illegal_again hscan
    rw [hnext]
    refine (again { m with lineStart := false } rfl (by rw [hscan]; simp)).trans ?_
    simp only [nextAt, atHostLine, Bool.false_and, hscan']
  | read taken outcome =>
    -- What takes characters is not the last read.
    simp only [nextAt, hscan] at h
    cases outcome with
    | ok kind =>
      have hend : kind = .endOfInput := by simpa [isLast] using h
      rw [hend] at hscan
      exact absurd (scan_valid hscan).1 id
    | error fault =>
      cases fault with
      | illegalCharacter c => exact absurd rfl (scan_fault_ne hscan c)
      | _ => cases h

/-- Every other read takes characters. -/
theorem next_moves (h : isLast l.next.1 = false) : ∃ taken ≠ [], l.LeadsTo taken l.next.2 := by
  obtain ⟨taken, hleads⟩ := (next_extent l).leadsTo
  refine ⟨taken, ?_, hleads⟩
  rintro rfl
  have hlt := next_rest_lt h
  rw [hleads.rest] at hlt
  exact absurd hlt (by simp)

/-- What a read is about lies between the lexers in front of it and behind it. -/
theorem reported_next (l : Lexer) :
    l.position.offset ≤ (reported l.next.1).start.offset ∧
      (reported l.next.1).start.offset ≤ l.next.2.position.offset := by
  cases h : l.next.1 with
  | ok t =>
    have hreads := next_reads (Prod.ext h rfl)
    exact ⟨hreads.le_start, hreads.start_le⟩
  | error e => exact (next_error h).2

/-! ## All reads -/

/-- The lexer stands behind the given front of the text, and its place is what counting the
characters of that gives. -/
structure StandsBehind (source : String) (front : List Char) (l : Lexer) : Prop where
  text : source.toList = front ++ l.rest
  offset : l.position.offset = byteLength front
  line : l.position.line = 1 + front.count '\n'
  column : l.position.column = 1 + (front.reverse.takeWhile (· ≠ '\n')).length

theorem standsBehind {front : List Char} (h : (ofString source).LeadsTo front l) :
    l.StandsBehind source front := by
  obtain ⟨hline, hcolumn⟩ := Position.line_column_after front
  refine ⟨h.rest, ?_, ?_, ?_⟩
  · rw [h.position]
    exact Position.offset_after_start front
  · rw [h.position]
    exact hline
  · rw [h.position]
    exact hcolumn

theorem behind_inText (source : String) (count : Nat) :
    ((ofString source).behind count).InText source := by
  induction count with
  | zero => exact inText_ofString source
  | succ count ih => exact ih.next

/-- Behind a last read everything stays as it is. -/
theorem next_behind_of_isLast {i j : Nat} (hij : i ≤ j) (h : isLast (l.read i) = true) :
    (l.behind j).next = (l.behind i).next := by
  induction j, hij using Nat.le_induction with
  | base => rfl
  | succ j _ ih =>
    have hlast : isLast (l.behind j).next.1 = true := by
      rw [ih]
      exact h
    rw [behind, next_again hlast, ih]

theorem offset_behind_le {i j : Nat} (hij : i ≤ j) :
    (l.behind i).position.offset ≤ (l.behind j).position.offset := by
  induction j, hij using Nat.le_induction with
  | base => exact Nat.le_refl _
  | succ j _ ih =>
    obtain ⟨hle, hle'⟩ := reported_next (l.behind j)
    exact ih.trans (hle.trans hle')

/-- How the reads of a text go on, however many there are. -/
structure Advances (source : String) : Prop where
  /-- The end of the text is read again and again, and so is what no token begins with. -/
  stays : ∀ i j, i ≤ j → isLast ((ofString source).read i) = true →
    (ofString source).read j = (ofString source).read i
  /-- Every other read takes characters, and takes them behind those of the reads before. -/
  moves : ∀ i, isLast ((ofString source).read i) = false → ∃ front taken, taken ≠ [] ∧
    ((ofString source).behind i).StandsBehind source front ∧
      ((ofString source).behind (i + 1)).StandsBehind source (front ++ taken)
  /-- What is read is never in front of what was read before. -/
  ordered : ∀ i j, i ≤ j → (reported ((ofString source).read i)).start.offset ≤
    (reported ((ofString source).read j)).start.offset
  /-- The lexer always knows where it is. -/
  place : ∀ i, ∃ front, ((ofString source).behind i).StandsBehind source front

theorem read_advances (source : String) : Advances source where
  stays i j hij h := congrArg Prod.fst (next_behind_of_isLast hij h)
  moves i h := by
    obtain ⟨front, hfront⟩ := behind_inText source i
    obtain ⟨taken, hne, htaken⟩ := next_moves h
    exact ⟨front, taken, hne, standsBehind hfront, standsBehind (hfront.trans htaken)⟩
  ordered i j hij := by
    rcases Nat.eq_or_lt_of_le hij with rfl | hlt
    · exact Nat.le_refl _
    · have hfirst := (reported_next ((ofString source).behind i)).2
      have hsecond := (reported_next ((ofString source).behind j)).1
      exact hfirst.trans ((offset_behind_le hlt).trans hsecond)
  place i := by
    obtain ⟨front, hfront⟩ := behind_inText source i
    exact ⟨front, standsBehind hfront⟩

end Lexer
end WqSource
