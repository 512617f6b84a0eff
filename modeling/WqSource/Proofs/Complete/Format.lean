import WqSource.Proofs.Command.Verdict
import WqSource.Proofs.Complete.Text
import WqSource.Proofs.Sound.Words

/-!
# Programs and their texts

Whatever a source is, the program that is read from it has tokens that a text can have. So its
text is read back as the program, in either layout. If the source has no errors, its text has
the words of the source.

A line for the host, and the shebang line, ends in front of the line feed; a carriage return
there belongs to the end of the line and is not read. One that is left in a payload, because
there were two, is therefore lost when the program is written and read again.

## Main definitions

* `Program.EndsPlainly`: whether no line for the host ends with a carriage return.

## Main statements

* `parse_text`: the text of a program is read back.
* `words_text`: the text of a program has the words of its source.
* `format_rereads`: what formatting keeps of lines for the host.
-/

namespace WqSource
open Grammar
open Token.Kind (tidied)

/-! ## What is read can be written -/

namespace Grammar

/-- The program of every source has tokens that a text can have. -/
theorem parse_writable (source : String) (recover : Bool) :
    (parse source recover).program.Writable := by
  have hregular := parse_regular source recover
  rw [parse_eq_read] at hregular ⊢
  unfold read at hregular ⊢
  split at hregular
  · exact ⟨hregular, nofun, nofun⟩
  · next c hc =>
    have hsayable : c.Each fun _ t => t.Sayable := Cursor.each_ofString (fun _ _ _ h => h.valid) hc
    exact ⟨hregular, program_valid recover (legal_ofString hc) hsayable,
      program_shebang recover hsayable⟩

end Grammar

/-! ## Reading back -/

theorem Statement.Regular.readBack {s : Statement} (hs : s.Regular) : s.readBack.Regular := by
  cases s with
  | expression e => exact hs
  | magic => trivial

/-- What a line for the host says to it. -/
def Statement.payload? : Statement → Option String
  | expression _ => none
  | magic _ payload => some payload

namespace Program
variable {p : Program} {tail : List Piece}

/-- A program that can be written is read from its text, but for what is not read back. -/
theorem Writable.rereads (h : p.Writable) (l : Layout) (htail : Piece.LastLine tail) :
    (parse (l.write (p.pieces ++ tail)) false).errors = [] ∧
      (parse (l.write (p.pieces ++ tail)) false).program.erase = p.readBack.erase := by
  obtain ⟨c, hc, hviews⟩ := Cursor.views_of_shows (h.shows l htail)
  refine parse_rereads ?_ htail.kinds hc hviews
  intro s hs
  obtain ⟨t, ht, rfl⟩ := List.mem_map.1 hs
  exact (h.regular t ht).readBack

/-- The tokens of the text of a program that can be written. -/
theorem Writable.tokenize (h : p.Writable) (l : Layout) :
    ∃ ts, WqSource.tokenize (p.text l) = .ok ts ∧
      ts.map Token.kind = p.readBack.kinds ++ [.endOfInput] := by
  have hshows := h.shows l (.inl rfl)
  rw [List.append_nil, show Piece.kinds [] = [] from rfl, List.append_nil] at hshows
  exact hshows.tokens

/-- The texts of the lines that are not for the language: the shebang and what the host reads. -/
def hostTexts (p : Program) : List String :=
  p.shebang.toList ++ p.statements.filterMap Statement.payload?

/-- Whether no line for the host, nor the shebang line, ends with a carriage return. -/
def EndsPlainly (p : Program) : Prop := ∀ text ∈ p.hostTexts, text.toList.getLast? ≠ some '\r'

instance : DecidablePred EndsPlainly := fun p =>
  inferInstanceAs (Decidable (∀ text ∈ p.hostTexts, text.toList.getLast? ≠ some '\r'))

theorem dropReturn_eq_self {line : List Char} (h : line.getLast? ≠ some '\r') :
    dropReturn line = line :=
  if_neg h

/-- Without carriage returns in front of line feeds, all is read back. -/
theorem EndsPlainly.readBack_eq (h : p.EndsPlainly) : p.readBack = p := by
  have hstatement : ∀ s ∈ p.statements, s.readBack = id s := by
    intro s hs
    cases s with
    | expression => rfl
    | magic span payload =>
      have hpayload := dropReturn_eq_self (h payload
        (List.mem_append_right _ (List.mem_filterMap.2 ⟨_, hs, rfl⟩)))
      simp [Statement.readBack, hpayload]
  have hstatements : p.statements.map Statement.readBack = p.statements := by
    rw [List.map_congr_left hstatement, List.map_id]
  have hshebang : (p.shebang.map fun text => String.ofList (dropReturn text.toList)) = p.shebang := by
    cases htext : p.shebang with
    | none => rfl
    | some text =>
      have hdrop := dropReturn_eq_self (h text
        (List.mem_append_left _ (Option.mem_toList.2 htext)))
      simp [hdrop]
  simp only [readBack, hstatements, hshebang]

/-- The words of a program are those of its tokens. -/
theorem words_kinds (p : Program) : Token.Kind.words p.kinds = p.words := by
  have hshebang : ((p.shebang.map fun text => [Token.Kind.shebang text]).toList).map
      Token.Kind.words = (p.shebang.map fun text => [Token.Kind.shebang text]).toList := by
    cases p.shebang <;> rfl
  rw [Program.kinds_eq, Token.Kind.words_intercalate, List.map_append, hshebang, List.map_map]
  rw [show Token.Kind.words [.newline] = [] from rfl, intercalate_nil_eq_flatten,
    List.flatten_append, ← List.flatMap_def, words]
  congr 1
  cases p.shebang <;> rfl

end Program

namespace Grammar

/-- Whatever the source and the layout are, the text of a program is read without errors, and as
the program, if no line for the host ends with a carriage return. -/
theorem parse_text (source : String) (recover : Bool) (l : Layout)
    (hplain : (parse source recover).program.EndsPlainly) :
    (parse ((parse source recover).program.text l) false).errors = [] ∧
      (parse ((parse source recover).program.text l) false).program.erase =
        (parse source recover).program.erase := by
  have h := (parse_writable source recover).rereads l (.inl rfl)
  rw [hplain.readBack_eq, List.append_nil] at h
  exact h

/-- A source with a line for the host, and its text for readers. -/
theorem parse_text_hostLine :
    (parse "!ls\n2+ 3" false).program.EndsPlainly ∧
      (parse ((parse "!ls\n2+ 3" false).program.text .pretty) false).errors = [] ∧
        (parse ((parse "!ls\n2+ 3" false).program.text .pretty) false).program.erase =
          (parse "!ls\n2+ 3" false).program.erase := by
  have hplain : (parse "!ls\n2+ 3" false).program.EndsPlainly := by decide +kernel
  exact ⟨hplain, parse_text "!ls\n2+ 3" false .pretty hplain⟩

/-- The text of the program of a source without errors has the words of the source, and the
layouts differ in no token. -/
theorem words_text (source : String) (recover : Bool)
    (herrors : (parse source recover).errors = [])
    (hplain : (parse source recover).program.EndsPlainly) :
    ∃ ts us vs, tokenize source = .ok ts ∧
      tokenize ((parse source recover).program.text .pretty) = .ok us ∧
      tokenize ((parse source recover).program.text .compact) = .ok vs ∧
      tidied (ts.map Token.kind) = Token.Kind.words (us.map Token.kind) ∧
      us.map Token.kind = vs.map Token.kind := by
  have hsame : parse source recover = parse source false := parse_eq_of_errors_eq_nil herrors
  have hwritable := parse_writable source false
  rw [hsame] at herrors hplain ⊢
  obtain ⟨ts, hts, hwords⟩ := parse_words herrors
  obtain ⟨us, hus, husKinds⟩ := hwritable.tokenize .pretty
  obtain ⟨vs, hvs, hvsKinds⟩ := hwritable.tokenize .compact
  refine ⟨ts, us, vs, hts, hus, hvs, ?_, husKinds.trans hvsKinds.symm⟩
  rw [hwords, husKinds, hplain.readBack_eq, Token.Kind.words_append, Program.words_kinds]
  exact (List.append_nil _).symm

/-- A source that spells inequality the short way and has empty brackets of parameters. -/
theorem words_text_inequality :
    (parse "{[]a~b;}" false).errors = [] ∧ (parse "{[]a~b;}" false).program.EndsPlainly ∧
      ∃ ts us vs, tokenize "{[]a~b;}" = .ok ts ∧
        tokenize ((parse "{[]a~b;}" false).program.text .pretty) = .ok us ∧
        tokenize ((parse "{[]a~b;}" false).program.text .compact) = .ok vs ∧
        tidied (ts.map Token.kind) = Token.Kind.words (us.map Token.kind) ∧
        us.map Token.kind = vs.map Token.kind := by
  have herrors : (parse "{[]a~b;}" false).errors = [] := by decide +kernel
  have hplain : (parse "{[]a~b;}" false).program.EndsPlainly := by decide +kernel
  exact ⟨herrors, hplain, words_text "{[]a~b;}" false herrors hplain⟩

end Grammar

/-! ## Formatting -/

/-- The formatted text is the text for readers, and a line feed behind it unless it is empty. -/
theorem format_ok {source t : String} (h : format source = .ok t) :
    (parse source false).errors = [] ∧ ∃ tail, Piece.LastLine tail ∧
      t = Layout.pretty.write ((parse source false).program.pieces ++ tail) := by
  rw [format_eq] at h
  cases hvalid : (check source false).isValid with
  | false =>
    rw [readProgram_of_invalid hvalid] at h
    cases h
  | true =>
    refine ⟨by simpa [isValid_check] using hvalid, ?_⟩
    rw [readProgram_of_valid hvalid] at h
    have ht : t = if ((parse source false).program.text .pretty).isEmpty then
        (parse source false).program.text .pretty
        else (parse source false).program.text .pretty ++ "\n" := (Except.ok.inj h).symm
    by_cases hempty : ((parse source false).program.text .pretty).isEmpty
    · rw [if_pos hempty] at ht
      exact ⟨[], .inl rfl, by rw [ht, List.append_nil, Program.text]⟩
    · rw [if_neg hempty] at ht
      refine ⟨[.token .newline], .inr rfl, ?_⟩
      rw [ht, Program.text, Layout.write, Layout.write, List.flatMap_append, String.ofList_append]
      rfl

/-- A formatted text is read without errors and as the program it was written for, but that a
carriage return at the end of a line for the host is lost. -/
theorem format_rereads {source t : String} (h : format source = .ok t) :
    (parse t false).errors = [] ∧
      (parse t false).program.erase = (parse source false).program.readBack.erase := by
  obtain ⟨-, tail, htail, rfl⟩ := format_ok h
  exact (parse_writable source false).rereads .pretty htail

/-- A line for the host that ends with two carriage returns loses both, one when it is read and
one when its formatted text is. -/
theorem format_rereads_returns :
    format "!a\r\r\nb" = .ok "!a\r\nb\n" ∧
      (parse "!a\r\r\nb" false).program.hostTexts = ["a\r"] ∧
      (parse "!a\r\nb\n" false).program.hostTexts = ["a"] ∧
      (parse "!a\r\nb\n" false).errors = [] ∧
      (parse "!a\r\nb\n" false).program.erase = (parse "!a\r\r\nb" false).program.readBack.erase := by
  have hformat : format "!a\r\r\nb" = .ok "!a\r\nb\n" := by decide +kernel
  have hread : (parse "!a\r\r\nb" false).program.hostTexts = ["a\r"] := by decide +kernel
  have hreread : (parse "!a\r\nb\n" false).program.hostTexts = ["a"] := by decide +kernel
  exact ⟨hformat, hread, hreread, format_rereads hformat⟩

end WqSource
