import WqSource.Proofs.Token.Number
import WqSource.Proofs.Token.Reading

/-!
# The spellings of tokens are lexemes

Every token that a text can have is read from its own spelling, but for what stands for the
rest of a line: of a carriage return at the end of a line that is written, nothing is read back.

What a token is written behind must not run on into it. Behind the end of an expression, marks
and blanks do not, and behind a mark the start of an expression does not.

## Main definitions

* `Token.Kind.readBack`: the token that is read from a spelling.
* `Token.Kind.endsExpression`: the tokens that are last in expressions.
* `Token.Kind.Parts`: a token that ends in front of another one.

## Main statements

* `Token.Kind.Valid.lexeme`: spellings are lexemes.
* `Token.Kind.parts_punct`, `Token.Kind.punct_parts`.
-/

namespace WqSource

/-! ## Literals in quotes -/

theorem escapeLetter?_eq_none {quote c : Char} (h : Text.escapeLetter? quote c = none) :
    c ≠ '\\' ∧ c ≠ quote := by
  constructor
  · rintro rfl
    cases h
  · rintro rfl
    unfold Text.escapeLetter? at h
    split_ifs at h with _ _ _ _ _ hne
    exact hne rfl

/-- An escaped string is read back up to the quote behind it. -/
theorem stringBody_escape (cs : List Char) :
    stringBody (cs.flatMap (Text.escape '"') ++ ['"']) =
      (cs.flatMap (Text.escape '"') ++ ['"'], some cs) := by
  induction cs with
  | nil => rfl
  | cons c cs ih =>
    rw [List.flatMap_cons, List.append_assoc, Text.escape]
    split
    · next letter hletter =>
      have hmeant := Text.unescape_escapeLetter (by rfl) hletter
      simp only [List.cons_append, List.nil_append, stringBody, ih, hmeant]
      rfl
    · next hbare =>
      obtain ⟨hslash, hquote⟩ := escapeLetter?_eq_none hbare
      rw [List.cons_append, List.nil_append, stringBody, ih]
      · rfl
      · exact hquote
      · exact fun h _ => hslash h
      · exact fun _ _ h _ => hslash h

/-- An escaped character is read back up to the quote behind it. -/
theorem characterBody_escape (c : Char) :
    characterBody (Text.escape '\'' c ++ ['\'']) = (Text.escape '\'' c ++ ['\''], some c) := by
  rw [Text.escape]
  split
  · next letter hletter =>
    have hmeant := Text.unescape_escapeLetter (by rfl) hletter
    simp [characterBody, hmeant]
  · next hbare =>
    obtain ⟨hslash, hquote⟩ := escapeLetter?_eq_none hbare
    rw [List.cons_append, List.nil_append, characterBody]
    · exact fun _ h _ => hslash h
    · exact hslash
    · exact hquote

namespace Token.Kind
variable {k k' : Kind} {c : Char} {cs tail rest : List Char} {p : Punct}

/-! ## Reading back -/

/-- What is read from the spelling of a token. A line for the host and a shebang line lose the
carriage return that they may end with. -/
def readBack : Kind → Kind
  | magic payload => magic (String.ofList (dropReturn payload.toList))
  | shebang text => shebang (String.ofList (dropReturn text.toList))
  | k => k

theorem endsBefore_readBack : k.readBack.EndsBefore rest ↔ k.EndsBefore rest := by
  cases k <;> exact Iff.rfl

theorem depthAfter_readBack (k : Kind) (depth : Nat) :
    k.readBack.depthAfter depth = k.depthAfter depth := by
  cases k <;> rfl

theorem readBack_eq_newline : k.readBack = newline ↔ k = newline := by
  cases k <;> simp [readBack]

theorem readBack_eq_openBracket : k.readBack = punct .openBracket ↔ k = punct .openBracket := by
  cases k <;> simp [readBack]

/-- Every token that a text can have, but for a shebang line, is read from its spelling. -/
theorem Valid.lexeme (h : k.Valid) (hshebang : ∀ text, k ≠ .shebang text) :
    k.readBack.Lexeme k.spelling := by
  have word {w : String} (hword : Name.WellFormed w.toList) (hk : wordKind w = k) :
      k.Lexeme w.toList := .word hword (by rwa [String.ofList_toList])
  have named {w : String} {c : Char} (hc : w.toList.head? = some c) (hstart : Name.isStart c = true)
      (hall : w.toList.all Name.isContinue = true) : Name.WellFormed w.toList :=
    ⟨⟨c, hc, hstart⟩, List.all_eq_true.1 hall⟩
  cases k with
  | integer n =>
    obtain ⟨m, rfl⟩ := Int.eq_ofNat_of_zero_le h.1
    exact integer_lexeme (by exact Int.ofNat_lt.1 h.2)
  | float x => exact float_lexeme h
  | character v => exact .character (characterBody_escape v)
  | string s =>
    have hbody := Lexeme.string (stringBody_escape s.toList)
    rwa [String.ofList_toList] at hbody
  | symbol s =>
    have hname := Lexeme.symbol h
    rwa [String.ofList_toList] at hname
  | boolean b =>
    cases b
    · exact word (named (w := "false") rfl (by decide +kernel) (by decide +kernel)) rfl
    · exact word (named (w := "true") rfl (by decide +kernel) (by decide +kernel)) rfl
  | infinity => exact word (named (w := "inf") rfl (by decide +kernel) (by decide +kernel)) rfl
  | notANumber => exact word (named (w := "nan") rfl (by decide +kernel) (by decide +kernel)) rfl
  | identifier s => exact word h.1 h.2
  | builtin s => exact word h.1 h.2
  | punct p => exact .punct p
  | control w =>
    change Lexeme (.control w) w.spelling.toList
    rw [ControlWord.spelling, String.toList_ofList]
    exact .control w
  | newline => exact .newline .single
  | shebang text => exact absurd rfl (hshebang text)
  | magic payload => exact .magic h.1 h.2
  | endOfInput => exact h.elim

/-! ## What may stand behind a token -/

/-- Whether an expression can end with the token. -/
def endsExpression : Kind → Bool
  | integer _ | float _ | character _ | string _ | symbol _ | boolean _ | infinity | notANumber
  | identifier _ | builtin _ | control _ => true
  | punct .closeParen | punct .closeBracket | punct .closeBrace => true
  | punct _ | newline | shebang _ | magic _ | endOfInput => false

/-- The token ends in front of the spelling of the other one, whatever is behind that. -/
def Parts (k k' : Kind) : Prop := k'.Valid → ∀ rest, k.EndsBefore (k'.spelling ++ rest)

/-- An expression ends in front of blanks and of marks that are no points. -/
theorem endsBefore_of_endsExpression (h : k.endsExpression = true)
    (hc : c = ' ' ∨ c ∈ marks ∧ c ≠ '.') : k.EndsBefore (c :: tail) := by
  have hcontinue : Name.isContinue c = false := by
    rcases hc with rfl | ⟨hc, -⟩
    · decide +kernel
    · exact isContinue_of_mem_marks hc
  have hdigit : c.isDigit = false := by
    rcases hc with rfl | ⟨hc, -⟩
    · rfl
    · exact isDigit_of_mem_marks hc
  have hpoint : c ≠ '.' := by
    rcases hc with rfl | ⟨-, hc⟩
    · decide
    · exact hc
  cases k with
  | integer => exact ⟨by simpa using hdigit, fun _ _ h => absurd (List.cons.inj h).1 hpoint⟩
  | float => simpa [EndsBefore] using hdigit
  | symbol | boolean | infinity | notANumber | identifier | builtin | control =>
    simpa [EndsBefore] using hcontinue
  | punct p => cases p <;> trivial
  | character | string => trivial
  | newline | shebang | magic | endOfInput => cases h

/-- An operator ends in front of what is no part of a longer one, nor of a comment. -/
theorem endsBefore_punct (hc : c ≠ '.' ∧ c ≠ '/' ∧ c ≠ '=') : (punct p).EndsBefore (c :: tail) := by
  cases p <;> simp [EndsBefore, hc]

/-- Line feeds end in front of what is neither a line feed nor trivia. -/
theorem endsBefore_newline (hspace : isSpace c = false) (hc : c ≠ '/' ∧ c ≠ '\n') :
    newline.EndsBefore (c :: tail) := by
  have htrivia : trivia (c :: tail) = [] := by
    rw [trivia_eq_nil_iff]
    constructor
    · rintro d ⟨⟩
      exact hspace
    · intro more hmore
      exact hc.1 (List.cons.inj hmore).1
  intro more
  rw [htrivia]
  exact fun h => hc.2 (List.cons.inj h).1

/-- The end of a text is an end of every token. -/
theorem endsBefore_nil : k.EndsBefore [] := by
  cases k with
  | punct p => cases p <;> simp [EndsBefore]
  | newline =>
    intro tail htail
    cases htail
  | _ => simp [EndsBefore]

/-- The first character of what begins an expression. -/
theorem Lexeme.head_of_startsExpression (h : k.Lexeme cs) (hk : k.startsExpression = true) :
    ∃ c tail, cs = c :: tail ∧ isSpace c = false ∧ c ∉ ['.', '/', '=', '!', '\n'] := by
  have notMark {d : Char} (hd : d ∉ marks) : d ∉ ['.', '/', '=', '!', '\n'] := by
    intro hmem
    simp only [List.mem_cons, List.not_mem_nil, or_false] at hmem
    rcases hmem with rfl | rfl | rfl | rfl | rfl <;> exact hd (by decide)
  have digits {ds more : List Char} (hds : IsDigits ds) :
      ∃ c tail, ds ++ more = c :: tail ∧ isSpace c = false ∧ c ∉ ['.', '/', '=', '!', '\n'] := by
    obtain ⟨d, ds, rfl, hd⟩ := hds.head
    exact ⟨d, ds ++ more, rfl, isSpace_of_isContinue (isContinue_of_isDigit hd),
      notMark (notMem_marks_of_isDigit hd)⟩
  have mark {d : Char} {ds : List Char} (hd : d ∈ marks) (hne : d ∉ ['.', '/', '=', '!', '\n']) :
      ∃ c tail, d :: ds = c :: tail ∧ isSpace c = false ∧ c ∉ ['.', '/', '=', '!', '\n'] :=
    ⟨d, ds, rfl, isSpace_of_mem_marks hd, hne⟩
  cases h with
  | integer hdigits =>
    rw [← List.append_nil cs]
    exact digits hdigits
  | float hwhole => exact digits hwhole
  | word hword =>
    obtain ⟨d, ds, rfl, hd⟩ := hword.head
    have hcontinue := Name.isContinue_of_isStart hd
    exact ⟨d, ds, rfl, isSpace_of_isContinue hcontinue,
      notMark (notMem_marks_of_isContinue hcontinue)⟩
  | punct p => cases p <;> first | exact mark (by decide) (by decide) | cases hk
  | symbol | string | character | control => exact mark (by decide) (by decide)
  | newline | magic => cases hk

theorem Valid.spelling_eq_cons (h : k.Valid) (hk : k.startsExpression = true) :
    ∃ c tail, k.spelling = c :: tail ∧ isSpace c = false ∧ c ∉ ['.', '/', '=', '!', '\n'] := by
  have hreadBack : k.readBack = k := by
    cases k <;> first | rfl | cases hk
  have hlexeme := h.lexeme (by rintro text rfl; cases hk)
  rw [hreadBack] at hlexeme
  exact hlexeme.head_of_startsExpression hk

/-- Behind a mark an expression may begin. -/
theorem punct_parts (p : Punct) (hk : k'.startsExpression = true) : (punct p).Parts k' := by
  intro hvalid rest
  obtain ⟨c, tail, hspelling, -, hc⟩ := hvalid.spelling_eq_cons hk
  simp only [List.mem_cons, List.not_mem_nil, or_false, not_or] at hc
  rw [hspelling]
  exact endsBefore_punct ⟨hc.1, hc.2.1, hc.2.2.1⟩

/-- Behind line feeds an expression may begin. -/
theorem newline_parts (hk : k'.startsExpression = true) : newline.Parts k' := by
  intro hvalid rest
  obtain ⟨c, tail, hspelling, hspace, hc⟩ := hvalid.spelling_eq_cons hk
  simp only [List.mem_cons, List.not_mem_nil, or_false, not_or] at hc
  rw [hspelling]
  exact endsBefore_newline hspace ⟨hc.2.1, hc.2.2.2.2⟩

/-- Behind line feeds a line for the host may begin. -/
theorem newline_parts_magic (payload : String) : newline.Parts (magic payload) :=
  fun _ _ => endsBefore_newline (isSpace_of_mem_marks (by decide)) (by decide)

/-- Behind an expression there may be any mark but a point. -/
theorem parts_punct (h : k.endsExpression = true) (hp : p ≠ .dot) : k.Parts (punct p) := by
  intro _ rest
  cases p <;> first
    | exact absurd rfl hp
    | exact endsBefore_of_endsExpression h (.inr (by decide))

/-- Behind an expression a line may end. -/
theorem parts_newline (h : k.endsExpression = true) : k.Parts newline :=
  fun _ _ => endsBefore_of_endsExpression h (.inr (by decide))

end Token.Kind
end WqSource
