import WqSource.Proofs.Token.Append

/-!
# The texts that tokens are read from

A kind of token has its lexemes, which are the texts that it is read from, and it says what may
not stand behind a lexeme, because that would make it longer. Both together are what a scan
does: it takes a lexeme in front of what may stand behind it, and every lexeme in front of such
a text is what a scan takes.

So nothing else of the text behind a token matters to it, and none of the text in front of it
but whether a line for the host may begin.

## Main definitions

* `Token.Kind.Lexeme`: the texts a kind of token is read from.
* `Token.Kind.EndsBefore`: what may stand behind such a text.

## Main statements

* `lexeme_of_scan`: what a scan takes is a lexeme, and it ends there.
* `Token.Kind.Lexeme.scan_eq`: a lexeme is what a scan takes.
-/

namespace WqSource

variable {c : Char} {cs rest taken word body : List Char} {k : Token.Kind} {hostLine : Bool}

/-! ## Characters -/

/-- The characters of operators, separators and brackets, and the others with which neither
names nor numbers begin. -/
def marks : List Char := "+-*/%^#=~!<>:,|;.$()[]\x7b\x7d\n\"'@\x60".toList

theorem isContinue_of_mem_marks (h : c ∈ marks) : Name.isContinue c = false := by
  have hall : (marks.all fun d => !Name.isContinue d) = true := by decide +kernel
  simpa using List.all_eq_true.1 hall c h

theorem isDigit_of_mem_marks (h : c ∈ marks) : c.isDigit = false := by
  have hall : (marks.all fun d => !d.isDigit) = true := by decide +kernel
  simpa using List.all_eq_true.1 hall c h

theorem isSpace_of_mem_marks (h : c ∈ marks) : isSpace c = false := by
  have hall : (marks.all fun d => !isSpace d) = true := by decide +kernel
  simpa using List.all_eq_true.1 hall c h

theorem mem_marks_of_scanPunct? {p : Punct} (h : scanPunct? (c :: cs) = some p) : c ∈ marks := by
  unfold scanPunct? at h
  split at h <;> cases h <;> next hc =>
    cases hc
    decide

/-- A character that is not a mark begins a name, a number, or no token. -/
theorem scan_of_notMem_marks (h : c ∉ marks) :
    scan hostLine (c :: cs) =
      if Name.isStart c then
        .read ((c :: cs).takeWhile Name.isContinue)
          (.ok (wordKind (String.ofList ((c :: cs).takeWhile Name.isContinue))))
      else if c.isDigit then scanNumber (c :: cs) else .illegal c := by
  have hpunct : scanPunct? (c :: cs) = none :=
    Option.eq_none_iff_forall_ne_some.2 fun p hp => h (mem_marks_of_scanPunct? hp)
  unfold scan
  rw [hpunct]
  dsimp only
  split
  · next hc => cases hc
  all_goals next hc =>
    obtain ⟨rfl, rfl⟩ := List.cons.inj hc
    first
    | rfl
    | exact absurd (by decide) h

theorem notMem_marks_of_isContinue (h : Name.isContinue c = true) : c ∉ marks := fun hm => by
  simp [isContinue_of_mem_marks hm] at h

theorem notMem_marks_of_isDigit (h : c.isDigit = true) : c ∉ marks := fun hm => by
  simp [isDigit_of_mem_marks hm] at h

theorem isAlpha_iff :
    c.isAlpha = true ↔ 65 ≤ c.toNat ∧ c.toNat ≤ 90 ∨ 97 ≤ c.toNat ∧ c.toNat ≤ 122 := by
  delta Char.isAlpha Char.isUpper Char.isLower
  simp only [UInt32.le_iff_toNat_le, ge_iff_le, Bool.or_eq_true, Bool.and_eq_true,
    decide_eq_true_eq]
  exact Iff.rfl

theorem isDigit_iff : c.isDigit = true ↔ 48 ≤ c.toNat ∧ c.toNat ≤ 57 := by
  simp only [Char.isDigit, UInt32.le_iff_toNat_le, ge_iff_le, Bool.and_eq_true, decide_eq_true_eq]
  exact Iff.rfl

/-- Digits are no letters. -/
theorem isStart_of_isDigit (h : c.isDigit = true) : Name.isStart c = false := by
  have hne : (c == '_') = false := by
    refine beq_eq_false_iff_ne.2 ?_
    rintro rfl
    cases h
  rw [isDigit_iff] at h
  have halpha : c.isAlpha = false := by
    rw [← Bool.not_eq_true, isAlpha_iff]
    omega
  rw [Name.isStart, Unicode.isAlphabetic, if_pos (by omega), halpha, hne]
  rfl

/-- Digits go on with names. -/
theorem isContinue_of_isDigit (h : c.isDigit = true) : Name.isContinue c = true := by
  rw [isDigit_iff] at h
  have hascii : c.toNat < 0x80 := by omega
  simp [Name.isContinue, Unicode.isNumeric, hascii, isDigit_iff, h]

/-- The code points of blanks. -/
def blanks : List Nat :=
  [0x20, 0x09, 0x0A, 0x0B, 0x0C, 0x0D, 0x85, 0xA0, 0x1680, 0x2000, 0x2001, 0x2002, 0x2003, 0x2004,
    0x2005, 0x2006, 0x2007, 0x2008, 0x2009, 0x200A, 0x2028, 0x2029, 0x202F, 0x205F, 0x3000]

theorem mem_blanks_of_isBlank (h : Unicode.isBlank c = true) : c.toNat ∈ blanks := by
  simp only [Unicode.isBlank, Bool.or_eq_true, Bool.and_eq_true, beq_iff_eq, decide_eq_true_eq] at h
  simp only [blanks, List.mem_cons, List.not_mem_nil, or_false]
  omega

/-- A code point beside every range of a table is in none of them. -/
theorem within_eq_false {ranges : Array (Nat × Nat)} {n : Nat}
    (h : (ranges.toList.all fun r => n < r.1 || r.2 < n) = true) :
    Unicode.within ranges n = false := by
  rw [Unicode.within, ← Array.any_toList, List.any_eq_false]
  intro r hr
  have hbeside := List.all_eq_true.1 h r hr
  simp only [Bool.or_eq_true, Bool.and_eq_true, decide_eq_true_eq] at hbeside ⊢
  omega

/-- No name and no number has blanks in it. -/
theorem isSpace_of_isContinue (h : Name.isContinue c = true) : isSpace c = false := by
  have hletters : (blanks.all fun n =>
      Unicode.alphabeticRanges.toList.all fun r => n < r.1 || r.2 < n) = true := by
    decide +kernel
  have hnumerals : (blanks.all fun n =>
      Unicode.numericRanges.toList.all fun r => n < r.1 || r.2 < n) = true := by
    decide +kernel
  refine eq_false_of_ne_true fun hspace => ?_
  have hblank := mem_blanks_of_isBlank (Bool.and_eq_true_iff.1 hspace).1
  have hbeside := within_eq_false (List.all_eq_true.1 hletters _ hblank)
  have hbeside' := within_eq_false (List.all_eq_true.1 hnumerals _ hblank)
  simp only [blanks, List.mem_cons, List.not_mem_nil, or_false] at hblank
  have hneither : ¬(c.isAlpha = true ∨ c.isDigit = true ∨ c = '_' ∨ c = '?') := by
    rw [isAlpha_iff, isDigit_iff]
    rintro (halpha | hdigit | rfl | rfl)
    · omega
    · omega
    · simp at hblank
    · simp at hblank
  simp only [not_or] at hneither
  simp [Name.isContinue, Unicode.isAlphabetic, Unicode.isNumeric, hbeside, hbeside', hneither] at h

/-! ## Lexemes -/

/-- Line feeds with trivia between every two. -/
inductive LineFeeds : List Char → Prop where
  | single : LineFeeds ['\n']
  | more {gap cs : List Char} : trivia gap = gap → LineFeeds ('\n' :: cs) →
    LineFeeds ('\n' :: (gap ++ '\n' :: cs))

/-- The texts that a kind of token is read from. -/
inductive Token.Kind.Lexeme : Kind → List Char → Prop where
  | integer {digits : List Char} {n : Int} : IsDigits digits →
    integerOf digits = .ok (.integer n) → Lexeme (.integer n) digits
  | float {whole fraction : List Char} {x : Binary64} : IsDigits whole → IsDigits fraction →
    floatOf whole fraction = .ok (.float x) → Lexeme (.float x) (whole ++ '.' :: fraction)
  | word {cs : List Char} {k : Kind} : Name.WellFormed cs →
    wordKind (String.ofList cs) = k → Lexeme k cs
  | symbol {cs : List Char} : Name.WellFormed cs →
    Lexeme (.symbol (String.ofList cs)) ('\x60' :: cs)
  | string {body value : List Char} : stringBody body = (body, some value) →
    Lexeme (.string (String.ofList value)) ('"' :: body)
  | character {body : List Char} {value : Char} : characterBody body = (body, some value) →
    Lexeme (.character value) ('\'' :: body)
  | punct (p : Punct) : Lexeme (.punct p) p.spelling.toList
  | control (w : ControlWord) : Lexeme (.control w) ['@', w.letter]
  | newline {cs : List Char} : LineFeeds cs → Lexeme .newline cs
  | magic {line : List Char} : '\n' ∉ line → line.head? ≠ some '=' →
    Lexeme (.magic (String.ofList (dropReturn line))) ('!' :: line)

/-- Whether a text does not make the lexeme in front of it longer. -/
def Token.Kind.EndsBefore (rest : List Char) : Kind → Prop
  | integer _ => (∀ c ∈ rest.head?, c.isDigit = false) ∧
      ∀ c tail, rest = '.' :: c :: tail → c.isDigit = false
  | float _ => ∀ c ∈ rest.head?, c.isDigit = false
  | symbol _ | boolean _ | infinity | notANumber | identifier _ | builtin _ | control _ =>
    ∀ c ∈ rest.head?, Name.isContinue c = false
  | punct .slash => rest.head? ≠ some '.' ∧ rest.head? ≠ some '/'
  | punct .percent => rest.head? ≠ some '.'
  | punct .less | punct .greater => rest.head? ≠ some '='
  | newline => ∀ tail, rest.drop (trivia rest).length ≠ '\n' :: tail
  | magic _ => ∀ c ∈ rest.head?, c = '\n'
  | _ => True

theorem wordKind_endsBefore {w : String} (hk : wordKind w = k) :
    k.EndsBefore rest ↔ ∀ c ∈ rest.head?, Name.isContinue c = false := by
  unfold wordKind at hk
  repeat' split at hk
  all_goals
    subst hk
    exact Iff.rfl

/-! ## What a scan takes -/

theorem takeWhile_append_of_head {p : Char → Bool} (hall : ∀ c ∈ cs, p c = true)
    (hrest : ∀ c ∈ rest.head?, p c = false) :
    (cs ++ rest).takeWhile p = cs ∧ (cs ++ rest).dropWhile p = rest := by
  rw [List.takeWhile_append_of_pos hall, List.dropWhile_append_of_pos hall]
  cases rest with
  | nil => exact ⟨List.append_nil cs, rfl⟩
  | cons c rest => simp [hrest c rfl]

/-- A line ends in front of the first line feed. -/
theorem line_append {line : List Char} (hline : '\n' ∉ line) (hrest : ∀ c ∈ rest.head?, c = '\n') :
    restOfLine (line ++ rest) = line ∧ (line ++ rest).dropWhile (· != '\n') = rest := by
  refine takeWhile_append_of_head (fun c hc => ?_) fun c hc => ?_
  · simpa using fun he : c = '\n' => hline (he ▸ hc)
  · simp [hrest c hc]

theorem newlines_lexeme (cs : List Char) : LineFeeds (newlines ('\n' :: cs)) := by
  induction hsize : cs.length using Nat.strongRecOn generalizing cs with
  | ind n ih =>
    subst hsize
    by_cases hnewline : ∃ rest, cs.drop (trivia cs).length = '\n' :: rest
    · obtain ⟨rest, h⟩ := hnewline
      have hcs := trivia_append_drop cs
      rw [h] at hcs
      have hlt : rest.length < cs.length := by
        rw [← hcs]
        simp only [List.length_append, List.length_cons]
        omega
      have htrivia : trivia (trivia cs) = trivia cs := by
        have happend := trivia_append (trivia cs) rest
        rw [hcs] at happend
        exact happend.symm
      have hmore := ih _ hlt rest rfl
      obtain ⟨es, hes⟩ : ∃ es, newlines ('\n' :: rest) = '\n' :: es := by
        rw [newlines]
        split <;> exact ⟨_, rfl⟩
      rw [newlines_of_drop h, hes]
      rw [hes] at hmore
      exact .more htrivia hmore
    · rw [newlines_of_drop_ne fun rest h => hnewline ⟨rest, h⟩]
      exact .single

/-- Behind line feeds that are taken there are no more of them, trivia aside. -/
theorem newlines_endsBefore (h : '\n' :: cs = newlines ('\n' :: cs) ++ rest) :
    Token.Kind.newline.EndsBefore rest := by
  induction hsize : cs.length using Nat.strongRecOn generalizing cs with
  | ind n ih =>
    subst hsize
    by_cases hnewline : ∃ more, cs.drop (trivia cs).length = '\n' :: more
    · obtain ⟨more, hmore⟩ := hnewline
      have hcs := trivia_append_drop cs
      rw [hmore] at hcs
      rw [newlines_of_drop hmore, List.cons_append, List.append_assoc] at h
      refine ih _ ?_ (List.append_cancel_left (hcs.trans (List.cons.inj h).2)) rfl
      rw [← hcs]
      simp only [List.length_append, List.length_cons]
      omega
    · rw [newlines_of_drop_ne fun tail h => hnewline ⟨tail, h⟩] at h
      obtain rfl : cs = rest := (List.cons.inj h).2
      exact fun tail htail => hnewline ⟨tail, htail⟩

theorem LineFeeds.newlines_eq (h : LineFeeds cs) (hrest : Token.Kind.newline.EndsBefore rest) :
    newlines (cs ++ rest) = cs := by
  induction h with
  | single => exact newlines_of_drop_ne hrest
  | @more gap cs hgap _ ih =>
    have hdrop : (gap ++ '\n' :: (cs ++ rest)).drop (trivia (gap ++ '\n' :: (cs ++ rest))).length =
        '\n' :: (cs ++ rest) := by
      rw [trivia_append, hgap, List.drop_left]
    rw [List.cons_append, List.append_assoc, List.cons_append, newlines_of_drop hdrop,
      trivia_append, hgap]
    exact congrArg (fun es => '\n' :: (gap ++ es)) ih

/-- A number is digits, perhaps with a point and more digits behind them. -/
theorem ScannedNumber.lexeme (h : ScannedNumber cs (.read taken (.ok k))) (hcs : cs = taken ++ rest) :
    k.Lexeme taken ∧ k.EndsBefore rest := by
  cases h with
  | @integer _ behind _ hsplit hdigits hbehind hpoint hk =>
    obtain rfl : behind = rest := List.append_cancel_left (hsplit.symm.trans hcs)
    obtain ⟨n, -, rfl⟩ := integerOf_ok hk
    exact ⟨.integer hdigits hk, hbehind, hpoint⟩
  | @float _ _ behind _ hsplit hwhole hfraction hbehind hk =>
    obtain rfl : behind = rest := List.append_cancel_left (hsplit.symm.trans hcs)
    obtain ⟨x, -, rfl⟩ := floatOf_ok hk
    exact ⟨.float hwhole hfraction hk, hbehind⟩

theorem scanPunct?_endsBefore {p : Punct} (h : scanPunct? cs = some p)
    (hcs : cs = p.spelling.toList ++ rest) (htrivia : trivia cs = []) :
    (Token.Kind.punct p).EndsBefore rest := by
  unfold scanPunct? at h
  have hhead {d : Char} {es : List Char} (hno : ∀ tail, es = d :: tail → False) :
      es.head? ≠ some d := by
    intro hd
    cases es with
    | nil => cases hd
    | cons e es =>
      cases hd
      exact hno es rfl
  split at h <;> cases h <;> try trivial
  all_goals next hno =>
    obtain rfl := (List.cons.inj hcs).2
    first
    | exact hhead hno
    | refine ⟨hhead hno, hhead fun tail htail => ?_⟩
      subst htail
      simp [trivia, isSpace_of_mem_marks (c := '/') (by decide), comment] at htrivia

theorem scanControl?_some {w : ControlWord} (h : scanControl? cs = some w) :
    ∃ tail, cs = w.letter :: tail ∧ ∀ c ∈ tail.head?, Name.isContinue c = false := by
  unfold scanControl? at h
  split at h
  · next c cs =>
    split at h
    · cases h
    · next hcontinue =>
      refine ⟨cs, ?_, fun d hd => ?_⟩
      · unfold ControlWord.ofLetter? at h
        split at h <;> cases h <;> rfl
      · rw [Option.mem_def.1 hd] at hcontinue
        simpa using hcontinue
  · cases h

/-- What a scan takes is a lexeme, and it ends there if the scan does not begin at trivia. -/
theorem lexeme_of_scan (h : scan hostLine cs = .read taken (.ok k)) (hcs : cs = taken ++ rest) :
    k.Lexeme taken ∧ (trivia cs = [] → k.EndsBefore rest) := by
  cases scan_cases h with
  | @punct p hp => exact ⟨.punct p, scanPunct?_endsBefore hp hcs⟩
  | @newline tail hnewline =>
    subst hnewline
    exact ⟨.newline (newlines_lexeme _), fun _ => newlines_endsBefore hcs⟩
  | @magic line hmagic hpunct =>
    subst hmagic
    refine ⟨.magic (newline_notMem_restOfLine line) (head?_line_ne hpunct), fun _ c hc => ?_⟩
    simpa using head_of_takeWhile (List.cons.inj hcs).2 c hc
  | @control text w hcontrol hw =>
    obtain ⟨tail, rfl, htail⟩ := scanControl?_some hw
    obtain rfl : tail = rest := by simpa [hcontrol] using hcs
    exact ⟨.control w, fun _ => htail⟩
  | @string text body value _ hvalue =>
    have hclosed : (stringBody text).2 ≠ none := by simp [hvalue]
    have hbody := stringBody_congr hclosed (List.prefix_refl _)
    rw [hvalue] at hbody
    exact ⟨.string hbody, fun _ => trivial⟩
  | @character text body value _ hvalue =>
    have hclosed : (characterBody text).2 ≠ none := by simp [hvalue]
    have hbody := characterBody_congr hclosed (List.prefix_refl _)
    rw [hvalue] at hbody
    exact ⟨.character hbody, fun _ => trivial⟩
  | symbol hsymbol hstart =>
    subst hsymbol
    refine ⟨.symbol (wellFormed_takeWhile hstart), fun _ => ?_⟩
    exact head_of_takeWhile (List.cons.inj hcs).2
  | word hstart =>
    refine ⟨.word (wellFormed_takeWhile hstart) rfl, fun _ => ?_⟩
    exact (wordKind_endsBefore rfl).2 (head_of_takeWhile hcs)
  | number _ hnumber =>
    obtain ⟨hlexeme, hends⟩ := hnumber.lexeme hcs
    exact ⟨hlexeme, fun _ => hends⟩

/-! ## What a lexeme is taken as -/

theorem scanPunct?_spelling {p : Punct} (h : (Token.Kind.punct p).EndsBefore rest) :
    scanPunct? (p.spelling.toList ++ rest) = some p := by
  cases p <;> first
    | rfl
    | (cases rest with
      | nil => rfl
      | cons c tail =>
        simp only [Token.Kind.EndsBefore, List.head?_cons, ne_eq, Option.some.injEq] at h
        simp [Punct.spelling, scanPunct?, h])

/-- Digits are taken up to what is no digit, or is not behind a point. -/
theorem scanNumber_digits {digits : List Char} {n : Int} (hdigits : IsDigits digits)
    (hends : (Token.Kind.integer n).EndsBefore rest) :
    scanNumber (digits ++ rest) = .read digits (integerOf digits) := by
  obtain ⟨htake, hdrop⟩ := takeWhile_append_of_head hdigits.2 hends.1
  unfold scanNumber
  dsimp only
  rw [htake, hdrop]
  split
  · next fraction =>
    rw [if_pos]
    cases fraction with
    | nil => rfl
    | cons c tail => simp [hends.2 c tail rfl]
  · rfl

/-- Digits on both sides of a point are taken. -/
theorem scanNumber_fraction {whole fraction : List Char} (hwhole : IsDigits whole)
    (hfraction : IsDigits fraction) (hends : ∀ c ∈ rest.head?, c.isDigit = false) :
    scanNumber (whole ++ '.' :: fraction ++ rest) =
      .read (whole ++ '.' :: fraction) (floatOf whole fraction) := by
  have hpoint : ∀ c ∈ ('.' :: (fraction ++ rest)).head?, c.isDigit = false := by
    rintro c ⟨⟩
    rfl
  obtain ⟨htake, hdrop⟩ := takeWhile_append_of_head hwhole.2 hpoint
  obtain ⟨hbehind, -⟩ := takeWhile_append_of_head hfraction.2 hends
  rw [List.append_assoc, List.cons_append]
  unfold scanNumber
  dsimp only
  rw [htake, hdrop]
  simp only [hbehind]
  rw [if_neg (by simpa [List.isEmpty_iff] using hfraction.1)]

theorem LineFeeds.head (h : LineFeeds cs) : ∃ tail, cs = '\n' :: tail := by
  cases h <;> exact ⟨_, rfl⟩

theorem IsDigits.head (h : IsDigits cs) : ∃ c tail, cs = c :: tail ∧ c.isDigit = true := by
  obtain ⟨c, tail, rfl⟩ := List.exists_cons_of_ne_nil h.1
  exact ⟨c, tail, rfl, h.2 c (by simp)⟩

theorem Name.WellFormed.head (h : Name.WellFormed cs) :
    ∃ c tail, cs = c :: tail ∧ Name.isStart c = true := by
  obtain ⟨⟨c, hc, hstart⟩, -⟩ := h
  cases cs with
  | nil => cases hc
  | cons d tail =>
    cases hc
    exact ⟨_, _, rfl, hstart⟩

theorem scan_of_isDigit (h : c.isDigit = true) :
    scan hostLine (c :: cs) = scanNumber (c :: cs) := by
  rw [scan_of_notMem_marks (notMem_marks_of_isDigit h), isStart_of_isDigit h, if_pos h]
  rfl

namespace Token.Kind

/-- A lexeme is what a scan takes, if it ends there and a line for the host may begin. -/
theorem Lexeme.scan_eq (h : k.Lexeme taken) (hends : k.EndsBefore rest)
    (hhost : ∀ payload, k = .magic payload → hostLine = true) :
    scan hostLine (taken ++ rest) = .read taken (.ok k) := by
  cases h with
  | integer hdigits hk =>
    rw [← hk, ← scanNumber_digits hdigits hends]
    obtain ⟨c, tail, rfl, hc⟩ := hdigits.head
    exact scan_of_isDigit hc
  | float hwhole hfraction hk =>
    rw [← hk, ← scanNumber_fraction hwhole hfraction hends]
    obtain ⟨c, tail, rfl, hc⟩ := hwhole.head
    exact scan_of_isDigit hc
  | word hword hk =>
    obtain ⟨htake, -⟩ := takeWhile_append_of_head hword.2 ((wordKind_endsBefore hk).1 hends)
    obtain ⟨c, cs, rfl, hstart⟩ := hword.head
    have hmark := notMem_marks_of_isContinue (Name.isContinue_of_isStart hstart)
    rw [List.cons_append] at htake
    rw [List.cons_append, scan_of_notMem_marks hmark, if_pos hstart, htake, hk]
  | @symbol name hword =>
    have htake : (name ++ rest).takeWhile Name.isContinue = name :=
      (takeWhile_append_of_head hword.2 hends).1
    have hscan : scan hostLine ('\x60' :: (name ++ rest)) =
        if ((name ++ rest).head?.map Name.isStart).getD false then
          .read ('\x60' :: (name ++ rest).takeWhile Name.isContinue)
            (.ok (.symbol (String.ofList ((name ++ rest).takeWhile Name.isContinue))))
        else .read ['\x60'] (.error .unterminatedSymbol) := rfl
    rw [List.cons_append, hscan, htake, if_pos]
    obtain ⟨c, cs, rfl, hstart⟩ := hword.head
    exact hstart
  | @string body value hbody =>
    have hclosed : stringBody (body ++ rest) = stringBody body :=
      stringBody_congr (by simp [hbody]) (by simp [hbody])
    rw [hbody] at hclosed
    unfold scan
    simp [scanPunct?, hclosed]
  | @character body value hbody =>
    have hclosed : characterBody (body ++ rest) = characterBody body :=
      characterBody_congr (by simp [hbody]) (by simp [hbody])
    rw [hbody] at hclosed
    unfold scan
    simp [scanPunct?, hclosed]
  | punct p =>
    unfold scan
    rw [scanPunct?_spelling hends]
  | control w =>
    have hletter : scanControl? (w.letter :: rest) = some w := by
      cases rest with
      | nil => exact ControlWord.ofLetter?_letter w
      | cons c tail => simp [scanControl?, hends c rfl]
    unfold scan
    simp [scanPunct?, hletter]
  | newline hfeeds =>
    obtain ⟨tail, rfl⟩ := hfeeds.head
    exact congrArg (Scan.read · _) (hfeeds.newlines_eq hends)
  | @magic line hline hhead =>
    have htake : restOfLine (line ++ rest) = line := (line_append hline hends).1
    have hpunct : scanPunct? ('!' :: (line ++ rest)) = none := by
      cases line with
      | nil =>
        cases rest with
        | nil => rfl
        | cons c tail =>
          obtain rfl := hends c rfl
          rfl
      | cons c line =>
        have hc : c ≠ '=' := fun he => hhead (congrArg some he)
        simp [scanPunct?, hc]
    unfold scan
    rw [List.cons_append, hpunct, hhost _ rfl]
    simp [htake]

end Token.Kind
end WqSource
