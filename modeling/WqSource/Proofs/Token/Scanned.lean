import WqSource.Token.Scan
import Mathlib.Data.List.TakeWhile

/-!
# What a scan can be

A scan goes by the first characters of a text, and ends in one of a few ways. Each of them is
stated once here, with all that the scan has found out about the text by then; that every token is
valid, that it is the front of the text and how far it reaches are seen case by case from it.

## Main definitions

* `ScannedNumber`, `Scanned`: the ways in which a scan ends.

## Main statements

* `scanNumber_cases`, `scan_cases`: there are no others.
-/

namespace WqSource

variable {cs rest : List Char} {c : Char} {hostLine : Bool} {s : Scan}

/-- Digits, and at least one of them. -/
def IsDigits (cs : List Char) : Prop := cs ≠ [] ∧ ∀ c ∈ cs, c.isDigit = true

/-- The number at the front of a text that starts with a digit. Either way no digit that is next
to it is left behind. -/
inductive ScannedNumber (cs : List Char) : Scan → Prop where
  | integer {digits rest : List Char} {outcome : Except LexFault Token.Kind} :
    cs = digits ++ rest → IsDigits digits → (∀ c ∈ rest.head?, c.isDigit = false) →
    (∀ c tail, rest = '.' :: c :: tail → c.isDigit = false) → integerOf digits = outcome →
    ScannedNumber cs (.read digits outcome)
  | float {whole fraction rest : List Char} {outcome : Except LexFault Token.Kind} :
    cs = whole ++ '.' :: fraction ++ rest → IsDigits whole → IsDigits fraction →
    (∀ c ∈ rest.head?, c.isDigit = false) → floatOf whole fraction = outcome →
    ScannedNumber cs (.read (whole ++ '.' :: fraction) outcome)

/-- What is at the front of a text. -/
inductive Scanned (hostLine : Bool) (cs : List Char) : Scan → Prop where
  | finished : cs = [] → Scanned hostLine cs .finished
  | punct {p : Punct} : scanPunct? cs = some p →
    Scanned hostLine cs (.read p.spelling.toList (.ok (.punct p)))
  | newline {rest : List Char} : cs = '\n' :: rest →
    Scanned hostLine cs (.read (newlines cs) (.ok .newline))
  | magic {line : List Char} : cs = '!' :: line → scanPunct? cs = none → hostLine = true →
    Scanned hostLine cs (.read ('!' :: restOfLine line)
      (.ok (.magic (String.ofList (dropReturn (restOfLine line))))))
  | control {rest : List Char} {w : ControlWord} : cs = '@' :: rest → scanControl? rest = some w →
    Scanned hostLine cs (.read ['@', w.letter] (.ok (.control w)))
  | string {text body value : List Char} : cs = '"' :: text →
    stringBody text = (body, some value) →
    Scanned hostLine cs (.read ('"' :: body) (.ok (.string (String.ofList value))))
  | openString {text body : List Char} : cs = '"' :: text → stringBody text = (body, none) →
    Scanned hostLine cs (.read ('"' :: body) (.error .unterminatedString))
  | character {text body : List Char} {value : Char} : cs = '\'' :: text →
    characterBody text = (body, some value) →
    Scanned hostLine cs (.read ('\'' :: body) (.ok (.character value)))
  | openCharacter {text body : List Char} : cs = '\'' :: text →
    characterBody text = (body, none) →
    Scanned hostLine cs (.read ('\'' :: body) (.error .unterminatedCharacter))
  | symbol {text : List Char} : cs = '\x60' :: text → (∃ c ∈ text.head?, Name.isStart c = true) →
    Scanned hostLine cs (.read ('\x60' :: text.takeWhile Name.isContinue)
      (.ok (.symbol (String.ofList (text.takeWhile Name.isContinue)))))
  | openSymbol {text : List Char} : cs = '\x60' :: text →
    (∀ c ∈ text.head?, Name.isStart c = false) →
    Scanned hostLine cs (.read ['\x60'] (.error .unterminatedSymbol))
  | word : (∃ c ∈ cs.head?, Name.isStart c = true) →
    Scanned hostLine cs (.read (cs.takeWhile Name.isContinue)
      (.ok (wordKind (String.ofList (cs.takeWhile Name.isContinue)))))
  | number {s : Scan} : (∃ c ∈ cs.head?, c.isDigit = true) → ScannedNumber cs s →
    Scanned hostLine cs s
  | illegal {c : Char} {rest : List Char} : cs = c :: rest → Scanned hostLine cs (.illegal c)

/-! ## Characters that are taken -/

/-- The first character that is not taken. -/
theorem head_of_takeWhile {p : Char → Bool} (h : cs = cs.takeWhile p ++ rest) :
    ∀ c ∈ rest.head?, p c = false := by
  have hrest : rest = cs.dropWhile p := by
    have hsplit := List.takeWhile_append_dropWhile (p := p) (l := cs)
    exact List.append_cancel_left (h.symm.trans hsplit.symm)
  intro c hc
  have hnot := List.head?_dropWhile_not p cs
  rwa [← hrest, Option.mem_def.1 hc] at hnot

theorem isDigits_takeWhile (hc : c.isDigit = true) :
    IsDigits ((c :: cs).takeWhile Char.isDigit) :=
  ⟨by simp [hc], fun _ hd => List.mem_takeWhile_imp hd⟩

/-- A character that is asked for is there. -/
theorem head_of_getD {p : Char → Bool} (h : (cs.head?.map p).getD false = true) :
    ∃ c ∈ cs.head?, p c = true := by
  cases cs with
  | nil => cases h
  | cons c tail => exact ⟨c, rfl, h⟩

theorem head_of_not_getD {p : Char → Bool} (h : ¬(cs.head?.map p).getD false = true) :
    ∀ c ∈ cs.head?, p c = false := by
  intro c hc
  rw [Option.mem_def.1 hc] at h
  exact eq_false_of_ne_true h

/-! ## The cases -/

theorem scanNumber_cases (h : ∃ c ∈ cs.head?, c.isDigit = true) (hs : scanNumber cs = s) :
    ScannedNumber cs s := by
  obtain ⟨c, hc, hdigit⟩ := h
  obtain ⟨tail, rfl⟩ := List.head?_eq_some_iff.1 hc
  have hwhole : IsDigits ((c :: tail).takeWhile Char.isDigit) := isDigits_takeWhile hdigit
  have hsplit := List.takeWhile_append_dropWhile (p := Char.isDigit) (l := c :: tail)
  have hbehind := head_of_takeWhile hsplit.symm
  unfold scanNumber at hs
  dsimp only at hs
  generalize (c :: tail).takeWhile Char.isDigit = whole at *
  generalize (c :: tail).dropWhile Char.isDigit = behind at *
  split at hs
  · next rest =>
    have hrest := List.takeWhile_append_dropWhile (p := Char.isDigit) (l := rest)
    split at hs
    · next hempty =>
      subst hs
      refine .integer hsplit.symm hwhole hbehind (fun d more hmore => ?_) rfl
      obtain ⟨-, rfl⟩ := List.cons.inj hmore
      refine eq_false_of_ne_true fun hd => ?_
      simp [hd] at hempty
    · next hempty =>
      subst hs
      refine .float ?_ hwhole ⟨by simpa [List.isEmpty_iff] using hempty, ?_⟩
        (head_of_takeWhile hrest.symm) rfl
      · rw [List.append_assoc, List.cons_append, hrest, hsplit]
      · exact fun d hd => List.mem_takeWhile_imp hd
  · next hpoint =>
    subst hs
    exact .integer hsplit.symm hwhole hbehind (fun d more hmore => absurd hmore (hpoint _)) rfl

theorem scan_cases (h : scan hostLine cs = s) : Scanned hostLine cs s := by
  unfold scan at h
  split at h
  · next hpunct =>
    subst h
    exact .punct hpunct
  · next hpunct =>
    split at h
    · subst h
      exact .finished rfl
    · subst h
      exact .newline rfl
    · split at h
      · next hhost =>
        subst h
        exact .magic rfl hpunct hhost
      · subst h
        exact .illegal rfl
    · split at h
      · next hcontrol =>
        subst h
        exact .control rfl hcontrol
      · subst h
        exact .illegal rfl
    · dsimp only at h
      split at h
      · next hvalue =>
        subst h
        exact .string rfl (Prod.ext rfl hvalue)
      · next hvalue =>
        subst h
        exact .openString rfl (Prod.ext rfl hvalue)
    · dsimp only at h
      split at h
      · next hvalue =>
        subst h
        exact .character rfl (Prod.ext rfl hvalue)
      · next hvalue =>
        subst h
        exact .openCharacter rfl (Prod.ext rfl hvalue)
    · split at h
      · next hstart =>
        subst h
        exact .symbol rfl (head_of_getD hstart)
      · next hstart =>
        subst h
        exact .openSymbol rfl (head_of_not_getD hstart)
    · next c rest _ _ _ _ _ _ =>
      split at h
      · next hstart =>
        subst h
        exact .word ⟨c, rfl, hstart⟩
      · split at h
        · next hdigit =>
          have hhead : ∃ d ∈ (c :: rest).head?, d.isDigit = true := ⟨c, rfl, hdigit⟩
          exact .number hhead (scanNumber_cases hhead h)
        · subst h
          exact .illegal rfl

end WqSource
