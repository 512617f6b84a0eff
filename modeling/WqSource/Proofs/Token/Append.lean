import WqSource.Proofs.Token.Extent

/-!
# A text with a line feed behind it

Every token ends at a line feed at the latest, or has the line feed inside. So the tokens of a
text do not change if a line feed and another text are put behind it, except that line feeds at
its end and those put behind them are one token.

## Main statements

* `scan_append`: a scan of the longer text.
* `newlines_append`: line feeds that meet those put behind them.
-/

namespace WqSource

variable {cs ds : List Char}

theorem takeWhile_append_cons {p : Char → Bool} {d : Char} (hd : p d = false) (cs ds : List Char) :
    (cs ++ d :: ds).takeWhile p = cs.takeWhile p := by
  induction cs with
  | nil => simp [hd]
  | cons c cs ih => by_cases hc : p c = true <;> simp [hc, ih]

theorem dropWhile_append_cons {p : Char → Bool} {d : Char} (hd : p d = false) (cs ds : List Char) :
    (cs ++ d :: ds).dropWhile p = cs.dropWhile p ++ d :: ds := by
  induction cs with
  | nil => simp [hd]
  | cons c cs ih => by_cases hc : p c = true <;> simp [hc, ih]

/-! ## Trivia -/

@[simp] theorem restOfLine_append (cs ds : List Char) :
    restOfLine (cs ++ '\n' :: ds) = restOfLine cs :=
  takeWhile_append_cons rfl cs ds

theorem comment_append (cs ds : List Char) : comment (cs ++ '\n' :: ds) = comment cs := by
  match cs with
  | [] => rfl
  | [c] => by_cases hc : c = '/' <;> simp [comment]
  | c :: d :: cs =>
    by_cases h : c = '/' ∧ d = '/'
    · obtain ⟨rfl, rfl⟩ := h
      simp [comment]
    · have hcomment (es : List Char) : comment (c :: d :: es) = [] := by
        unfold comment
        split
        · simp_all
        · rfl
      rw [List.cons_append, List.cons_append, hcomment, hcomment]

@[simp] theorem trivia_append (cs ds : List Char) : trivia (cs ++ '\n' :: ds) = trivia cs := by
  have hspace : isSpace '\n' = false := by simp [isSpace]
  rw [trivia, takeWhile_append_cons hspace, dropWhile_append_cons hspace, comment_append, trivia]

theorem drop_trivia_append (cs ds : List Char) :
    (cs ++ '\n' :: ds).drop (trivia cs).length = cs.drop (trivia cs).length ++ '\n' :: ds :=
  List.drop_append_of_le_length (trivia_front cs).length_le

/-! ## Line feeds -/

theorem newlines_of_drop {rest : List Char} (h : cs.drop (trivia cs).length = '\n' :: rest) :
    newlines ('\n' :: cs) = '\n' :: (trivia cs ++ newlines ('\n' :: rest)) := by
  rw [newlines]
  split
  · next rest' h' =>
    obtain rfl : rest' = rest := (List.cons.inj (h'.symm.trans h)).2
    rfl
  · next hne => exact absurd h (hne rest)

theorem newlines_of_drop_ne (h : ∀ rest, cs.drop (trivia cs).length ≠ '\n' :: rest) :
    newlines ('\n' :: cs) = ['\n'] := by
  rw [newlines]
  split
  · next rest h' => exact absurd h' (h rest)
  · rfl

/-- What is behind the line feeds at the front of a text. -/
def behindNewlines (cs : List Char) : List Char := cs.drop (newlines cs).length

theorem behindNewlines_of_drop {rest : List Char}
    (h : cs.drop (trivia cs).length = '\n' :: rest) :
    behindNewlines ('\n' :: cs) = behindNewlines ('\n' :: rest) := by
  rw [behindNewlines, newlines_of_drop h, behindNewlines, ← h]
  simp only [List.length_cons, List.length_append, List.drop_succ_cons, List.drop_drop]

/-- Line feeds meet those put behind them if only trivia stand between. -/
theorem newlines_append (cs ds : List Char) :
    (trivia (behindNewlines ('\n' :: cs)) = behindNewlines ('\n' :: cs) →
      newlines ('\n' :: (cs ++ '\n' :: ds)) = '\n' :: cs ++ newlines ('\n' :: ds)) ∧
    (trivia (behindNewlines ('\n' :: cs)) ≠ behindNewlines ('\n' :: cs) →
      newlines ('\n' :: (cs ++ '\n' :: ds)) = newlines ('\n' :: cs)) := by
  induction hsize : cs.length using Nat.strongRecOn generalizing cs with
  | ind n ih =>
    subst hsize
    have hcs := trivia_append_drop cs
    have hdrop := drop_trivia_append cs ds
    rw [← trivia_append cs ds] at hdrop
    by_cases hnewline : ∃ rest, cs.drop (trivia cs).length = '\n' :: rest
    · obtain ⟨rest, h⟩ := hnewline
      rw [h] at hcs
      rw [trivia_append, h, List.cons_append, ← trivia_append cs ds] at hdrop
      have hlt : rest.length < cs.length := by
        rw [← hcs]
        simp only [List.length_append, List.length_cons]
        omega
      obtain ⟨hmeet, happart⟩ := ih _ hlt rest rfl
      rw [newlines_of_drop hdrop, trivia_append, newlines_of_drop h, behindNewlines_of_drop h]
      constructor
      · intro hall
        rw [hmeet hall]
        nth_rewrite 2 [← hcs]
        simp
      · intro hne
        rw [happart hne]
    · have hone := newlines_of_drop_ne fun rest h => hnewline ⟨rest, h⟩
      have hbehind : behindNewlines ('\n' :: cs) = cs := by
        rw [behindNewlines, hone]
        rfl
      rw [hbehind, hone]
      constructor
      · intro hall
        have hnil : cs.drop (trivia cs).length = [] := by simp [hall]
        rw [trivia_append, hnil, List.nil_append, ← trivia_append cs ds] at hdrop
        rw [newlines_of_drop hdrop, trivia_append, hall]
        rfl
      · intro hne
        refine newlines_of_drop_ne fun rest hrest => ?_
        rw [hdrop, trivia_append] at hrest
        cases hbehind : cs.drop (trivia cs).length with
        | nil =>
          rw [hbehind, List.append_nil] at hcs
          exact hne hcs
        | cons d es =>
          rw [hbehind] at hrest
          obtain ⟨rfl, -⟩ := List.cons.inj hrest
          exact hnewline ⟨es, hbehind⟩

/-! ## Tokens -/

/-- Of what is behind the first character, only a point or an equals sign can matter. -/
theorem scanPunct?_congr {c : Char} {cs cs' : List Char} {p : Punct}
    (hdot : (∃ tail, cs = '.' :: tail) ↔ ∃ tail, cs' = '.' :: tail)
    (hequal : (∃ tail, cs = '=' :: tail) ↔ ∃ tail, cs' = '=' :: tail)
    (h : scanPunct? (c :: cs) = some p) : scanPunct? (c :: cs') = some p := by
  unfold scanPunct? at h
  split at h <;> cases h <;> next hno hcs =>
    cases hcs
    first
    | rfl
    | obtain ⟨tail, rfl⟩ := hdot.1 ⟨_, rfl⟩
      rfl
    | obtain ⟨tail, rfl⟩ := hequal.1 ⟨_, rfl⟩
      rfl
    | rw [scanPunct?]
      intro tail ht
      first
      | exact (hdot.2 ⟨tail, ht⟩).elim hno
      | exact (hequal.2 ⟨tail, ht⟩).elim hno

theorem scanPunct?_append (c : Char) (cs ds : List Char) :
    scanPunct? (c :: (cs ++ '\n' :: ds)) = scanPunct? (c :: cs) := by
  have hnext {d : Char} (hd : d ≠ '\n') :
      (∃ tail, cs ++ '\n' :: ds = d :: tail) ↔ ∃ tail, cs = d :: tail := by
    cases cs with
    | nil => simp [hd.symm]
    | cons c cs => simp
  have hdot := hnext (d := '.') (by decide)
  have hequal := hnext (d := '=') (by decide)
  refine Option.ext fun p => ?_
  exact ⟨scanPunct?_congr hdot hequal, scanPunct?_congr hdot.symm hequal.symm⟩

/-- The body of a string literal that is closed does not depend on what is behind it. -/
theorem stringBody_congr (h : (stringBody cs).2 ≠ none) (hfront : (stringBody cs).1 <+: ds) :
    stringBody ds = stringBody cs := by
  obtain ⟨rest, rfl⟩ := hfront
  fun_induction stringBody cs with
  | case1 | case3 => exact absurd rfl h
  | case2 => rfl
  | case4 c cs r ih =>
    have hbody : r.2 ≠ none := by simpa using h
    simp only [List.cons_append, stringBody, ih hbody, r]
  | case5 c cs hquote hlast hescape r ih =>
    have hbody : r.2 ≠ none := by simpa using h
    have hc : c ≠ '\\' := by
      rintro rfl
      cases cs with
      | nil => exact hlast rfl rfl
      | cons d ds => exact hescape d ds rfl rfl
    rw [List.cons_append, stringBody, ih hbody]
    · exact hquote
    · exact fun he _ => hc he
    · exact fun _ _ he _ => hc he

/-- The body of a character literal that is closed does not depend on what is behind it. -/
theorem characterBody_congr (h : (characterBody cs).2 ≠ none)
    (hfront : (characterBody cs).1 <+: ds) : characterBody ds = characterBody cs := by
  obtain ⟨rest, rfl⟩ := hfront
  fun_cases characterBody cs with
  | case1 => simp [characterBody]
  | case5 c tail => simp_all [characterBody]
  | _ => simp_all [characterBody]

theorem scanNumber_append (cs ds : List Char) : scanNumber (cs ++ '\n' :: ds) = scanNumber cs := by
  have hdigit : Char.isDigit '\n' = false := rfl
  unfold scanNumber
  rw [takeWhile_append_cons hdigit, dropWhile_append_cons hdigit]
  cases cs.dropWhile Char.isDigit with
  | nil => rfl
  | cons d rest =>
    by_cases hd : d = '.'
    · subst hd
      simp only [List.cons_append, takeWhile_append_cons hdigit]
    · simp [hd]

theorem isContinue_newline : Name.isContinue '\n' = false := by decide +kernel

theorem scanControl?_append (cs ds : List Char) :
    scanControl? (cs ++ '\n' :: ds) = scanControl? cs := by
  match cs with
  | [] => simp [scanControl?, ControlWord.ofLetter?]
  | [c] => simp [scanControl?, isContinue_newline]
  | c :: d :: cs => rfl

/-- What is read as a token other than line feeds is read with a line feed and a text behind
it, too. -/
theorem scan_append {hostLine : Bool} {taken : List Char} {k : Token.Kind}
    (h : scan hostLine cs = .read taken (.ok k)) (hk : k ≠ .newline) :
    scan hostLine (cs ++ '\n' :: ds) = .read taken (.ok k) := by
  cases cs with
  | nil => cases h
  | cons c cs =>
    unfold scan at h ⊢
    rw [List.cons_append, scanPunct?_append]
    split at h
    · exact h
    · split at h
      · cases h
      · next hcs =>
        cases h
        exact absurd rfl hk
      · next hcs =>
        cases hcs
        simpa using h
      · next hcs =>
        cases hcs
        simpa [scanControl?_append] using h
      · next rest hcs =>
        cases hcs
        have hbody : (stringBody cs).2 ≠ none := by
          intro hnone
          simp [hnone] at h
        have hlonger := (stringBody_front cs).trans (List.prefix_append cs ('\n' :: ds))
        simpa [stringBody_congr hbody hlonger] using h
      · next rest hcs =>
        cases hcs
        have hbody : (characterBody cs).2 ≠ none := by
          intro hnone
          simp [hnone] at h
        have hlonger := (characterBody_front cs).trans (List.prefix_append cs ('\n' :: ds))
        simpa [characterBody_congr hbody hlonger] using h
      · next hcs =>
        cases hcs
        cases cs with
        | nil => simp at h
        | cons d cs =>
          have hname := takeWhile_append_cons isContinue_newline (d :: cs) ds
          rw [List.cons_append] at hname
          by_cases hd : Name.isStart d = true
          · simpa [hd, hname] using h
          · simp [hd] at h
      · next hnewline hbang hat hquote hapostrophe htick hcs =>
        cases hcs
        have hword := takeWhile_append_cons isContinue_newline (c :: cs) ds
        have hnumber := scanNumber_append (c :: cs) ds
        rw [List.cons_append] at hword hnumber
        simpa [hnewline, hbang, hat, hquote, hapostrophe, htick, hword, hnumber] using h

end WqSource
