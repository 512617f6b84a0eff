import WqSource.Command.Reply
import WqSource.Proofs.Grammar.Faults

/-!
# One verdict on a source

The commands reach a source in different ways: a check may recover from errors and another may
not, the tree and the formatted text are made from a program that is read without recovery, and
tokens are read without the grammar. Still they say the same of a source, as recovery adds
errors only where there is one already, and as a parse without errors has seen all tokens.

## Main definitions

* `Command.Judges`: whether a command depends on there being no errors.
* `OneVerdict`: what the commands say of a source.

## Main statements

* `one_verdict`: they agree.
-/

namespace WqSource
open Grammar

variable {source : String} {recover : Bool}

/-! ## What commands find out -/

theorem isValid_check :
    (check source recover).isValid = (parse source recover).errors.isEmpty := by
  rw [Bool.eq_iff_iff, List.isEmpty_iff]
  simp [check, CheckResult.isValid, Parsed.errors, List.filter_eq_nil_iff]

/-- The program of a source without errors, or else all that a check finds without recovery. -/
theorem readProgram_eq : readProgram source =
    if (check source false).isValid then .ok (parse source false).program
    else .error (.unparsable (check source false).diagnostics) := by
  rw [isValid_check, readProgram, Parsed.toExcept]
  split <;> rfl

theorem readProgram_of_valid (h : (check source false).isValid = true) :
    readProgram source = .ok (parse source false).program := by
  rw [readProgram_eq, if_pos h]

theorem readProgram_of_invalid (h : (check source false).isValid = false) :
    readProgram source = .error (.unparsable (check source false).diagnostics) := by
  rw [readProgram_eq, if_neg (by simp [h])]

/-- Recovery does not change whether there are errors. -/
theorem isValid_recover (source : String) :
    (check source true).isValid = (check source false).isValid := by
  rw [isValid_check, isValid_check, Bool.eq_iff_iff, List.isEmpty_iff, List.isEmpty_iff]
  refine ⟨fun h => ?_, fun h => ?_⟩ <;>
  · rw [← parse_eq_of_errors_eq_nil h]
    exact h

/-- Without errors, recovery changes nothing at all. -/
theorem check_recover_of_valid (h : (check source false).isValid = true) :
    check source true = check source false := by
  rw [isValid_check, List.isEmpty_iff] at h
  have hsame : parse source false = parse source true := parse_eq_of_errors_eq_nil h
  simp only [check, hsame]

/-- What is found without recovery is where the findings of recovery begin. -/
theorem diagnostics_recover (source : String) :
    (check source false).diagnostics <+: (check source true).diagnostics := by
  change (parse source false).problems.map _ <+: (parse source true).problems.map _
  rcases parse_agrees_or_stops source with hsame | ⟨ps, g, -, -, hprefix⟩
  · rw [hsame]
  · exact hprefix.map _

/-- A source that is no program has exactly one error without recovery. -/
theorem errors_of_invalid (h : (check source false).isValid = false) :
    ∃ d, (check source false).diagnostics.filter Diagnostic.isError = [d] := by
  obtain ⟨failure, herrors⟩ := errors_eq_failure source
  rw [isValid_check, herrors] at h
  cases failure with
  | none => cases h
  | some x => exact ⟨_, herrors⟩

theorem listTokens_of_valid (h : (check source false).isValid = true) :
    ∃ text, listTokens source = .ok text := by
  rw [isValid_check, List.isEmpty_iff] at h
  obtain ⟨ts, hts⟩ := tokenize_of_errors_eq_nil h
  exact ⟨_, by rw [listTokens, hts]⟩

theorem showTree_eq (source : String) (pretty spans : Bool) :
    showTree source pretty spans = (readProgram source).map fun p =>
      if pretty then (p.toJson spans).pretty else (p.toJson spans).compact := by
  unfold showTree
  cases readProgram source <;> rfl

theorem format_eq (source : String) :
    format source = (readProgram source).map fun p =>
      if (p.text .pretty).isEmpty then p.text .pretty else p.text .pretty ++ "\n" := by
  unfold format
  cases readProgram source <;> rfl

/-- Whatever is made of a program is there if the source is valid. -/
theorem isOk_map_readProgram (source : String) (f : Program → String) :
    ((readProgram source).map f).isOk = (check source false).isValid := by
  rw [readProgram_eq]
  cases (check source false).isValid <;> rfl

/-! ## What commands reply -/

/-- Whether a command depends on there being no errors in its source. -/
def Command.Judges : Command → Prop
  | check .. | tree .. | format _ => True
  | tokens _ | overview | page _ | version => False

/-- What a command leaves behind on a source that is valid, or is not: the exit code says so, and
nothing is written on the output if it is not. -/
structure Reply.Follows (valid : Bool) (r : Reply) : Prop where
  exitCode : r.exitCode = if valid then 0 else 1
  output : valid = false → r.output = ""

namespace Source
variable (s : Source)

theorem reply_map_readProgram (f : Program → String) :
    (s.reply ((readProgram s.text).map f)).Follows (check s.text false).isValid := by
  rw [readProgram_eq]
  cases (check s.text false).isValid with
  | true => exact ⟨rfl, by simp⟩
  | false => exact ⟨rfl, fun _ => rfl⟩

theorem replyToCheck_follows (recover quiet : Bool) :
    (s.replyToCheck recover quiet).Follows (check s.text false).isValid := by
  have hvalid : (check s.text recover).isValid = (check s.text false).isValid := by
    cases recover with
    | false => rfl
    | true => exact isValid_recover s.text
  rw [replyToCheck, hvalid]
  cases (check s.text false).isValid with
  | true => exact ⟨rfl, by simp⟩
  | false => exact ⟨rfl, fun _ => rfl⟩

end Source

/-- The replies to all commands that judge a source follow one verdict. -/
theorem Command.replyOn_follows {c : Command} (hc : c.Judges) (s : Source) :
    (c.replyOn s).Follows (WqSource.check s.text false).isValid := by
  cases c with
  | check origin recover quiet => exact s.replyToCheck_follows recover quiet
  | tree origin pretty spans =>
    have hmap (r : Except Failure Program) (f : Program → String) :
        (r.map f).map (· ++ "\n") = r.map fun p => f p ++ "\n" := by
      cases r <;> rfl
    rw [replyOn, showTree_eq, hmap]
    exact s.reply_map_readProgram _
  | format origin =>
    rw [replyOn, format_eq]
    exact s.reply_map_readProgram _
  | tokens | overview | page | version => cases hc

/-- A command replies to the source that is read from its origin. -/
theorem Command.reply_eq {c : Command} {o : Origin} {s : Source}
    {read : Origin → Except ReadError ByteArray} (ho : c.origin? = some o)
    (hs : o.source read = .ok s) : c.reply read = c.replyOn s := by
  rw [reply, ho]
  dsimp only
  rw [hs]

/-! ## Agreement -/

/-- What the commands say of a source. -/
structure OneVerdict (source : String) : Prop where
  recovery : (check source true).isValid = (check source false).isValid
  trees : ∀ pretty spans, (showTree source pretty spans).isOk = (check source false).isValid
  formatted : (format source).isOk = (check source false).isValid
  /-- The tokens of a valid source can be listed, and recovery counts the same statements. -/
  valid : (check source false).isValid = true →
    (∃ text, listTokens source = .ok text) ∧
      (check source true).statements = (check source false).statements
  /-- What a check finds without recovery is why there is no tree and no formatted text. -/
  failures : (check source false).isValid = false →
    (∀ pretty spans, showTree source pretty spans =
      .error (.unparsable (check source false).diagnostics)) ∧
    format source = .error (.unparsable (check source false).diagnostics)
  /-- There is exactly one error then; a check that recovers finds it first, perhaps with more
  behind it. -/
  errors : (check source false).isValid = false →
    (∃ d, (check source false).diagnostics.filter Diagnostic.isError = [d]) ∧
      (check source true).diagnostics.any Diagnostic.isError = true ∧
      (check source false).diagnostics <+: (check source true).diagnostics
  /-- Whatever the source comes from, the commands that judge it exit with the same code, and
  write nothing on the output if that is 1. -/
  replies : ∀ (c : Command) (o : Origin) (s : Source) (read : Origin → Except ReadError ByteArray),
    c.Judges → c.origin? = some o → o.source read = .ok s → s.text = source →
      (c.reply read).Follows (check source false).isValid

/-- The commands come to one verdict on every source. -/
theorem one_verdict (source : String) : OneVerdict source where
  recovery := isValid_recover source
  trees pretty spans := by rw [showTree_eq, isOk_map_readProgram]
  formatted := by rw [format_eq, isOk_map_readProgram]
  valid h := ⟨listTokens_of_valid h, by rw [check_recover_of_valid h]⟩
  failures h := by
    have hread := readProgram_of_invalid h
    exact ⟨fun pretty spans => by rw [showTree_eq, hread]; rfl, by rw [format_eq, hread]; rfl⟩
  errors h := by
    have herror : (check source true).isValid = false := (isValid_recover source).trans h
    exact ⟨errors_of_invalid h, by simpa [CheckResult.isValid] using herror,
      diagnostics_recover source⟩
  replies c o s read hc ho hs htext := by
    rw [c.reply_eq ho hs, ← htext]
    exact c.replyOn_follows hc s

end WqSource
