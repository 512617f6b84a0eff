import WqSource.Command.Arguments
import WqSource.Command.Inspection
import WqSource.Report.Rows

/-!
# What the program replies

A command comes to an exit code and two texts. Failures exit with 1 and tell why on the
error stream, below reports on the errors of a source if there are any. Arguments that
make no command exit with 2.

Reading is left to a function of the origin, so that the reply is determined by the
command and the bytes there.

## Main definitions

* `Reply`: exit code, output and error output.
* `Command.reply`: what a command comes to.
-/

namespace WqSource

/-- What the program leaves behind. -/
structure Reply where
  exitCode : Nat
  output : String
  errors : String
  deriving DecidableEq

namespace Reply

/-- A command has done what it was to do. -/
def success (output : String) : Reply := ⟨0, output, ""⟩

/-- A command has failed; reports stand in front of the reason. -/
def failure (reports : String) (f : Failure) : Reply :=
  ⟨1, "", reports ++ "error: " ++ f.message ++ "\n"⟩

/-- The arguments make no command. -/
def usage : Reply :=
  ⟨2, "", "usage: wq check|tokens|ast|fmt [OPTIONS] [FILE]\n       wq docs\n" ++
    "       wq doc CATEGORY\n       wq --version\n"⟩

end Reply

/-- A source and the name it has in reports. -/
structure Source where
  name : String
  text : String

/-- The name of what comes from an origin. -/
def Origin.name : Origin → String
  | code _ => "<eval>"
  | file path => path
  | standardInput => "<stdin>"

/-- The source from an origin, given how to read bytes from it. -/
def Origin.source (o : Origin) (read : Origin → Except ReadError ByteArray) :
    Except ReadError Source :=
  match o with
  | code text => .ok ⟨o.name, text⟩
  | _ => do
    match String.fromUTF8? (← read o) with
    | some text => return ⟨o.name, text⟩
    | none => .error .notText

/-- Reports on a source. -/
def Source.reports (s : Source) (ds : List Diagnostic) : String :=
  Report.reports .plain s.name s.text ds

/-- A text to show, or the reason why there is none. -/
def Source.reply (s : Source) : Except Failure String → Reply
  | .ok text => .success text
  | .error (.unparsable ds) => .failure (s.reports ds) (.unparsable ds)
  | .error f => .failure "" f

/-- The reply to a check. Warnings are reported even if there is nothing else to say. -/
def Source.replyToCheck (s : Source) (recover quiet : Bool) : Reply :=
  let result := check s.text recover
  if result.isValid then
    let verdict := s!"Syntax is valid ({result.statements} statements)\n"
    ⟨0, if quiet then "" else verdict, s.reports result.diagnostics⟩
  else s.reply (.error (.unparsable result.diagnostics))

namespace Command

/-- Where the source of a command comes from, if it has one. -/
def origin? : Command → Option Origin
  | check origin .. | tokens origin | tree origin .. | format origin => some origin
  | overview | page _ | version => none

/-- What a command comes to on a source, or by itself. -/
def replyOn (s : Source) : Command → Reply
  | check _ recover quiet => s.replyToCheck recover quiet
  | tokens _ => s.reply (listTokens s.text)
  | tree _ pretty spans => s.reply ((showTree s.text pretty spans).map (· ++ "\n"))
  | format _ => s.reply (WqSource.format s.text)
  | overview => .success (Manual.text Manual.overview)
  | page category => s.reply (manualPage category)
  | version => .success "wq 0.3.0\n"

/-- What a command comes to, given how to read bytes from an origin. -/
def reply (c : Command) (read : Origin → Except ReadError ByteArray) : Reply :=
  match c.origin? with
  | none => c.replyOn ⟨"", ""⟩
  | some origin =>
    match origin.source read with
    | .ok source => c.replyOn source
    | .error e => .failure "" (.unreadable e)

end Command
end WqSource
