import WqSource.Command.Reply

/-!
# The program

Reads the arguments, reads the bytes that the command wants, and writes the reply.
-/

namespace WqSource

/-- An error by what the system calls it, which starts with a capital, and its number,
which may come with its sign changed. -/
def ReadError.ofSystem (text : String) (number : UInt32) : ReadError :=
  system text.capitalize (if number < 0x80000000 then number else 0 - number).toNat

/-- An error of reading. -/
def ReadError.ofError : IO.Error → ReadError
  | .noFileOrDirectory _ number text | .inappropriateType _ number text
  | .permissionDenied _ number text | .resourceExhausted _ number text
  | .invalidArgument _ number text | .hardwareFault number text
  | .illegalOperation number text | .unsupportedOperation number text
  | .otherError number text => ofSystem text number
  | e => system (toString e) 5

/-- The bytes from an origin. -/
def Origin.readBytes : Origin → IO (Except ReadError ByteArray)
  | .code _ => return .ok .empty
  | .file path => attempt (IO.FS.readBinFile path)
  | .standardInput => do attempt (← IO.getStdin).readBinToEnd
where
  attempt (read : IO ByteArray) : IO (Except ReadError ByteArray) := do
    match ← read.toBaseIO with
    | .ok bytes => return .ok bytes
    | .error e => return .error (.ofError e)

/-- The reply to the arguments of the program. -/
def replyTo (args : List String) : IO Reply := do
  match Command.ofArguments? args with
  | none => return .usage
  | some command =>
    match command.origin? with
    | none => return command.reply fun _ => .ok .empty
    | some origin =>
      let bytes ← origin.readBytes
      return command.reply fun _ => bytes

end WqSource

/-- The command line. -/
def main (args : List String) : IO UInt32 := do
  let reply ← WqSource.replyTo args
  (← IO.getStdout).putStr reply.output
  (← IO.getStderr).putStr reply.errors
  return .ofNat reply.exitCode
