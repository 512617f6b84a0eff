import WqSource.Problem

/-!
# What commands fail with

A command fails because its source has errors, because the source cannot be read, or
because the manual has no such category.
-/

namespace WqSource

/-- Why a source cannot be read. -/
inductive ReadError where
  /-- An error of the operating system, by what the system calls it and its number. -/
  | system (text : String) (number : Nat)
  /-- The bytes are no text. -/
  | notText
  deriving DecidableEq

namespace ReadError

/-- There is no file of that name. -/
def noSuchFile : ReadError := system "No such file or directory" 2

/-- The name is that of a directory. -/
def isDirectory : ReadError := system "Is a directory" 21

/-- The text of the error. -/
def message : ReadError → String
  | system text number => s!"{text} (os error {number})"
  | notText => "stream did not contain valid UTF-8"

end ReadError

/-- Why a command fails. -/
inductive Failure where
  /-- The source has errors; these are its errors and warnings. -/
  | unparsable (diagnostics : List Diagnostic)
  | unreadable (e : ReadError)
  | unknownCategory (name : String)
  deriving DecidableEq

/-- The text of the failure. -/
def Failure.message : Failure → String
  | unparsable ds =>
    let count := (ds.filter Diagnostic.isError).length
    s!"parsing failed with {count} error(s)"
  | unreadable e => "IO error: " ++ e.message
  | unknownCategory name =>
    "Unknown category: '" ++ name ++ "'\nRun 'wq docs' to see available categories."

end WqSource
