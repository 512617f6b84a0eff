/-!
# The arguments of the program

The first argument names a command; options and other arguments follow in any order. An
option with a value has it attached or in the next argument, which must not look like an
option then. Short options without a value may share one hyphen. Behind a double hyphen
nothing is an option.

What a command takes is a `Form`; reading against a form gives the options found and the
other arguments, of which a command takes at most one. Every mistake is the same to a
caller, so a failed reading says nothing more.

## Main definitions

* `Command`: what the program is asked to do.
* `Form.read`: arguments sorted into options and others.
* `Command.ofArguments?`: a command from all arguments.
-/

namespace WqSource

/-- The options of all commands. -/
inductive CommandOption where
  | eval | recover | quiet | pretty | spans
  deriving DecidableEq

namespace CommandOption

/-- The name behind two hyphens. -/
def longName : CommandOption → String
  | eval => "eval"
  | recover => "recover"
  | quiet => "quiet"
  | pretty => "pretty"
  | spans => "spans"

/-- The letter behind one hyphen. -/
def letter? : CommandOption → Option Char
  | eval => some 'e'
  | quiet => some 'q'
  | pretty => some 'p'
  | recover | spans => none

/-- Whether the option comes with a value. -/
def hasValue : CommandOption → Bool
  | eval => true
  | _ => false

end CommandOption

/-- The arguments of a command, sorted: options with their values, which are empty for an
option that takes none, and the others. -/
structure Arguments where
  options : List (CommandOption × String)
  others : List String
  deriving DecidableEq

namespace Arguments

/-- The value of an option, if it is there. -/
def value? (a : Arguments) (o : CommandOption) : Option String := a.options.lookup o

/-- Whether an option is there. -/
def has (a : Arguments) (o : CommandOption) : Bool := (a.value? o).isSome

/-- Adds an option, unless it is there already. -/
def addOption (a : Arguments) (o : CommandOption) (value : String) : Option Arguments :=
  if a.has o then none else some { a with options := a.options ++ [(o, value)] }

/-- Adds an argument that is no option. -/
def addOther (a : Arguments) (arg : String) : Arguments := { a with others := a.others ++ [arg] }

end Arguments

/-- What an argument with a hyphen in front has left to be read. -/
inductive Reading where
  /-- Nothing. -/
  | done (a : Arguments)
  /-- The value of an option, in the next argument. -/
  | awaiting (o : CommandOption) (a : Arguments)

/-- The options that a command takes. -/
abbrev Form := List CommandOption

namespace Form

/-- Reads what stands behind one hyphen: letters of options, the last of which may have a
value behind it, perhaps after an equals sign. -/
def readLetters (form : Form) (a : Arguments) : List Char → Option Reading
  | [] => some (.done a)
  | c :: cs => do
    let o ← form.find? (·.letter? == some c)
    if o.hasValue then
      match cs with
      | [] => some (.awaiting o a)
      | '=' :: value => Reading.done <$> a.addOption o (String.ofList value)
      | value => Reading.done <$> a.addOption o (String.ofList value)
    else form.readLetters (← a.addOption o "") cs

/-- Reads what stands behind two hyphens: the name of an option, and a value behind an
equals sign if the option has one. -/
def readName (form : Form) (a : Arguments) (cs : List Char) : Option Reading := do
  let name := cs.takeWhile (· != '=')
  let o ← form.find? (·.longName == String.ofList name)
  match cs.drop name.length, o.hasValue with
  | [], true => some (.awaiting o a)
  | [], false => Reading.done <$> a.addOption o ""
  | _ :: value, true => Reading.done <$> a.addOption o (String.ofList value)
  | _ :: _, false => none

/-- Whether an argument looks like an option. A single hyphen does not. -/
def looksLikeOption (arg : String) : Bool :=
  match arg.toList with
  | '-' :: _ :: _ => true
  | _ => false

/-- Sorts arguments, those before them being sorted already. -/
def readFrom (form : Form) (a : Arguments) : List String → Option Arguments
  | [] => some a
  | arg :: args =>
    match arg.toList with
    | ['-', '-'] => some (args.foldl Arguments.addOther a)
    | '-' :: c :: cs => do
      let reading ← if c = '-' then form.readName a cs else form.readLetters a (c :: cs)
      match reading, args with
      | .done a, args => form.readFrom a args
      | .awaiting _ _, [] => none
      | .awaiting o a, value :: args =>
        if looksLikeOption value then none else form.readFrom (← a.addOption o value) args
    | _ => form.readFrom (a.addOther arg) args

/-- Sorts arguments. -/
def read (form : Form) (args : List String) : Option Arguments := form.readFrom ⟨[], []⟩ args

end Form

/-- Where a source comes from. -/
inductive Origin where
  /-- The source itself. -/
  | code (text : String)
  /-- A file of that name. -/
  | file (path : String)
  | standardInput
  deriving DecidableEq

/-- What the program is asked to do. -/
inductive Command where
  /-- To look for errors. -/
  | check (origin : Origin) (recover quiet : Bool)
  /-- To list the tokens. -/
  | tokens (origin : Origin)
  /-- To show the tree. -/
  | tree (origin : Origin) (pretty spans : Bool)
  /-- To write the source in the layout for readers. -/
  | format (origin : Origin)
  /-- To list the categories of the manual. -/
  | overview
  /-- To show a page of the manual. -/
  | page (category : String)
  /-- To tell the version. -/
  | version
  deriving DecidableEq

namespace Arguments

/-- The only argument that is no option, if there is one. -/
def other? (a : Arguments) : Option (Option String) :=
  match a.others with
  | [] => some none
  | [arg] => some (some arg)
  | _ => none

/-- Where the source comes from. Code in the arguments comes before a file, a file before
the input. The name of a file has at least one character. -/
def origin? (a : Arguments) : Option Origin := do
  let file ← a.other?
  if file == some "" then none
  match a.value? .eval, file with
  | some code, _ => return .code code
  | none, some path => return .file path
  | none, none => return .standardInput

end Arguments

namespace Command

/-- The command of a given name with the arguments behind the name. -/
def ofName? (name : String) (args : List String) : Option Command :=
  match name with
  | "check" => do
    let a ← Form.read [.eval, .recover, .quiet] args
    return .check (← a.origin?) (a.has .recover) (a.has .quiet)
  | "tokens" => do
    let a ← Form.read [.eval] args
    return .tokens (← a.origin?)
  | "ast" => do
    let a ← Form.read [.eval, .pretty, .spans] args
    return .tree (← a.origin?) (a.has .pretty) (a.has .spans)
  | "fmt" => do
    let a ← Form.read [.eval] args
    return .format (← a.origin?)
  | "docs" => do
    match (← Form.read [] args).others with
    | [] => return .overview
    | _ => none
  | "doc" => do
    match (← Form.read [] args).others with
    | [category] => return .page category
    | _ => none
  | _ => none

/-- The command that the arguments ask for. In place of a command the version may be asked
for; whatever follows does not matter then. -/
def ofArguments? : List String → Option Command
  | [] => none
  | arg :: args =>
    if arg == "--version" || arg.startsWith "-V" then some .version else ofName? arg args

end Command
end WqSource
