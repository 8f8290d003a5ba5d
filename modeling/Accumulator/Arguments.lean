import Accumulator.Machine.Basic
set_option autoImplicit false

/-! # Arguments of the command line

The first argument names a command, and each command has three operands: paths, or paths and a
window. Interpreting also has two options, `--memory-size` and `--strict`, which may stand anywhere
after the command and at most once each.

Arguments are read from left to right, and the first one that settles the matter settles it: a
request for help is granted if nothing before it had to be refused. An argument that opens with a
dash is an option, a lone dash apart, and after `--` everything is an operand. Names are exact:
neither abbreviated nor written in another case. -/

namespace Accumulator

/-- What the arguments ask for. -/
inductive Request where
  | assemble (source binary log : String)
  | interpret (binary result : String) (window : Window) (config : Config)
  | help
  | version
deriving DecidableEq

/-- Why the arguments were refused. -/
inductive UsageError where
  | missingCommand
  | unexpected (argument : String)
  | missingOperands
  | missingValue (option : String)
  | badValue (text : String)
  | repeated (option : String)
deriving DecidableEq, Repr

/-- The wording of a refusal. -/
def UsageError.message : UsageError → String
  | .missingCommand => "a command is needed"
  | .unexpected argument => String.join ["unexpected argument `", argument, "`"]
  | .missingOperands => "too few arguments"
  | .missingValue option => String.join ["`", option, "` needs a value"]
  | .badValue text => String.join ["invalid value `", text, "`"]
  | .repeated option => String.join ["`", option, "` was given twice"]

namespace Arguments

/-! ## Sorting arguments -/

/-- The commands that work on files. -/
inductive Command where
  | assemble
  | interpret
deriving DecidableEq, Repr

/-- What an argument after a command is. -/
inductive Argument where
  | operand (text : String)
  | memorySize (text : String)
  | strict
  | help
  | refused (why : UsageError)
deriving DecidableEq, Repr

/-- The name of the option that sets the number of cells. -/
def memorySizeName : String := "--memory-size"

/-- What opens an argument that gives a number of cells together with the option's name. -/
def sizeLead : String := "--memory-size="

/-- The name of the option that refuses a stream with a rest. -/
def strictName : String := "--strict"

/-- Whether an argument opens with the given text. -/
def opensWith (lead argument : String) : Bool := lead.toList.isPrefixOf argument.toList

/-- Whether an argument opens with a dash and is not a lone one. -/
def isOption (argument : String) : Bool := opensWith "-" argument && argument != "-"

/-- Whether an argument asks for help: the long option, or short options with this one first. -/
def asksHelp (argument : String) : Bool := argument == "--help" || opensWith "-h" argument

/-- Whether an argument asks for the version: the long option, or short options with this one
    first. -/
def asksVersion (argument : String) : Bool := argument == "--version" || opensWith "-V" argument

/-- The value that an argument `--memory-size=VALUE` gives. -/
def attachedSize? (argument : String) : Option String :=
  if opensWith sizeLead argument then
    some (String.ofList (argument.toList.drop sizeLead.length))
  else none

/-- Sorts one argument that is not the option `--memory-size` alone. -/
def sortOne (command : Command) (argument : String) : Argument :=
  if !isOption argument then .operand argument
  else if asksHelp argument then .help
  else if command = .interpret then
    if argument = strictName then .strict
    else
      match attachedSize? argument with
      | some value => .memorySize value
      | none => .refused (.unexpected argument)
  else .refused (.unexpected argument)

/-- Sorts the arguments after a command, up to the first one that must be refused. While `pending`
    holds, the option `--memory-size` still waits for its value. -/
def sort (command : Command) (pending : Bool) : List String → List Argument
  | [] => if pending then [.refused (.missingValue memorySizeName)] else []
  | argument :: rest =>
    if pending then
      if isOption argument then [.refused (.missingValue memorySizeName)]
      else .memorySize argument :: sort command false rest
    else if argument = "--" then rest.map .operand
    else if command = .interpret ∧ argument = memorySizeName then sort command true rest
    else sortOne command argument :: sort command false rest

/-! ## Gathering what they say -/

/-- What an operand must be. -/
inductive Kind where
  | path
  | window
deriving DecidableEq, Repr

/-- An operand that was read. -/
inductive Value where
  | path (text : String)
  | window (w : Window)
deriving DecidableEq, Repr

/-- The operands of a command. -/
def Command.operands : Command → List Kind
  | .assemble => [.path, .path, .path]
  | .interpret => [.path, .path, .window]

/-- Reads an operand. A path is not empty. -/
def Kind.read (text : String) : Kind → Option Value
  | .path => if text = "" then none else some (.path text)
  | .window => (Window.parse text).toOption.map .window

/-- Reads a number of cells: a natural numeral of 64 bits, with a sign `+` or not. -/
def size? (text : String) : Option Nat :=
  match text.toList with
  | '+' :: digits => (Text.word64? digits).map UInt64.toNat
  | digits => (Text.word64? digits).map UInt64.toNat

/-- What the arguments have settled so far. -/
structure Draft where
  awaited : List Kind
  values : List Value
  memorySize : Option Nat
  strict : Bool

/-- Why reading ends before the last argument. -/
inductive Stop where
  | help
  | refused (why : UsageError)
deriving DecidableEq, Repr

/-- The draft with one more argument read. -/
def Draft.add (d : Draft) : Argument → Except Stop Draft
  | .refused why => .error (.refused why)
  | .help => .error .help
  | .strict =>
    if d.strict then .error (.refused (.repeated strictName)) else .ok { d with strict := true }
  | .memorySize text =>
    match d.memorySize, size? text with
    | some _, _ => .error (.refused (.repeated memorySizeName))
    | none, none => .error (.refused (.badValue text))
    | none, some size => .ok { d with memorySize := some size }
  | .operand text =>
    match d.awaited with
    | [] => .error (.refused (.unexpected text))
    | kind :: awaited =>
      match kind.read text with
      | none => .error (.refused (.badValue text))
      | some value => .ok { d with awaited, values := d.values ++ [value] }

/-- The configuration that the options ask for. -/
def Draft.config (d : Draft) : Config :=
  let truncation := if d.strict then .strict else .silent
  match d.memorySize with
  | none => { truncation }
  | some memorySize => { memorySize, truncation }

/-- The request of a command whose arguments are all read. -/
def Draft.finish (d : Draft) (command : Command) : Except Stop Request :=
  match command, d.values with
  | .assemble, [.path source, .path binary, .path log] => .ok (.assemble source binary log)
  | .interpret, [.path binary, .path result, .window w] =>
    .ok (.interpret binary result w d.config)
  | _, _ => .error (.refused .missingOperands)

/-- Reads the arguments after a command. -/
def readCommand (command : Command) (arguments : List String) : Except Stop Request := do
  let start : Draft := ⟨command.operands, [], none, false⟩
  let draft ← (sort command false arguments).foldlM Draft.add start
  draft.finish command

/-! ## The whole line -/

/-- The names that help may be asked about. -/
def helpTopics : List String := ["assemble", "interpret", "help"]

/-- Reads the arguments after the word `help`. -/
def readHelp : List String → Except UsageError Request
  | [] => .ok .help
  | [topic] => if helpTopics.contains topic then .ok .help else .error (.unexpected topic)
  | _ :: argument :: _ => .error (.unexpected argument)

/-- The request that a command's arguments come to, a demand for help included. -/
def settle : Except Stop Request → Except UsageError Request
  | .ok request => .ok request
  | .error .help => .ok .help
  | .error (.refused why) => .error why

/-- Reads all arguments. -/
def read : List String → Except UsageError Request
  | [] => .error .missingCommand
  | first :: rest =>
    if first = "assemble" then settle (readCommand .assemble rest)
    else if first = "interpret" then settle (readCommand .interpret rest)
    else if first = "help" then readHelp rest
    else if asksVersion first then .ok .version
    else if asksHelp first then .ok .help
    else .error (.unexpected first)

end Arguments

end Accumulator
