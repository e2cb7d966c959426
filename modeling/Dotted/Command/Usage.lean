import Dotted.Command.Terminal
import Dotted.Kind

/-!
# The options of the command

The options that the command and its subcommands know, how messages name them, and what can be
wrong with a command line.

A message is made for a terminal: what was wrong in the command line and what can be typed instead
stand between control sequences. `UsageError.headline` is its first line without them.
-/

namespace Dotted.Command

/-- The name of the program in messages. -/
def programName : String := "dotpath"

/-- What the program does, in one line. -/
def purpose : String := "Read, write, and list dot-delimited paths in JSON documents"

/-- The subcommands. -/
inductive Verb where
  | get
  | set
  | paths
deriving DecidableEq

/-- The options of all subcommands. -/
inductive Opt where
  | pretty
  | verbose
  | input
  | output
  | inPlace
  | string
  | kind
  | json
  | help
deriving DecidableEq

namespace Verb

/-- The subcommand of the given name. -/
def ofName? (name : String) : Option Verb :=
  if name = "get" then some .get
  else if name = "set" then some .set
  else if name = "paths" then some .paths
  else none

/-- How many arguments a subcommand takes besides its options. -/
def operandCount : Verb → Nat
  | .get => 1
  | .set => 2
  | .paths => 0

end Verb

namespace Opt

/-- The options that may stand before and after the subcommand. -/
def shared : List Opt := [.pretty, .verbose, .help]

/-- The options that may stand after a subcommand. -/
def ofVerb : Verb → List Opt
  | .get => .input :: shared
  | .set => [.input, .output, .inPlace, .string] ++ shared
  | .paths => [.input, .kind, .json] ++ shared

/-- The long name of an option. -/
def long : Opt → String
  | .pretty => "pretty"
  | .verbose => "verbose"
  | .input => "input"
  | .output => "output"
  | .inPlace => "in-place"
  | .string => "string"
  | .kind => "kind"
  | .json => "json"
  | .help => "help"

/-- The one-letter name of an option, if it has one. -/
def short? : Opt → Option Char
  | .verbose => some 'v'
  | .input => some 'i'
  | .output => some 'o'
  | .help => some 'h'
  | _ => none

/-- The name of an option's value, if it takes one. -/
def placeholder? : Opt → Option String
  | .input => some "INPUT"
  | .output => some "OUTPUT"
  | .kind => some "KIND"
  | _ => none

/-- Whether an option takes a value. -/
def takesValue (opt : Opt) : Bool := opt.placeholder?.isSome

/-- How messages name an option. -/
def shown (opt : Opt) : String :=
  match opt.placeholder? with
  | none => "--" ++ opt.long
  | some placeholder => "--" ++ opt.long ++ " <" ++ placeholder ++ ">"

end Opt

/-- What can be wrong with a command line. -/
inductive UsageError where
  /-- Nothing was asked for. -/
  | nothing
  | missingSubcommand
  | unknownSubcommand (name : String)
  | unexpectedArgument (argument : String)
  | unexpectedValue (value : String) (opt : Opt)
  | missingValue (opt : Opt)
  | repeated (opt : Opt)
  | conflict (first second : Opt)
  | invalidKind (name : String)
  | missingOperands
deriving DecidableEq

namespace UsageError

/-- A text of the command line, quoted as what is wrong. -/
def blamed (text : String) : String := "'" ++ Terminal.wrong text ++ "'"

/-- An option, quoted as what can be typed. -/
def named (opt : Opt) : String := "'" ++ Terminal.literal opt.shown ++ "'"

/-- The wording of a usage error. -/
def message : UsageError → String
  | .nothing => purpose
  | .missingSubcommand =>
    "error: '" ++ programName ++ "' requires a subcommand but one was not provided"
  | .unknownSubcommand name => "error: unrecognized subcommand " ++ blamed name
  | .unexpectedArgument argument => "error: unexpected argument " ++ blamed argument ++ " found"
  | .unexpectedValue value opt =>
    "error: unexpected value " ++ blamed value ++ " for " ++ named opt
      ++ " found; no more were expected"
  | .missingValue opt =>
    "error: a value is required for " ++ named opt ++ " but none was supplied"
  | .repeated opt => "error: the argument " ++ blamed opt.shown ++ " cannot be used multiple times"
  | .conflict first second =>
    "error: the argument " ++ blamed first.shown ++ " cannot be used with " ++ blamed second.shown
  | .invalidKind name =>
    "error: invalid value " ++ blamed name ++ " for " ++ named .kind ++ ": "
      ++ Kind.unknownMessage name
  | .missingOperands => "error: the following required arguments were not provided:"

/-- What follows every message. -/
def advice : String :=
  "\n\nFor more information, try '" ++ Terminal.literal ("--" ++ Opt.help.long) ++ "'.\n"

/-- The first line of the message and the advice, as they are without control sequences. -/
def headline (error : UsageError) : String :=
  Terminal.firstLine (Terminal.plain (error.message ++ advice))

end UsageError

end Dotted.Command
