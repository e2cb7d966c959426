import Dotted.Command.Usage

/-!
# Reading command lines

A command line is read from left to right. Options may stand among the operands. A long option may
have its value after an equals sign, a short one directly behind its letter or after an equals sign;
otherwise the next argument is the value, unless it looks like an option. After two hyphens alone,
every argument is an operand. When help is asked for, nothing that follows is read.

* `Arguments.readAll` reads the arguments after a subcommand.
* `Invocation.ofArguments` reads a whole command line.
-/

namespace Dotted.Command

/-- Where the document to work on comes from. -/
inductive Source where
  | standardInput
  | file (name : String)
deriving DecidableEq

/-- Where a changed document goes. -/
inductive Target where
  | standardOutput
  | file (name : String)
  /-- The file that the document came from. -/
  | source
deriving DecidableEq

/-- What is to be done. -/
inductive Task where
  /-- Print the value at a path. -/
  | get (path : String) (source : Source)
  /-- Put a value at a path; the value is JSON, or plain text if `literal`. -/
  | set (path value : String) (source : Source) (target : Target) (literal : Bool)
  /-- List the paths, all or of one kind, one per line or as JSON. -/
  | paths (source : Source) (kind : Option Kind) (asJson : Bool)
  /-- Say what the program does. -/
  | help
deriving DecidableEq

/-- A complete command line. -/
structure Invocation where
  task : Task
  pretty : Bool
  verbose : Bool
deriving DecidableEq

/-- What has been read of the arguments. -/
structure Arguments where
  /-- The options that are settled, in order, with their values. -/
  options : List (Opt × Option String)
  /-- The last option with a value of its own, which is not settled yet, and its value if that has
  been read. -/
  pending : Option (Opt × Option String)
  operands : List String
  /-- Whether only operands can follow. -/
  operandsOnly : Bool

namespace Arguments

/-- Nothing read. -/
def empty : Arguments := ⟨[], none, [], false⟩

/-- Whether an option has been given. -/
def has (arguments : Arguments) (opt : Opt) : Bool :=
  arguments.options.any fun given => given.1 = opt

/-- The value of an option, if it has been given. -/
def value? (arguments : Arguments) (opt : Opt) : Option String :=
  (arguments.options.lookup opt).join

/-- Whether help is asked for. -/
def asksHelp (arguments : Arguments) : Bool := arguments.has .help

/-- Settles an option: it may occur once, and its value must be acceptable. -/
def give (arguments : Arguments) (opt : Opt) (value : Option String) :
    Except UsageError Arguments :=
  let settled := { arguments with options := arguments.options ++ [(opt, value)] }
  if arguments.has opt then .error (.repeated opt)
  else
    match opt, value with
    | .input, some "" | .output, some "" => .error (.missingValue opt)
    | .kind, some name =>
      if (Kind.ofName? name).isSome then .ok settled else .error (.invalidKind name)
    | _, _ => .ok settled

/-- Settles the option that waits, if there is one. -/
def settle (arguments : Arguments) : Except UsageError Arguments :=
  match arguments.pending with
  | none => .ok arguments
  | some (opt, none) => .error (.missingValue opt)
  | some (opt, some value) => { arguments with pending := none }.give opt (some value)

/-- Settles the option that waits, then another. -/
def settleThen (arguments : Arguments) (opt : Opt) (value : Option String) :
    Except UsageError Arguments := do
  (← arguments.settle).give opt value

/-- Makes an option wait for its value. -/
def await (arguments : Arguments) (opt : Opt) : Except UsageError Arguments := do
  return { (← arguments.settle) with pending := some (opt, none) }

/-- Reads a long option after its hyphens. -/
def readLong (known : List Opt) (arguments : Arguments) (text : List Char) :
    Except UsageError Arguments :=
  let name := String.ofList (text.takeWhile (· != '='))
  let value? := (text.dropWhile (· != '=')).tail?.map String.ofList
  match known.find? fun opt => opt.long = name, value? with
  | none, _ => .error (.unexpectedArgument ("--" ++ name))
  | some opt, none =>
    if opt.takesValue then arguments.await opt else arguments.settleThen opt none
  | some opt, some value =>
    if opt.takesValue then arguments.settleThen opt value
    else .error (.unexpectedValue value opt)

/-- Reads short options, one letter after the other; the letters behind one that takes a value are
the value. -/
def readShort (known : List Opt) (arguments : Arguments) : List Char →
    Except UsageError Arguments
  | [] => .ok arguments
  | letter :: rest =>
    match known.find? fun opt => opt.short? = some letter with
    | none => .error (.unexpectedArgument (String.ofList ['-', letter]))
    | some opt =>
      if opt.takesValue then
        match rest with
        | [] => arguments.await opt
        | '=' :: value => arguments.settleThen opt (String.ofList value)
        | value => arguments.settleThen opt (String.ofList value)
      else
        match arguments.settleThen opt none with
        | .ok arguments =>
          if arguments.asksHelp then .ok arguments else readShort known arguments rest
        | .error error => .error error

/-- Reads an operand. -/
def readOperand (count : Nat) (arguments : Arguments) (argument : String) :
    Except UsageError Arguments :=
  if arguments.operands.length < count then do
    let arguments ← arguments.settle
    return { arguments with operands := arguments.operands ++ [argument] }
  else .error (.unexpectedArgument argument)

/-- Reads an argument that is no option: the value that an option waits for, or an operand. -/
def readPlain (count : Nat) (arguments : Arguments) (argument : String) :
    Except UsageError Arguments :=
  match arguments.pending with
  | some (opt, none) => .ok { arguments with pending := some (opt, some argument) }
  | _ => readOperand count arguments argument

/-- Reads one argument, when `known` options and `count` operands may stand. -/
def read (known : List Opt) (count : Nat) (arguments : Arguments) (argument : String) :
    Except UsageError Arguments :=
  if arguments.asksHelp then .ok arguments
  else if arguments.operandsOnly then readOperand count arguments argument
  else
    match argument.toList with
    | ['-', '-'] => .ok { arguments with operandsOnly := true }
    | '-' :: '-' :: text => readLong known arguments text
    | '-' :: letter :: letters => readShort known arguments (letter :: letters)
    | _ => readPlain count arguments argument

/-- Reads the arguments after a subcommand. -/
def readAll (verb : Verb) (arguments : List String) : Except UsageError Arguments := do
  let read ← arguments.foldlM (read (Opt.ofVerb verb) verb.operandCount) empty
  read.settle

/-- The options that cannot be given together. -/
def conflict? (arguments : Arguments) : Option (Opt × Opt) :=
  if arguments.has .output && arguments.has .inPlace then
    match arguments.options.find? fun given => given.1 = .output ∨ given.1 = .inPlace with
    | some (.inPlace, _) => some (.inPlace, .output)
    | _ => some (.output, .inPlace)
  else none

/-- The source that the arguments name; a single hyphen is standard input. -/
def source (arguments : Arguments) : Source :=
  match arguments.value? .input with
  | none => .standardInput
  | some name => if name = "-" then .standardInput else .file name

/-- The target that the arguments name. -/
def target (arguments : Arguments) : Target :=
  if arguments.has .inPlace then .source
  else
    match arguments.value? .output with
    | none => .standardOutput
    | some name => .file name

/-- The task of a subcommand with its arguments, if there are as many operands as it takes. -/
def task? (arguments : Arguments) (verb : Verb) : Option Task :=
  match verb, arguments.operands with
  | .get, [path] => some (.get path arguments.source)
  | .set, [path, value] =>
    some (.set path value arguments.source arguments.target (arguments.has .string))
  | .paths, [] =>
    some (.paths arguments.source ((arguments.value? .kind).bind Kind.ofName?)
      (arguments.has .json))
  | _, _ => none

end Arguments

namespace Invocation

/-- Saying what the program does. -/
def help : Invocation := ⟨.help, false, false⟩

/-- Reads a subcommand and its arguments, after the shared options in `before`. -/
def ofSubcommand (before : Arguments) (verb : Verb) (arguments : List String) :
    Except UsageError Invocation := do
  let read ← Arguments.readAll verb arguments
  if read.asksHelp then return help
  match read.conflict?, read.task? verb with
  | some (first, second), _ => .error (.conflict first second)
  | none, none => .error .missingOperands
  | none, some task =>
    .ok {
      task
      pretty := before.has .pretty || read.has .pretty
      verbose := before.has .verbose || read.has .verbose }

/-- The word that asks for help in place of a subcommand. -/
def helpWord : String := "help"

/-- Whether a word can stand in place of a subcommand. -/
def isSubcommand (word : String) : Bool := (Verb.ofName? word).isSome || word = helpWord

/-- Reads the words after the one that asks for help: the subcommand to be explained, or none. -/
def ofTopics : List String → Except UsageError Invocation
  | [] => .ok help
  | topic :: further =>
    match isSubcommand topic, further with
    | false, _ => .error (.unknownSubcommand topic)
    | true, [] => .ok help
    | true, word :: _ => .error (.unknownSubcommand word)

/-- Reads the arguments from the first that is not yet in `before`. -/
def ofRest (before : Arguments) : List String → Except UsageError Invocation
  | [] => .error (if before.options.isEmpty then .nothing else .missingSubcommand)
  | argument :: rest =>
    if before.operandsOnly then
      .error (if isSubcommand argument then .unexpectedArgument argument
        else .unknownSubcommand argument)
    else if argument = helpWord then ofTopics rest
    else
      match Verb.ofName? argument with
      | some verb => ofSubcommand before verb rest
      | none =>
        if argument.toList.head? != some '-' || argument = "-" then
          .error (.unknownSubcommand argument)
        else
          match before.read Opt.shared 0 argument with
          | .ok before => if before.asksHelp then .ok help else ofRest before rest
          | .error error => .error error

/-- Reads a command line. -/
def ofArguments (arguments : List String) : Except UsageError Invocation :=
  ofRest .empty arguments

end Invocation

end Dotted.Command
