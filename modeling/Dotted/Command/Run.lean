import Dotted.Command.Arguments
import Dotted.Command.FileTree
import Dotted.Command.Note
import Dotted.Enumeration
import Dotted.Json.Printer
import Dotted.Json.Reader
import Dotted.Writing

/-!
# Running a command

A task is run in stages: the document is read, the task is done on it, and the result is delivered.
The first stage that fails ends the run, and nothing is delivered before all others are through.

* `Host` is what a run needs of the world around it: standard input, files, and a log.
* `Invocation.run` runs a command line with any host.
* `World` is a host that is a value, and `World.run` the run in it: its outcome is what the command
  prints, the error if it fails, and the world afterwards.
-/

namespace Dotted.Command

open Json (Layout ReadError)

/-- Why a run fails. -/
inductive RunError where
  | sourceRequired
  | unreadable (source : Source) (reason : FileError)
  | malformedDocument (reason : ReadError)
  | malformedValue (value : String) (reason : ReadError)
  | malformedPath (path : String) (reason : PathError)
  | nothingThere (path : Path)
  | refused (path : Path) (reason : WriteError)
  | unwritable (name : String) (reason : FileError)
deriving DecidableEq

namespace RunError

/-- The wording of a failure. -/
def message : RunError → String
  | .sourceRequired => "--in-place requires an input file"
  | .unreadable .standardInput _ => "Failed to read stdin"
  | .unreadable (.file name) _ => "Failed to read " ++ Text.quoted name
  | .malformedDocument _ => "Failed to parse input as JSON"
  | .malformedValue value _ =>
    "Value " ++ Text.quoted value ++ " is not valid JSON (pass --string to store it as text)"
  | .malformedPath path _ => "Invalid path " ++ Text.quoted path
  | .nothingThere path => "No value at path " ++ path.text
  | .refused path _ => "Failed to set " ++ path.text
  | .unwritable name _ => "Failed to write " ++ Text.quoted name

/-- The wording of what caused a failure. -/
def cause? : RunError → Option String
  | .sourceRequired | .nothingThere _ => none
  | .unreadable _ reason | .unwritable _ reason => some reason.message
  | .malformedDocument reason | .malformedValue _ reason => some reason.message
  | .malformedPath _ reason => some reason.message
  | .refused _ reason => some reason.message

/-- Every line of a text after the first, indented. -/
def indented (text : String) : String :=
  String.ofList
    (text.toList.flatMap fun c => if c = '\n' then '\n' :: [' ', ' ', ' ', ' '] else [c])

/-- A failure as it is shown to the user. -/
def report (error : RunError) : String :=
  "Error: " ++ error.message ++
    match error.cause? with
    | none => "\n"
    | some cause => "\n\nCaused by:\n    " ++ indented cause ++ "\n"

end RunError

/-- What a run needs of the world around it. -/
structure Host (m : Type → Type) where
  readInput : m ByteArray
  readFile : String → m (Except FileError ByteArray)
  writeFile : String → ByteArray → m (Except FileError Unit)
  note : Note → m Unit

/-- A step of a run: it may fail, and may use the host. -/
abbrev Step (m : Type → Type) := ExceptT RunError m

namespace Host

variable {m : Type → Type} [Monad m] (host : Host m)

/-- Reports what the library has reported, and goes on with its result. -/
def report {α : Type} (logged : Logged α) : Step m α := do
  logged.events.forM fun event => host.note (.library event)
  return logged.value

/-- The contents of a source. -/
def contents (source : Source) : m (Except FileError ByteArray) :=
  match source with
  | .standardInput => return .ok (← host.readInput)
  | .file name => host.readFile name

/-- Reads the document to work on. -/
def readDocument (source : Source) : Step m Document := do
  let fail (reason : FileError) : Step m Document := throw (.unreadable source reason)
  match ← host.contents source with
  | .error reason => fail reason
  | .ok bytes =>
    match String.fromUTF8? bytes with
    | none => fail .notText
    | some text => do
      host.note (.readDocument text.utf8ByteSize)
      match Document.ofText text with
      | .error reason => throw (.malformedDocument reason)
      | .ok document => return document

end Host

/-- The path that an operand writes. -/
def pathOperand (text : String) : Except RunError Path :=
  (Path.parse text).mapError (.malformedPath text)

/-- The value that an operand writes: JSON, or the text itself if it is taken literally. -/
def valueOperand (text : String) (literal : Bool) : Except RunError Document :=
  if literal then .ok (.string text)
  else (Document.ofText text).mapError (.malformedValue text)

/-- The layout that is asked for. -/
def layoutFor (pretty : Bool) : Layout := if pretty then .indented else .compact

/-- The text of a document as it is delivered. -/
def rendered (pretty : Bool) (document : Document) : String :=
  document.text (layoutFor pretty) ++ "\n"

/-- The file that a target names, if it names one; the source may have to be a file. -/
def targetFile (source : Source) : Target → Except RunError (Option String)
  | .standardOutput => .ok none
  | .file name => .ok (some name)
  | .source =>
    match source with
    | .file name => .ok (some name)
    | .standardInput => .error .sourceRequired

/-- The text that lists paths: one per line, or an array of strings. -/
def listing (pretty asJson : Bool) (paths : List Path) : String :=
  if asJson then rendered pretty (.array (paths.map fun path => .string path.text))
  else String.join (paths.map fun path => path.text ++ "\n")

namespace Host

variable {m : Type → Type} [Monad m] (host : Host m)

/-- Delivers a text to a file, or hands it back to be printed. -/
def deliver (file : Option String) (text : String) : Step m String :=
  match file with
  | none => return text
  | some name => do
    match ← host.writeFile name text.toUTF8 with
    | .error reason => throw (.unwritable name reason)
    | .ok () =>
      host.note (.wroteDocument name)
      return ""

/-- Prints the value at a path. -/
def get (pretty : Bool) (path : String) (source : Source) : Step m String := do
  let document ← host.readDocument source
  let path ← pathOperand path
  match ← host.report (document.get path) with
  | none => throw (.nothingThere path)
  | some value => return rendered pretty value

/-- Sets the value at a path and delivers the document. -/
def set (pretty : Bool) (path value : String) (source : Source) (target : Target)
    (literal : Bool) : Step m String := do
  let file ← targetFile source target
  let document ← host.readDocument source
  let leaf ← valueOperand value literal
  let place ← pathOperand path
  let writing := document.set place leaf
  match ← host.report ⟨writing.error?, writing.events⟩ with
  | some reason => throw (.refused place reason)
  | none => do
    host.note (.valueSet path)
    host.deliver file (rendered pretty writing.document)

/-- Lists the paths of the document. -/
def paths (pretty : Bool) (source : Source) (kind : Option Kind) (asJson : Bool) :
    Step m String := do
  let document ← host.readDocument source
  let listed :=
    match kind with
    | none => document.paths
    | some kind => document.pathsOf kind
  return listing pretty asJson (← host.report listed)

end Host

/-- Runs a command line: the result is the text to print. -/
def Invocation.run {m : Type → Type} [Monad m] (host : Host m) (invocation : Invocation) :
    Step m String :=
  match invocation.task with
  | .get path source => host.get invocation.pretty path source
  | .set path value source target literal =>
    host.set invocation.pretty path value source target literal
  | .paths source kind asJson => host.paths invocation.pretty source kind asJson
  | .help => return purpose ++ "\n"

/-! ## Runs in a world that is a value -/

/-- Files, standard input, and what has been reported. -/
structure World where
  files : FileTree
  input : ByteArray
  notes : List Note

namespace World

/-- The host that a world is. -/
def host : Host (StateM World) where
  readInput := return (← get).input
  readFile name := return (← get).files.read name
  writeFile name contents := do
    match (← get).files.write name contents with
    | .error reason => return .error reason
    | .ok files =>
      modify fun world => { world with files }
      return .ok ()
  note note := modify fun world => { world with notes := world.notes ++ [note] }

/-- Runs a command line in a world. -/
def run (world : World) (invocation : Invocation) : Except RunError String × World :=
  (invocation.run host).run.run world

end World

/-- How a command ends: the exit code, what it prints, and the files afterwards. -/
structure Ending where
  code : Nat
  output : String
  /-- The log, and the error if the run failed. -/
  diagnostics : String
  files : FileTree

/-- Exit codes. -/
def successCode : Nat := 0
/-- The run failed. -/
def failureCode : Nat := 1
/-- The command line could not be read. -/
def usageCode : Nat := 2

/-- The ending of a run. -/
def Ending.ofRun (threshold : Threshold) (result : Except RunError String) (world : World) :
    Ending :=
  let log := String.join ((world.notes.filter threshold.admits).map Note.line)
  match result with
  | .ok output => ⟨successCode, output, log, world.files⟩
  | .error error => ⟨failureCode, "", log ++ error.report, world.files⟩

/-- Runs the command with the given arguments and log setting, on the given files and standard
input. -/
def execute (arguments : List String) (setting : Option String) (files : FileTree)
    (input : ByteArray) : Except UsageError Ending := do
  let invocation ← Invocation.ofArguments arguments
  let (result, world) := World.run ⟨files, input, []⟩ invocation
  return .ofRun (.choose setting invocation.verbose) result world

end Dotted.Command
