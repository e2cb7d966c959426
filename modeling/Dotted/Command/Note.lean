import Dotted.Event

/-!
# Notes

What a run of the command reports besides its result: the events of the library and a few of its
own. A threshold decides which of them are shown.
-/

namespace Dotted.Command

/-- Something that a run reports. -/
inductive Note where
  /-- A document of so many bytes has been read. -/
  | readDocument (bytes : Nat)
  /-- The value at a path has been set. -/
  | valueSet (path : String)
  /-- The document has been written to a file. -/
  | wroteDocument (name : String)
  /-- The library has reported something. -/
  | library (event : Event)
deriving DecidableEq

namespace Note

/-- The level of a note. -/
def level : Note → Level
  | .readDocument _ | .wroteDocument _ => .debug
  | .valueSet _ => .info
  | .library event => event.level

/-- The part of the program that reports a note. -/
def target : Note → String
  | .readDocument _ | .wroteDocument _ => "dotpath::document"
  | .valueSet _ => "dotpath::cmd_set"
  | .library event => event.target

/-- The wording of a note and its fields. -/
def message : Note → String
  | .readDocument bytes => "read input document bytes=" ++ bytes.repr
  | .valueSet path => "value set path=" ++ path
  | .wroteDocument name => "wrote output document path=" ++ Text.quoted name
  | .library event => event.message

/-- A note as a line of the log; the names of levels are aligned to the right. -/
def line (note : Note) : String :=
  let name := note.level.name
  let blanks := String.ofList (List.replicate (5 - name.length) ' ')
  blanks ++ name ++ " " ++ note.target ++ ": " ++ note.message ++ "\n"

end Note

/-- How much is reported: notes of up to this level, or none. -/
structure Threshold where
  level : Option Level
deriving DecidableEq

namespace Threshold

/-- The threshold that a setting asks for: the name of a level in either case, or `off`. -/
def ofSetting? (setting : String) : Option Threshold :=
  match setting.toLower with
  | "off" => some ⟨none⟩
  | "error" => some ⟨some .error⟩
  | "warn" => some ⟨some .warn⟩
  | "info" => some ⟨some .info⟩
  | "debug" => some ⟨some .debug⟩
  | "trace" => some ⟨some .trace⟩
  | _ => none

/-- The threshold of a run: that of the setting, if there is one, and otherwise warnings, or debug
notes too if the run is verbose. -/
def choose (setting : Option String) (verbose : Bool) : Threshold :=
  match setting.bind ofSetting? with
  | some threshold => threshold
  | none => ⟨some (if verbose then .debug else .warn)⟩

/-- Whether a note is shown. -/
def admits (threshold : Threshold) (note : Note) : Bool :=
  match threshold.level with
  | none => false
  | some level => note.level.detail ≤ level.detail

end Threshold

end Dotted.Command
