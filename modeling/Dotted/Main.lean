import Dotted.Command.Run

/-!
# The command

The program itself: `Invocation.run` with the operating system as its host.
-/

namespace Dotted.Command

/-- A file error of the operating system. -/
def FileError.ofSystem : IO.Error → FileError
  | .noFileOrDirectory .. => .notFound
  | .inappropriateType _ 20 _ => .notADirectory
  | .inappropriateType _ 21 _ => .isADirectory
  | error => .other error.toString

/-- An action of the operating system with its file error, if it fails. -/
def attempt {α : Type} (action : IO α) : IO (Except FileError α) := do
  match ← action.toBaseIO with
  | .ok value => return .ok value
  | .error error => return .error (.ofSystem error)

/-- The operating system as a host; notes that the threshold admits go to standard error. -/
def systemHost (threshold : Threshold) : Host IO where
  readInput := do (← IO.getStdin).readBinToEnd
  readFile name := attempt (IO.FS.readBinFile name)
  writeFile name contents := attempt (IO.FS.writeBinFile name contents)
  note note := do if threshold.admits note then (← IO.getStderr).putStr note.line

/-- The environment variable that sets how much is reported. -/
def logVariable : String := "RUST_LOG"

end Dotted.Command

open Dotted.Command

/-- Runs the command with the arguments of the program. -/
def main (arguments : List String) : IO UInt32 := do
  let errors ← IO.getStderr
  match Invocation.ofArguments arguments with
  | .error error =>
    errors.putStr (error.headline ++ "\n")
    return UInt32.ofNat usageCode
  | .ok invocation =>
    let threshold := Threshold.choose (← IO.getEnv logVariable) invocation.verbose
    match ← (invocation.run (systemHost threshold)).run with
    | .error error =>
      errors.putStr error.report
      return UInt32.ofNat failureCode
    | .ok output =>
      (← IO.getStdout).putStr output
      return UInt32.ofNat successCode
