import Dotted.Document
import Dotted.Json.Fault
import Dotted.Path

/-!
# Mismatches

Why a document is not a value of the type asked for, and the wording of it.
-/

namespace Dotted

/-- Why a document does not have the shape asked for. -/
inductive Mismatch where
  /-- A value of one kind stands where another is expected. -/
  | wrongKind (found : Document) (expected : String)
  /-- An integer is not within the bounds of the type expected. -/
  | outOfBounds (found : Int) (expected : String)
  /-- A text does not consist of exactly one character. -/
  | notOneCharacter (found : String)
  /-- An array has fewer items than expected. -/
  | tooShort (length : Nat) (expected : String)
  /-- An array has more items than expected. -/
  | tooLong (length : Nat)
  /-- An object lacks a member. -/
  | missingMember (key : String)
  /-- A text names no kind. -/
  | unknownKind (name : String)
  /-- An object that names a kind by its key has no key, or several. -/
  | notOneKey
  /-- A text is not a path. -/
  | malformedPath (reason : PathError)

/-- How messages describe a value that was found: scalars with their value, containers without. -/
def Json.described : Json → String
  | .null => "null"
  | .bool value => "boolean `" ++ (if value then "true" else "false") ++ "`"
  | .number (.integer value _) => "integer `" ++ value.repr ++ "`"
  | .number (.float value) => "floating point `" ++ value.text ++ "`"
  | .string value => "string " ++ Text.quoted value
  | .array _ => "sequence"
  | .object _ => "map"

/-- The names of all kinds as a list for messages. -/
def Kind.listed : String :=
  ", ".intercalate (Kind.all.map fun kind => "`" ++ kind.name ++ "`")

namespace Mismatch

/-- The wording of a mismatch. -/
def message : Mismatch → String
  | .wrongKind found expected =>
    "invalid type: " ++ found.root.described ++ ", expected " ++ expected
  | .outOfBounds found expected =>
    "invalid value: integer `" ++ found.repr ++ "`, expected " ++ expected
  | .notOneCharacter found =>
    "invalid value: string " ++ Text.quoted found ++ ", expected a character"
  | .tooShort length expected => "invalid length " ++ length.repr ++ ", expected " ++ expected
  | .tooLong length =>
    "invalid length " ++ length.repr ++ ", expected fewer elements in array"
  | .missingMember key => "missing field `" ++ key ++ "`"
  | .unknownKind name => "unknown variant `" ++ name ++ "`, expected one of " ++ Kind.listed
  | .notOneKey => "invalid value: map, expected map with a single key"
  | .malformedPath reason => Json.Position.canonical reason.message

end Mismatch

end Dotted
