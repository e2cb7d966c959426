/-!
# Kinds

The six kinds of values that a document can hold, and their names.
-/

namespace Dotted

/-- What sort of value stands at a place. -/
inductive Kind where
  | null
  | bool
  | number
  | string
  | array
  | object
deriving DecidableEq

namespace Kind

/-- Every kind, in the order in which messages list them. -/
def all : List Kind := [.null, .bool, .number, .string, .array, .object]

/-- The name of a kind. -/
def name : Kind → String
  | .null => "null"
  | .bool => "bool"
  | .number => "number"
  | .string => "string"
  | .array => "array"
  | .object => "object"

/-- The kind of the given name. -/
def ofName? (name : String) : Option Kind :=
  all.find? fun kind => kind.name == name

theorem ofName?_name (kind : Kind) : ofName? kind.name = some kind := by
  cases kind <;> decide

/-- The wording for a text that names no kind. -/
def unknownMessage (name : String) : String :=
  "Unknown value kind: " ++ name

end Kind

end Dotted
