import Dotted.Lookup
import Dotted.Shape.Codec

/-!
# Shapes and typed reads

A shape is a type of values that can be asked for when a place is read. `Shape.Carrier` is the type
itself and `Shape.codec` its codec; `Document.getAs` reads a place at a shape.
-/

namespace Dotted

/-- A type of values to read a document as. -/
inductive Shape where
  | integer (type : IntegerType)
  | float
  | bool
  | char
  | string
  | unit
  | document
  | path
  | kind
  | option (content : Shape)
  | list (content : Shape)
  | map (content : Shape)
  | pair (first second : Shape)
  | record (name key : String) (content : Shape)

namespace Shape

/-- The values of a shape. -/
def Carrier : Shape → Type
  | .integer type => type.Value
  | .float => Binary64
  | .bool => Bool
  | .char => Char
  | .string => String
  | .unit => Unit
  | .document => Document
  | .path => Path
  | .kind => Kind
  | .option content => Option content.Carrier
  | .list content => List content.Carrier
  | .map content => List (String × content.Carrier)
  | .pair first second => first.Carrier × second.Carrier
  | .record _ _ content => content.Carrier

/-- How the values of a shape are read and written. -/
def codec : (shape : Shape) → Codec shape.Carrier
  | .integer type => .integer type
  | .float => .float
  | .bool => .bool
  | .char => .char
  | .string => .string
  | .unit => .unit
  | .document => .document
  | .path => .path
  | .kind => .kind
  | .option content => .option content.codec
  | .list content => .list content.codec
  | .map content => .map content.codec
  | .pair first second => .pair first.codec second.codec
  | .record name key content => .record name key content.codec

end Shape

/-- A value that does not have the shape asked for, and where it stands. -/
structure TypeError where
  location : String
  mismatch : Mismatch

/-- The wording of a failed typed read. -/
def TypeError.message (error : TypeError) : String :=
  "Value at " ++ error.location ++ " does not match the requested type: "
    ++ error.mismatch.message

namespace Document

/-- Reads the value at a place at a shape; there may be none. -/
def getAs (document : Document) (path : Path) (shape : Shape) :
    Logged (Except TypeError (Option shape.Carrier)) :=
  let found := document.get path
  { value :=
      match found.value with
      | none => .ok none
      | some value =>
        match shape.codec.decode value with
        | .ok typed => .ok (some typed)
        | .error mismatch => .error ⟨path.text, mismatch⟩
    events := found.events }

end Document

end Dotted
