import Dotted.Shape.Mismatch

/-!
# Codecs

A codec reads values of one type from documents and writes them back. Several documents may be read
as the same value; what is written is the plainest of them.

There is a codec for each scalar type, for paths and kinds, and for optional values, lists, maps,
pairs and one-member records of what other codecs read.
-/

namespace Dotted

/-- A way to read values of a type from documents and to write them. -/
structure Codec (α : Type) where
  decode : Document → Except Mismatch α
  encode : α → Document

/-- A fixed-width integer type: its name and its bounds, which are within those of the integers of
a document. -/
structure IntegerType where
  name : String
  low : Int
  high : Int
  le_low : -0x8000000000000000 ≤ low
  high_le : high ≤ 0xffffffffffffffff

namespace IntegerType

theorem shiftLeft_le {m n : Nat} (h : m ≤ n) : 1 <<< m ≤ 1 <<< n := by
  rw [Nat.one_shiftLeft, Nat.one_shiftLeft]
  exact Nat.pow_le_pow_right (by decide) h

/-- The unsigned integer type of the given number of bits. -/
def unsigned (name : String) (bits : Nat) (h : bits ≤ 64) : IntegerType where
  name
  low := 0
  high := (1 <<< bits : Nat) - 1
  le_low := by decide
  high_le := by
    have := shiftLeft_le h
    omega

/-- The signed integer type of the given number of bits. -/
def signed (name : String) (bits : Nat) (h : bits ≤ 64) : IntegerType where
  name
  low := -(1 <<< (bits - 1) : Nat)
  high := (1 <<< (bits - 1) : Nat) - 1
  le_low := by
    have := shiftLeft_le (Nat.sub_le_sub_right h 1)
    omega
  high_le := by
    have := shiftLeft_le (Nat.sub_le_sub_right h 1)
    omega

def u8 : IntegerType := unsigned "u8" 8 (by decide)
def u16 : IntegerType := unsigned "u16" 16 (by decide)
def u32 : IntegerType := unsigned "u32" 32 (by decide)
def u64 : IntegerType := unsigned "u64" 64 (by decide)
def i8 : IntegerType := signed "i8" 8 (by decide)
def i16 : IntegerType := signed "i16" 16 (by decide)
def i32 : IntegerType := signed "i32" 32 (by decide)
def i64 : IntegerType := signed "i64" 64 (by decide)

/-- The integers within the bounds of a type. -/
def Value (type : IntegerType) : Type := { value : Int // type.low ≤ value ∧ value ≤ type.high }

end IntegerType

namespace Codec

/-! ## Scalars -/

/-- Integers within bounds; a binary64 number is no integer, whatever its value. -/
def integer (type : IntegerType) : Codec type.Value where
  decode document :=
    match document.view with
    | .number (.integer value _) =>
      if h : type.low ≤ value ∧ value ≤ type.high then .ok ⟨value, h⟩
      else .error (.outOfBounds value type.name)
    | _ => .error (.wrongKind document type.name)
  encode value :=
    .number (.integer value.1
      ⟨Int.le_trans type.le_low value.2.1, Int.le_trans value.2.2 type.high_le⟩)

/-- The binary64 number nearest to a number of a document. -/
def nearestFloat : Number → Binary64
  | .integer value inRange =>
    .ofNat (value < 0) value.natAbs (Number.natAbs_lt inRange)
  | .float value => value

/-- Binary64 numbers; an integer is read as the nearest one. -/
def float : Codec Binary64 where
  decode document :=
    match document.view with
    | .number value => .ok (nearestFloat value)
    | _ => .error (.wrongKind document "f64")
  encode value := .number (.float value)

/-- Truth values. -/
def bool : Codec Bool where
  decode document :=
    match document.view with
    | .bool value => .ok value
    | _ => .error (.wrongKind document "a boolean")
  encode := .bool

/-- Texts. -/
def string : Codec String where
  decode document :=
    match document.view with
    | .string value => .ok value
    | _ => .error (.wrongKind document "a string")
  encode := .string

/-- Single characters, as texts of length one. -/
def char : Codec Char where
  decode document :=
    match document.view with
    | .string value =>
      match value.toList with
      | [c] => .ok c
      | _ => .error (.notOneCharacter value)
    | _ => .error (.wrongKind document "a character")
  encode c := .string (String.singleton c)

/-- The type of a single value, as null. -/
def unit : Codec Unit where
  decode document :=
    match document.view with
    | .null => .ok ()
    | _ => .error (.wrongKind document "unit")
  encode _ := .null

/-- Any document. -/
def document : Codec Document where
  decode := .ok
  encode := id

/-! ## Paths and kinds -/

/-- Paths, in their written form. -/
def path : Codec Path where
  decode document := do
    (Path.parse (← string.decode document)).mapError .malformedPath
  encode path := .string path.text

/-- The kind of the given name. -/
def kindOfName (name : String) : Except Mismatch Kind :=
  match Kind.ofName? name with
  | some kind => .ok kind
  | none => .error (.unknownKind name)

/-- Kinds, by name. An object with the name as its only key, and null under it, is read too. -/
def kind : Codec Kind where
  decode document :=
    match document.view with
    | .string name => kindOfName name
    | .object [(name, content)] => do
      let kind ← kindOfName name
      unit.decode content
      return kind
    | .object _ => .error .notOneKey
    | _ => .error (.wrongKind document "string or map")
  encode kind := .string kind.name

/-! ## Composite values -/

variable {α β : Type}

/-- Values that may be absent; null stands for an absent one. -/
def option (content : Codec α) : Codec (Option α) where
  decode document :=
    match document.view with
    | .null => .ok none
    | _ => some <$> content.decode document
  encode
    | none => .null
    | some value => content.encode value

/-- Lists; the first item that cannot be read is reported. -/
def list (content : Codec α) : Codec (List α) where
  decode document :=
    match document.view with
    | .array items => items.mapM content.decode
    | _ => .error (.wrongKind document "a sequence")
  encode values := .array (values.map content.encode)

/-- Maps from texts; the first member, in the order of the keys, that cannot be read is reported. -/
def map (content : Codec α) : Codec (List (String × α)) where
  decode document :=
    match document.view with
    | .object members => members.mapM fun (key, value) => return (key, ← content.decode value)
    | _ => .error (.wrongKind document "a map")
  encode values := .object (values.map fun (key, value) => (key, content.encode value))

/-- Pairs, as arrays of two items. -/
def pair (first : Codec α) (second : Codec β) : Codec (α × β) where
  decode document :=
    let expected := "a tuple of size 2"
    match document.view with
    | .array [] => .error (.tooShort 0 expected)
    | .array [a] => do
      let _ ← first.decode a
      .error (.tooShort 1 expected)
    | .array (a :: b :: further) => do
      let value := (← first.decode a, ← second.decode b)
      if further.isEmpty then .ok value else .error (.tooLong (further.length + 2))
    | _ => .error (.wrongKind document expected)
  encode value := .array [first.encode value.1, second.encode value.2]

/-- A record of one member, as an object that may have other members too. An array of one item is
read as well. -/
def record (name key : String) (content : Codec α) : Codec α where
  decode document :=
    match document.view with
    | .object members =>
      match members.lookup key with
      | some value => content.decode value
      | none => .error (.missingMember key)
    | .array [] => .error (.tooShort 0 ("struct " ++ name ++ " with 1 element"))
    | .array (item :: further) => do
      let value ← content.decode item
      if further.isEmpty then .ok value else .error (.tooLong (further.length + 1))
    | _ => .error (.wrongKind document ("struct " ++ name))
  encode value := .object [(key, content.encode value)]

end Codec

end Dotted
