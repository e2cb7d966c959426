/-!
# Faults in JSON text

A reader that finds a fault says what is wrong and what text it had not yet read. The place of the
fault is worked out from that text alone: `Position.ofFault` counts the lines, and the bytes of the
last line, that had been read.

Messages end in the place of the fault. A message that comes from elsewhere and ends in what looks
like a place is taken to have that place (`Position.canonical`).
-/

namespace Dotted.Json

/-- What can be wrong with JSON text. -/
inductive Cause where
  | endInValue
  | endInArray
  | endInObject
  | endInString
  | expectedValue
  | expectedWord
  | expectedColon
  | expectedItemEnd
  | expectedMemberEnd
  | trailingComma
  | trailingText
  | keyNotString
  | invalidNumber
  | numberOutOfRange
  | invalidEscape
  | endOfHexEscape
  | loneSurrogate
  | controlCharacter
  | nestingLimit
deriving DecidableEq

/-- The wording of a cause. -/
def Cause.message : Cause → String
  | .endInValue => "EOF while parsing a value"
  | .endInArray => "EOF while parsing a list"
  | .endInObject => "EOF while parsing an object"
  | .endInString => "EOF while parsing a string"
  | .expectedValue => "expected value"
  | .expectedWord => "expected ident"
  | .expectedColon => "expected `:`"
  | .expectedItemEnd => "expected `,` or `]`"
  | .expectedMemberEnd => "expected `,` or `\x7d`"
  | .trailingComma => "trailing comma"
  | .trailingText => "trailing characters"
  | .keyNotString => "key must be a string"
  | .invalidNumber => "invalid number"
  | .numberOutOfRange => "number out of range"
  | .invalidEscape => "invalid escape"
  | .endOfHexEscape => "unexpected end of hex escape"
  | .loneSurrogate => "lone leading surrogate in hex escape"
  | .controlCharacter => "control character (\\u0000-\\u001F) found while parsing a string"
  | .nestingLimit => "recursion limit exceeded"

/-- A fault: its cause, the text from the fault on, and how many bytes of that text count as
read. -/
structure Fault where
  cause : Cause
  rest : List Char
  ahead : Nat
deriving DecidableEq

namespace Fault

/-- A fault behind the text that has been read. -/
def behind (cause : Cause) (rest : List Char) : Fault := ⟨cause, rest, 0⟩

/-- A fault at the next byte, which counts as read. -/
def next (cause : Cause) (rest : List Char) : Fault := ⟨cause, rest, 1⟩

end Fault

/-- A place in a text: the line, from one on, and the number of bytes read of it. -/
structure Position where
  line : Nat
  column : Nat
deriving DecidableEq

namespace Position

/-- The place after the first `bytes` bytes of a text that starts at the given place. -/
def advance (position : Position) (bytes : Nat) : List Char → Position
  | [] => position
  | c :: rest =>
    if bytes < c.utf8Size then { position with column := position.column + bytes }
    else if c = '\n' then advance ⟨position.line + 1, 0⟩ (bytes - c.utf8Size) rest
    else
      advance { position with column := position.column + c.utf8Size } (bytes - c.utf8Size) rest

/-- The number of bytes of a text in UTF-8. -/
def byteCount (text : List Char) : Nat := text.foldr (fun c count => c.utf8Size + count) 0

/-- The place of a fault in a text that ends with what the fault left unread. -/
def ofFault (text : List Char) (fault : Fault) : Position :=
  advance ⟨1, 0⟩ (byteCount text - byteCount fault.rest + fault.ahead) text

/-! ## Places at the end of messages -/

/-- What stands before the line of a place. -/
def lineLabel : String := " at line "

/-- What stands before the column of a place. -/
def columnLabel : String := " column "

/-- A place as messages end in it. -/
def text (position : Position) : String :=
  lineLabel ++ position.line.repr ++ columnLabel ++ position.column.repr

/-- The number of 64 bits that a numeral writes. -/
def number? (numeral : List Char) : Option Nat :=
  let value := Nat.ofDigitChars 10 numeral 0
  if numeral ≠ [] ∧ value < UInt64.size then some value else none

/-- A text is given from its end: what comes before a label at the end. -/
def before? (label : String) (reversed : List Char) : Option (List Char) :=
  let label := label.toList.reverse
  if label.isPrefixOf reversed then some (reversed.drop label.length) else none

/-- The parts of a text that ends in a place, whose numerals may have leading zeros: what is before
it, and the place. -/
def split? (text : List Char) : Option (List Char × Position) := do
  let reversed := text.reverse
  let column ← number? (reversed.takeWhile Char.isDigit).reverse
  let reversed ← before? columnLabel (reversed.dropWhile Char.isDigit)
  let line ← number? (reversed.takeWhile Char.isDigit).reverse
  let reversed ← before? lineLabel (reversed.dropWhile Char.isDigit)
  return (reversed.reverse, ⟨line, column⟩)

/-- A message whose place at the end, if it has one, is written anew: without leading zeros, and
not at all if it is in line zero, which no text has. -/
def canonical (message : String) : String :=
  match split? message.toList with
  | none => message
  | some (before, position) =>
    String.ofList before ++ if position.line = 0 then "" else position.text

end Position

/-- A fault and its place. -/
structure ReadError where
  cause : Cause
  position : Position
deriving DecidableEq

/-- The wording of a fault and its place. -/
def ReadError.message (error : ReadError) : String :=
  error.cause.message ++ error.position.text

end Dotted.Json
