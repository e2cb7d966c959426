import Dotted.Json.Token

/-!
# Reading JSON text

The tokens of a text are read one by one by a machine whose state is what it expects next, together
with the containers that are still open around it.

* `Reader.State.step` reads one token, and `Reader.run` a list of them.
* `Document.ofText` reads a whole text. A container that would be nested too deeply is refused.
-/

namespace Dotted.Json.Reader

/-- A container that waits for the value being read; what came before is kept last one first. -/
inductive Frame where
  /-- An array with the items before the one being read. -/
  | item (before : List Document)
  /-- An object with the members before the one being read, and the key of that one. -/
  | member (before : List (String × Document)) (key : String)

/-- What may come next. The containers that hold it are kept as frames, the innermost first. -/
inductive Expected where
  /-- A value. -/
  | value
  /-- The first item of an array, or its end. -/
  | firstItem
  /-- An item, after a comma. -/
  | nextItem (items : List Document)
  /-- A comma or the end, after an item. -/
  | itemEnd (items : List Document)
  /-- The first key of an object, or its end. -/
  | firstKey
  /-- A key, after a comma. -/
  | nextKey (members : List (String × Document))
  /-- The colon after a key. -/
  | colon (members : List (String × Document)) (key : String)
  /-- A comma or the end, after a member. -/
  | memberEnd (members : List (String × Document))
  /-- Nothing: the whole value has been read. -/
  | nothing (document : Document)

/-- What is expected, and the open containers around it. -/
structure State where
  expected : Expected
  frames : List Frame

/-- The state after a complete value. -/
def deliver (value : Document) : List Frame → State
  | [] => ⟨.nothing value, []⟩
  | .item before :: frames => ⟨.itemEnd (value :: before), frames⟩
  | .member before key :: frames => ⟨.memberEnd ((key, value) :: before), frames⟩

/-- Enters a container, unless there would be `limit` containers around each other. -/
def enter (limit : Nat) (expected : Expected) (frames : List Frame) (token : Token) :
    Except Fault State :=
  if frames.length + 1 < limit then .ok ⟨expected, frames⟩
  else .error (.next .nestingLimit token.start)

/-- Reads the first token of a value. -/
def begin (limit : Nat) (frames : List Frame) (token : Token) : Except Fault State :=
  match token.lexeme with
  | .openArray => enter limit .firstItem frames token
  | .openObject => enter limit .firstKey frames token
  | .scalar value => .ok (deliver value frames)
  | .text value => .ok (deliver (.string value) frames)
  | .broken fault _ => .error fault
  | _ => .error (.next .expectedValue token.start)

/-- Reads a key. -/
def beginKey (members : List (String × Document)) (frames : List Frame) (token : Token) :
    Except Fault State :=
  match token.lexeme with
  | .text key => .ok ⟨.colon members key, frames⟩
  | .broken fault true => .error fault
  | _ => .error (.next .keyNotString token.start)

/-- Reads one token. -/
def State.step (limit : Nat) (state : State) (token : Token) : Except Fault State :=
  match state.expected, token.lexeme with
  | .value, _ => begin limit state.frames token
  | .firstItem, .closeArray => .ok (deliver (.array []) state.frames)
  | .firstItem, _ => begin limit (.item [] :: state.frames) token
  | .nextItem _, .closeArray => .error (.next .trailingComma token.start)
  | .nextItem items, _ => begin limit (.item items :: state.frames) token
  | .itemEnd items, .comma => .ok ⟨.nextItem items, state.frames⟩
  | .itemEnd items, .closeArray => .ok (deliver (.array items.reverse) state.frames)
  | .itemEnd _, _ => .error (.next .expectedItemEnd token.start)
  | .firstKey, .closeObject => .ok (deliver (.object []) state.frames)
  | .firstKey, _ => beginKey [] state.frames token
  | .nextKey _, .closeObject => .error (.next .trailingComma token.start)
  | .nextKey members, _ => beginKey members state.frames token
  | .colon members key, .colon => .ok ⟨.value, .member members key :: state.frames⟩
  | .colon _ _, _ => .error (.next .expectedColon token.start)
  | .memberEnd members, .comma => .ok ⟨.nextKey members, state.frames⟩
  | .memberEnd members, .closeObject => .ok (deliver (.object members.reverse) state.frames)
  | .memberEnd _, _ => .error (.next .expectedMemberEnd token.start)
  | .nothing _, _ => .error (.next .trailingText token.start)

/-- The value read when the text ends, or what it ends in. -/
def Expected.finish : Expected → Except Fault Document
  | .nothing document => .ok document
  | .value | .nextItem _ | .nextKey _ => .error (.behind .endInValue [])
  | .firstItem | .itemEnd _ => .error (.behind .endInArray [])
  | .firstKey | .colon _ _ | .memberEnd _ => .error (.behind .endInObject [])

/-- Reads a list of tokens up to its end. -/
def run (limit : Nat) (state : State) : List Token → Except Fault Document
  | [] => state.expected.finish
  | token :: rest => do run limit (← state.step limit token) rest

/-- Containers can be nested less deeply than this. -/
def nestingLimit : Nat := 128

end Dotted.Json.Reader

namespace Dotted.Document

open Json Json.Reader

/-- The document that a text writes, with less than `limit` containers around each other. -/
def ofTextWithin (limit : Nat) (text : String) : Except ReadError Document :=
  let chars := text.toList
  (run limit ⟨.value, []⟩ (Token.scan chars)).mapError fun fault =>
    ⟨fault.cause, Position.ofFault chars fault⟩

/-- The document that a text writes. -/
def ofText (text : String) : Except ReadError Document := ofTextWithin nestingLimit text

end Dotted.Document
