import Dotted.Path

/-!
# Events

What the operations on documents report while they work, besides their results. An event is data;
`Event.line` words it, with its level and the part of the library that reports it.
-/

namespace Dotted

/-- How much detail one must ask for to see an event. -/
inductive Level where
  | error
  | warn
  | info
  | debug
  | trace
deriving DecidableEq

namespace Level

/-- The name of a level in a log line. -/
def name : Level → String
  | .error => "ERROR"
  | .warn => "WARN"
  | .info => "INFO"
  | .debug => "DEBUG"
  | .trace => "TRACE"

/-- Levels are numbered from the gravest on. -/
def detail : Level → Nat
  | .error => 1
  | .warn => 2
  | .info => 3
  | .debug => 4
  | .trace => 5

end Level

/-- Something that an operation on a document reports. -/
inductive Event where
  /-- A read was given the text `path`, which is no path, and took it for one that leads nowhere. -/
  | malformedPath (path : String) (reason : PathError)
  /-- A read ended before the end of `path`: at `location`, nothing is there for `segment`. -/
  | unresolved (path : Path) (location : String) (segment : Segment)
  /-- A write put an empty object under a key that it has to pass. -/
  | creatingObject (segment : Segment)
  /-- A write has to pass position `index` of an array of only `length` items. -/
  | extendingArray (index length : Nat)
  /-- An enumeration left out a member whose key is no segment. -/
  | skippingKey (key : String)
deriving DecidableEq

namespace Event

/-- The level of an event: reads report in most detail. -/
def level : Event → Level
  | .malformedPath .. | .unresolved .. => .trace
  | .creatingObject .. | .extendingArray .. | .skippingKey .. => .debug

/-- The part of the library that reports an event. -/
def target : Event → String
  | .malformedPath .. => "dotpath::access"
  | _ => "dotpath::query"

/-- The wording of an event and its fields. -/
def message : Event → String
  | .malformedPath path reason =>
    "ignoring malformed path path=" ++ Text.quoted path ++ " err=" ++ reason.message
  | .unresolved path location segment =>
    "path does not resolve path=" ++ path.text ++ " at=" ++ location ++ " segment=" ++ segment.text
  | .creatingObject segment => "creating missing intermediate object segment=" ++ segment.text
  | .extendingArray index length =>
    "extending array for intermediate index=" ++ index.repr ++ " len=" ++ length.repr
  | .skippingKey key => "skipping key that cannot be addressed by a path key=" ++ key

/-- An event as one line: level, target, message. -/
def line (event : Event) : String :=
  event.level.name ++ " " ++ event.target ++ ": " ++ event.message

end Event

/-- A result together with the events reported on the way to it, in order. -/
structure Logged (α : Type) where
  value : α
  events : List Event

end Dotted
