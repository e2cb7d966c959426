import Dotted.Lookup

/-!
# Writing a place in a document

A write follows a path from the root and puts a value at its end. What is missing on the way is
made: an empty object under a missing key, and in an array, at an index past its end, `null`s up to
that index and an empty object there. At the end of the path the value itself is put in the same
way.

* `Json.write` goes down a list of segments. Its `Outcome` holds the node that stands in place of
  the given one afterwards, even when the write is refused half-way, so that what a refused write
  leaves behind can be told.
* `Document.set` writes a place of a document; `WriteError.message` words a refusal.
* `Document.setEach` writes several places, one after the other.
-/

namespace Dotted

/-- At most this many `null`s are put into an array to reach an index past its end. -/
def maxGap : Nat := 65536

/-- Why a node does not take a segment. -/
inductive Refusal where
  /-- The node is a scalar of the given kind. -/
  | notAContainer (found : Kind)
  /-- The node is an array and the segment is no index. -/
  | notAnIndex (segment : Segment)
  /-- The node is an array of `length` items, and `index` is too far past its end. -/
  | indexOutOfRange (index length : Nat)
deriving DecidableEq

/-- A refused write: how many segments it had passed, and why the node there did not take the
next. -/
structure Failure where
  depth : Nat
  refusal : Refusal
deriving DecidableEq

/-- The same failure, seen from one segment further up. -/
def Failure.deeper (failure : Failure) : Failure := { failure with depth := failure.depth + 1 }

namespace Json

/-- What a write did to a node. -/
structure Outcome where
  /-- What stands in place of the node afterwards, whether or not the write was refused. -/
  node : Json
  /-- The failure, if the write was refused. -/
  failure : Option Failure
  /-- What was reported, in order. -/
  events : List Event

namespace Outcome

/-- The write succeeded and left `node`. -/
def done (node : Json) : Outcome := ⟨node, none, []⟩

/-- The node stays as it is and does not take the segment. -/
def refused (node : Json) (refusal : Refusal) : Outcome := ⟨node, some ⟨0, refusal⟩, []⟩

/-- The outcome for a node, from the outcome for one of its children: `put` puts what is left of
the child back into the node. -/
def within (put : Json → Json) (outcome : Outcome) : Outcome where
  node := put outcome.node
  failure := outcome.failure.map Failure.deeper
  events := outcome.events

/-- The same outcome with an event reported before all others. -/
def after (event : Event) (outcome : Outcome) : Outcome :=
  { outcome with events := event :: outcome.events }

end Outcome

/-- The items with as many `null`s after them as it takes to reach a length of `index`. -/
def padded (items : List Json) (index : Nat) : List Json :=
  items ++ List.replicate (index - items.length) .null

/-- Puts `leaf` into a node under one segment. -/
def assign (node : Json) (segment : Segment) (leaf : Json) : Outcome :=
  match node with
  | .object members => .done (.object (Members.insert segment.text leaf members))
  | .array items =>
    match segment.index? with
    | none => .refused node (.notAnIndex segment)
    | some index =>
      match items[index]? with
      | some _ => .done (.array (replaceItem items index leaf))
      | none =>
        if index - items.length ≤ maxGap then .done (.array (padded items index ++ [leaf]))
        else .refused node (.indexOutOfRange index items.length)
  | scalar => .refused node (.notAContainer scalar.kind)

/-- Puts `leaf` into a node at the end of a list of segments: `segment`, then those that follow. -/
def write (node : Json) (segment : Segment) (leaf : Json) : List Segment → Outcome
  | [] => node.assign segment leaf
  | next :: rest =>
    match node with
    | .object members =>
      match members.lookup segment.text with
      | some child =>
        (child.write next leaf rest).within fun child =>
          .object (Members.insert segment.text child members)
      | none =>
        let grown := Members.insert segment.text (.object []) members
        .after (.creatingObject segment) <|
          ((Json.object []).write next leaf rest).within fun child =>
            .object (Members.insert segment.text child grown)
    | .array items =>
      match segment.index? with
      | none => .refused node (.notAnIndex segment)
      | some index =>
        match items[index]? with
        | some child =>
          (child.write next leaf rest).within fun child => .array (replaceItem items index child)
        | none =>
          .after (.extendingArray index items.length) <|
            if index - items.length ≤ maxGap then
              let grown := padded items index ++ [.object []]
              ((Json.object []).write next leaf rest).within fun child =>
                .array (replaceItem grown index child)
            else .refused node (.indexOutOfRange index items.length)
    | scalar => .refused node (.notAContainer scalar.kind)

/-! ## Writes keep documents ordered -/

theorem Ordered.extend {items : List Json} (h : Ordered (.array items)) (index : Nat)
    {value : Json} (hvalue : Ordered value) : Ordered (.array (padded items index ++ [value])) := by
  refine .array fun item hitem => ?_
  simp only [padded, List.mem_append, List.mem_replicate, List.mem_singleton] at hitem
  rcases hitem with (hitem | ⟨_, rfl⟩) | rfl
  · exact h.items _ hitem
  · exact .null
  · exact hvalue

theorem Ordered.assign {node : Json} (h : node.Ordered) (segment : Segment) {leaf : Json}
    (hleaf : leaf.Ordered) : (node.assign segment leaf).node.Ordered := by
  unfold Json.assign
  split
  · exact h.insert _ hleaf
  · split
    · exact h
    · split
      · exact h.replaceItem _ hleaf
      · split
        · exact h.extend _ hleaf
        · exact h
  · exact h

theorem Ordered.write {node : Json} (h : node.Ordered) (segment : Segment) {leaf : Json}
    (hleaf : leaf.Ordered) (rest : List Segment) :
    (node.write segment leaf rest).node.Ordered := by
  induction rest generalizing node segment with
  | nil => exact h.assign segment hleaf
  | cons next rest ih =>
    unfold Json.write
    split
    · split
      · next child hchild => exact h.insert _ (ih (h.lookup hchild) next)
      · exact (h.insert _ .emptyObject).insert _ (ih .emptyObject next)
    · split
      · exact h
      · split
        · next child hchild => exact h.replaceItem _ (ih (h.getElem? hchild) next)
        · simp only [Outcome.after]
          split
          · exact (h.extend _ .emptyObject).replaceItem _ (ih .emptyObject next)
          · exact h
    · exact h

end Json

/-- A refused write of a document: where it was refused, and why. -/
structure WriteError where
  location : String
  refusal : Refusal
deriving DecidableEq

/-- The wording of a refused write. -/
def WriteError.message (error : WriteError) : String :=
  match error.refusal with
  | .notAContainer found => "Cannot index into " ++ found.name ++ " at: " ++ error.location
  | .notAnIndex segment =>
    "Segment " ++ Text.quoted segment.text ++ " is not an array index at: " ++ error.location
  | .indexOutOfRange index length =>
    "Index " ++ index.repr ++ " is too far past the end of the array (length " ++ length.repr
      ++ ") at: " ++ error.location

/-- What a write did to a document. -/
structure Writing where
  /-- The document afterwards. -/
  document : Document
  /-- The error, if the write was refused. -/
  error? : Option WriteError
  /-- What was reported, in order. -/
  events : List Event

/-- What several writes did to a document. -/
structure WritingSeries where
  /-- The document afterwards. -/
  document : Document
  /-- The path of each write, with the error if the write was refused. -/
  results : List (Path × Option WriteError)
  /-- What was reported, in order. -/
  events : List Event

namespace Document

/-- Puts `leaf` at the end of a path. -/
def set (document : Document) (path : Path) (leaf : Document) : Writing :=
  let outcome := document.root.write path.first leaf.root path.segments.tail
  { document := ⟨outcome.node, document.ordered.write _ leaf.ordered _⟩
    error? := outcome.failure.map fun failure =>
      ⟨path.location failure.depth, failure.refusal⟩
    events := outcome.events }

/-- Puts `leaf` at the end of a path that is given as text. -/
def setText (document : Document) (text : String) (leaf : Document) : Except PathError Writing :=
  (Path.parse text).map fun path => document.set path leaf

/-- Puts `leaf` at the end of each path in turn. A refused write does not keep the next from being
tried, and each finds the document as those before it have left it. -/
def setEach (document : Document) (leaf : Document) : List Path → WritingSeries
  | [] => ⟨document, [], []⟩
  | path :: rest =>
    let writing := document.set path leaf
    let series := writing.document.setEach leaf rest
    { document := series.document
      results := (path, writing.error?) :: series.results
      events := writing.events ++ series.events }

end Document

end Dotted
