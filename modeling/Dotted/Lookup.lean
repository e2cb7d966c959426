import Dotted.Document
import Dotted.Event

/-!
# Reading a place in a document

A path is followed from the root, one segment at a time. In an object a segment is a key; in an
array it must be an index in range; a scalar has nothing below it.

* `Json.follow` goes down a list of segments and, if it gets stuck, says how deep.
* `Document.get` reads a place and reports one event if the path leads nowhere;
  `Document.getText` takes the path as text and finds nothing if the text is no path.
* `Document.focus?` finds the value at a place together with the document around it, to put another
  value there.
-/

namespace Dotted

namespace Json

/-- The value that one segment selects. -/
def child? : Json → Segment → Option Json
  | .object members, segment => members.lookup segment.text
  | .array items, segment => segment.index?.bind fun index => items[index]?
  | _, _ => none

/-- Where a list of segments leads nowhere: after `depth` segments nothing is there for the next. -/
structure Miss where
  depth : Nat
  segment : Segment
deriving DecidableEq

/-- The same place, seen from one segment further up. -/
def Miss.deeper (miss : Miss) : Miss := { miss with depth := miss.depth + 1 }

/-- The value to which a list of segments leads, or where it gets stuck. -/
def follow (node : Json) : List Segment → Except Miss Json
  | [] => .ok node
  | segment :: rest =>
    match node.child? segment with
    | none => .error ⟨0, segment⟩
    | some child => (child.follow rest).mapError Miss.deeper

/-- The value to which a list of segments leads, and what the whole becomes when another value is
put in its place. -/
def focus? (node : Json) : List Segment → Option (Json × (Json → Json))
  | [] => some (node, id)
  | segment :: rest =>
    match node with
    | .object members => do
      let child ← members.lookup segment.text
      let (value, put) ← child.focus? rest
      some (value, fun new => .object (Members.insert segment.text (put new) members))
    | .array items => do
      let index ← segment.index?
      let child ← items[index]?
      let (value, put) ← child.focus? rest
      some (value, fun new => .array (replaceItem items index (put new)))
    | _ => none

theorem Ordered.child? {node : Json} (h : node.Ordered) {segment : Segment} {child : Json}
    (hchild : node.child? segment = some child) : child.Ordered := by
  cases node with
  | object members => exact h.lookup hchild
  | array items =>
    obtain ⟨index, _, hitem⟩ := Option.bind_eq_some_iff.1 hchild
    exact h.getElem? hitem
  | _ => cases hchild

theorem Ordered.follow {node : Json} (h : node.Ordered) {segments : List Segment} {value : Json}
    (hvalue : node.follow segments = .ok value) : value.Ordered := by
  induction segments generalizing node with
  | nil => cases hvalue; exact h
  | cons segment rest ih =>
    unfold Json.follow at hvalue
    split at hvalue
    · cases hvalue
    · next child hchild =>
      cases hfound : child.follow rest with
      | error miss => rw [hfound] at hvalue; cases hvalue
      | ok found =>
        rw [hfound] at hvalue
        cases hvalue
        exact ih (h.child? hchild) hfound

theorem Ordered.focus? {node : Json} (h : node.Ordered) {segments : List Segment} {value : Json}
    {put : Json → Json} (hfocus : node.focus? segments = some (value, put)) :
    value.Ordered ∧ ∀ new : Json, new.Ordered → (put new).Ordered := by
  induction segments generalizing node value put with
  | nil => cases hfocus; exact ⟨h, fun _ hnew => hnew⟩
  | cons segment rest ih =>
    unfold Json.focus? at hfocus
    split at hfocus
    · simp only [Option.bind_eq_bind, Option.bind_eq_some_iff] at hfocus
      obtain ⟨child, hchild, ⟨found, inner⟩, hinner, heq⟩ := hfocus
      cases heq
      have below := ih (h.lookup hchild) hinner
      exact ⟨below.1, fun new hnew => h.insert _ (below.2 new hnew)⟩
    · simp only [Option.bind_eq_bind, Option.bind_eq_some_iff] at hfocus
      obtain ⟨index, _, child, hchild, ⟨found, inner⟩, hinner, heq⟩ := hfocus
      cases heq
      have below := ih (h.getElem? hchild) hinner
      exact ⟨below.1, fun new hnew => h.replaceItem _ (below.2 new hnew)⟩
    · cases hfocus

end Json

/-- A value in a document, and the document around it. -/
structure Focus where
  /-- The value in focus. -/
  value : Document
  /-- The whole document with another value in focus. -/
  put : Document → Document

namespace Document

/-- The value at a place, or where the path gets stuck. -/
def follow (document : Document) (path : Path) : Except Json.Miss Document :=
  match h : document.root.follow path.segments with
  | .ok value => .ok ⟨value, document.ordered.follow h⟩
  | .error miss => .error miss

/-- The event of a path that gets stuck. -/
def missEvent (path : Path) (miss : Json.Miss) : Event :=
  .unresolved path (path.location miss.depth) miss.segment

/-- Reads the value at a place. -/
def get (document : Document) (path : Path) : Logged (Option Document) :=
  match document.follow path with
  | .ok value => ⟨some value, []⟩
  | .error miss => ⟨none, [missEvent path miss]⟩

/-- Reads the value at a place that is given as text; a text that is no path leads nowhere. -/
def getText (document : Document) (text : String) : Logged (Option Document) :=
  match Path.parse text with
  | .ok path => document.get path
  | .error reason => ⟨none, [.malformedPath text reason]⟩

/-- The value at a place with the document around it, if the path leads to a value. -/
def focus? (document : Document) (path : Path) : Option Focus :=
  match h : document.root.focus? path.segments with
  | none => none
  | some (value, put) =>
    some {
      value := ⟨value, (document.ordered.focus? h).1⟩
      put := fun new => ⟨put new.root, (document.ordered.focus? h).2 new.root new.ordered⟩ }

end Document

end Dotted
