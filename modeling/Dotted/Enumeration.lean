import Dotted.Lookup

/-!
# Listing the paths of a document

A document is walked from the root: members in the order of their keys, items by ascending index,
and every value before what is below it. A member whose key is no segment is skipped together with
everything below it.

* `Json.visits` is the walk itself, the values reached and the keys skipped in one list.
* `Document.paths` lists the paths of all values reached, `Document.pathsOf` those of one kind, and
  `Document.kinds` all of them with the kinds; each reports every key that was skipped.
-/

namespace Dotted

/-- One step of a walk. -/
inductive Visit where
  /-- The walk reached a value, by a path from where it started. -/
  | reached (path : Path) (value : Json)
  /-- The walk came to a member whose key is no segment. -/
  | skipped (key : String)

namespace Visit

/-- The same step of a walk that started one segment further up. -/
def below (segment : Segment) : Visit → Visit
  | .reached path value => .reached (path.cons segment) value
  | .skipped key => .skipped key

/-- The path of the value reached, if it passes a test. -/
def path? (test : Json → Bool) : Visit → Option Path
  | .reached path value => if test value then some path else none
  | .skipped _ => none

/-- The path of the value reached, with the kind of the value. -/
def kind? : Visit → Option (Path × Kind)
  | .reached path value => some (path, value.kind)
  | .skipped _ => none

/-- The event of a skipped key. -/
def event? : Visit → Option Event
  | .reached .. => none
  | .skipped key => some (.skippingKey key)

end Visit

namespace Json

mutual

/-- The steps of a walk below a value. -/
def visits : Json → List Visit
  | .object members => memberVisits members
  | .array items => itemVisits 0 items
  | _ => []

/-- The steps of a walk through members and what is below them. -/
def memberVisits : List (String × Json) → List Visit
  | [] => []
  | (key, value) :: rest =>
    match Segment.ofString? key with
    | none => .skipped key :: memberVisits rest
    | some segment =>
      .reached (.single segment) value ::
        (value.visits.map (Visit.below segment) ++ memberVisits rest)

/-- The steps of a walk through items, the first of them at position `index`, and what is below
them. -/
def itemVisits (index : Nat) : List Json → List Visit
  | [] => []
  | value :: rest =>
    .reached (.single (.ofIndex index)) value ::
      (value.visits.map (Visit.below (.ofIndex index)) ++ itemVisits (index + 1) rest)

end

end Json

namespace Document

/-- What is chosen of the steps of a walk from the root. -/
def listing {α : Type} (document : Document) (choose : Visit → Option α) : Logged (List α) :=
  let visits := document.root.visits
  ⟨visits.filterMap choose, visits.filterMap Visit.event?⟩

/-- The paths of all values below the root that pass a test. -/
def pathsWhere (document : Document) (test : Json → Bool) : Logged (List Path) :=
  document.listing (Visit.path? test)

/-- The paths of all values below the root. -/
def paths (document : Document) : Logged (List Path) := document.pathsWhere fun _ => true

/-- The paths of all values of one kind below the root. -/
def pathsOf (document : Document) (kind : Kind) : Logged (List Path) :=
  document.pathsWhere fun value => value.kind == kind

/-- The paths of all values below the root, with the kinds of the values. -/
def kinds (document : Document) : Logged (List (Path × Kind)) := document.listing Visit.kind?

end Document

end Dotted
