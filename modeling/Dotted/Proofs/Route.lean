import Dotted.Proofs.Step

/-!
# Routes through a value

A route is a list of steps.  It leads to any node of a value, also through
keys that no segment spells, so it says where a value differs from another
one in full.  `Json.valueAt?` reads the node at the end of a route, and
`Json.route?` turns the segments of a path into the route that they take
through a given value.

* `valueAt?_append`: a route is followed one part after the other.
* `Json.follow_eq_ok_iff`: segments lead to a value exactly if they have a
  route and the value is at its end.
* `Document.value_get_eq_some_iff` says the same of a read of a document, and
  `Document.value_get_eq_none_iff` says when it finds nothing.
-/

namespace Dotted

namespace Json

/-- The steps from a value down to one of its nodes. -/
abbrev Route := List Step

/-- The node at the end of a route. -/
def valueAt? (node : Json) : Route → Option Json
  | [] => some node
  | step :: rest => (node.step? step).bind fun child => child.valueAt? rest

/-- The step that a segment denotes in a node: a key in an object, a position
in an array. -/
def stepOf? (node : Json) (segment : Segment) : Option Step :=
  match node with
  | .object _ => some (.key segment.text)
  | .array _ => segment.index?.map .item
  | _ => none

/-- The route that segments take through a value. -/
def route? (node : Json) : List Segment → Option Route
  | [] => some []
  | segment :: rest =>
    (node.stepOf? segment).bind fun step =>
      (node.step? step).bind fun child => (child.route? rest).map (step :: ·)

/-! ## Following routes -/

theorem valueAt?_cons (node : Json) (step : Step) (rest : Route) :
    node.valueAt? (step :: rest) = (node.step? step).bind fun child => child.valueAt? rest :=
  rfl

theorem valueAt?_cons_of_step? {node child : Json} {step : Step} (h : node.step? step = some child)
    (rest : Route) : node.valueAt? (step :: rest) = child.valueAt? rest := by
  rw [valueAt?_cons, h, Option.bind_some]

/-- A route is followed one part after the other. -/
theorem valueAt?_append (node : Json) (above below : Route) :
    node.valueAt? (above ++ below) =
      (node.valueAt? above).bind fun child => child.valueAt? below := by
  induction above generalizing node with
  | nil => rfl
  | cons step rest ih =>
    rw [List.cons_append, valueAt?_cons, valueAt?_cons, Option.bind_assoc]
    exact Option.bind_congr fun child _ => ih child

/-- Nothing is below an empty object. -/
theorem valueAt?_emptyObject {route : Route} (h : route ≠ []) :
    (Json.object []).valueAt? route = none := by
  cases route with
  | nil => exact absurd rfl h
  | cons step rest => cases step <;> rfl

/-- Nothing is below `null`. -/
theorem valueAt?_null {route : Route} (h : route ≠ []) : Json.null.valueAt? route = none := by
  cases route with
  | nil => exact absurd rfl h
  | cons step rest => cases step <;> rfl

/-! ## Routes of segments -/

/-- What a segment selects is one step down. -/
theorem child?_eq_bind (node : Json) (segment : Segment) :
    node.child? segment = (node.stepOf? segment).bind node.step? := by
  cases node with
  | array items =>
    show segment.index?.bind (fun index => items[index]?) = _
    rw [stepOf?, Option.bind_map]
    rfl
  | _ => rfl

/-- The step of a segment fits the node. -/
theorem fits_of_stepOf? {node : Json} {segment : Segment} {step : Step}
    (h : node.stepOf? segment = some step) : node.Fits step := by
  cases node with
  | array items =>
    obtain ⟨index, _, rfl⟩ := Option.map_eq_some_iff.1 h
    trivial
  | object members =>
    obtain rfl := Option.some.inj h
    trivial
  | _ => cases h

theorem follow_cons_eq_ok_iff {node value : Json} {segment : Segment} {rest : List Segment} :
    node.follow (segment :: rest) = .ok value ↔
      ∃ child, node.child? segment = some child ∧ child.follow rest = .ok value := by
  rw [follow]
  cases hchild : node.child? segment with
  | none => simp
  | some child => cases hrest : child.follow rest <;> simp [Except.mapError, hrest]

/-- Where some segments lead to a value, more segments lead on from there. -/
theorem follow_append {node value found : Json} {above : List Segment}
    (h : node.follow above = .ok value) (rest : List Segment) :
    node.follow (above ++ rest) = .ok found ↔ value.follow rest = .ok found := by
  induction above generalizing node with
  | nil =>
    cases h
    rfl
  | cons segment above ih =>
    obtain ⟨child, hchild, hbelow⟩ := follow_cons_eq_ok_iff.1 h
    rw [List.cons_append, follow_cons_eq_ok_iff, ← ih hbelow]
    constructor
    · intro hfound
      obtain ⟨other, hother, hrest⟩ := hfound
      rwa [Option.some.inj (hchild.symm.trans hother)]
    · exact fun hrest => ⟨child, hchild, hrest⟩

/-- Segments lead to a value exactly if they have a route and the value is at
its end. -/
theorem follow_eq_ok_iff {node value : Json} {segments : List Segment} :
    node.follow segments = .ok value ↔
      ∃ route, node.route? segments = some route ∧ node.valueAt? route = some value := by
  induction segments generalizing node with
  | nil => simp [follow, route?, valueAt?]
  | cons segment rest ih =>
    rw [follow_cons_eq_ok_iff, route?]
    constructor
    · intro hfound
      obtain ⟨child, hchild, hrest⟩ := hfound
      obtain ⟨route, hroute, hvalue⟩ := ih.1 hrest
      rw [child?_eq_bind] at hchild
      obtain ⟨step, hstep, hdown⟩ := Option.bind_eq_some_iff.1 hchild
      refine ⟨step :: route, ?_, ?_⟩
      · rw [hstep, Option.bind_some, hdown, Option.bind_some, hroute]
        rfl
      · rw [valueAt?_cons_of_step? hdown, hvalue]
    · intro hroute
      obtain ⟨route, hroute, hvalue⟩ := hroute
      obtain ⟨step, hstep, hmore⟩ := Option.bind_eq_some_iff.1 hroute
      obtain ⟨child, hdown, hmap⟩ := Option.bind_eq_some_iff.1 hmore
      obtain ⟨below, hbelow, rfl⟩ := Option.map_eq_some_iff.1 hmap
      rw [valueAt?_cons_of_step? hdown] at hvalue
      refine ⟨child, ?_, ih.2 ⟨below, hbelow, hvalue⟩⟩
      rw [child?_eq_bind, hstep, Option.bind_some, hdown]

end Json

/-! ## Places of documents -/

namespace Document

theorem follow_eq_ok_iff {document value : Document} {path : Path} :
    document.follow path = .ok value ↔
      document.root.follow path.segments = .ok value.root := by
  unfold follow
  split
  · next root hroot =>
    constructor
    · intro h
      cases h
      exact hroot
    · intro h
      exact congrArg Except.ok (ext_root (Except.ok.inj (hroot.symm.trans h)))
  · next miss hmiss =>
    rw [hmiss]
    constructor <;> intro h <;> cases h

/-- A read gives a value exactly if the path leads to it. -/
theorem value_get_eq_some_iff {document value : Document} {path : Path} :
    (document.get path).value = some value ↔
      document.root.follow path.segments = .ok value.root := by
  rw [← follow_eq_ok_iff]
  unfold get
  split
  · next found hfound =>
    rw [hfound]
    constructor <;> intro h <;> cases h <;> rfl
  · next miss hmiss =>
    rw [hmiss]
    constructor <;> intro h <;> cases h

/-- A read gives no value exactly if the path gets stuck. -/
theorem value_get_eq_none_iff {document : Document} {path : Path} :
    (document.get path).value = none ↔
      ∃ miss, document.root.follow path.segments = .error miss := by
  cases hfollow : document.root.follow path.segments with
  | ok root =>
    have hget : (document.get path).value = some ⟨root, document.ordered.follow hfollow⟩ :=
      value_get_eq_some_iff.2 hfollow
    simp [hget]
  | error miss =>
    cases hget : (document.get path).value with
    | none => simp
    | some value =>
      rw [value_get_eq_some_iff, hfollow] at hget
      cases hget

end Document

end Dotted
