import Dotted.Proofs.Route

/-!
# Writes as a recursion without in-place changes

`Json.write` keeps track of what stands in a node after every change, also
when a later segment is refused.  `Json.written` is the same write as a plain
recursion: it goes down, or is refused, and puts the results back on the way
up, so that a refused write has no document at all.  The two agree, and the
other proofs about writes use `Json.written` only.

* `enter_put`: a node which takes a segment still takes it after any `put`.
* `written_emptyObject`: nothing is refused below an empty object.  This is
  why a write that has made something is not refused afterwards.
* `result_write` and `node_write_of_failure` relate the two forms of a write,
  and `set_of_written_eq_ok`, `set_of_written_eq_error`,
  `error?_set_eq_none_iff` and `error?_set_eq_some_iff` say so of
  `Document.set`.
-/

namespace Dotted

namespace Json

/-- The step that a write takes from a node for a segment, or why the node
does not take the segment. -/
def enter (node : Json) (segment : Segment) : Except Refusal Step :=
  match node with
  | .object _ => .ok (.key segment.text)
  | .array items =>
    match segment.index? with
    | none => .error (.notAnIndex segment)
    | some index =>
      if index - items.length ≤ maxGap then .ok (.item index)
      else .error (.indexOutOfRange index items.length)
  | scalar => .error (.notAContainer scalar.kind)

/-- What a write goes on with one step down: the value there, or else a new
empty object. -/
def childOrNew (node : Json) (step : Step) : Json := (node.step? step).getD (.object [])

/-- The node with `leaf` at the end of the segments, or where and why the
write is refused. -/
def written (node : Json) (leaf : Json) : List Segment → Except Failure Json
  | [] => .ok leaf
  | segment :: rest =>
    match node.enter segment with
    | .error refusal => .error ⟨0, refusal⟩
    | .ok step =>
      (((node.childOrNew step).written leaf rest).map (node.put step)).mapError Failure.deeper

theorem childOrNew_of_step?_eq_some {node child : Json} {step : Step}
    (h : node.step? step = some child) : node.childOrNew step = child := by
  rw [childOrNew, h]
  rfl

theorem childOrNew_of_step?_eq_none {node : Json} {step : Step} (h : node.step? step = none) :
    node.childOrNew step = .object [] := by
  rw [childOrNew, h]
  rfl

/-! ## Entering a node -/

theorem stepOf?_of_enter {node : Json} {segment : Segment} {step : Step}
    (h : node.enter segment = .ok step) : node.stepOf? segment = some step := by
  unfold enter at h
  split at h
  · cases h
    rfl
  · next items =>
    split at h
    · cases h
    · next index hindex =>
      split at h
      · cases h
        show segment.index?.map Step.item = _
        rw [hindex]
        rfl
      · cases h
  · cases h

theorem fits_of_enter {node : Json} {segment : Segment} {step : Step}
    (h : node.enter segment = .ok step) : node.Fits step :=
  fits_of_stepOf? (stepOf?_of_enter h)

/-- An array takes every position up to `maxGap` past its end. -/
theorem enter_array {items : List Json} {segment : Segment} {index : Nat}
    (hindex : segment.index? = some index) :
    (Json.array items).enter segment =
      if index - items.length ≤ maxGap then .ok (.item index)
      else .error (.indexOutOfRange index items.length) := by
  simp only [enter, hindex]

/-- What a segment selects is one step down, along the step that a write
takes for it. -/
theorem child?_of_enter {node : Json} {segment : Segment} {step : Step}
    (h : node.enter segment = .ok step) : node.child? segment = node.step? step := by
  rw [child?_eq_bind, stepOf?_of_enter h, Option.bind_some]

/-- A write can go wherever a read can. -/
theorem enter_of_child? {node child : Json} {segment : Segment}
    (h : node.child? segment = some child) :
    ∃ step, node.enter segment = .ok step ∧ node.step? step = some child := by
  cases node with
  | object members => exact ⟨.key segment.text, rfl, h⟩
  | array items =>
    obtain ⟨index, hindex, hitem⟩ := Option.bind_eq_some_iff.1 h
    have hlt : index < items.length := (List.getElem?_eq_some_iff.1 hitem).1
    refine ⟨.item index, ?_, hitem⟩
    rw [enter_array hindex, if_pos (by omega)]
  | _ => cases h

/-- A node that takes a segment still takes it after a `put`, because a `put`
never shortens an array. -/
theorem enter_put {node : Json} {segment : Segment} {step : Step}
    (h : node.enter segment = .ok step) (other : Step) (value : Json) :
    (node.put other value).enter segment = .ok step := by
  unfold put
  split
  · exact h
  · next items position =>
    cases hindex : segment.index? with
    | none => simp [enter, hindex] at h
    | some index =>
      rw [enter_array hindex] at h
      show (Json.array (putItem items position value)).enter segment = _
      rw [enter_array hindex, length_putItem]
      split at h
      · rw [if_pos (by omega)]
        exact h
      · cases h
  · exact h

/-- Below a child that was just put in, segments take the route that they take
through the child. -/
theorem route?_put_cons {node child : Json} {segment : Segment} {step : Step}
    (h : node.enter segment = .ok step) {rest : List Segment} {route : Route}
    (hroute : child.route? rest = some route) :
    (node.put step child).route? (segment :: rest) = some (step :: route) := by
  rw [route?, stepOf?_of_enter (enter_put h step child), Option.bind_some,
    step?_put_self (fits_of_enter h), Option.bind_some, hroute]
  rfl

/-! ## Written values -/

theorem written_cons_of_enter {node leaf : Json} {segment : Segment} {step : Step}
    (h : node.enter segment = .ok step) (rest : List Segment) :
    node.written leaf (segment :: rest) =
      (((node.childOrNew step).written leaf rest).map (node.put step)).mapError
        Failure.deeper := by
  rw [written, h]

theorem written_cons_of_refused {node leaf : Json} {segment : Segment} {refusal : Refusal}
    (h : node.enter segment = .error refusal) (rest : List Segment) :
    node.written leaf (segment :: rest) = .error ⟨0, refusal⟩ := by
  rw [written, h]

theorem written_cons_eq_ok_iff {node leaf new : Json} {segment : Segment}
    {rest : List Segment} :
    node.written leaf (segment :: rest) = .ok new ↔
      ∃ step child, node.enter segment = .ok step ∧
        (node.childOrNew step).written leaf rest = .ok child ∧ new = node.put step child := by
  rw [written]
  cases henter : node.enter segment with
  | error refusal => simp
  | ok step =>
    cases hbelow : (node.childOrNew step).written leaf rest with
    | error failure => simp [Except.map, Except.mapError, hbelow]
    | ok child => simp [Except.map, Except.mapError, hbelow, eq_comm]

theorem written_cons_eq_error_iff {node leaf : Json} {segment : Segment} {rest : List Segment}
    {failure : Failure} :
    node.written leaf (segment :: rest) = .error failure ↔
      (∃ refusal, node.enter segment = .error refusal ∧ failure = ⟨0, refusal⟩) ∨
        ∃ step below, node.enter segment = .ok step ∧
          (node.childOrNew step).written leaf rest = .error below ∧ failure = below.deeper := by
  rw [written]
  cases henter : node.enter segment with
  | error refusal => simp [eq_comm]
  | ok step =>
    cases hbelow : (node.childOrNew step).written leaf rest with
    | error failure => simp [Except.map, Except.mapError, hbelow, eq_comm]
    | ok child => simp [Except.map, Except.mapError, hbelow]

/-- Nothing is refused below an empty object: every segment makes another
empty object, and the last one takes the leaf. -/
theorem written_emptyObject (leaf : Json) (segments : List Segment) :
    ∃ new, (Json.object []).written leaf segments = .ok new := by
  induction segments with
  | nil => exact ⟨leaf, rfl⟩
  | cons segment rest ih =>
    obtain ⟨child, hchild⟩ := ih
    exact ⟨_, written_cons_eq_ok_iff.2 ⟨.key segment.text, child, rfl, hchild, rfl⟩⟩

/-! ## Agreement with the write in place -/

/-- What an outcome says of a write, a refused one having no node. -/
def Outcome.result (outcome : Outcome) : Except Failure Json :=
  match outcome.failure with
  | none => .ok outcome.node
  | some failure => .error failure

theorem Outcome.result_eq_ok_iff {outcome : Outcome} {node : Json} :
    outcome.result = .ok node ↔ outcome.failure = none ∧ outcome.node = node := by
  obtain ⟨left, failure, events⟩ := outcome
  cases failure <;> simp [Outcome.result]

theorem Outcome.result_eq_error_iff {outcome : Outcome} {failure : Failure} :
    outcome.result = .error failure ↔ outcome.failure = some failure := by
  obtain ⟨left, failure, events⟩ := outcome
  cases failure <;> simp [Outcome.result]

theorem Outcome.result_within (put : Json → Json) (outcome : Outcome) :
    (outcome.within put).result = (outcome.result.map put).mapError Failure.deeper := by
  obtain ⟨node, failure, events⟩ := outcome
  cases failure <;> rfl

theorem Outcome.result_after (event : Event) (outcome : Outcome) :
    (outcome.after event).result = outcome.result :=
  rfl

/-- At the end of the segments the leaf is put one step down. -/
theorem result_assign (node : Json) (segment : Segment) (leaf : Json) :
    (node.assign segment leaf).result = node.written leaf [segment] := by
  cases node with
  | object members => rfl
  | array items =>
    cases hindex : segment.index? with
    | none =>
      rw [written_cons_of_refused (by rw [enter, hindex])]
      simp only [assign, hindex]
      rfl
    | some index =>
      have henter : (Json.array items).enter segment = _ := enter_array hindex
      by_cases hgap : index - items.length ≤ maxGap
      · rw [if_pos hgap] at henter
        rw [written_cons_of_enter henter]
        show _ = Except.ok (Json.array (putItem items index leaf))
        cases hitem : items[index]? with
        | some item =>
          have hlt : index < items.length := (List.getElem?_eq_some_iff.1 hitem).1
          simp only [assign, hindex, hitem]
          rw [putItem_of_lt hlt]
          rfl
        | none =>
          have hge : items.length ≤ index := List.getElem?_eq_none_iff.1 hitem
          simp only [assign, hindex, hitem]
          rw [if_pos hgap, putItem_of_ge hge]
          rfl
      · rw [if_neg hgap] at henter
        have hitem : items[index]? = none := List.getElem?_eq_none (by omega)
        rw [written_cons_of_refused henter]
        simp only [assign, hindex, hitem]
        rw [if_neg hgap]
        rfl
  | _ => rfl

/-- A value that is put in place of a new empty object is put in place of
what was there before. -/
theorem put_childOrNew_put (node : Json) (step : Step) :
    (node.put step (.object [])).put step = node.put step :=
  funext fun child => put_put node step (.object []) child

theorem put_item_of_lt {items : List Json} {index : Nat} (h : index < items.length) :
    (Json.array items).put (.item index) = fun child => .array (replaceItem items index child) :=
  funext fun child => congrArg Json.array (putItem_of_lt h child)

theorem put_item_of_ge {items : List Json} {index : Nat} (h : items.length ≤ index) :
    (Json.array items).put (.item index) = fun child =>
      .array (replaceItem (padded items index ++ [.object []]) index child) := by
  have hlength : index < (putItem items index (.object [])).length := by
    rw [length_putItem]
    omega
  rw [← put_childOrNew_put, ← putItem_of_ge h]
  exact put_item_of_lt hlength

/-- A write in place succeeds, or is refused, as the recursion says.  Where
something is missing, a new empty object is put in before the write goes on
below it, and the value that comes back takes its place. -/
theorem result_write (node : Json) (segment : Segment) (leaf : Json) (rest : List Segment) :
    (node.write segment leaf rest).result = node.written leaf (segment :: rest) := by
  induction rest generalizing node segment with
  | nil => exact result_assign node segment leaf
  | cons next rest ih =>
    cases node with
    | object members =>
      have henter : (Json.object members).enter segment = .ok (.key segment.text) := rfl
      rw [written_cons_of_enter henter, childOrNew]
      cases hchild : members.lookup segment.text with
      | some child =>
        simp only [write, hchild, step?]
        rw [Outcome.result_within, ih]
        rfl
      | none =>
        simp only [write, hchild, step?]
        rw [Outcome.result_after, Outcome.result_within, ih, ← put_childOrNew_put]
        rfl
    | array items =>
      cases hindex : segment.index? with
      | none =>
        rw [written_cons_of_refused (by rw [enter, hindex])]
        simp only [write, hindex]
        rfl
      | some index =>
        have henter : (Json.array items).enter segment = _ := enter_array hindex
        cases hitem : items[index]? with
        | some child =>
          have hlt : index < items.length := (List.getElem?_eq_some_iff.1 hitem).1
          rw [if_pos (by omega)] at henter
          rw [written_cons_of_enter henter, childOrNew, put_item_of_lt hlt]
          simp only [write, hindex, hitem, step?]
          rw [Outcome.result_within, ih]
          rfl
        | none =>
          have hge : items.length ≤ index := List.getElem?_eq_none_iff.1 hitem
          simp only [write, hindex, hitem]
          by_cases hgap : index - items.length ≤ maxGap
          · rw [if_pos hgap] at henter ⊢
            rw [written_cons_of_enter henter, childOrNew, put_item_of_ge hge,
              Outcome.result_after, Outcome.result_within, ih]
            simp only [step?, hitem]
            rfl
          · rw [if_neg hgap] at henter ⊢
            rw [written_cons_of_refused henter]
            rfl
    | _ => rfl

theorem Outcome.failure_within (put : Json → Json) (outcome : Outcome) :
    (outcome.within put).failure = none ↔ outcome.failure = none :=
  Option.map_eq_none_iff

theorem Outcome.failure_after (event : Event) (outcome : Outcome) :
    (outcome.after event).failure = outcome.failure :=
  rfl

/-- A write below a new empty object is not refused. -/
theorem failure_write_emptyObject (segment : Segment) (leaf : Json) (rest : List Segment) :
    ((Json.object []).write segment leaf rest).failure = none := by
  obtain ⟨new, hnew⟩ := written_emptyObject leaf (segment :: rest)
  rw [← result_write] at hnew
  exact (Outcome.result_eq_ok_iff.1 hnew).1

theorem node_assign_of_failure {node : Json} {segment : Segment} {leaf : Json}
    (h : (node.assign segment leaf).failure ≠ none) : (node.assign segment leaf).node = node := by
  cases node with
  | object members => exact absurd rfl h
  | array items =>
    cases hindex : segment.index? with
    | none =>
      simp only [assign, hindex]
      rfl
    | some index =>
      simp only [assign, hindex] at h ⊢
      cases hitem : items[index]? with
      | some item =>
        simp only [hitem] at h
        exact absurd rfl h
      | none =>
        simp only [hitem] at h ⊢
        split at h
        · exact absurd rfl h
        · next hgap =>
          rw [if_neg hgap]
          rfl
  | _ => rfl

/-- A refused write leaves the node as it was.  What was refused is below
nodes that were there before, because nothing is refused below a new object,
and what is left of each of them is put back where it was. -/
theorem node_write_of_failure {node : Json} (hordered : node.Ordered) {segment : Segment}
    {leaf : Json} {rest : List Segment} (h : (node.write segment leaf rest).failure ≠ none) :
    (node.write segment leaf rest).node = node := by
  induction rest generalizing node segment with
  | nil => exact node_assign_of_failure h
  | cons next rest ih =>
    cases node with
    | object members =>
      cases hchild : members.lookup segment.text with
      | some child =>
        simp only [write, hchild] at h ⊢
        rw [Ne, Outcome.failure_within] at h
        have hchild : (Json.object members).step? (.key segment.text) = some child := hchild
        show (Json.object members).put (.key segment.text) (child.write next leaf rest).node = _
        rw [ih (hordered.lookup hchild) h, put_of_step? hordered hchild]
      | none =>
        simp only [write, hchild] at h
        rw [Ne, Outcome.failure_after, Outcome.failure_within] at h
        exact absurd (failure_write_emptyObject next leaf rest) h
    | array items =>
      cases hindex : segment.index? with
      | none =>
        simp only [write, hindex]
        rfl
      | some index =>
        cases hitem : items[index]? with
        | some child =>
          have hlt : index < items.length := (List.getElem?_eq_some_iff.1 hitem).1
          simp only [write, hindex, hitem] at h ⊢
          rw [Ne, Outcome.failure_within] at h
          have hchild : (Json.array items).step? (.item index) = some child := hitem
          show (fun child => Json.array (replaceItem items index child)) _ = _
          rw [← put_item_of_lt hlt, ih (hordered.getElem? hitem) h, put_of_step? hordered hchild]
        | none =>
          simp only [write, hindex, hitem] at h ⊢
          split at h
          · rw [Outcome.failure_after, Ne, Outcome.failure_within] at h
            exact absurd (failure_write_emptyObject next leaf rest) h
          · next hgap =>
            rw [if_neg hgap]
            rfl
    | _ => rfl

end Json

/-! ## Writes of documents -/

namespace Document

variable {document leaf : Document} {path : Path}

/-- A path is its first segment and those that follow. -/
theorem first_cons_tail (path : Path) : path.first :: path.segments.tail = path.segments :=
  List.cons_head_tail path.nonempty

theorem set_of_written_eq_ok {new : Json}
    (h : document.root.written leaf.root path.segments = .ok new) :
    (document.set path leaf).error? = none ∧ (document.set path leaf).document.root = new := by
  rw [← first_cons_tail, ← Json.result_write] at h
  obtain ⟨hfailure, hnode⟩ := Json.Outcome.result_eq_ok_iff.1 h
  refine ⟨?_, hnode⟩
  show Option.map _ (document.root.write path.first leaf.root path.segments.tail).failure = none
  rw [hfailure]
  rfl

theorem set_of_written_eq_error {failure : Failure}
    (h : document.root.written leaf.root path.segments = .error failure) :
    (document.set path leaf).error? = some ⟨path.location failure.depth, failure.refusal⟩ ∧
      (document.set path leaf).document = document := by
  rw [← first_cons_tail, ← Json.result_write, Json.Outcome.result_eq_error_iff] at h
  constructor
  · show Option.map _ (document.root.write path.first leaf.root path.segments.tail).failure = _
    rw [h]
    rfl
  · refine ext_root (Json.node_write_of_failure document.ordered ?_)
    rw [h]
    simp

/-- A write succeeds exactly if the recursion gives a document. -/
theorem error?_set_eq_none_iff :
    (document.set path leaf).error? = none ↔
      ∃ new, document.root.written leaf.root path.segments = .ok new := by
  cases h : document.root.written leaf.root path.segments with
  | ok new => simp [(set_of_written_eq_ok h).1]
  | error failure => simp [(set_of_written_eq_error h).1]

/-- A write is refused exactly if the recursion is, and says where. -/
theorem error?_set_eq_some_iff {error : WriteError} :
    (document.set path leaf).error? = some error ↔
      ∃ failure, document.root.written leaf.root path.segments = .error failure ∧
        error = ⟨path.location failure.depth, failure.refusal⟩ := by
  cases h : document.root.written leaf.root path.segments with
  | ok new => simp [(set_of_written_eq_ok h).1]
  | error failure => simp [(set_of_written_eq_error h).1, eq_comm]

end Document

end Dotted
