import Dotted.Proofs.PathText
import Dotted.Proofs.Refused
import Dotted.Proofs.Stepwise

/-!
# Locations of refused writes

A refused write says where it was refused by the text of a path, or by a label
if it was at the root.  The label is no reserved word: it is itself the text of
a path, and a document may have it as a key.  Still no two nodes of a document
are reported by one text.  A write that is refused at the root finds an array or
a scalar there, because an object takes every segment, and in neither of them
the label leads anywhere.

* `Walk.route_run_of_written_eq_error`: a walk stops at the end of the segments
  that it has passed, at a value that was there before.
* `Document.RefusedAt` says at which node a write was refused, and
  `Document.exists_refusedAt` that there is one.
* `Document.RefusedAt.exists_outer`: below the root the location is the text of
  a beginning of the path.  `Json.Refuses.follow_label_ne_ok`: at the root the
  label leads nowhere.
* `Document.location_identifies_refusing_node` puts these together.
-/

namespace Dotted

namespace Json

/-- A write that is refused below a step found something there. -/
theorem step?_of_written_eq_error {node leaf : Json} {step : Step} {rest : List Segment}
    {failure : Failure} (h : (node.childOrNew step).written leaf rest = .error failure) :
    node.step? step = some (node.childOrNew step) := by
  cases hstep : node.step? step with
  | some child => rw [childOrNew_of_step?_eq_some hstep]
  | none =>
    obtain ⟨new, hnew⟩ := written_emptyObject leaf rest
    rw [childOrNew_of_step?_eq_none hstep, hnew] at h
    cases h

/-- Each segment takes one step. -/
theorem length_of_route? {node : Json} {segments : List Segment} {route : Route}
    (h : node.route? segments = some route) : route.length = segments.length := by
  induction segments generalizing node route with
  | nil =>
    cases h
    rfl
  | cons segment rest ih =>
    obtain ⟨step, -, hmore⟩ := Option.bind_eq_some_iff.1 h
    obtain ⟨child, -, hmap⟩ := Option.bind_eq_some_iff.1 hmore
    obtain ⟨below, hbelow, rfl⟩ := Option.map_eq_some_iff.1 hmap
    rw [List.length_cons, List.length_cons, ih hbelow]

/-- The label of the root is the text of a path of one segment. -/
def labelSegment : Segment := ⟨Path.rootLabel, by decide, by decide⟩

/-- The label leads nowhere from a node that does not take some segment.  Such
a node is no object, and in an array the label is no position. -/
theorem Refuses.follow_label_ne_ok {node value : Json} {segment : Segment} {refusal : Refusal}
    {named : Path} (h : node.Refuses segment refusal)
    (hparse : Path.parse Path.rootLabel = .ok named) : node.follow named.segments ≠ .ok value := by
  have hlabel : (Path.single labelSegment).text = Path.rootLabel := rfl
  obtain rfl := Path.text_injective (hlabel.trans (Path.parse_eq_ok_iff.1 hparse).symm)
  intro hfollow
  obtain ⟨child, hchild, -⟩ := follow_cons_eq_ok_iff.1 hfollow
  have hindex : labelSegment.index? = none := rfl
  cases h with
  | notAContainer harray hobject =>
    cases node with
    | object members => exact hobject rfl
    | array items => exact harray rfl
    | _ => cases hchild
  | notAnIndex | indexOutOfRange =>
    rw [child?, hindex] at hchild
    cases hchild

end Json

namespace Walk

variable {walk : Walk} {segment : Segment} {leaf : Json}

/-- A walk stops where the first segment is refused. -/
theorem run_of_refused {refusal : Refusal} (h : walk.node.enter segment = .error refusal)
    (rest : List Segment) :
    walk.run segment leaf rest = ⟨walk, some ⟨walk.route.length, refusal⟩⟩ := by
  cases rest with
  | nil => rw [run, assign_of_refused h]
  | cons next rest => rw [run, descend_of_refused h]

/-- A walk that is refused stops at the end of the segments that it has
passed.  The induction goes down with the walk, and what it finds on its way
was there before. -/
theorem route_run_of_written_eq_error {rest : List Segment} {failure : Failure}
    (h : walk.node.written leaf (segment :: rest) = .error failure) :
    ∃ below, walk.node.route? ((segment :: rest).take failure.depth) = some below ∧
      (walk.run segment leaf rest).walk.route = walk.route ++ below ∧
      walk.node.valueAt? below = some (walk.run segment leaf rest).walk.node := by
  induction rest generalizing walk segment failure with
  | nil =>
    rcases Json.written_cons_eq_error_iff.1 h with ⟨refusal, henter, rfl⟩ | ⟨_, _, _, hleaf, _⟩
    · rw [run_of_refused henter]
      exact ⟨[], rfl, (List.append_nil walk.route).symm, rfl⟩
    · cases hleaf
  | cons next rest ih =>
    rcases Json.written_cons_eq_error_iff.1 h with
      ⟨refusal, henter, rfl⟩ | ⟨step, deep, henter, hdeep, rfl⟩
    · rw [run_of_refused henter]
      exact ⟨[], rfl, (List.append_nil walk.route).symm, rfl⟩
    · have hstep := Json.step?_of_written_eq_error hdeep
      obtain ⟨lower, made, hturn, hdown⟩ := descend_of_enter henter
      rw [← hdown.node] at hdeep hstep
      obtain ⟨below, hroute, hwalked, hvalue⟩ := ih hdeep
      rw [run, hturn]
      refine ⟨step :: below, ?_, ?_, ?_⟩
      · show walk.node.route? (segment :: (next :: rest).take deep.depth) = _
        rw [Json.route?, Json.stepOf?_of_enter henter, Option.bind_some, hstep, Option.bind_some,
          hroute]
        rfl
      · show (lower.run next leaf rest).walk.route = _
        rw [hwalked, hdown.route, List.append_assoc]
        rfl
      · rw [Json.valueAt?_cons_of_step? hstep]
        exact hvalue

end Walk

namespace Document

variable {document leaf : Document} {path named : Path} {error : WriteError}
  {route : Json.Route} {node : Json}

/-- A refused overwrite stops its walk with the same refusal, once the segments
before the refused one are taken. -/
theorem walked_of_written_eq_error {failure : Failure}
    (h : document.root.written leaf.root path.segments = .error failure) :
    (document.walked path leaf).failure = some failure ∧
      document.root.route? (path.segments.take failure.depth) =
        some (document.walked path leaf).walk.route ∧
      document.root.valueAt? (document.walked path leaf).walk.route =
        some (document.walked path leaf).walk.node := by
  rw [← first_cons_tail] at h
  have hstart : (Walk.start document.root).node.written leaf.root
      (path.first :: path.segments.tail) = .error failure := h
  have hstopped := Walk.run_of_written_eq_error hstart
  rw [show (Walk.start document.root).route.length = 0 from rfl, Nat.zero_add] at hstopped
  obtain ⟨below, hbelow, hroute, hvalue⟩ := Walk.route_run_of_written_eq_error hstart
  have hwalked : (document.walked path leaf).walk.route = below := hroute
  rw [first_cons_tail] at hbelow
  rw [hwalked]
  exact ⟨hstopped, hbelow, hvalue⟩

/-- The walk of a refused write stops at a node that was there before.  The
segments that it has passed lead to this node, in as many steps, and the node
does not take the next one. -/
theorem walked_of_error?_set (h : (document.set path leaf).error? = some error)
    (hroute : (document.walked path leaf).walk.route = route)
    (hnode : (document.walked path leaf).walk.node = node) :
    (document.walked path leaf).failure = some ⟨route.length, error.refusal⟩ ∧
      error.location = path.location route.length ∧
      document.root.route? (path.segments.take route.length) = some route ∧
      document.root.valueAt? route = some node ∧
      ∃ segment, path.segments[route.length]? = some segment ∧
        node.Refuses segment error.refusal := by
  obtain ⟨failure, hfailure, rfl⟩ := error?_set_eq_some_iff.1 h
  obtain ⟨hstopped, htaken, hend⟩ := walked_of_written_eq_error hfailure
  rw [hroute] at htaken hend
  rw [hnode] at hend
  obtain ⟨depth, value, hlongest, hfails⟩ :=
    Json.exists_longestPrefix_written_eq_error_iff document.root path.segments
  obtain ⟨segment, hsegment, rfl, hrefuses⟩ := (hfails _ _).1 hfailure
  have hlength : route.length = failure.depth := by
    rw [Json.length_of_route? htaken, List.length_take_of_le hlongest.within]
  -- the node is the value at the end of the longest prefix
  obtain rfl : value = node :=
    Except.ok.inj (hlongest.leads.symm.trans (Json.follow_eq_ok_iff.2 ⟨route, htaken, hend⟩))
  rw [hlength]
  exact ⟨hstopped, rfl, htaken, hend, segment, hsegment, hrefuses⟩

/-- A write was refused, and its walk stopped at `node`, which is at the end of
`route`. -/
structure RefusedAt (document : Document) (path : Path) (leaf : Document) (error : WriteError)
    (route : Json.Route) (node : Json) : Prop where
  reported : (document.set path leaf).error? = some error
  stopped : (document.walked path leaf).failure = some ⟨route.length, error.refusal⟩
  route_eq : (document.walked path leaf).walk.route = route
  node_eq : (document.walked path leaf).walk.node = node

theorem exists_refusedAt (h : (document.set path leaf).error? = some error) :
    ∃ route node, document.RefusedAt path leaf error route node :=
  ⟨_, _, h, (walked_of_error?_set h rfl rfl).1, rfl, rfl⟩

namespace RefusedAt

theorem leads (h : document.RefusedAt path leaf error route node) :
    error.location = path.location route.length ∧
      document.root.route? (path.segments.take route.length) = some route ∧
      document.root.valueAt? route = some node ∧
      ∃ segment, path.segments[route.length]? = some segment ∧
        node.Refuses segment error.refusal :=
  (walked_of_error?_set h.reported h.route_eq h.node_eq).2

/-- A write that is not refused at the root reports the text of a beginning of
its path, which leads to the node. -/
theorem exists_outer (h : document.RefusedAt path leaf error route node) (hroute : route ≠ []) :
    ∃ outer : Path, outer.segments <+: path.segments ∧ outer.length = route.length ∧
      outer.text = error.location ∧ document.root.route? outer.segments = some route := by
  obtain ⟨hlocation, htaken, -, segment, hsegment, -⟩ := h.leads
  have hwithin : route.length < path.segments.length := (List.getElem?_eq_some_iff.1 hsegment).1
  have hlength : (path.segments.take route.length).length = route.length :=
    List.length_take_of_le (Nat.le_of_lt hwithin)
  have hsome : path.segments.take route.length ≠ [] := by
    rw [← List.length_pos_iff, hlength]
    exact List.length_pos_iff.2 hroute
  obtain ⟨outer, houter⟩ : ∃ outer : Path, outer.segments = path.segments.take route.length :=
    ⟨⟨_, hsome⟩, rfl⟩
  have hbegins : outer.segments <+: path.segments := houter ▸ List.take_prefix _ _
  rw [← houter] at hlength htaken
  refine ⟨outer, hbegins, hlength, ?_, htaken⟩
  rw [hlocation, ← hlength]
  exact (Path.location_of_prefix hbegins).symm

/-- A path that is written as the location of a refused write, and leads
anywhere, leads to the node that refused it. -/
theorem of_resolves (h : document.RefusedAt path leaf error route node)
    {found : Document} (hparse : Path.parse error.location = .ok named)
    (hfound : (document.get named).value = some found) :
    named.segments <+: path.segments ∧ named.length = route.length ∧
      document.root.route? named.segments = some route ∧ found.root = node := by
  rw [value_get_eq_some_iff] at hfound
  obtain ⟨hlocation, -, hvalue, segment, -, hrefuses⟩ := h.leads
  have hroute : route ≠ [] := by
    rintro rfl
    cases hvalue
    rw [hlocation] at hparse
    exact hrefuses.follow_label_ne_ok hparse hfound
  obtain ⟨outer, hbegins, hlength, htext, htaken⟩ := h.exists_outer hroute
  obtain rfl : outer = named :=
    Path.text_injective (htext.trans (Path.parse_eq_ok_iff.1 hparse).symm)
  obtain ⟨way, hway, hend⟩ := Json.follow_eq_ok_iff.1 hfound
  obtain rfl := Option.some.inj (htaken.symm.trans hway)
  exact ⟨hbegins, hlength, hway, Option.some.inj (hend.symm.trans hvalue)⟩

/-- If the location leads nowhere as a path, the write was refused at the
root. -/
theorem of_not_resolves (h : document.RefusedAt path leaf error route node)
    (hnowhere : ∀ named, Path.parse error.location = .ok named →
      (document.get named).value = none) :
    error.location = "(root)" ∧ route = [] ∧ node = document.root := by
  obtain ⟨hlocation, -, hvalue, -⟩ := h.leads
  by_cases hroute : route = []
  · subst hroute
    exact ⟨hlocation, rfl, (Option.some.inj hvalue).symm⟩
  · obtain ⟨outer, -, -, htext, htaken⟩ := h.exists_outer hroute
    have hnone := hnowhere outer (Path.parse_eq_ok_iff.2 htext)
    obtain ⟨miss, hmiss⟩ := value_get_eq_none_iff.1 hnone
    rw [Json.follow_eq_ok_iff.2 ⟨route, htaken, hvalue⟩] at hmiss
    cases hmiss

end RefusedAt

/-- A refused write is refused by one node, and its location says which.  If
the location is the text of a path that leads anywhere, the path is a beginning
of that of the write and leads to the node.  Otherwise the location is the label
of the root, and the root is the node.  So two writes to one document that
report one location were refused by one node. -/
theorem location_identifies_refusing_node (document : Document) :
    (∀ path leaf error, (document.set path leaf).error? = some error →
      ∃ route node segment, document.RefusedAt path leaf error route node ∧
        document.root.valueAt? route = some node ∧
        path.segments[route.length]? = some segment ∧ node.Refuses segment error.refusal ∧
        (∀ named found, Path.parse error.location = .ok named →
          (document.get named).value = some found →
            named.segments <+: path.segments ∧ named.length = route.length ∧
              document.root.route? named.segments = some route ∧ found.root = node) ∧
        ((∀ named, Path.parse error.location = .ok named → (document.get named).value = none) →
          error.location = "(root)" ∧ route = [] ∧ node = document.root)) ∧
      ∀ path leaf error route node otherPath otherLeaf otherError otherRoute otherNode,
        document.RefusedAt path leaf error route node →
          document.RefusedAt otherPath otherLeaf otherError otherRoute otherNode →
            error.location = otherError.location → route = otherRoute ∧ node = otherNode := by
  constructor
  · intro path leaf error herror
    obtain ⟨route, node, h⟩ := exists_refusedAt herror
    obtain ⟨-, -, hvalue, segment, hsegment, hrefuses⟩ := h.leads
    exact ⟨route, node, segment, h, hvalue, hsegment, hrefuses,
      fun named found => h.of_resolves, h.of_not_resolves⟩
  · intro path leaf error route node otherPath otherLeaf otherError otherRoute otherNode h hother
      hlocation
    by_cases hleads : ∃ named found, Path.parse error.location = .ok named ∧
        (document.get named).value = some found
    · obtain ⟨named, found, hparse, hfound⟩ := hleads
      obtain ⟨-, -, hway, hend⟩ := h.of_resolves hparse hfound
      obtain ⟨-, -, hotherWay, hotherEnd⟩ := hother.of_resolves (hlocation ▸ hparse) hfound
      exact ⟨Option.some.inj (hway.symm.trans hotherWay), hend.symm.trans hotherEnd⟩
    · have hnowhere : ∀ named, Path.parse error.location = .ok named →
          (document.get named).value = none := by
        intro named hparse
        rw [Option.eq_none_iff_forall_ne_some]
        exact fun found hfound => hleads ⟨named, found, hparse, hfound⟩
      obtain ⟨-, rfl, rfl⟩ := h.of_not_resolves hnowhere
      obtain ⟨-, rfl, rfl⟩ := hother.of_not_resolves (hlocation ▸ hnowhere)
      exact ⟨rfl, rfl⟩

/-- An object with the label of the root as a key. -/
def labelled : Document := .object [("(root)", .array [])]

/-- A key where `labelled` has an array. -/
def misplacedKey : Path := (Path.single Json.labelSegment).push ⟨"key", by decide, by decide⟩

/-- A position too far past the end of that array. -/
def distantItem : Path := (Path.single Json.labelSegment).push (.ofIndex 65537)

/-- Two writes that are refused by the array under the label, and one that is
refused by the root of another document. -/
theorem location_identifies_refusing_node_label :
    (∃ route node,
        labelled.RefusedAt misplacedKey null ⟨"(root)", .notAnIndex misplacedKey.last⟩ route node ∧
        labelled.RefusedAt distantItem null ⟨"(root)", .indexOutOfRange 65537 0⟩ route node ∧
        labelled.root.route? [Json.labelSegment] = some route ∧ node = .array []) ∧
      ∃ node, (array []).RefusedAt (.single Json.labelSegment) null
        ⟨"(root)", .notAnIndex Json.labelSegment⟩ [] node := by
  obtain ⟨hrefused, hsame⟩ := location_identifies_refusing_node labelled
  obtain ⟨hroot, -⟩ := location_identifies_refusing_node (array [])
  have hparse : Path.parse "(root)" = .ok (.single Json.labelSegment) := rfl
  constructor
  · obtain ⟨route, node, -, hkey, -, -, -, hresolves, -⟩ :=
      hrefused misplacedKey null ⟨"(root)", .notAnIndex misplacedKey.last⟩ (by decide)
    obtain ⟨otherRoute, otherNode, -, hitem, -⟩ :=
      hrefused distantItem null ⟨"(root)", .indexOutOfRange 65537 0⟩ (by decide)
    obtain ⟨rfl, rfl⟩ := hsame _ _ _ _ _ _ _ _ _ _ hkey hitem rfl
    obtain ⟨-, -, hway, hnode⟩ := hresolves _ (array []) hparse rfl
    exact ⟨route, node, hkey, hitem, hway, hnode.symm⟩
  · obtain ⟨route, node, -, hlabel, -, -, -, -, hnowhere⟩ :=
      hroot (.single Json.labelSegment) null ⟨"(root)", .notAnIndex Json.labelSegment⟩ (by decide)
    obtain ⟨-, rfl, -⟩ := hnowhere fun named hnamed => by
      cases hparse.symm.trans hnamed
      rfl
    exact ⟨node, hlabel⟩

end Document

end Dotted
