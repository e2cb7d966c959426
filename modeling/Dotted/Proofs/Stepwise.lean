import Dotted.Proofs.Written

/-!
# A write as a sequence of changes in place

A write changes its document in place while it goes down: it inserts an empty
object under a missing key, or resizes an array and pushes an empty object,
and only then looks at the next segment.  `Walk` is the state between two
segments: the document as the changes so far have left it, the node that takes
the next segment, and every change made.  A change takes effect in the
document at once, and nothing takes it back.

* `Edit` is one change of one container, and `Json.modifyAt` makes it in the
  document around the container.
* `Walk.descend` is the turn for a segment on the way and `Walk.assign` the
  turn for the last one.  `Walk.run` takes all turns, and stops where a
  segment is refused.
* `Walk.Descended` and `Walk.of_assign_eq_ok` say all that the two turns do.
* `Walk.Untouched` is the invariant of the turns: either nothing was changed
  so far, or the node is a new empty object.  Such an object refuses nothing,
  so that a refusal comes before the first change (`edits_run_of_failure`).
* `set_refused_without_edits`: `Document.set` leaves the document of the walk
  and reports its failure, and a refused one has changed nothing.
-/

namespace Dotted

namespace Json

/-! ## Changes below a route -/

/-- The node with its value at the end of a route changed. -/
def modifyAt (node : Json) (change : Json → Json) : Route → Json
  | [] => change node
  | step :: rest =>
    match node.step? step with
    | some child => node.put step (child.modifyAt change rest)
    | none => node

theorem modifyAt_cons {node child : Json} {step : Step} (h : node.step? step = some child)
    (change : Json → Json) (rest : Route) :
    node.modifyAt change (step :: rest) = node.put step (child.modifyAt change rest) := by
  rw [modifyAt, h]

theorem valueAt?_modifyAt {node value : Json} {route : Route}
    (h : node.valueAt? route = some value) (change : Json → Json) :
    (node.modifyAt change route).valueAt? route = some (change value) := by
  induction route generalizing node with
  | nil =>
    cases h
    rfl
  | cons step rest ih =>
    obtain ⟨child, hchild, hvalue⟩ := Option.bind_eq_some_iff.1 h
    rw [modifyAt_cons hchild, valueAt?_cons_of_step? (step?_put_self (fits_of_step? hchild) _)]
    exact ih hvalue

/-- Only what a change makes of the value at the end of the route matters. -/
theorem modifyAt_congr {node value : Json} {route : Route}
    (h : node.valueAt? route = some value) {change other : Json → Json}
    (heq : change value = other value) :
    node.modifyAt change route = node.modifyAt other route := by
  induction route generalizing node with
  | nil =>
    cases h
    exact heq
  | cons step rest ih =>
    obtain ⟨child, hchild, hvalue⟩ := Option.bind_eq_some_iff.1 h
    rw [modifyAt_cons hchild, modifyAt_cons hchild, ih hvalue]

/-- Two changes at the end of one route are one change. -/
theorem modifyAt_modifyAt {node value : Json} {route : Route}
    (h : node.valueAt? route = some value) (change other : Json → Json) :
    (node.modifyAt change route).modifyAt other route =
      node.modifyAt (fun value => other (change value)) route := by
  induction route generalizing node with
  | nil => rfl
  | cons step rest ih =>
    obtain ⟨child, hchild, hvalue⟩ := Option.bind_eq_some_iff.1 h
    rw [modifyAt_cons hchild, modifyAt_cons hchild,
      modifyAt_cons (step?_put_self (fits_of_step? hchild) _), put_put, ih hvalue]

theorem modifyAt_append (node : Json) (change : Json → Json) (above below : Route) :
    node.modifyAt change (above ++ below) =
      node.modifyAt (fun value => value.modifyAt change below) above := by
  induction above generalizing node with
  | nil => rfl
  | cons step rest ih =>
    rw [List.cons_append, modifyAt, modifyAt]
    cases node.step? step with
    | none => rfl
    | some child => exact congrArg (node.put step) (ih child)

end Json

/-! ## Changes of containers -/

/-- One change of one container in place. -/
inductive Edit where
  /-- A key of an object is given a value. -/
  | insert (key : String) (value : Json)
  /-- An array is given a length, by `null`s after its items. -/
  | resize (length : Nat)
  /-- A value is put after the items of an array. -/
  | push (value : Json)
  /-- The item at a position of an array is replaced. -/
  | replace (index : Nat) (value : Json)

/-- The container after a change. -/
def Edit.apply : Edit → Json → Json
  | .insert key value, .object members => .object (Members.insert key value members)
  | .resize length, .array items =>
    .array (items.take length ++ List.replicate (length - items.length) .null)
  | .push value, .array items => .array (items ++ [value])
  | .replace index value, .array items => .array (items.set index value)
  | _, node => node

/-- The document after changes at the ends of routes, made one after the
other. -/
def replayed (root : Json) (edits : List (Json.Route × Edit)) : Json :=
  edits.foldl (fun root edit => root.modifyAt edit.2.apply edit.1) root

/-- Resizing an array and pushing a value is putting the value past its end. -/
theorem push_resize {items : List Json} {index : Nat} (h : items.length ≤ index) (value : Json) :
    (Edit.push value).apply ((Edit.resize index).apply (.array items)) =
      (Json.array items).put (.item index) value := by
  show Json.array (items.take index ++ List.replicate (index - items.length) .null ++ [value]) =
    .array (Json.putItem items index value)
  rw [Json.putItem_of_ge h, List.take_of_length_le h, Json.padded]

/-! ## The walk -/

/-- A write under way. -/
structure Walk where
  /-- The document as the changes so far have left it. -/
  document : Json
  /-- The way to the node that takes the next segment. -/
  route : Json.Route
  /-- The node that takes the next segment. -/
  node : Json
  found : document.valueAt? route = some node
  /-- All changes so far, the oldest first, each with the way to its
  container. -/
  edits : List (Json.Route × Edit)

namespace Walk

/-- A write that has not passed any segment. -/
def start (document : Json) : Walk := ⟨document, [], document, rfl, []⟩

/-- Changes the node in place. -/
def edit (walk : Walk) (edit : Edit) : Walk where
  document := walk.document.modifyAt edit.apply walk.route
  route := walk.route
  node := edit.apply walk.node
  found := Json.valueAt?_modifyAt walk.found edit.apply
  edits := walk.edits ++ [(walk.route, edit)]

/-- Goes one step down. -/
def down (walk : Walk) (step : Json.Step) (child : Json)
    (h : walk.node.step? step = some child) : Walk where
  document := walk.document
  route := walk.route ++ [step]
  node := child
  found := by
    rw [Json.valueAt?_append, walk.found, Option.bind_some, Json.valueAt?_cons_of_step? h]
    rfl
  edits := walk.edits

/-- The turn for a segment on the way: goes one step down, after it has put an
empty object there if nothing was there. -/
def descend (walk : Walk) (segment : Segment) : Except Refusal Walk :=
  match hnode : walk.node with
  | .object members =>
    match hchild : members.lookup segment.text with
    | some child => .ok (walk.down (.key segment.text) child (by rw [hnode]; exact hchild))
    | none =>
      .ok ((walk.edit (.insert segment.text (.object []))).down (.key segment.text) (.object [])
        (by
          show ((Edit.insert segment.text (.object [])).apply walk.node).step? _ = _
          rw [hnode]
          exact Members.lookup_insert_self _ _ members))
  | .array items =>
    match segment.index? with
    | none => .error (.notAnIndex segment)
    | some index =>
      if hlt : index < items.length then
        .ok (walk.down (.item index) items[index]
          (by rw [hnode]; exact List.getElem?_eq_getElem hlt))
      else if index - items.length ≤ maxGap then
        .ok (((walk.edit (.resize index)).edit (.push (.object []))).down (.item index)
          (.object [])
          (by
            show ((Edit.push (.object [])).apply ((Edit.resize index).apply walk.node)).step? _ = _
            rw [hnode, push_resize (by omega)]
            exact Json.step?_put_self (show (Json.array items).Fits (.item index) from trivial) _))
      else .error (.indexOutOfRange index items.length)
  | scalar => .error (.notAContainer scalar.kind)

/-- The turn for the last segment: puts the leaf one step down. -/
def assign (walk : Walk) (segment : Segment) (leaf : Json) : Except Refusal Walk :=
  match walk.node with
  | .object _ => .ok (walk.edit (.insert segment.text leaf))
  | .array items =>
    match segment.index? with
    | none => .error (.notAnIndex segment)
    | some index =>
      if index < items.length then .ok (walk.edit (.replace index leaf))
      else if index - items.length ≤ maxGap then
        .ok ((walk.edit (.resize index)).edit (.push leaf))
      else .error (.indexOutOfRange index items.length)
  | scalar => .error (.notAContainer scalar.kind)

/-- Where a walk has come to. -/
structure Stop where
  walk : Walk
  /-- The failure, if a segment was refused. -/
  failure : Option Failure

/-- Takes the turns for `segment` and those that follow, up to the first that
is refused. -/
def run (walk : Walk) (segment : Segment) (leaf : Json) : List Segment → Stop
  | [] =>
    match walk.assign segment leaf with
    | .ok done => ⟨done, none⟩
    | .error refusal => ⟨walk, some ⟨walk.route.length, refusal⟩⟩
  | next :: rest =>
    match walk.descend segment with
    | .ok below => below.run next leaf rest
    | .error refusal => ⟨walk, some ⟨walk.route.length, refusal⟩⟩

/-! ## What one turn does -/

/-- `next` is `walk` after the changes `made`, and perhaps further down. -/
structure Changed (walk next : Walk) (made : List (Json.Route × Edit)) : Prop where
  edits : next.edits = walk.edits ++ made
  document : next.document = replayed walk.document made

theorem changed_nil (walk : Walk) : Changed walk walk [] where
  edits := (List.append_nil walk.edits).symm
  document := rfl

theorem Changed.edit {walk next : Walk} {made : List (Json.Route × Edit)}
    (h : Changed walk next made) (edit : Edit) :
    Changed walk (next.edit edit) (made ++ [(next.route, edit)]) := by
  constructor
  · show next.edits ++ [(next.route, edit)] = _
    rw [h.edits, List.append_assoc]
  · show next.document.modifyAt edit.apply next.route = _
    rw [h.document, replayed, replayed, List.foldl_append]
    rfl

theorem Changed.down {walk next : Walk} {made : List (Json.Route × Edit)}
    (h : Changed walk next made) {step : Json.Step} {child : Json}
    (hstep : next.node.step? step = some child) :
    Changed walk (next.down step child hstep) made :=
  ⟨h.edits, h.document⟩

/-- `next` is one step below `walk`, at the step that the segment takes.
Either something is there and nothing was changed, or nothing is there and an
empty object was put there. -/
structure Descended (walk next : Walk) (segment : Segment) (step : Json.Step)
    (made : List (Json.Route × Edit)) : Prop where
  enter : walk.node.enter segment = .ok step
  route : next.route = walk.route ++ [step]
  node : next.node = walk.node.childOrNew step
  changed : Changed walk next made
  grown : walk.node.step? step ≠ none ∧ made = [] ∨
    walk.node.step? step = none ∧ next.document =
      walk.document.modifyAt (fun node => node.put step (.object [])) walk.route

theorem descended_down (walk : Walk) {segment : Segment} {step : Json.Step} {child : Json}
    (henter : walk.node.enter segment = .ok step) (hstep : walk.node.step? step = some child) :
    Descended walk (walk.down step child hstep) segment step [] where
  enter := henter
  route := rfl
  node := (Json.childOrNew_of_step?_eq_some hstep).symm
  changed := (changed_nil walk).down hstep
  grown := Or.inl ⟨Option.ne_none_iff_exists'.2 ⟨child, hstep⟩, rfl⟩

theorem descended_grown (walk : Walk) {grown : Walk} {segment : Segment} {step : Json.Step}
    {made : List (Json.Route × Edit)} (henter : walk.node.enter segment = .ok step)
    (hstep : walk.node.step? step = none) (hchanged : Changed walk grown made)
    (hroute : grown.route = walk.route)
    (hdocument : grown.document =
      walk.document.modifyAt (fun node => node.put step (.object [])) walk.route)
    (hdown : grown.node.step? step = some (.object [])) :
    Descended walk (grown.down step (.object []) hdown) segment step made where
  enter := henter
  route := congrArg (· ++ [step]) hroute
  node := (Json.childOrNew_of_step?_eq_none hstep).symm
  changed := hchanged.down hdown
  grown := Or.inr ⟨hstep, hdocument⟩

/-- A turn that is not refused goes one step down. -/
theorem descended_of_descend {walk next : Walk} {segment : Segment}
    (h : walk.descend segment = .ok next) :
    ∃ step made, Descended walk next segment step made := by
  obtain ⟨document, route, node, found, edits⟩ := walk
  cases node with
  | object members =>
    have henter : (Json.object members).enter segment = .ok (.key segment.text) := rfl
    simp only [descend] at h
    split at h
    · next child hchild =>
      cases h
      exact ⟨_, _, descended_down ⟨document, route, _, found, edits⟩ henter hchild⟩
    · next hchild =>
      cases h
      exact ⟨_, _, descended_grown ⟨document, route, _, found, edits⟩ henter hchild
        ((changed_nil _).edit _) rfl (Json.modifyAt_congr found rfl) _⟩
  | array items =>
    simp only [descend] at h
    split at h
    · cases h
    · next index hindex =>
      have henter : (Json.array items).enter segment = _ := Json.enter_array hindex
      split at h
      · next hlt =>
        cases h
        rw [if_pos (by omega)] at henter
        have hstep : (Json.array items).step? (.item index) = some items[index] :=
          List.getElem?_eq_getElem hlt
        exact ⟨_, _, descended_down ⟨document, route, _, found, edits⟩ henter hstep⟩
      · next hge =>
        split at h
        · next hgap =>
          cases h
          rw [if_pos hgap] at henter
          have hstep : (Json.array items).step? (.item index) = none :=
            List.getElem?_eq_none (by omega)
          refine ⟨_, _, descended_grown ⟨document, route, _, found, edits⟩ henter hstep
            (((changed_nil _).edit _).edit _) rfl ?_ _⟩
          show (document.modifyAt _ route).modifyAt _ route = _
          rw [Json.modifyAt_modifyAt found]
          exact Json.modifyAt_congr found (push_resize (by omega) _)
        · cases h
  | _ => cases h

/-- A turn that is refused is one that the node does not take. -/
theorem enter_of_descend_eq_error {walk : Walk} {segment : Segment} {refusal : Refusal}
    (h : walk.descend segment = .error refusal) : walk.node.enter segment = .error refusal := by
  obtain ⟨document, route, node, found, edits⟩ := walk
  cases node with
  | object members =>
    simp only [descend] at h
    split at h <;> cases h
  | array items =>
    simp only [descend] at h
    split at h
    · next hindex =>
      cases h
      show (Json.array items).enter segment = _
      rw [Json.enter, hindex]
    · next index hindex =>
      split at h
      · cases h
      · split at h
        · cases h
        · next hgap =>
          cases h
          rw [Json.enter_array hindex, if_neg hgap]
  | _ =>
    cases h
    rfl

/-- The last turn puts the leaf one step down. -/
theorem of_assign_eq_ok {walk done : Walk} {segment : Segment} {leaf : Json}
    (h : walk.assign segment leaf = .ok done) :
    ∃ step made, walk.node.enter segment = .ok step ∧ Changed walk done made ∧
      done.document = walk.document.modifyAt (fun node => node.put step leaf) walk.route := by
  obtain ⟨document, route, node, found, edits⟩ := walk
  cases node with
  | object members =>
    cases h
    exact ⟨.key segment.text, _, rfl, (changed_nil _).edit _, Json.modifyAt_congr found rfl⟩
  | array items =>
    simp only [assign] at h
    split at h
    · cases h
    · next index hindex =>
      have henter : (Json.array items).enter segment = _ := Json.enter_array hindex
      split at h
      · next hlt =>
        cases h
        rw [if_pos (by omega)] at henter
        refine ⟨.item index, _, henter, (changed_nil _).edit _,
          Json.modifyAt_congr found ?_⟩
        show Json.array (items.set index leaf) = .array (Json.putItem items index leaf)
        rw [Json.putItem_of_lt hlt, Json.replaceItem_eq_set]
      · split at h
        · next hge hgap =>
          cases h
          rw [if_pos hgap] at henter
          refine ⟨.item index, _, henter, ((changed_nil _).edit _).edit _, ?_⟩
          show (document.modifyAt _ route).modifyAt _ route = _
          rw [Json.modifyAt_modifyAt found]
          exact Json.modifyAt_congr found (push_resize (by omega) _)
        · cases h
  | _ => cases h

/-- A last turn that is refused is one that the node does not take. -/
theorem enter_of_assign_eq_error {walk : Walk} {segment : Segment} {leaf : Json}
    {refusal : Refusal} (h : walk.assign segment leaf = .error refusal) :
    walk.node.enter segment = .error refusal := by
  obtain ⟨document, route, node, found, edits⟩ := walk
  cases node with
  | object members => cases h
  | array items =>
    simp only [assign] at h
    split at h
    · next hindex =>
      cases h
      show (Json.array items).enter segment = _
      rw [Json.enter, hindex]
    · next index hindex =>
      split at h
      · cases h
      · split at h
        · cases h
        · next hgap =>
          cases h
          rw [Json.enter_array hindex, if_neg hgap]
  | _ =>
    cases h
    rfl

/-! ## When a turn is taken -/

theorem descend_of_enter {walk : Walk} {segment : Segment} {step : Json.Step}
    (h : walk.node.enter segment = .ok step) :
    ∃ next made, walk.descend segment = .ok next ∧ Descended walk next segment step made := by
  cases hturn : walk.descend segment with
  | ok next =>
    obtain ⟨other, made, hdown⟩ := descended_of_descend hturn
    have hother := hdown.enter
    rw [h] at hother
    cases hother
    exact ⟨next, made, rfl, hdown⟩
  | error refusal =>
    rw [enter_of_descend_eq_error hturn] at h
    cases h

theorem descend_of_refused {walk : Walk} {segment : Segment} {refusal : Refusal}
    (h : walk.node.enter segment = .error refusal) : walk.descend segment = .error refusal := by
  cases hturn : walk.descend segment with
  | ok next =>
    obtain ⟨step, made, hdown⟩ := descended_of_descend hturn
    rw [hdown.enter] at h
    cases h
  | error other =>
    rw [enter_of_descend_eq_error hturn] at h
    cases h
    rfl

theorem assign_of_enter {walk : Walk} {segment : Segment} {step : Json.Step}
    (h : walk.node.enter segment = .ok step) (leaf : Json) :
    ∃ done, walk.assign segment leaf = .ok done ∧
      done.document = walk.document.modifyAt (fun node => node.put step leaf) walk.route := by
  cases hturn : walk.assign segment leaf with
  | ok done =>
    obtain ⟨other, made, hother, -, hdocument⟩ := of_assign_eq_ok hturn
    rw [h] at hother
    cases hother
    exact ⟨done, rfl, hdocument⟩
  | error refusal =>
    rw [enter_of_assign_eq_error hturn] at h
    cases h

theorem assign_of_refused {walk : Walk} {segment : Segment} {refusal : Refusal}
    (h : walk.node.enter segment = .error refusal) (leaf : Json) :
    walk.assign segment leaf = .error refusal := by
  cases hturn : walk.assign segment leaf with
  | ok done =>
    obtain ⟨step, made, henter, -⟩ := of_assign_eq_ok hturn
    rw [henter] at h
    cases h
  | error other =>
    rw [enter_of_assign_eq_error hturn] at h
    cases h
    rfl

/-! ## What a whole walk does -/

/-- A walk to the end puts at its node what the recursion makes of it. -/
theorem run_of_written_eq_ok {walk : Walk} {segment : Segment} {leaf new : Json}
    {rest : List Segment} (h : walk.node.written leaf (segment :: rest) = .ok new) :
    (walk.run segment leaf rest).failure = none ∧
      (walk.run segment leaf rest).walk.document =
        walk.document.modifyAt (fun _ => new) walk.route := by
  induction rest generalizing walk segment new with
  | nil =>
    obtain ⟨step, child, henter, hchild, rfl⟩ := Json.written_cons_eq_ok_iff.1 h
    cases hchild
    obtain ⟨done, hturn, hdocument⟩ := assign_of_enter henter leaf
    rw [run, hturn]
    refine ⟨rfl, ?_⟩
    show done.document = _
    rw [hdocument]
    exact Json.modifyAt_congr walk.found rfl
  | cons next rest ih =>
    obtain ⟨step, child, henter, hchild, rfl⟩ := Json.written_cons_eq_ok_iff.1 h
    obtain ⟨below, made, hturn, hdown⟩ := descend_of_enter henter
    rw [← hdown.node] at hchild
    obtain ⟨hfailure, hdocument⟩ := ih hchild
    rw [run, hturn]
    refine ⟨hfailure, hdocument.trans ?_⟩
    rw [hdown.route, Json.modifyAt_append]
    rcases hdown.grown with ⟨hstep, rfl⟩ | ⟨-, hgrown⟩
    · rw [hdown.changed.document]
      refine Json.modifyAt_congr walk.found ?_
      obtain ⟨old, hold⟩ := Option.ne_none_iff_exists'.1 hstep
      rw [Json.modifyAt_cons hold]
      rfl
    · rw [hgrown, Json.modifyAt_modifyAt walk.found]
      refine Json.modifyAt_congr walk.found ?_
      rw [Json.modifyAt_cons (Json.step?_put_self (Json.fits_of_enter henter) _), Json.put_put]
      rfl

/-- A walk is refused where the recursion is. -/
theorem run_of_written_eq_error {walk : Walk} {segment : Segment} {leaf : Json}
    {rest : List Segment} {failure : Failure}
    (h : walk.node.written leaf (segment :: rest) = .error failure) :
    (walk.run segment leaf rest).failure =
      some ⟨walk.route.length + failure.depth, failure.refusal⟩ := by
  induction rest generalizing walk segment failure with
  | nil =>
    rcases Json.written_cons_eq_error_iff.1 h with
      ⟨refusal, henter, rfl⟩ | ⟨step, below, -, hleaf, -⟩
    · rw [run, assign_of_refused henter]
      rfl
    · cases hleaf
  | cons next rest ih =>
    rcases Json.written_cons_eq_error_iff.1 h with
      ⟨refusal, henter, rfl⟩ | ⟨step, deep, henter, hdeep, rfl⟩
    · rw [run, descend_of_refused henter]
      rfl
    · obtain ⟨below, made, hturn, hdown⟩ := descend_of_enter henter
      rw [← hdown.node] at hdeep
      rw [run, hturn]
      show (below.run next leaf rest).failure = _
      rw [ih hdeep, hdown.route, List.length_append]
      show some (Failure.mk (walk.route.length + 1 + deep.depth) deep.refusal) =
        some ⟨walk.route.length + (deep.depth + 1), deep.refusal⟩
      rw [Nat.add_assoc, Nat.add_comm 1]

/-! ## Nothing is changed before a refusal -/

/-- Either nothing was changed so far, or the node is a new empty object. -/
def Untouched (walk : Walk) : Prop := walk.edits = [] ∨ walk.node = .object []

/-- An empty object takes every segment, so a node that does not take one is
found before the first change. -/
theorem Untouched.edits_of_refused {walk : Walk} (h : walk.Untouched) {segment : Segment}
    {refusal : Refusal} (hrefused : walk.node.enter segment = .error refusal) :
    walk.edits = [] := by
  rcases h with hedits | hnode
  · exact hedits
  · rw [hnode] at hrefused
    cases hrefused

/-- The step of the invariant: a turn that finds something changes nothing,
and nothing is found in a new empty object; a turn that finds nothing leaves a
new empty object as the node. -/
theorem Untouched.descend {walk next : Walk} (h : walk.Untouched) {segment : Segment}
    (hturn : walk.descend segment = .ok next) : next.Untouched := by
  obtain ⟨step, made, hdown⟩ := descended_of_descend hturn
  rcases hdown.grown with ⟨hstep, rfl⟩ | ⟨hstep, -⟩
  · rcases h with hnone | hempty
    · have hedits : next.edits = walk.edits ++ [] := hdown.changed.edits
      rw [List.append_nil, hnone] at hedits
      exact Or.inl hedits
    · rw [hempty] at hstep
      cases step <;> exact absurd rfl hstep
  · have hnode : next.node = walk.node.childOrNew step := hdown.node
    rw [Json.childOrNew_of_step?_eq_none hstep] at hnode
    exact Or.inr hnode

/-- A walk that is refused has changed nothing. -/
theorem edits_run_of_failure {walk : Walk} (huntouched : walk.Untouched) {segment : Segment}
    {leaf : Json} {rest : List Segment} (h : (walk.run segment leaf rest).failure ≠ none) :
    (walk.run segment leaf rest).walk.edits = [] := by
  induction rest generalizing walk segment with
  | nil =>
    rw [run] at h ⊢
    cases hturn : walk.assign segment leaf with
    | error refusal => exact huntouched.edits_of_refused (enter_of_assign_eq_error hturn)
    | ok done =>
      rw [hturn] at h
      exact absurd rfl h
  | cons next rest ih =>
    rw [run] at h ⊢
    cases hturn : walk.descend segment with
    | error refusal => exact huntouched.edits_of_refused (enter_of_descend_eq_error hturn)
    | ok below =>
      rw [hturn] at h
      exact ih (huntouched.descend hturn) h

/-! ## The changes are all that happens to the document -/

/-- The changes made so far lead from `root` to the document. -/
def Replays (root : Json) (walk : Walk) : Prop := walk.document = replayed root walk.edits

theorem Replays.changed {root : Json} {walk next : Walk} {made : List (Json.Route × Edit)}
    (h : Replays root walk) (hchanged : Changed walk next made) : Replays root next := by
  rw [Replays, hchanged.document, hchanged.edits, h, replayed, replayed, replayed,
    List.foldl_append]

theorem Replays.run {root : Json} {walk : Walk} (h : Replays root walk) (segment : Segment)
    (leaf : Json) (rest : List Segment) : Replays root (walk.run segment leaf rest).walk := by
  induction rest generalizing walk segment with
  | nil =>
    rw [Walk.run]
    cases hturn : walk.assign segment leaf with
    | error refusal => exact h
    | ok done =>
      obtain ⟨step, made, -, hchanged, -⟩ := of_assign_eq_ok hturn
      exact h.changed hchanged
  | cons next rest ih =>
    rw [Walk.run]
    cases hturn : walk.descend segment with
    | error refusal => exact h
    | ok below =>
      obtain ⟨step, made, hdown⟩ := descended_of_descend hturn
      exact ih (h.changed hdown.changed) next

end Walk

/-! ## Documents -/

namespace Document

/-- The walk of a write through a document. -/
def walked (document : Document) (path : Path) (leaf : Document) : Walk.Stop :=
  (Walk.start document.root).run path.first leaf.root path.segments.tail

/-- A write leaves the document that its changes in place lead to, one after
the other, and reports the failure of its walk.  A refused write has made no
change on its way, so it leaves the document as it was. -/
theorem set_refused_without_edits (document leaf : Document) (path : Path) :
    (document.set path leaf).document.root = (document.walked path leaf).walk.document ∧
      (document.set path leaf).error? = (document.walked path leaf).failure.map
        (fun failure => ⟨path.location failure.depth, failure.refusal⟩) ∧
      (document.walked path leaf).walk.document =
        replayed document.root (document.walked path leaf).walk.edits ∧
      ((document.set path leaf).error? ≠ none →
        (document.walked path leaf).walk.edits = [] ∧
          (document.set path leaf).document = document) := by
  have hreplays : (document.walked path leaf).walk.document =
      replayed document.root (document.walked path leaf).walk.edits :=
    Walk.Replays.run (show Walk.Replays document.root (Walk.start document.root) from rfl) _ _ _
  cases h : document.root.written leaf.root path.segments with
  | ok new =>
    obtain ⟨herror, hroot⟩ := set_of_written_eq_ok h
    rw [← first_cons_tail] at h
    obtain ⟨hfailure, hdocument⟩ :=
      Walk.run_of_written_eq_ok (show (Walk.start document.root).node.written _ _ = _ from h)
    refine ⟨?_, ?_, hreplays, fun hrefused => absurd herror hrefused⟩
    · rw [hroot]
      exact hdocument.symm
    · rw [herror]
      show none = Option.map _ ((Walk.start document.root).run _ _ _).failure
      rw [hfailure]
      rfl
  | error failure =>
    obtain ⟨herror, hsame⟩ := set_of_written_eq_error h
    rw [← first_cons_tail] at h
    have hfailure := Walk.run_of_written_eq_error
      (show (Walk.start document.root).node.written _ _ = _ from h)
    have hedits : (document.walked path leaf).walk.edits = [] := by
      refine Walk.edits_run_of_failure (Or.inl rfl) ?_
      rw [hfailure]
      simp
    refine ⟨?_, ?_, hreplays, fun _ => ⟨hedits, hsame⟩⟩
    · rw [hreplays, hedits, hsame]
      rfl
    · rw [herror]
      show _ = Option.map _ ((Walk.start document.root).run _ _ _).failure
      rw [hfailure]
      show _ = some (WriteError.mk (path.location (0 + failure.depth)) failure.refusal)
      rw [Nat.zero_add]

end Document

end Dotted
