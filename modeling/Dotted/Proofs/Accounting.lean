import Dotted.Proofs.Order
import Dotted.Proofs.Rebuild
import Dotted.Proofs.Revised

/-!
# What becomes of every node in a listing

A listing of a document leaves nothing out without saying so.  Every node
below the root has a path in the list, or it is below a member that was
skipped, and there is an event for each of these members.  The paths that are
listed for one kind only are those where a read finds a value of this kind,
and no skipped member depends on the kind.

What makes this work is that the keys on the route to a node decide what
becomes of it.  If all of them are segments the node has a path.  Otherwise
the first one that is none belongs to the member that was skipped.

* `Document.pathsOf_eq_filter` cuts the list of one kind out of the list of
  all paths, and `length_filter_kinds` counts the parts.
* `Json.exists_route?_iff`: a route is that of segments if it leads to a node
  and is `Json.Named`.  `Json.exists_unnamed_entry` and
  `Json.Entry.Unnamed.eq_of_prefix` are about routes that are not.
* `Json.skips` lists the skipped members with the routes to them.
  `Json.skips_eq_flatMap` takes one step down, and from it come the members
  that are listed (`Json.mem_skips_iff`), their order (`Json.pairwise_skips`)
  and their events (`Json.filterMap_event?_visits`).
* `Document.pathsOf_partition_paths` and
  `Document.listings_account_for_nodes` are the two results.
-/

namespace Dotted

/-! ## Values of one kind -/

/-- If all elements have a kind, they fall into one part for each kind. -/
theorem length_filter_kinds {α : Type} (kind? : α → Option Kind) {elements : List α}
    (h : ∀ element ∈ elements, kind? element ≠ none) :
    (elements.filter fun element => kind? element == some .null).length +
      (elements.filter fun element => kind? element == some .bool).length +
      (elements.filter fun element => kind? element == some .number).length +
      (elements.filter fun element => kind? element == some .string).length +
      (elements.filter fun element => kind? element == some .array).length +
      (elements.filter fun element => kind? element == some .object).length =
        elements.length := by
  induction elements with
  | nil => rfl
  | cons element rest ih =>
    obtain ⟨kind, hkind⟩ := Option.ne_none_iff_exists'.1 (h element (List.mem_cons_self ..))
    have hrest := ih fun other hother => h other (List.mem_cons_of_mem _ hother)
    simp only [← List.countP_eq_length_filter] at hrest ⊢
    simp only [List.countP_cons, List.length_cons, hkind]
    cases kind <;> simp <;> omega

namespace Document

variable {document : Document}

/-- The kind of the value that a read finds. -/
def kindAt? (document : Document) (path : Path) : Option Kind :=
  (document.get path).value.map kind

/-- Where a path leads to a value, a read finds one of the same kind. -/
theorem kindAt?_of_follow {path : Path} {value : Json}
    (h : document.root.follow path.segments = .ok value) :
    document.kindAt? path = some value.kind := by
  have hget : (document.get path).value = some ⟨value, document.ordered.follow h⟩ :=
    value_get_eq_some_iff.2 h
  rw [kindAt?, hget]
  rfl

/-- The paths of one kind are those of all paths where a read finds a value of
this kind, in the same order. -/
theorem pathsOf_eq_filter (hindexable : document.root.Indexable) (kind : Kind) :
    (document.pathsOf kind).value =
      document.paths.value.filter fun path => document.kindAt? path == some kind := by
  show document.root.visits.filterMap (Visit.path? fun value => value.kind == kind) =
    (document.root.visits.filterMap (Visit.path? fun _ => true)).filter _
  rw [List.filter_filterMap]
  refine List.filterMap_congr fun visit hvisit => ?_
  cases visit with
  | skipped key => rfl
  | reached path value =>
    have hfollow := (Json.reached_mem_visits_iff document.ordered hindexable).1 hvisit
    show (if value.kind == kind then some path else none) =
      (some path).filter fun path => document.kindAt? path == some kind
    rw [Option.filter_some, kindAt?_of_follow hfollow]
    rfl

/-- At a listed path a read finds a value of some kind. -/
theorem exists_kindAt?_of_mem_paths (hindexable : document.root.Indexable) {path : Path}
    (h : path ∈ document.paths.value) : ∃ kind, document.kindAt? path = some kind := by
  obtain ⟨value, hvalue, -⟩ := (mem_pathsWhere_iff hindexable).1 h
  exact ⟨value.kind, kindAt?_of_follow hvalue⟩

/-- A listed path is in the list of the kind of the value there, once, and in
no list of another kind. -/
theorem count_pathsOf (hindexable : document.root.Indexable) {path : Path}
    (h : path ∈ document.paths.value) :
    ∃ kind, (document.pathsOf kind).value.count path = 1 ∧
      ∀ other, path ∈ (document.pathsOf other).value → other = kind := by
  obtain ⟨kind, hkind⟩ := exists_kindAt?_of_mem_paths hindexable h
  have hmem : ∀ other, path ∈ (document.pathsOf other).value ↔ other = kind := by
    intro other
    rw [pathsOf_eq_filter hindexable, List.mem_filter, hkind, beq_iff_eq, Option.some.injEq]
    exact ⟨fun hlisted => hlisted.2.symm, fun heq => ⟨h, heq.symm⟩⟩
  refine ⟨kind, ?_, fun other => (hmem other).1⟩
  exact List.count_eq_one_of_mem (nodup_pathsWhere hindexable _) ((hmem kind).2 rfl)

/-- The list of the paths of one kind holds those of all paths where a read
finds a value of this kind, in the same order.  Every path is in one of the six
lists, and there once, so that the lengths of the lists add up. -/
theorem pathsOf_partition_paths (document : Document) (hindexable : document.root.Indexable) :
    (∀ kind, (document.pathsOf kind).value =
        document.paths.value.filter fun path => document.kindAt? path == some kind) ∧
      (∀ path ∈ document.paths.value, ∃ kind,
        (document.pathsOf kind).value.count path = 1 ∧
          ∀ other, path ∈ (document.pathsOf other).value → other = kind) ∧
      (document.pathsOf .null).value.length + (document.pathsOf .bool).value.length +
        (document.pathsOf .number).value.length + (document.pathsOf .string).value.length +
        (document.pathsOf .array).value.length + (document.pathsOf .object).value.length =
          document.paths.value.length := by
  refine ⟨pathsOf_eq_filter hindexable, fun path => count_pathsOf hindexable, ?_⟩
  simp only [pathsOf_eq_filter hindexable]
  refine length_filter_kinds document.kindAt? fun path hlisted => ?_
  obtain ⟨kind, hkind⟩ := exists_kindAt?_of_mem_paths hindexable hlisted
  rw [hkind]
  exact Option.some_ne_none kind

theorem pathsOf_partition_paths_table :
    table.root.Indexable ∧
      [rowsPath, rowsPath.push (.ofIndex 0)] =
        table.paths.value.filter (fun path => table.kindAt? path == some .array) ∧
      1 + 1 + 0 + 0 + 2 + 0 = table.paths.value.length := by
  obtain ⟨hfilter, -, hlengths⟩ := pathsOf_partition_paths table indexable_table
  exact ⟨indexable_table, hfilter .array, hlengths⟩

end Document

namespace Json

variable {node child value : Json} {step : Step} {place : Route} {segments : List Segment}

/-! ## Routes of segments -/

/-- Every step of the route is denoted by a segment. -/
def Named (place : Route) : Prop := ∀ step ∈ place, step.segment? ≠ none

theorem named_cons_iff {rest : Route} :
    Named (step :: rest) ↔ step.segment? ≠ none ∧ Named rest :=
  List.forall_mem_cons

/-- The segments of a route are determined by its steps. -/
theorem map_segment?_of_route? (h : node.route? segments = some place) :
    place.map Step.segment? = segments.map some := by
  induction segments generalizing node place with
  | nil =>
    cases h
    rfl
  | cons segment rest ih =>
    obtain ⟨step, hstep, hmore⟩ := Option.bind_eq_some_iff.1 h
    obtain ⟨child, -, hmap⟩ := Option.bind_eq_some_iff.1 hmore
    obtain ⟨below, hbelow, rfl⟩ := Option.map_eq_some_iff.1 hmap
    rw [List.map_cons, List.map_cons, segment?_of_stepOf? hstep, ih hbelow]

theorem segments_eq_of_route? {others : List Segment} (h : node.route? segments = some place)
    (hothers : node.route? others = some place) : segments = others := by
  have hsame := (map_segment?_of_route? h).symm.trans (map_segment?_of_route? hothers)
  exact List.map_injective_iff.2 (Option.some_injective _) hsame

theorem named_of_route? (h : node.route? segments = some place) : Named place := by
  intro step hstep
  have hmem := List.mem_map_of_mem hstep (f := Step.segment?)
  rw [map_segment?_of_route? h] at hmem
  obtain ⟨segment, -, hsegment⟩ := List.mem_map.1 hmem
  rw [← hsegment]
  exact Option.some_ne_none segment

/-- A segment that denotes a step to a child takes that step. -/
theorem stepOf?_of_segment? {segment : Segment} (hindexable : node.Indexable)
    (hchild : node.step? step = some child) (h : step.segment? = some segment) :
    node.stepOf? segment = some step := by
  have hselected := child?_of_segment? hindexable hchild h
  rw [child?_eq_bind] at hselected
  obtain ⟨taken, htaken, -⟩ := Option.bind_eq_some_iff.1 hselected
  rw [htaken, eq_of_segment? htaken (fits_of_step? hchild) h]

/-- The route of segments leads to a node. -/
theorem exists_valueAt?_of_route? (h : node.route? segments = some place) :
    ∃ value, node.valueAt? place = some value := by
  induction segments generalizing node place with
  | nil =>
    cases h
    exact ⟨node, rfl⟩
  | cons segment rest ih =>
    obtain ⟨step, -, hmore⟩ := Option.bind_eq_some_iff.1 h
    obtain ⟨child, hchild, hmap⟩ := Option.bind_eq_some_iff.1 hmore
    obtain ⟨below, hbelow, rfl⟩ := Option.map_eq_some_iff.1 hmap
    rw [valueAt?_cons_of_step? hchild]
    exact ih hbelow

/-- A route is that of segments exactly if it leads to a node and segments
denote all its steps. -/
theorem exists_route?_iff (hindexable : node.Indexable) :
    (∃ segments, node.route? segments = some place) ↔
      (∃ value, node.valueAt? place = some value) ∧ Named place := by
  constructor
  · intro htaken
    obtain ⟨segments, hroute⟩ := htaken
    exact ⟨exists_valueAt?_of_route? hroute, named_of_route? hroute⟩
  · intro hleads
    obtain ⟨⟨value, hvalue⟩, hnamed⟩ := hleads
    induction place generalizing node with
    | nil => exact ⟨[], rfl⟩
    | cons step rest ih =>
      obtain ⟨hstep, hrest⟩ := named_cons_iff.1 hnamed
      obtain ⟨segment, hsegment⟩ := Option.ne_none_iff_exists'.1 hstep
      obtain ⟨child, hchild, hbelow⟩ := Option.bind_eq_some_iff.1 hvalue
      have hselected := child?_of_segment? hindexable hchild hsegment
      obtain ⟨segments, hsegments⟩ := ih (hindexable.child? hselected) hrest hbelow
      refine ⟨segment :: segments, ?_⟩
      rw [route?, stepOf?_of_segment? hindexable hchild hsegment, Option.bind_some, hchild,
        Option.bind_some, hsegments]
      rfl

/-- Above a node there are nodes. -/
theorem exists_valueAt?_of_prefix {above : Route} (hbegins : above <+: place)
    (h : node.valueAt? place = some value) : ∃ outer, node.valueAt? above = some outer := by
  obtain ⟨below, rfl⟩ := hbegins
  rw [valueAt?_append] at h
  obtain ⟨outer, houter, -⟩ := Option.bind_eq_some_iff.1 h
  exact ⟨outer, houter⟩

/-! ## Routes that leave the segments -/

/-- A member of an object somewhere below a value. -/
structure Entry where
  /-- The way to the object. -/
  above : Route
  /-- The key of the member. -/
  key : String

namespace Entry

/-- The way to the value of the member. -/
def route (entry : Entry) : Route := entry.above ++ [.key entry.key]

/-- The same member, seen from one step further up. -/
def below (step : Step) (entry : Entry) : Entry := { entry with above := step :: entry.above }

/-- What a listing reports of a member that it skips. -/
def event (entry : Entry) : Event := .skippingKey entry.key

/-- The member is the first on the way to its value whose key is no segment. -/
def Unnamed (entry : Entry) : Prop :=
  Named entry.above ∧ Segment.ofString? entry.key = none

variable {entry other : Entry}

theorem unnamed_below_iff :
    (entry.below step).Unnamed ↔ step.segment? ≠ none ∧ entry.Unnamed := by
  rw [Unnamed, Unnamed, ← and_assoc]
  exact and_congr_left' named_cons_iff

/-- A route of segments does not pass an unnamed member. -/
theorem Unnamed.not_prefix (h : entry.Unnamed) (hnamed : Named place) :
    ¬ entry.route <+: place :=
  fun hbegins => hnamed (.key entry.key) (hbegins.subset (by simp [Entry.route])) h.2

/-- On the way to a node there is at most one member that is the first
unnamed one. -/
theorem Unnamed.eq_of_prefix (h : entry.Unnamed) (hother : other.Unnamed)
    (hbegins : entry.route <+: place) (hotherBegins : other.route <+: place) : entry = other := by
  wlog hshorter : entry.route <+: other.route generalizing entry other with hsymm
  · have hlonger := (List.prefix_or_prefix_of_prefix hbegins hotherBegins).resolve_left hshorter
    exact (hsymm hother h hotherBegins hbegins hlonger).symm
  rcases List.prefix_concat_iff.1 hshorter with hsame | habove
  · obtain ⟨hroutes, hkeys⟩ := List.append_inj' hsame rfl
    obtain ⟨above, key⟩ := entry
    obtain ⟨otherAbove, otherKey⟩ := other
    cases hroutes
    cases hkeys
    rfl
  · exact absurd habove (h.not_prefix hother.1)

end Entry

/-- A route that is not of segments passes an unnamed member. -/
theorem exists_unnamed_entry (h : ¬ Named place) :
    ∃ entry : Entry, entry.Unnamed ∧ entry.route <+: place := by
  induction place with
  | nil => exact absurd (fun _ hmem => (List.not_mem_nil hmem).elim) h
  | cons step rest ih =>
    by_cases hstep : step.segment? = none
    · cases step with
      | key name =>
        refine ⟨⟨[], name⟩, ⟨fun _ hmem => (List.not_mem_nil hmem).elim, hstep⟩, ?_⟩
        exact List.prefix_append [Step.key name] rest
      | item index => cases hstep
    · obtain ⟨entry, hunnamed, hbegins⟩ :=
        ih fun hrest => h (named_cons_iff.2 ⟨hstep, hrest⟩)
      refine ⟨entry.below step, Entry.unnamed_below_iff.2 ⟨hstep, hunnamed⟩, ?_⟩
      exact List.cons_prefix_cons.2 ⟨rfl, hbegins⟩

/-! ## One step down -/

/-- The values right below a value, each with the step to it, as a walk comes
to them. -/
def children : Json → List (Step × Json)
  | .object members => members.map fun member => (.key member.1, member.2)
  | .array items => items.zipIdx.map fun item => (.item item.2, item.1)
  | _ => []

/-- In one node a walk takes `step` before `other`: keys are in the order of
their bytes, and positions are counted up. -/
def Step.Earlier : Step → Step → Prop
  | .key name, .key other => Text.bytes name < Text.bytes other
  | .item index, .item other => index < other
  | _, _ => False

/-- A walk comes to the end of `place` before it comes to the end of `other`:
either `other` goes on from there, or `place` takes an earlier step where the
two part. -/
def Earlier (place other : Route) : Prop := List.Lex Step.Earlier place other

theorem not_earlier_self (place : Route) : ¬ Earlier place place := by
  refine List.lex_irrefl (fun step hearlier => ?_) place
  cases step with
  | key name => exact List.lt_irrefl _ hearlier
  | item index => exact Nat.lt_irrefl _ hearlier

theorem mem_children_iff (hordered : node.Ordered) :
    (step, child) ∈ node.children ↔ node.step? step = some child := by
  cases node with
  | object members =>
    cases step with
    | key name =>
      rw [step?, Members.lookup_eq_some_iff_mem hordered.sorted]
      simp [children]
    | item index => simp [children, step?]
  | array items =>
    cases step with
    | key name => simp [children, step?]
    | item index => simp [children, step?, List.mk_mem_zipIdx_iff_getElem?]
  | _ => simp [children, step?]

theorem pairwise_children (hordered : node.Ordered) :
    node.children.Pairwise fun first second => first.1.Earlier second.1 := by
  cases node with
  | object members =>
    exact List.pairwise_map.2 (List.Pairwise.imp Text.bytes_lt_bytes hordered.sorted)
  | array items => exact List.pairwise_map.2 (pairwise_zipIdx_positions items)
  | _ => exact List.Pairwise.nil

/-! ## Skipped members -/

mutual

/-- The members below a value that a walk skips. -/
def skips : Json → List Entry
  | .object members => memberSkips members
  | .array items => itemSkips 0 items
  | _ => []

/-- The members that a walk skips among members and below them. -/
def memberSkips : List (String × Json) → List Entry
  | [] => []
  | (key, value) :: rest =>
    match Segment.ofString? key with
    | none => ⟨[], key⟩ :: memberSkips rest
    | some _ => value.skips.map (Entry.below (.key key)) ++ memberSkips rest

/-- The members that a walk skips below items, the first of them at position
`index`. -/
def itemSkips (index : Nat) : List Json → List Entry
  | [] => []
  | value :: rest => value.skips.map (Entry.below (.item index)) ++ itemSkips (index + 1) rest

end

/-- The members that a walk skips at a child and below it. -/
def skipsAt (child : Json) : Step → List Entry
  | .key name =>
    match Segment.ofString? name with
    | none => [⟨[], name⟩]
    | some _ => child.skips.map (Entry.below (.key name))
  | .item index => child.skips.map (Entry.below (.item index))

theorem memberSkips_eq_flatMap (members : List (String × Json)) :
    memberSkips members = members.flatMap fun member => member.2.skipsAt (.key member.1) := by
  induction members with
  | nil => rfl
  | cons member rest ih =>
    obtain ⟨key, value⟩ := member
    rw [memberSkips, List.flatMap_cons, ih, skipsAt]
    cases Segment.ofString? key <;> rfl

theorem itemSkips_eq_flatMap (start : Nat) (items : List Json) :
    itemSkips start items =
      (items.zipIdx start).flatMap fun item => item.1.skipsAt (.item item.2) := by
  induction items generalizing start with
  | nil => rfl
  | cons item rest ih =>
    rw [itemSkips, List.zipIdx_cons, List.flatMap_cons, ih]
    rfl

theorem skips_eq_flatMap (node : Json) :
    node.skips = node.children.flatMap fun under => under.2.skipsAt under.1 := by
  cases node with
  | object members =>
    rw [skips, memberSkips_eq_flatMap, children, List.flatMap_map]
  | array items =>
    rw [skips, itemSkips_eq_flatMap, children, List.flatMap_map]
  | _ => rfl

/-- A member is skipped at a child or below it if it is the child itself and
its key is no segment, or if it is skipped below the child. -/
theorem mem_skipsAt_iff {entry : Entry} :
    entry ∈ child.skipsAt step ↔
      (entry.above = [] ∧ step = .key entry.key ∧ Segment.ofString? entry.key = none) ∨
        ∃ inner ∈ child.skips, step.segment? ≠ none ∧ entry = inner.below step := by
  have hbelow : entry ∈ child.skips.map (Entry.below step) ↔
      ∃ inner ∈ child.skips, entry = inner.below step := by
    simp only [List.mem_map, eq_comm]
  cases step with
  | key name =>
    cases hname : Segment.ofString? name with
    | none =>
      simp only [skipsAt, hname, List.mem_singleton, Step.segment?, ne_eq, not_true_eq_false,
        false_and, and_false, exists_false, or_false, Step.key.injEq]
      constructor
      · rintro rfl
        exact ⟨rfl, rfl, hname⟩
      · intro hself
        obtain ⟨above, key⟩ := entry
        obtain ⟨rfl, rfl, -⟩ := hself
        rfl
    | some segment =>
      simp only [skipsAt, hname, hbelow, Step.segment?, ne_eq, reduceCtorEq, not_false_eq_true,
        true_and, Step.key.injEq]
      refine ⟨Or.inr, fun hskipped => hskipped.resolve_left ?_⟩
      rintro ⟨-, rfl, hnone⟩
      rw [hname] at hnone
      cases hnone
  | item index => simp [skipsAt, Step.segment?, hbelow]

/-- A walk skips what it skips at the children and below them. -/
theorem mem_skips_iff_step (hordered : node.Ordered) {entry : Entry} :
    entry ∈ node.skips ↔
      ∃ step child, node.step? step = some child ∧ entry ∈ child.skipsAt step := by
  rw [skips_eq_flatMap, List.mem_flatMap]
  constructor
  · intro hskipped
    obtain ⟨⟨step, child⟩, hchild, hmem⟩ := hskipped
    exact ⟨step, child, (mem_children_iff hordered).1 hchild, hmem⟩
  · intro hskipped
    obtain ⟨step, child, hchild, hmem⟩ := hskipped
    exact ⟨(step, child), (mem_children_iff hordered).2 hchild, hmem⟩

/-- A walk skips the members that are the first on their way whose key is no
segment.  The induction goes down the way. -/
theorem mem_skips_iff (hordered : node.Ordered) {entry : Entry} :
    entry ∈ node.skips ↔ entry.Unnamed ∧ ∃ value, node.valueAt? entry.route = some value := by
  obtain ⟨above, key⟩ := entry
  induction above generalizing node with
  | nil =>
    rw [mem_skips_iff_step hordered]
    constructor
    · intro hskipped
      obtain ⟨step, child, hdown, hmem⟩ := hskipped
      rcases mem_skipsAt_iff.1 hmem with ⟨-, rfl, hkey⟩ | ⟨inner, -, -, heq⟩
      · exact ⟨⟨fun _ hnone => (List.not_mem_nil hnone).elim, hkey⟩, child,
          valueAt?_cons_of_step? hdown []⟩
      · cases congrArg Entry.above heq
    · intro hleads
      obtain ⟨⟨-, hkey⟩, value, hvalue⟩ := hleads
      obtain ⟨child, hdown, -⟩ := Option.bind_eq_some_iff.1 hvalue
      exact ⟨.key key, child, hdown, mem_skipsAt_iff.2 (Or.inl ⟨rfl, rfl, hkey⟩)⟩
  | cons first above ih =>
    have hfirst : Entry.mk (first :: above) key = (Entry.mk above key).below first := rfl
    rw [mem_skips_iff_step hordered]
    constructor
    · intro hskipped
      obtain ⟨step, child, hdown, hmem⟩ := hskipped
      rcases mem_skipsAt_iff.1 hmem with ⟨hnil, -⟩ | ⟨⟨innerAbove, innerKey⟩, hinner, hstep, heq⟩
      · cases hnil
      · cases heq
        obtain ⟨hunnamed, value, hvalue⟩ := (ih (hordered.step? hdown)).1 hinner
        refine ⟨Entry.unnamed_below_iff.2 ⟨hstep, hunnamed⟩, value, ?_⟩
        exact (valueAt?_cons_of_step? hdown _).trans hvalue
    · intro hleads
      obtain ⟨hunnamed, value, hvalue⟩ := hleads
      rw [hfirst] at hunnamed hvalue ⊢
      obtain ⟨hstep, hinner⟩ := Entry.unnamed_below_iff.1 hunnamed
      obtain ⟨child, hdown, hbelow⟩ := Option.bind_eq_some_iff.1 hvalue
      have hskipped := (ih (hordered.step? hdown)).2 ⟨hinner, value, hbelow⟩
      exact ⟨first, child, hdown, mem_skipsAt_iff.2 (Or.inr ⟨_, hskipped, hstep, rfl⟩)⟩

theorem route_of_mem_skipsAt {entry : Entry} (h : entry ∈ child.skipsAt step) :
    ∃ rest, entry.route = step :: rest := by
  rcases mem_skipsAt_iff.1 h with ⟨hnil, rfl, -⟩ | ⟨inner, -, -, rfl⟩
  · exact ⟨[], by rw [Entry.route, hnil, List.nil_append]⟩
  · exact ⟨inner.route, rfl⟩

theorem pairwise_skipsAt (h : child.skips.Pairwise fun a b => Earlier a.route b.route)
    (step : Step) : (child.skipsAt step).Pairwise fun a b => Earlier a.route b.route := by
  have hbelow : (child.skips.map (Entry.below step)).Pairwise
      fun a b => Earlier a.route b.route :=
    List.pairwise_map.2 (h.imp fun hearlier => List.Lex.cons hearlier)
  cases step with
  | key name =>
    rw [skipsAt]
    split
    · exact List.pairwise_singleton _ _
    · exact hbelow
  | item index => exact hbelow

/-- Members are skipped in the order in which a walk comes to them. -/
theorem pairwise_skips (hordered : node.Ordered) :
    node.skips.Pairwise fun a b => Earlier a.route b.route := by
  induction node, hordered using Ordered.step_induction with
  | down node hordered ih =>
    rw [skips_eq_flatMap, List.pairwise_flatMap]
    constructor
    · intro under hunder
      exact pairwise_skipsAt (ih under.1 under.2 ((mem_children_iff hordered).1 hunder)) under.1
    · refine (pairwise_children hordered).imp fun hearlier entry hentry other hother => ?_
      obtain ⟨rest, hroute⟩ := route_of_mem_skipsAt hentry
      obtain ⟨otherRest, hotherRoute⟩ := route_of_mem_skipsAt hother
      rw [hroute, hotherRoute]
      exact List.Lex.rel hearlier

/-! ## Events -/

theorem event?_below (segment : Segment) (visit : Visit) :
    (visit.below segment).event? = visit.event? := by
  cases visit <;> rfl

/-- A walk reports nothing of a value that it reaches, but of what is below
it. -/
theorem filterMap_event?_visitsAt (child : Json) (segment : Segment) :
    (child.visitsAt segment).filterMap Visit.event? = child.visits.filterMap Visit.event? := by
  show (child.visits.map (Visit.below segment)).filterMap Visit.event? = _
  rw [List.filterMap_map]
  exact List.filterMap_congr fun visit _ => event?_below segment visit

theorem map_event_below (step : Step) (entries : List Entry) :
    (entries.map (Entry.below step)).map Entry.event = entries.map Entry.event := by
  rw [List.map_map]
  rfl

mutual

/-- A walk reports the members that it skips, and nothing else. -/
theorem filterMap_event?_visits (node : Json) :
    node.visits.filterMap Visit.event? = node.skips.map Entry.event := by
  cases node with
  | object members => exact filterMap_event?_memberVisits members
  | array items => exact filterMap_event?_itemVisits 0 items
  | _ => rfl

theorem filterMap_event?_memberVisits (members : List (String × Json)) :
    (memberVisits members).filterMap Visit.event? = (memberSkips members).map Entry.event := by
  cases members with
  | nil => rfl
  | cons member rest =>
    obtain ⟨key, value⟩ := member
    have hrest := filterMap_event?_memberVisits rest
    have hvisits : memberVisits ((key, value) :: rest) =
        visitsOfMember (key, value) ++ memberVisits rest := by
      rw [memberVisits_eq_flatMap, List.flatMap_cons, ← memberVisits_eq_flatMap]
    rw [hvisits, List.filterMap_append, hrest, memberSkips, visitsOfMember]
    cases Segment.ofString? key with
    | none => rfl
    | some segment =>
      dsimp only
      rw [filterMap_event?_visitsAt, filterMap_event?_visits value, List.map_append,
        map_event_below]

theorem filterMap_event?_itemVisits (index : Nat) (items : List Json) :
    (itemVisits index items).filterMap Visit.event? = (itemSkips index items).map Entry.event := by
  cases items with
  | nil => rfl
  | cons value rest =>
    have hvisits : itemVisits index (value :: rest) =
        value.visitsAt (.ofIndex index) ++ itemVisits (index + 1) rest := rfl
    rw [hvisits, List.filterMap_append, filterMap_event?_visitsAt, filterMap_event?_visits value,
      filterMap_event?_itemVisits (index + 1) rest, itemSkips, List.map_append, map_event_below]

end

end Json

/-! ## Listings -/

namespace Document

variable {document : Document} {place : Json.Route} {entry : Json.Entry}

/-- What the walk of a listing reports does not depend on what is chosen. -/
theorem events_listing {α : Type} (document : Document) (choose : Visit → Option α) :
    (document.listing choose).events = document.root.skips.map Json.Entry.event :=
  Json.filterMap_event?_visits document.root

/-- The node at the end of the route is the root, or the value at a listed
path. -/
def Visited (document : Document) (place : Json.Route) : Prop :=
  place = [] ∨ ∃ path ∈ document.paths.value, document.root.route? path.segments = some place

/-- The member is in an object that is the root or the value at a listed path,
and its key is empty or holds the delimiter. -/
structure Skips (document : Document) (entry : Json.Entry) : Prop where
  visited : document.Visited entry.above
  present : ∃ value, document.root.valueAt? entry.route = some value
  unnamed : entry.key = "" ∨ delimiter ∈ entry.key.toList

theorem mem_paths_of_route? (hindexable : document.root.Indexable) {path : Path}
    (h : document.root.route? path.segments = some place) : path ∈ document.paths.value := by
  obtain ⟨value, hvalue⟩ := Json.exists_valueAt?_of_route? h
  rw [paths, mem_pathsWhere_iff hindexable]
  exact ⟨value, Json.follow_eq_ok_iff.2 ⟨place, h, hvalue⟩, rfl⟩

theorem visited_iff (hindexable : document.root.Indexable) :
    document.Visited place ↔
      (∃ value, document.root.valueAt? place = some value) ∧ Json.Named place := by
  rw [← Json.exists_route?_iff hindexable]
  constructor
  · intro hvisited
    rcases hvisited with rfl | ⟨path, -, hroute⟩
    · exact ⟨[], rfl⟩
    · exact ⟨path.segments, hroute⟩
  · intro htaken
    obtain ⟨segments, hroute⟩ := htaken
    by_cases hnil : segments = []
    · subst hnil
      cases hroute
      exact Or.inl rfl
    · exact Or.inr ⟨⟨segments, hnil⟩, mem_paths_of_route? hindexable hroute, hroute⟩

/-- The skipped members are those that the walk skips. -/
theorem skips_iff (hindexable : document.root.Indexable) :
    document.Skips entry ↔ entry ∈ document.root.skips := by
  rw [Json.mem_skips_iff document.ordered]
  constructor
  · intro hskips
    obtain ⟨hvisited, hpresent, hunnamed⟩ := hskips
    exact ⟨⟨((visited_iff hindexable).1 hvisited).2, Segment.ofString?_eq_none_iff.2 hunnamed⟩,
      hpresent⟩
  · intro hskipped
    obtain ⟨⟨habove, hkey⟩, value, hvalue⟩ := hskipped
    have houter := Json.exists_valueAt?_of_prefix (List.prefix_append _ _) hvalue
    exact ⟨(visited_iff hindexable).2 ⟨houter, habove⟩, ⟨value, hvalue⟩,
      Segment.ofString?_eq_none_iff.1 hkey⟩

theorem Skips.unnamed_entry (hindexable : document.root.Indexable) (h : document.Skips entry) :
    entry.Unnamed :=
  ((Json.mem_skips_iff document.ordered).1 ((skips_iff hindexable).1 h)).1

/-- A node on a route of segments has one path, and is not below a skipped
member. -/
theorem accounted_of_named (hindexable : document.root.Indexable) {value : Json}
    (hplace : place ≠ []) (hvalue : document.root.valueAt? place = some value)
    (hnamed : Json.Named place) :
    (∃! path, path ∈ document.paths.value ∧ document.root.route? path.segments = some place) ∧
      ∀ entry, document.Skips entry → ¬ entry.route <+: place := by
  obtain ⟨segments, hroute⟩ :=
    (Json.exists_route?_iff hindexable).2 ⟨⟨value, hvalue⟩, hnamed⟩
  have hsegments : segments ≠ [] := by
    rintro rfl
    cases hroute
    exact hplace rfl
  constructor
  · refine ⟨⟨segments, hsegments⟩, ⟨mem_paths_of_route? hindexable hroute, hroute⟩, ?_⟩
    intro other hother
    exact Path.ext_segments (Json.segments_eq_of_route? hother.2 hroute)
  · intro entry hskips
    have hunnamed := hskips.unnamed_entry hindexable
    exact hunnamed.not_prefix hnamed

/-- A node on another route has no path, and is a skipped member or below one,
and only one. -/
theorem accounted_of_not_named (hindexable : document.root.Indexable) {value : Json}
    (hvalue : document.root.valueAt? place = some value) (hnamed : ¬ Json.Named place) :
    (∀ path ∈ document.paths.value, document.root.route? path.segments ≠ some place) ∧
      ∃! entry, document.Skips entry ∧ entry.route <+: place := by
  constructor
  · intro path _ hroute
    exact hnamed (Json.named_of_route? hroute)
  · obtain ⟨entry, hunnamed, hbegins⟩ := Json.exists_unnamed_entry hnamed
    have hpresent := Json.exists_valueAt?_of_prefix hbegins hvalue
    have hskips : document.Skips entry :=
      (skips_iff hindexable).2 ((Json.mem_skips_iff document.ordered).2 ⟨hunnamed, hpresent⟩)
    refine ⟨entry, ⟨hskips, hbegins⟩, ?_⟩
    intro other hother
    have hotherUnnamed := hother.1.unnamed_entry hindexable
    exact hotherUnnamed.eq_of_prefix hunnamed hother.2 hbegins

/-- Every node below the root either has exactly one listed path, or it is a
skipped member or below one, exactly one.  Each listing, of all paths or of one
kind, reports the skipped members, each of them once and in the order of the
walk, and nothing that is below one of them. -/
theorem listings_account_for_nodes (document : Document)
    (hindexable : document.root.Indexable) :
    (∀ place value, place ≠ [] → document.root.valueAt? place = some value →
      ((∃! path, path ∈ document.paths.value ∧
            document.root.route? path.segments = some place) ∧
          ∀ entry, document.Skips entry → ¬ entry.route <+: place) ∨
        ((∀ path ∈ document.paths.value, document.root.route? path.segments ≠ some place) ∧
          ∃! entry, document.Skips entry ∧ entry.route <+: place)) ∧
      ∃ entries : List Json.Entry,
        (∀ entry, entry ∈ entries ↔ document.Skips entry) ∧
        (entries.Pairwise fun a b => Json.Earlier a.route b.route) ∧ entries.Nodup ∧
        (∀ entry ∈ entries, ∀ other ∈ entries, entry.route <+: other.route → entry = other) ∧
        document.paths.events = entries.map (fun entry => .skippingKey entry.key) ∧
        ∀ kind, (document.pathsOf kind).events =
          entries.map fun entry => .skippingKey entry.key := by
  have hpairwise := Json.pairwise_skips document.ordered
  refine ⟨?_, document.root.skips, fun entry => (skips_iff hindexable).symm, hpairwise, ?_, ?_,
    document.events_listing _, fun kind => document.events_listing _⟩
  · intro place value hplace hvalue
    by_cases hnamed : Json.Named place
    · exact Or.inl (accounted_of_named hindexable hplace hvalue hnamed)
    · exact Or.inr (accounted_of_not_named hindexable hvalue hnamed)
  · refine hpairwise.imp fun hearlier heq => ?_
    rw [heq] at hearlier
    exact Json.not_earlier_self _ hearlier
  · intro entry hentry other hother hbegins
    have hunnamed := ((Json.mem_skips_iff document.ordered).1 hentry).1
    have hotherUnnamed := ((Json.mem_skips_iff document.ordered).1 hother).1
    exact hunnamed.eq_of_prefix hotherUnnamed hbegins List.prefix_rfl

/-- A member that no path names in an item of a list, with such a member below
it, and another one before the list. -/
def hidden : Document :=
  .object [("", .array [.null]),
    ("list", .array [.object [("x.y", .object [("", .bool true)])]])]

theorem indexable_hidden : hidden.root.Indexable := by
  show Json.Indexable (.object [("", .array [.null]),
    ("list", .array [.object [("x.y", .object [("", .bool true)])]])])
  refine .object (List.forall_mem_cons.2 ⟨?_, List.forall_mem_singleton.2 ?_⟩)
  · exact .array (by decide) (List.forall_mem_singleton.2 .null)
  · refine .array (by decide) (List.forall_mem_singleton.2 (.object ?_))
    exact List.forall_mem_singleton.2 (.object (List.forall_mem_singleton.2 (.bool true)))

theorem listings_account_for_nodes_hidden :
    hidden.root.Indexable ∧
      hidden.root.valueAt? [.key "list", .item 0, .key "x.y", .key ""] = some (.bool true) ∧
      (∃! entry, hidden.Skips entry ∧
        entry.route <+: [.key "list", .item 0, .key "x.y", .key ""]) ∧
      hidden.paths.events = [.skippingKey "", .skippingKey "x.y"] := by
  have hvalue : hidden.root.valueAt? [.key "list", .item 0, .key "x.y", .key ""] =
      some (.bool true) := rfl
  obtain ⟨hnodes, -⟩ := listings_account_for_nodes hidden indexable_hidden
  refine ⟨indexable_hidden, hvalue, ?_, rfl⟩
  rcases hnodes _ _ (by simp) hvalue with ⟨⟨path, ⟨-, hroute⟩, -⟩, -⟩ | ⟨-, hentry⟩
  · exact absurd rfl (Json.named_of_route? hroute (.key "") (by simp))
  · exact hentry

end Document

end Dotted
