import Dotted.Proofs.Refused

/-!
# What reads and writes report

A read that finds nothing reports where it got stuck, and a write reports what
it makes on its way.  Both follow a path as far as the document goes, and what
they say afterwards is about the value at that place.

A write looks at all segments but the last in this way, and puts its leaf in
without a word.  It reports nothing of what it passes.  Where the document
ends it makes something in the value there, and from then on it is in objects
of its own, where one more is made for every segment.  An array is reported to
be extended before its length is compared with the position, so that this one
report is also made by a write that is refused.

* `LongestPrefix.unique`: segments lead to one place.
  `longestPrefix_of_follow_eq_ok` and `longestPrefix_of_follow_eq_error` say
  which it is for a read.
* `Makes` lists what is reported of segments that lead nowhere.
* `Reports` says what a write reports.  `reports_last`,
  `reports_of_child?_eq_none` and `Reports.below` take one step, and
  `exists_longestPrefix_reports` follows a write down.
  `Document.set_reports_what_it_makes` says so of documents.
* `Document.get_reports_longest_prefix` is about reads, and compares them with
  refused writes.
-/

namespace Dotted

namespace Json

variable {node value : Json} {segment : Segment} {segments rest : List Segment}

/-! ## Where segments lead -/

/-- Segments lead only so far, and there to one value. -/
theorem LongestPrefix.unique {depth other : Nat} {found : Json}
    (h : node.LongestPrefix segments depth value)
    (hother : node.LongestPrefix segments other found) : depth = other ∧ value = found := by
  have heq : depth = other :=
    Nat.le_antisymm (hother.longest depth h.within value h.leads)
      (h.longest other hother.within found hother.leads)
  subst heq
  exact ⟨rfl, Except.ok.inj (h.leads.symm.trans hother.leads)⟩

theorem longestPrefix_of_follow_eq_ok (h : node.follow segments = .ok value) :
    node.LongestPrefix segments segments.length value where
  within := Nat.le_refl _
  leads := by rwa [List.take_length]
  longest _ hlength _ _ := hlength

theorem follow_cons_eq_error_iff {miss : Miss} :
    node.follow (segment :: rest) = .error miss ↔
      (node.child? segment = none ∧ miss = ⟨0, segment⟩) ∨
        ∃ child below, node.child? segment = some child ∧ child.follow rest = .error below ∧
          miss = below.deeper := by
  rw [follow]
  cases hchild : node.child? segment with
  | none => simp [eq_comm]
  | some child =>
    cases hbelow : child.follow rest with
    | ok found => simp [Except.mapError, hbelow]
    | error below => simp [Except.mapError, hbelow, eq_comm]

/-- A read that gets stuck is at the end of the longest prefix, and says which
segment comes next. -/
theorem longestPrefix_of_follow_eq_error {miss : Miss}
    (h : node.follow segments = .error miss) :
    ∃ value, node.LongestPrefix segments miss.depth value ∧
      segments[miss.depth]? = some miss.segment := by
  induction segments generalizing node miss with
  | nil => cases h
  | cons segment rest ih =>
    rcases follow_cons_eq_error_iff.1 h with ⟨hchild, rfl⟩ | ⟨child, below, hchild, hbelow, rfl⟩
    · exact ⟨node, longestPrefix_of_child?_eq_none hchild rest, rfl⟩
    · obtain ⟨value, hlongest, hnext⟩ := ih hbelow
      exact ⟨value, hlongest.cons hchild, hnext⟩

/-! ## What a write makes -/

/-- The reports of a write that finds nothing for the first of the segments:
what it makes there depends on the node, and below are new objects, where it
makes an object for each of the others. -/
inductive Makes : Json → List Segment → List Event → Prop where
  | nothing {node : Json} : Makes node [] []
  | member {members : Members Json} {segment : Segment} {rest : List Segment} :
      Makes (.object members) (segment :: rest)
        (.creatingObject segment :: rest.map .creatingObject)
  | item {items : List Json} {segment : Segment} {rest : List Segment} {index : Nat}
      (hindex : segment.index? = some index) :
      Makes (.array items) (segment :: rest)
        (.extendingArray index items.length :: rest.map .creatingObject)

/-- One report for each segment. -/
theorem Makes.length {events : List Event} (h : node.Makes segments events) :
    events.length = segments.length := by
  cases h <;> simp

/-- All reports after the first one are of new objects. -/
theorem Makes.tail {events : List Event} (h : node.Makes segments events) :
    ∀ event ∈ events.tail, ∃ segment ∈ segments, event = .creatingObject segment := by
  intro event hevent
  cases h with
  | nothing => cases hevent
  | member | item =>
    obtain ⟨segment, hsegment, rfl⟩ := List.mem_map.1 hevent
    exact ⟨segment, List.mem_cons_of_mem _ hsegment, rfl⟩

/-- What was reported of a segment before it was refused, if more segments
follow it. -/
def refusedEvents : Refusal → List Event
  | .indexOutOfRange index length => [.extendingArray index length]
  | _ => []

theorem refusedEvents_eq_singleton_iff {refusal : Refusal} {index length : Nat} :
    refusedEvents refusal = [.extendingArray index length] ↔
      refusal = .indexOutOfRange index length := by
  cases refusal <;> simp [refusedEvents]

theorem refusedEvents_cases (refusal : Refusal) :
    refusedEvents refusal = [] ∨
      ∃ index length, refusedEvents refusal = [.extendingArray index length] := by
  cases refusal with
  | indexOutOfRange index length => exact .inr ⟨index, length, rfl⟩
  | _ => exact .inl rfl

/-! ## The reports of a write -/

/-- Nothing is reported of the leaf. -/
theorem events_assign (node : Json) (segment : Segment) (leaf : Json) :
    (node.assign segment leaf).events = [] := by
  unfold assign
  split
  · rfl
  · split
    · rfl
    · split
      · rfl
      · split <;> rfl
  · rfl

/-- Nothing is reported of what is there. -/
theorem events_write_of_child? {child : Json} (h : node.child? segment = some child)
    (leaf : Json) (next : Segment) (rest : List Segment) :
    (node.write segment leaf (next :: rest)).events = (child.write next leaf rest).events := by
  cases node with
  | object members =>
    have hmember : members.lookup segment.text = some child := h
    simp only [write, hmember]
    rfl
  | array items =>
    obtain ⟨index, hindex, hitem⟩ := Option.bind_eq_some_iff.1 h
    simp only [write, hindex, hitem]
    rfl
  | _ => cases h

theorem events_write_of_refused {refusal : Refusal} (h : node.Refuses segment refusal)
    (leaf : Json) (next : Segment) (rest : List Segment) :
    (node.write segment leaf (next :: rest)).events = refusedEvents refusal := by
  cases h with
  | notAContainer harray hobject =>
    cases node with
    | object members => exact absurd rfl hobject
    | array items => exact absurd rfl harray
    | _ => rfl
  | notAnIndex hindex =>
    simp only [write, hindex]
    rfl
  | indexOutOfRange hindex hfar =>
    have hgap : ¬ _ ≤ maxGap := Nat.not_le.2 hfar
    have hitem := List.getElem?_eq_none (Nat.le_of_lt (Nat.lt_of_sub_pos (Nat.zero_lt_of_lt hfar)))
    simp only [write, hindex, hitem, if_neg hgap]
    rfl

/-- Below a new object an object is made for every segment but the last. -/
theorem events_write_emptyObject (segment : Segment) (leaf : Json) (rest : List Segment) :
    ((Json.object []).write segment leaf rest).events =
      (segment :: rest).dropLast.map .creatingObject := by
  induction rest generalizing segment with
  | nil => rfl
  | cons next rest ih =>
    show Event.creatingObject segment :: ((Json.object []).write next leaf rest).events = _
    rw [ih]
    rfl

/-- Where the first segment selects nothing and is not refused, it and all
others but the last are reported. -/
theorem makes_write {step : Step} (hchild : node.child? segment = none)
    (henter : node.enter segment = .ok step) (leaf : Json) (next : Segment)
    (rest : List Segment) :
    node.Makes (segment :: (next :: rest).dropLast)
      (node.write segment leaf (next :: rest)).events := by
  cases node with
  | object members =>
    have hmember : members.lookup segment.text = none := hchild
    simp only [write, hmember]
    show Makes _ _ (.creatingObject segment :: ((Json.object []).write next leaf rest).events)
    rw [events_write_emptyObject]
    exact .member
  | array items =>
    cases hindex : segment.index? with
    | none =>
      rw [enter, hindex] at henter
      cases henter
    | some index =>
      have hitem : items[index]? = none := by
        rw [child?, hindex] at hchild
        exact hchild
      rw [enter_array hindex] at henter
      split at henter
      · next hgap =>
        simp only [write, hindex, hitem, if_pos hgap]
        show Makes _ _ (.extendingArray index items.length ::
          ((Json.object []).write next leaf rest).events)
        rw [events_write_emptyObject]
        exact .item hindex
      · cases henter
  | _ => cases henter

/-- What a write reports whose segments before the last one lead `depth` deep,
to `value`.  If it is refused, then by this value, and nothing was made. -/
structure Reports (node leaf : Json) (segment : Segment) (rest : List Segment) (depth : Nat)
    (value : Json) : Prop where
  accepted : ∀ new, node.written leaf (segment :: rest) = .ok new →
    value.Makes ((segment :: rest).dropLast.drop depth) (node.write segment leaf rest).events
  depth_eq : ∀ failure, node.written leaf (segment :: rest) = .error failure →
    failure.depth = depth
  refuses : ∀ failure, node.written leaf (segment :: rest) = .error failure →
    ∃ next, (segment :: rest)[depth]? = some next ∧ value.Refuses next failure.refusal
  refused : ∀ failure, node.written leaf (segment :: rest) = .error failure →
    (node.write segment leaf rest).events =
      if depth < rest.length then refusedEvents failure.refusal else []

/-- A write of one segment has nothing to make on its way. -/
theorem reports_last (node leaf : Json) (segment : Segment) :
    node.Reports leaf segment [] 0 node := by
  have hrefused : ∀ failure, node.written leaf [segment] = .error failure →
      failure.depth = 0 ∧ node.Refuses segment failure.refusal := by
    intro failure h
    rcases written_cons_eq_error_iff.1 h with ⟨refusal, henter, rfl⟩ | ⟨_, _, _, hbelow, _⟩
    · exact ⟨rfl, enter_eq_error_iff.1 henter⟩
    · cases hbelow
  have hevents : (node.write segment leaf []).events = [] := events_assign node segment leaf
  constructor
  · intro new _
    rw [hevents]
    exact .nothing
  · exact fun failure h => (hrefused failure h).1
  · exact fun failure h => ⟨segment, rfl, (hrefused failure h).2⟩
  · exact fun failure _ => hevents

/-- Where the first segment selects nothing, it is refused, or it and those
after it are made. -/
theorem reports_of_child?_eq_none (hchild : node.child? segment = none) (leaf : Json)
    (next : Segment) (rest : List Segment) : node.Reports leaf segment (next :: rest) 0 node where
  accepted new h := by
    obtain ⟨step, child, henter, -, -⟩ := written_cons_eq_ok_iff.1 h
    exact makes_write hchild henter leaf next rest
  depth_eq failure h := ((written_eq_error_iff_of_child?_eq_none hchild).1 h).1
  refuses failure h := ⟨segment, rfl, ((written_eq_error_iff_of_child?_eq_none hchild).1 h).2⟩
  refused failure h := by
    have hrefuses := ((written_eq_error_iff_of_child?_eq_none hchild).1 h).2
    exact events_write_of_refused hrefuses leaf next rest

/-- Where the first segment selects a child, the write to the child reports,
one step deeper. -/
theorem Reports.below {child leaf : Json} {next : Segment} {depth : Nat}
    (hchild : node.child? segment = some child) (h : child.Reports leaf next rest depth value) :
    node.Reports leaf segment (next :: rest) (depth + 1) value := by
  have hevents := events_write_of_child? hchild leaf next rest
  constructor
  · intro new hnew
    rw [hevents]
    cases hbelow : child.written leaf (next :: rest) with
    | ok found => exact h.accepted found hbelow
    | error failure =>
      have hfailed := (written_eq_error_iff_of_child?_eq_some hchild).2 ⟨failure, hbelow, rfl⟩
      cases hnew.symm.trans hfailed
  · intro failure hfailure
    obtain ⟨under, hunder, rfl⟩ := (written_eq_error_iff_of_child?_eq_some hchild).1 hfailure
    exact congrArg Nat.succ (h.depth_eq under hunder)
  · intro failure hfailure
    obtain ⟨under, hunder, rfl⟩ := (written_eq_error_iff_of_child?_eq_some hchild).1 hfailure
    exact h.refuses under hunder
  · intro failure hfailure
    obtain ⟨under, hunder, rfl⟩ := (written_eq_error_iff_of_child?_eq_some hchild).1 hfailure
    rw [hevents, h.refused under hunder]
    simp only [List.length_cons, Nat.add_lt_add_iff_right]
    rfl

/-- A write goes down as far as the segments before the last one lead.  The
induction follows this prefix. -/
theorem exists_longestPrefix_reports (node : Json) (segment : Segment) (rest : List Segment) :
    ∃ depth value, node.LongestPrefix (segment :: rest).dropLast depth value ∧
      ∀ leaf, node.Reports leaf segment rest depth value := by
  induction rest generalizing node segment with
  | nil => exact ⟨0, node, longestPrefix_nil node, fun leaf => reports_last node leaf segment⟩
  | cons next rest ih =>
    cases hchild : node.child? segment with
    | none =>
      exact ⟨0, node, longestPrefix_of_child?_eq_none hchild _,
        fun leaf => reports_of_child?_eq_none hchild leaf next rest⟩
    | some child =>
      obtain ⟨depth, value, hlongest, hreports⟩ := ih child next
      exact ⟨depth + 1, value, hlongest.cons hchild, fun leaf => (hreports leaf).below hchild⟩

end Json

namespace Document

/-! ## Reports of writes -/

variable {document : Document} {path : Path}

/-- A write reports what it makes for the segments before the last one, from
where these lead no further.  That is one event for each: the first says what
was made in the value there, which is an array that was extended or an object
that got a member, and all others are about new objects.  A write that is
refused has made nothing.  It has reported an array to be extended exactly if
the next segment is a position too far past its end and more segments follow,
and it has reported nothing else. -/
theorem set_reports_what_it_makes (document : Document) (path : Path) :
    ∃ depth value, document.root.LongestPrefix path.leading depth value ∧
      ∀ leaf,
        ((document.set path leaf).error? = none →
          value.Makes (path.leading.drop depth) (document.set path leaf).events ∧
            (document.set path leaf).events.length = path.length - 1 - depth ∧
            ∀ event ∈ (document.set path leaf).events.tail,
              ∃ segment, event = .creatingObject segment) ∧
        ∀ error, (document.set path leaf).error? = some error →
          error.location = path.location depth ∧
            (∃ segment, path.segments[depth]? = some segment ∧
              value.Refuses segment error.refusal) ∧
            ((document.set path leaf).events = [] ∨
              ∃ index length, (document.set path leaf).events = [.extendingArray index length]) ∧
            ∀ index length,
              (document.set path leaf).events = [.extendingArray index length] ↔
                error.refusal = .indexOutOfRange index length ∧ depth < path.length - 1 := by
  obtain ⟨depth, value, hlongest, hreports⟩ :=
    Json.exists_longestPrefix_reports document.root path.first path.segments.tail
  rw [first_cons_tail] at hlongest
  refine ⟨depth, value, hlongest, fun leaf => ⟨fun haccepted => ?_, fun error hrefused => ?_⟩⟩
  · obtain ⟨new, hnew⟩ := error?_set_eq_none_iff.1 haccepted
    rw [← first_cons_tail] at hnew
    have hmakes := (hreports leaf.root).accepted new hnew
    rw [first_cons_tail] at hmakes
    refine ⟨hmakes, ?_, fun event hevent => ?_⟩
    · have hlength : (document.set path leaf).events.length = _ := hmakes.length
      rw [hlength, List.length_drop, List.length_dropLast, Path.length]
    · obtain ⟨segment, -, heq⟩ := hmakes.tail event hevent
      exact ⟨segment, heq⟩
  · obtain ⟨failure, hfailure, rfl⟩ := error?_set_eq_some_iff.1 hrefused
    rw [← first_cons_tail] at hfailure
    have hdepth := (hreports leaf.root).depth_eq failure hfailure
    have hrefuses := (hreports leaf.root).refuses failure hfailure
    rw [first_cons_tail] at hrefuses
    have hevents : (document.set path leaf).events =
        if depth < path.segments.tail.length then Json.refusedEvents failure.refusal else [] :=
      (hreports leaf.root).refused failure hfailure
    rw [List.length_tail] at hevents
    refine ⟨congrArg path.location hdepth, hrefuses, ?_, fun index length => ?_⟩
    · rw [hevents]
      split
      · exact Json.refusedEvents_cases failure.refusal
      · exact .inl rfl
    · rw [hevents, Path.length]
      split
      · next hbefore => simp [Json.refusedEvents_eq_singleton_iff, hbefore]
      · next hlast => simp [hlast]

/-- An array that is too short to be extended is reported all the same. -/
example : ((array []).set ((Path.single (.ofIndex 65537)).push (.ofIndex 0)) null).events =
    [.extendingArray 65537 0] := by
  decide

/-! ## Reports of reads -/

theorem follow_eq_error_iff {miss : Json.Miss} :
    document.follow path = .error miss ↔ document.root.follow path.segments = .error miss := by
  unfold follow
  split
  · next value hvalue =>
    constructor
    · intro h
      cases h
    · intro h
      cases hvalue.symm.trans h
  · next other hother =>
    rw [hother]
    constructor <;> intro h <;> cases h <;> rfl

theorem get_of_follow_eq_ok {value : Json} (h : document.root.follow path.segments = .ok value) :
    document.get path = ⟨some ⟨value, document.ordered.follow h⟩, []⟩ := by
  have hfollow : document.follow path = .ok ⟨value, document.ordered.follow h⟩ :=
    follow_eq_ok_iff.2 h
  rw [get, hfollow]

theorem get_of_follow_eq_error {miss : Json.Miss}
    (h : document.root.follow path.segments = .error miss) :
    document.get path = ⟨none, [.unresolved path (path.location miss.depth) miss.segment]⟩ := by
  rw [get, follow_eq_error_iff.2 h]
  rfl

/-- Where a write is refused, a read gets stuck, and at the same segment. -/
theorem follow_of_error?_set {leaf : Document} {error : WriteError}
    (h : (document.set path leaf).error? = some error) :
    ∃ miss, document.root.follow path.segments = .error miss ∧
      error.location = path.location miss.depth ∧
      ∀ refused, error.refusal = .notAnIndex refused → refused = miss.segment := by
  obtain ⟨failure, hfailure, rfl⟩ := error?_set_eq_some_iff.1 h
  obtain ⟨depth, value, hlongest, hfails⟩ :=
    Json.exists_longestPrefix_written_eq_error_iff document.root path.segments
  obtain ⟨segment, hsegment, hdepth, hrefuses⟩ := (hfails _ _).1 hfailure
  cases hfollow : document.root.follow path.segments with
  | ok found =>
    -- the whole path leads to a value, and no segment is left
    obtain ⟨rfl, -⟩ := hlongest.unique (Json.longestPrefix_of_follow_eq_ok hfollow)
    rw [List.getElem?_eq_none (Nat.le_refl _)] at hsegment
    cases hsegment
  | error miss =>
    obtain ⟨found, hstuck, hnext⟩ := Json.longestPrefix_of_follow_eq_error hfollow
    obtain ⟨rfl, -⟩ := hlongest.unique hstuck
    obtain rfl := Option.some.inj (hsegment.symm.trans hnext)
    refine ⟨miss, rfl, congrArg path.location hdepth, fun refused hrefused => ?_⟩
    have hrefuses : value.Refuses miss.segment (.notAnIndex refused) := hrefused ▸ hrefuses
    cases hrefuses
    rfl

/-- A read reports nothing if it finds a value, which is if the longest prefix
that leads anywhere is the whole path.  Otherwise it reports the end of this
prefix and the next segment, and nothing else.  A write that is refused is
refused in the same place, where a read gets stuck too, and a segment that the
write takes for no position is the one that the read reports. -/
theorem get_reports_longest_prefix (document : Document) (path : Path) :
    ∃ depth value, document.root.LongestPrefix path.segments depth value ∧
      (∀ found, (document.get path).value = some found →
        depth = path.length ∧ found.root = value ∧ (document.get path).events = []) ∧
      ((document.get path).value = none →
        ∃ segment, path.segments[depth]? = some segment ∧
          (document.get path).events =
            [.unresolved path
              (if depth = 0 then "(root)" else joined (path.segments.take depth)) segment]) ∧
      ∀ leaf error, (document.set path leaf).error? = some error →
        (document.get path).value = none ∧
          ∃ segment, (document.get path).events = [.unresolved path error.location segment] ∧
            ∀ refused, error.refusal = .notAnIndex refused → refused = segment := by
  cases hfollow : document.root.follow path.segments with
  | ok value =>
    rw [get_of_follow_eq_ok hfollow]
    refine ⟨path.length, value, Json.longestPrefix_of_follow_eq_ok hfollow,
      fun found hfound => ?_, fun hnone => ?_, fun leaf error hrefused => ?_⟩
    · cases hfound
      exact ⟨rfl, rfl, rfl⟩
    · cases hnone
    · obtain ⟨miss, hmiss, -⟩ := follow_of_error?_set hrefused
      rw [hfollow] at hmiss
      cases hmiss
  | error miss =>
    rw [get_of_follow_eq_error hfollow]
    obtain ⟨value, hlongest, hnext⟩ := Json.longestPrefix_of_follow_eq_error hfollow
    refine ⟨miss.depth, value, hlongest,
      fun found hfound => ?_, fun _ => ⟨miss.segment, hnext, rfl⟩, fun leaf error hrefused => ?_⟩
    · cases hfound
    · obtain ⟨other, hother, hlocation, hsame⟩ := follow_of_error?_set hrefused
      obtain rfl := Except.error.inj (hfollow.symm.trans hother)
      rw [hlocation]
      exact ⟨rfl, miss.segment, rfl, hsame⟩

end Document

end Dotted
