import Dotted.Enumeration
import Dotted.Proofs.Index
import Dotted.Proofs.Route

/-!
# What a walk reaches

A walk writes down the paths of the values that it reaches, and a read takes
a path apart again, segment by segment.  The two meet at a single step: the
values that a walk finds right below a node are those that a segment selects
there.  Everything else follows by going down the path.

This would not hold of an array with more items than there are indices,
because a walk goes on to write numerals for them.  `Json.Indexable` says that
there is no such array.

* `Json.memberVisits_eq_flatMap` and `Json.itemVisits_eq_flatMap` cut a walk
  among members or items into the walks of each of them.
* `Json.reached_mem_visits_iff_child` is the single step, and
  `Json.reached_mem_visits_iff` goes down a path.
* `Document.mem_pathsWhere_iff` is the same for lists of paths, and
  `Document.mem_pathsOf_iff` and `Document.mem_paths_iff_get` compare the lists
  of the paths of one kind and of all paths with reads.
-/

namespace Dotted

namespace Members

variable {α : Type} {key : String} {value : α} {members : Members α}

/-- Every member can be looked up by its key, because no key occurs twice. -/
theorem lookup_eq_some_iff_mem (hsorted : Sorted members) :
    members.lookup key = some value ↔ (key, value) ∈ members := by
  induction members with
  | nil => simp
  | cons head rest ih =>
    obtain ⟨other, old⟩ := head
    have hparts := List.pairwise_cons.1 hsorted
    by_cases heq : key = other
    · subst heq
      have hrest : (key, value) ∉ rest := fun hmem => String.lt_irrefl key (hparts.1 _ hmem)
      simp [hrest, eq_comm]
    · rw [List.lookup_cons, beq_false_of_ne heq]
      simp [ih hparts.2, heq]

end Members

namespace Visit

variable {visit : Visit} {path : Path} {value : Json}

/-- What a walk reaches below a segment, it reaches from there by the rest of
the path. -/
theorem below_eq_reached_iff {segment : Segment} :
    visit.below segment = .reached path value ↔
      ∃ rest, path = rest.cons segment ∧ visit = .reached rest value := by
  cases visit <;> simp [below, eq_comm]

theorem path?_eq_some_iff {test : Json → Bool} :
    visit.path? test = some path ↔ ∃ value, visit = .reached path value ∧ test value = true := by
  cases visit <;> simp [path?, and_comm]

end Visit

namespace Json

/-! ## Values with indices for all positions -/

/-- Every array in the value has fewer items than there are indices, as every
array that fits into memory has. -/
inductive Indexable : Json → Prop
  | null : Indexable .null
  | bool (value : Bool) : Indexable (.bool value)
  | number (value : Number) : Indexable (.number value)
  | string (value : String) : Indexable (.string value)
  | array {items : List Json} (length_lt : items.length < Segment.indexBound)
      (items_indexable : ∀ item ∈ items, Indexable item) : Indexable (.array items)
  | object {members : Members Json} (values_indexable : ∀ member ∈ members, Indexable member.2) :
      Indexable (.object members)

theorem Indexable.length {items : List Json} (h : Indexable (.array items)) :
    items.length < Segment.indexBound := by
  cases h; assumption

theorem Indexable.items {items : List Json} (h : Indexable (.array items)) :
    ∀ item ∈ items, Indexable item := by
  cases h; assumption

theorem Indexable.values {members : Members Json} (h : Indexable (.object members)) :
    ∀ member ∈ members, Indexable member.2 := by
  cases h; assumption

variable {node value : Json} {path : Path} {segment : Segment}

theorem Indexable.child? (h : node.Indexable) {child : Json}
    (hchild : node.child? segment = some child) : child.Indexable := by
  cases node with
  | object members =>
    obtain ⟨before, after, rfl, -⟩ := List.lookup_eq_some_iff.1 hchild
    exact h.values (segment.text, child) (by simp)
  | array items =>
    obtain ⟨index, -, hitem⟩ := Option.bind_eq_some_iff.1 hchild
    exact h.items child (List.mem_of_getElem? hitem)
  | _ => cases hchild

/-! ## A walk among members and among items -/

/-- The steps of a walk at a value that `segment` selects, and below it. -/
def visitsAt (value : Json) (segment : Segment) : List Visit :=
  .reached (.single segment) value :: value.visits.map (Visit.below segment)

/-- The steps of a walk at a member and below it. -/
def visitsOfMember (member : String × Json) : List Visit :=
  match Segment.ofString? member.1 with
  | none => [.skipped member.1]
  | some segment => member.2.visitsAt segment

theorem memberVisits_eq_flatMap (members : List (String × Json)) :
    memberVisits members = members.flatMap visitsOfMember := by
  induction members with
  | nil => rfl
  | cons member rest ih =>
    obtain ⟨key, value⟩ := member
    rw [memberVisits, List.flatMap_cons, ih, visitsOfMember]
    cases Segment.ofString? key <;> rfl

theorem itemVisits_eq_flatMap (start : Nat) (items : List Json) :
    itemVisits start items =
      (items.zipIdx start).flatMap fun item => item.1.visitsAt (.ofIndex item.2) := by
  induction items generalizing start with
  | nil => rfl
  | cons item rest ih =>
    rw [itemVisits, List.zipIdx_cons, List.flatMap_cons, ih]
    rfl

/-- A member is walked through if its key is a segment. -/
theorem reached_mem_visitsOfMember_iff {member : String × Json} :
    .reached path value ∈ visitsOfMember member ↔
      ∃ segment, Segment.text segment = member.1 ∧
        .reached path value ∈ member.2.visitsAt segment := by
  unfold visitsOfMember
  constructor
  · intro hvisit
    split at hvisit
    · simp at hvisit
    · next segment hsegment => exact ⟨segment, Segment.text_of_ofString? hsegment, hvisit⟩
  · intro hfound
    obtain ⟨segment, htext, hvisit⟩ := hfound
    rw [← htext, Segment.ofString?_text]
    exact hvisit

/-! ## From a node to its children -/

/-- What a walk finds right below a node, and below that, is what segments
select there. -/
theorem reached_mem_visits_iff_child (hordered : node.Ordered) (hindexable : node.Indexable) :
    .reached path value ∈ node.visits ↔
      ∃ segment child, node.child? segment = some child ∧
        .reached path value ∈ child.visitsAt segment := by
  cases node with
  | object members =>
    rw [visits, memberVisits_eq_flatMap, List.mem_flatMap]
    simp only [child?, Members.lookup_eq_some_iff_mem hordered.sorted,
      reached_mem_visitsOfMember_iff]
    constructor
    · intro hfound
      obtain ⟨⟨key, child⟩, hmember, segment, rfl, hvisit⟩ := hfound
      exact ⟨segment, child, hmember, hvisit⟩
    · intro hfound
      obtain ⟨segment, child, hmember, hvisit⟩ := hfound
      exact ⟨(segment.text, child), hmember, segment, rfl, hvisit⟩
  | array items =>
    rw [visits, itemVisits_eq_flatMap, List.mem_flatMap]
    constructor
    · intro hfound
      obtain ⟨⟨child, position⟩, hmem, hvisit⟩ := hfound
      have hitem : items[position]? = some child := List.mk_mem_zipIdx_iff_getElem?.1 hmem
      have hlt : position < items.length := (List.getElem?_eq_some_iff.1 hitem).1
      have hindex : (Segment.ofIndex position).index? = some position :=
        Segment.index?_ofIndex (Nat.lt_trans hlt hindexable.length)
      refine ⟨.ofIndex position, child, ?_, hvisit⟩
      rw [child?, hindex]
      exact hitem
    · intro hfound
      obtain ⟨segment, child, hchild, hvisit⟩ := hfound
      obtain ⟨position, hindex, hitem⟩ := Option.bind_eq_some_iff.1 hchild
      refine ⟨(child, position), List.mk_mem_zipIdx_iff_getElem?.2 hitem, ?_⟩
      rwa [← Segment.eq_ofIndex_of_index? hindex]
  | _ => simp [visits, child?]

/-- At a value and below it, a walk reaches the value itself, and what a walk
of the value reaches. -/
theorem reached_mem_visitsAt_iff {child : Json} :
    .reached path value ∈ child.visitsAt segment ↔
      (path = .single segment ∧ value = child) ∨
        ∃ below, path = below.cons segment ∧ .reached below value ∈ child.visits := by
  rw [visitsAt, List.mem_cons, Visit.reached.injEq, List.mem_map]
  refine or_congr Iff.rfl ?_
  simp only [Visit.below_eq_reached_iff]
  constructor
  · intro hbelow
    obtain ⟨visit, hvisit, below, rfl, rfl⟩ := hbelow
    exact ⟨below, rfl, hvisit⟩
  · intro hbelow
    obtain ⟨below, rfl, hvisit⟩ := hbelow
    exact ⟨.reached below value, hvisit, below, rfl, rfl⟩

/-- A walk reaches a value by a path exactly if the path leads to it.  The
induction goes down the path. -/
theorem reached_mem_visits_iff (hordered : node.Ordered) (hindexable : node.Indexable) :
    .reached path value ∈ node.visits ↔ node.follow path.segments = .ok value := by
  obtain ⟨segments, hnonempty⟩ := path
  induction segments generalizing node with
  | nil => exact absurd rfl hnonempty
  | cons segment rest ih =>
    rw [reached_mem_visits_iff_child hordered hindexable, follow_cons_eq_ok_iff]
    constructor
    · intro hfound
      obtain ⟨first, child, hchild, hvisit⟩ := hfound
      rcases reached_mem_visitsAt_iff.1 hvisit with ⟨hpath, rfl⟩ | ⟨below, hpath, hbelow⟩
      · cases hpath
        exact ⟨value, hchild, rfl⟩
      · cases hpath
        exact ⟨child, hchild, (ih (hordered.child? hchild) (hindexable.child? hchild) _).1 hbelow⟩
    · intro hfound
      obtain ⟨child, hchild, hfollow⟩ := hfound
      refine ⟨segment, child, hchild, reached_mem_visitsAt_iff.2 ?_⟩
      cases rest with
      | nil =>
        cases hfollow
        exact Or.inl ⟨rfl, rfl⟩
      | cons next rest =>
        refine Or.inr ⟨⟨next :: rest, by simp⟩, rfl, ?_⟩
        exact (ih (hordered.child? hchild) (hindexable.child? hchild) _).2 hfollow

end Json

/-! ## Lists of paths -/

namespace Document

variable {document : Document} {path : Path}

/-- The paths of the values that pass a test are those that lead to such a
value. -/
theorem mem_pathsWhere_iff (hindexable : document.root.Indexable) {test : Json → Bool} :
    path ∈ (document.pathsWhere test).value ↔
      ∃ value, document.root.follow path.segments = .ok value ∧ test value = true := by
  simp only [← Json.reached_mem_visits_iff document.ordered hindexable]
  show path ∈ document.root.visits.filterMap (Visit.path? test) ↔ _
  simp only [List.mem_filterMap, Visit.path?_eq_some_iff]
  constructor
  · intro hfound
    obtain ⟨visit, hvisit, value, rfl, htest⟩ := hfound
    exact ⟨value, hvisit, htest⟩
  · intro hfound
    obtain ⟨value, hvisit, htest⟩ := hfound
    exact ⟨.reached path value, hvisit, value, rfl, htest⟩

/-- The paths listed for a kind are those where a read finds a value of that
kind. -/
theorem mem_pathsOf_iff (hindexable : document.root.Indexable) {kind : Kind} :
    path ∈ (document.pathsOf kind).value ↔
      ∃ value, (document.get path).value = some value ∧ value.kind = kind := by
  rw [pathsOf, mem_pathsWhere_iff hindexable]
  constructor
  · intro hfound
    obtain ⟨root, hroot, hkind⟩ := hfound
    exact ⟨⟨root, document.ordered.follow hroot⟩, value_get_eq_some_iff.2 hroot,
      eq_of_beq hkind⟩
  · intro hfound
    obtain ⟨value, hvalue, hkind⟩ := hfound
    exact ⟨value.root, value_get_eq_some_iff.1 hvalue, beq_iff_eq.2 hkind⟩

/-- A path is listed exactly if a read finds a value there. -/
theorem mem_paths_iff_get (document : Document) (path : Path)
    (hindexable : document.root.Indexable) :
    path ∈ document.paths.value ↔ ∃ value, (document.get path).value = some value := by
  rw [paths, mem_pathsWhere_iff hindexable]
  constructor
  · intro hfound
    obtain ⟨root, hroot, -⟩ := hfound
    exact ⟨⟨root, document.ordered.follow hroot⟩, value_get_eq_some_iff.2 hroot⟩
  · intro hfound
    obtain ⟨value, hvalue⟩ := hfound
    exact ⟨value.root, value_get_eq_some_iff.1 hvalue, rfl⟩

/-- Rows of different kinds, and a member that no path names. -/
def table : Document :=
  .object [("a.b", .object [("c", .null)]), ("rows", .array [.array [.bool true], .null])]

theorem indexable_table : table.root.Indexable := by
  show Json.Indexable (.object [("a.b", .object [("c", .null)]),
    ("rows", .array [.array [.bool true], .null])])
  refine .object (List.forall_mem_cons.2 ⟨?_, List.forall_mem_singleton.2 ?_⟩)
  · exact .object (List.forall_mem_singleton.2 .null)
  · refine .array (by decide) (List.forall_mem_cons.2 ⟨?_, List.forall_mem_singleton.2 .null⟩)
    exact .array (by decide) (List.forall_mem_singleton.2 (.bool true))

/-- The path of the rows of `table`. -/
def rowsPath : Path := .single ⟨"rows", by decide, by decide⟩

theorem mem_paths_iff_get_table :
    table.root.Indexable ∧
      (rowsPath.push (.ofIndex 0)).push (.ofIndex 0) ∈ table.paths.value ∧
      rowsPath.push ⟨"01", by decide, by decide⟩ ∉ table.paths.value := by
  refine ⟨indexable_table, (mem_paths_iff_get table _ indexable_table).2 ⟨.bool true, rfl⟩, ?_⟩
  intro hlisted
  obtain ⟨value, hvalue⟩ := (mem_paths_iff_get table _ indexable_table).1 hlisted
  cases hvalue

end Document

end Dotted
