import Dotted.Proofs.Order
import Dotted.Proofs.Revised

/-!
# Updates along a list of paths

A list of paths is made of one document and then gone through, with a write at
each path.  The document changes while the list stays as it was.  The invariant
of such a run is that the document is the old one with the values at the paths
done so far changed.  It says all that the next step needs, as long as no path
done so far leads to a place above the next one.

* `Document.changedAt` is the document in the invariant;
  `Document.get_changedAt_of_not_mem`, `Document.get_changedAt_of_mem` and
  `Document.set_changedAt` are the reads and the write of one step.
* `Document.eq_of_prefix_of_scalar`: a path to a scalar leads to no place above
  another one.  `Document.LeadToScalars.step` is the step along such paths, and
  `Document.updateEach_eq_changedAt` the run.
* `Document.updateEach_pathsOf_scalar` is the update of all scalars of one
  kind, in any order.
-/

namespace Dotted

/-- No segments lead on from a scalar. -/
theorem Json.eq_nil_of_follow_scalar {node value : Json} {segments : List Segment}
    (hscalar : ¬ (node.kind = .array ∨ node.kind = .object))
    (h : node.follow segments = .ok value) : segments = [] := by
  cases segments with
  | nil => rfl
  | cons segment rest =>
    obtain ⟨child, hchild, -⟩ := follow_cons_eq_ok_iff.1 h
    rw [child?_eq_bind] at hchild
    obtain ⟨step, hstep, -⟩ := Option.bind_eq_some_iff.1 hchild
    exact absurd (kind_of_fits (fits_of_stepOf? hstep)) hscalar

namespace Document

variable {document value leaf : Document} {path : Path} {done : List Path}
  {change : Document → Document}

/-! ## The state of a run -/

/-- What the values at some paths become; all others stay. -/
def changing (paths : List Path) (change : Document → Document) (path : Path)
    (value : Document) : Option Document :=
  if path ∈ paths then some (change value) else none

/-- The document with the values at some paths changed.  What is below a
changed value is not looked at. -/
def changedAt (document : Document) (paths : List Path) (change : Document → Document) :
    Document :=
  document.revised (changing paths change)

theorem changedAt_nil (document : Document) (change : Document → Document) :
    document.changedAt [] change = document :=
  revised_of_forall_eq_none fun _ _ => rfl

/-- The way to a path is kept if none of the changed paths lead to a place
above it. -/
theorem keptAbove_changing
    (h : ∀ above ∈ done, above.segments <+: path.segments → above = path) :
    document.KeptAbove (changing done change) path :=
  fun above _ habove hne _ => if_neg fun hmem => hne (h above hmem habove)

/-- A read at a path that is not done finds a scalar as it was. -/
theorem get_changedAt_of_not_mem
    (h : ∀ above ∈ done, above.segments <+: path.segments → above = path)
    (hvalue : (document.get path).value = some value)
    (hscalar : ¬ (value.kind = .array ∨ value.kind = .object)) (hnew : path ∉ done)
    (change : Document → Document) :
    ((document.changedAt done change).get path).value = some value :=
  get_revised_of_scalar (keptAbove_changing h) hvalue (if_neg hnew) hscalar

/-- A read at a path that is done finds the changed value. -/
theorem get_changedAt_of_mem
    (h : ∀ above ∈ done, above.segments <+: path.segments → above = path)
    (hvalue : (document.get path).value = some value) (hmem : path ∈ done)
    (change : Document → Document) :
    ((document.changedAt done change).get path).value = some (change value) :=
  get_revised_of_eq_some (keptAbove_changing h) hvalue (if_pos hmem)

/-- The write of the changed value at one more path succeeds, and this path is
done then. -/
theorem set_changedAt
    (h : ∀ above ∈ done, above.segments <+: path.segments → above = path)
    (hvalue : (document.get path).value = some value) (change : Document → Document) :
    ((document.changedAt done change).set path (change value)).error? = none ∧
      ((document.changedAt done change).set path (change value)).document =
        document.changedAt (done ++ [path]) change := by
  refine set_revised (keptAbove_changing h) hvalue (if_pos (by simp)) fun place found hplace => ?_
  have hne : place ≠ path := by
    rintro rfl
    exact hplace List.prefix_rfl
  simp [changing, hne]

/-! ## Paths to scalars -/

/-- A path to a scalar is no beginning of another path that leads to a
value. -/
theorem eq_of_prefix_of_scalar {above : Path} {found : Document}
    (hfound : (document.get above).value = some found)
    (hscalar : ¬ (found.kind = .array ∨ found.kind = .object))
    (hvalue : (document.get path).value = some value)
    (hbegins : above.segments <+: path.segments) : above = path := by
  obtain ⟨rest, hrest⟩ := hbegins
  rw [value_get_eq_some_iff] at hfound hvalue
  rw [← hrest, Json.follow_append hfound] at hvalue
  rw [Json.eq_nil_of_follow_scalar hscalar hvalue, List.append_nil] at hrest
  exact Path.ext_segments hrest

/-- At the end of every path there is a scalar. -/
def LeadToScalars (document : Document) (paths : List Path) : Prop :=
  ∀ path ∈ paths, ∃ value, (document.get path).value = some value ∧
    ¬ (value.kind = .array ∨ value.kind = .object)

theorem LeadToScalars.left {others : List Path} (h : document.LeadToScalars (done ++ others)) :
    document.LeadToScalars done :=
  fun path hpath => h path (List.mem_append_left others hpath)

/-- After the updates at some paths, a read at one more path finds the old
value, and the write of what it becomes succeeds. -/
theorem LeadToScalars.step (h : document.LeadToScalars (done ++ [path]))
    (hnodup : (done ++ [path]).Nodup) (change : Document → Document) :
    ∃ value, (document.get path).value = some value ∧
      ((document.changedAt done change).get path).value = some value ∧
      ((document.changedAt done change).set path (change value)).error? = none ∧
      ((document.changedAt done change).set path (change value)).document =
        document.changedAt (done ++ [path]) change := by
  obtain ⟨value, hvalue, hscalar⟩ := h path (by simp)
  have habove : ∀ above ∈ done, above.segments <+: path.segments → above = path := by
    intro above hmem hbegins
    obtain ⟨found, hfound, hkind⟩ := h.left above hmem
    exact eq_of_prefix_of_scalar hfound hkind hvalue hbegins
  have hnew : path ∉ done := by
    intro hmem
    exact (List.nodup_append.1 hnodup).2.2 path hmem path (by simp) rfl
  obtain ⟨haccepted, hdocument⟩ := set_changedAt habove hvalue change
  exact ⟨value, hvalue, get_changedAt_of_not_mem habove hvalue hscalar hnew change,
    haccepted, hdocument⟩

/-! ## Runs of updates -/

/-- Reads the value at a path, and writes what it becomes there.  Where no
value is found nothing is written. -/
def update (change : Document → Document) (document : Document) (path : Path) : Document :=
  match (document.get path).value with
  | none => document
  | some value => (document.set path (change value)).document

/-- Updates the value at each path in turn. -/
def updateEach (document : Document) (change : Document → Document) (paths : List Path) :
    Document :=
  paths.foldl (update change) document

/-- After a run along different paths to scalars, the values at these paths
are changed.  The induction adds a path at the end. -/
theorem updateEach_eq_changedAt {paths : List Path} (h : document.LeadToScalars paths)
    (hnodup : paths.Nodup) (change : Document → Document) :
    document.updateEach change paths = document.changedAt paths change := by
  induction paths using List.reverseRecOn with
  | nil => exact (changedAt_nil document change).symm
  | append_singleton done path ih =>
    have hlast : document.updateEach change (done ++ [path]) =
        update change (document.updateEach change done) path := by
      rw [updateEach, List.foldl_append]
      rfl
    obtain ⟨value, -, hread, -, hdocument⟩ := h.step hnodup change
    rw [hlast, ih h.left (List.nodup_append.1 hnodup).1, update, hread]
    exact hdocument

/-- The update of all scalars of one kind, along their paths in any order.
No path comes twice.  Every read finds the value that was there at the start,
every write succeeds, and in the end the values of this kind are changed and
all else is as it was. -/
theorem updateEach_pathsOf_scalar (document : Document) (kind : Kind)
    (change : Document → Document) (order : List Path)
    (hscalar : ¬ (kind = .array ∨ kind = .object)) (hindexable : document.root.Indexable)
    (horder : order.Perm (document.pathsOf kind).value) :
    order.Nodup ∧
      (∀ before path after, order = before ++ path :: after →
        ∃ value, (document.get path).value = some value ∧ value.kind = kind ∧
          ((document.updateEach change before).get path).value = some value ∧
          ((document.updateEach change before).set path (change value)).error? = none) ∧
      document.updateEach change order =
        document.revised fun _ value =>
          if value.kind = kind then some (change value) else none := by
  have hlisted : ∀ path, path ∈ order ↔
      ∃ value, (document.get path).value = some value ∧ value.kind = kind :=
    fun path => horder.mem_iff.trans (mem_pathsOf_iff hindexable)
  have hnodup : order.Nodup := horder.nodup_iff.2 (nodup_pathsWhere hindexable _)
  have hscalars : document.LeadToScalars order := by
    intro path hpath
    obtain ⟨value, hvalue, rfl⟩ := (hlisted path).1 hpath
    exact ⟨value, hvalue, hscalar⟩
  refine ⟨hnodup, ?_, ?_⟩
  · intro before path after heq
    rw [heq, List.append_cons] at hnodup hscalars
    have hdone := (List.nodup_append.1 hnodup).1
    obtain ⟨value, hvalue, hread, haccepted, -⟩ := hscalars.left.step hdone change
    obtain ⟨found, hfound, hkind⟩ := (hlisted path).1 (by simp [heq])
    obtain rfl := Option.some.inj (hvalue.symm.trans hfound)
    rw [updateEach_eq_changedAt hscalars.left.left (List.nodup_append.1 hdone).1]
    exact ⟨value, hvalue, hkind, hread, haccepted⟩
  · rw [updateEach_eq_changedAt hscalars hnodup]
    refine revised_congr hindexable fun path value hvalue => ?_
    have hmem : path ∈ order ↔ value.kind = kind := by
      rw [hlisted, hvalue]
      simp
    simp only [changing, hmem]

/-- A `null` beside an array that starts with one. -/
def gaps : Document := .object [("first", .null), ("items", .array [.null, .bool true])]

theorem indexable_gaps : gaps.root.Indexable := by
  show Json.Indexable (.object [("first", .null), ("items", .array [.null, .bool true])])
  refine .object (List.forall_mem_cons.2 ⟨.null, List.forall_mem_singleton.2 ?_⟩)
  refine .array (by decide) (List.forall_mem_cons.2 ⟨.null, ?_⟩)
  exact List.forall_mem_singleton.2 (.bool true)

/-- The path of the first member of `gaps`. -/
def firstPath : Path := .single ⟨"first", by decide, by decide⟩

/-- Every `null` is wrapped in an array, the last one first. -/
theorem updateEach_pathsOf_scalar_gaps :
    ¬ (Kind.null = .array ∨ Kind.null = .object) ∧ gaps.root.Indexable ∧
      [nearItem, firstPath].Perm (gaps.pathsOf .null).value ∧
      gaps.updateEach (fun value => .array [value]) [nearItem, firstPath] =
        .object [("first", .array [.null]), ("items", .array [.array [.null], .bool true])] := by
  have hscalar : ¬ (Kind.null = .array ∨ Kind.null = .object) := by decide
  have horder : [nearItem, firstPath].Perm (gaps.pathsOf .null).value :=
    List.Perm.swap firstPath nearItem []
  refine ⟨hscalar, indexable_gaps, horder, ?_⟩
  have hupdated := (updateEach_pathsOf_scalar gaps .null (fun value => .array [value])
    [nearItem, firstPath] hscalar indexable_gaps horder).2.2
  rw [hupdated]
  exact ext_root rfl

end Document

end Dotted
