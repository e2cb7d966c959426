import Dotted.Proofs.BulkUpdate
import Dotted.Proofs.PathText

/-!
# Overwriting the values at listed paths by a scalar

One scalar is written at every listed path, one after the other.  Where values
of the list lie inside each other, the first write puts the scalar in the place
of the outermost one, and every later write that leads through this place is
refused there.  The list names every value before those inside it.  So the
outermost writes succeed, all others are refused, and what has been written
once stays.

* `Path.OutermostIn` says which paths are outermost;
  `Path.exists_outermostIn` and `Path.OutermostIn.eq_of_prefix`: every listed
  path goes on from exactly one of them.
* `Document.set_below_scalar` is a write that leads through a scalar.
* `Document.overwritten` is the document in the middle of a run.
  `Document.set_overwritten_of_outermost` and
  `Document.set_overwritten_of_inner` are the two cases of a step, and
  `Document.setEach_eq_overwritten` is the run.
* `Document.setEach_pathsOf_overwrites_outermost` states every single write
  and the outcome of all.
-/

namespace Dotted

namespace Path

/-- The path is listed, and no other listed path is a beginning of it. -/
def OutermostIn (path : Path) (listed : List Path) : Prop :=
  path ∈ listed ∧ ∀ above ∈ listed, above.segments <+: path.segments → above = path

instance (path : Path) (listed : List Path) : Decidable (path.OutermostIn listed) :=
  inferInstanceAs (Decidable (path ∈ listed ∧
    ∀ above ∈ listed, above.segments <+: path.segments → above = path))

variable {path outer other : Path} {listed : List Path}

/-- A path goes on from one outermost path only. -/
theorem OutermostIn.eq_of_prefix (houter : outer.OutermostIn listed)
    (hother : other.OutermostIn listed) (h : outer.segments <+: path.segments)
    (hbeside : other.segments <+: path.segments) : other = outer := by
  rcases List.prefix_or_prefix_of_prefix h hbeside with hbegins | hbegins
  · exact (hother.2 outer houter.1 hbegins).symm
  · exact houter.2 other hother.1 hbegins

/-- Every listed path goes on from an outermost one.  The induction is on the
length of the path. -/
theorem exists_outermostIn (h : path ∈ listed) :
    ∃ outer : Path, outer.OutermostIn listed ∧ outer.segments <+: path.segments := by
  induction hlength : path.length using Nat.strong_induction_on generalizing path with
  | _ length ih =>
    by_cases houtermost : path.OutermostIn listed
    · exact ⟨path, houtermost, List.prefix_rfl⟩
    · obtain ⟨above, habove, hbegins, hne⟩ : ∃ above ∈ listed,
          above.segments <+: path.segments ∧ above ≠ path := by
        simpa [OutermostIn, h] using houtermost
      have hshorter : above.length < length := by
        rw [← hlength]
        refine Nat.lt_of_le_of_ne hbegins.length_le fun heq => hne ?_
        exact ext_segments (hbegins.eq_of_length heq)
      obtain ⟨outer, houter, hfirst⟩ := ih above.length hshorter habove rfl
      exact ⟨outer, houter, hfirst.trans hbegins⟩

end Path

/-- Nothing can be written below a scalar. -/
theorem Json.written_below_scalar {node value : Json} {above rest : List Segment}
    (hfollow : node.follow above = .ok value)
    (hscalar : ¬ (value.kind = .array ∨ value.kind = .object)) (hrest : rest ≠ []) (leaf : Json) :
    node.written leaf (above ++ rest) = .error ⟨above.length, .notAContainer value.kind⟩ := by
  obtain ⟨segment, rest, rfl⟩ := List.exists_cons_of_ne_nil hrest
  have henter : value.enter segment = .error (.notAContainer value.kind) := by
    cases value <;> simp [kind] at hscalar <;> rfl
  exact written_append_eq_error hfollow (written_cons_of_refused henter rest)

namespace Document

variable {document value leaf : Document} {path outer : Path} {listed done after : List Path}
  {kind : Kind}

/-- A write along a path that leads through a scalar is refused there, and
changes nothing. -/
theorem set_below_scalar (hvalue : (document.get outer).value = some value)
    (hscalar : ¬ (value.kind = .array ∨ value.kind = .object))
    (hbegins : outer.segments <+: path.segments) (hne : outer ≠ path) (leaf : Document) :
    (document.set path leaf).error? = some ⟨outer.text, .notAContainer value.kind⟩ ∧
      (document.set path leaf).document = document := by
  obtain ⟨rest, hrest⟩ := id hbegins
  have hproper : rest ≠ [] := by
    rintro rfl
    rw [List.append_nil] at hrest
    exact hne (Path.ext_segments hrest)
  have hrefused := Json.written_below_scalar (value_get_eq_some_iff.1 hvalue) hscalar hproper
    leaf.root
  rw [hrest] at hrefused
  rw [← Path.location_of_prefix hbegins]
  exact set_of_written_eq_error hrefused

/-! ## The state of a run -/

/-- The document after some of the listed paths are done: the leaf is at those
of them that are outermost in the list. -/
def overwritten (document leaf : Document) (listed done : List Path) : Document :=
  document.changedAt (done.filter fun path => path.OutermostIn listed) fun _ => leaf

theorem overwritten_of_outermost (h : path.OutermostIn listed) :
    document.overwritten leaf listed (done ++ [path]) =
      document.changedAt ((done.filter fun path => path.OutermostIn listed) ++ [path])
        fun _ => leaf := by
  simp [overwritten, h]

theorem overwritten_of_inner (h : ¬ path.OutermostIn listed) :
    document.overwritten leaf listed (done ++ [path]) = document.overwritten leaf listed done := by
  simp [overwritten, h]

/-- None of the outermost paths that are done lead to a place above another
outermost one. -/
theorem eq_of_prefix_of_done (houter : outer.OutermostIn listed)
    (hdone : ∀ above ∈ done, above ∈ listed) :
    ∀ above ∈ done.filter fun path => path.OutermostIn listed,
      above.segments <+: outer.segments → above = outer :=
  fun above hmem => houter.2 above (hdone above (List.mem_filter.1 hmem).1)

/-- All of the list has been done. -/
theorem overwritten_self (document leaf : Document) (listed : List Path) :
    document.overwritten leaf listed listed =
      document.revised fun path _ => if path.OutermostIn listed then some leaf else none := by
  refine congrArg document.revised (funext fun path => funext fun value => ?_)
  have hmem : path ∈ listed.filter (fun path => path.OutermostIn listed) ↔
      path.OutermostIn listed := by
    rw [List.mem_filter, decide_eq_true_iff]
    exact and_iff_right_of_imp And.left
  simp only [changing, hmem]

/-! ## Steps of a run -/

theorem mem_listed_of_done (hlisted : listed = done ++ after) : ∀ path ∈ done, path ∈ listed := by
  intro path hpath
  rw [hlisted]
  exact List.mem_append_left _ hpath

/-- The write at an outermost path succeeds. -/
theorem set_overwritten_of_outermost (hindexable : document.root.Indexable)
    (hlisted : (document.pathsOf kind).value = done ++ path :: after)
    (houtermost : path.OutermostIn (document.pathsOf kind).value) (leaf : Document) :
    let now := document.overwritten leaf (document.pathsOf kind).value done
    (now.set path leaf).error? = none ∧
      (now.set path leaf).document =
        document.overwritten leaf (document.pathsOf kind).value (done ++ [path]) := by
  have habove := eq_of_prefix_of_done houtermost (mem_listed_of_done hlisted)
  obtain ⟨value, hvalue, -⟩ := (mem_pathsOf_iff hindexable).1 houtermost.1
  rw [overwritten_of_outermost houtermost]
  exact set_changedAt habove hvalue (fun _ => leaf)

/-- The write at a path that is not outermost is refused at the end of an
outermost one, because this is listed before it and leads to the leaf. -/
theorem set_overwritten_of_inner (hindexable : document.root.Indexable)
    (hlisted : (document.pathsOf kind).value = done ++ path :: after)
    (hinner : ¬ path.OutermostIn (document.pathsOf kind).value)
    (hleaf : ¬ (leaf.kind = .array ∨ leaf.kind = .object)) :
    let now := document.overwritten leaf (document.pathsOf kind).value done
    ∃ outer : Path, outer.OutermostIn (document.pathsOf kind).value ∧
      outer.segments <+: path.segments ∧
      (now.set path leaf).error? = some ⟨outer.text, .notAContainer leaf.kind⟩ ∧
      (now.set path leaf).document = now := by
  have hpath : path ∈ (document.pathsOf kind).value := by simp [hlisted]
  obtain ⟨outer, houter, hbegins⟩ := Path.exists_outermostIn hpath
  have hne : outer ≠ path := fun heq => hinner (heq ▸ houter)
  have hdone : outer ∈ done := mem_before_of_prefix hindexable hlisted houter.1 hbegins hne
  obtain ⟨value, hvalue, -⟩ := (mem_pathsOf_iff hindexable).1 houter.1
  have habove := eq_of_prefix_of_done houter (mem_listed_of_done hlisted)
  have hleft := get_changedAt_of_mem habove hvalue
    (List.mem_filter.2 ⟨hdone, decide_eq_true houter⟩) (fun _ => leaf)
  exact ⟨outer, houter, hbegins, set_below_scalar hleft hleaf hbegins hne leaf⟩

/-! ## Whole runs -/

/-- The writes of a list go on where those of its beginning have ended. -/
theorem document_setEach_append (document leaf : Document) (first second : List Path) :
    (document.setEach leaf (first ++ second)).document =
      ((document.setEach leaf first).document.setEach leaf second).document := by
  induction first generalizing document with
  | nil => rfl
  | cons path first ih => exact ih (document.set path leaf).document

/-- After the writes at the first of the listed paths, the leaf is at those of
them that are outermost.  The induction adds a path at the end. -/
theorem setEach_eq_overwritten (hindexable : document.root.Indexable)
    (hleaf : ¬ (leaf.kind = .array ∨ leaf.kind = .object))
    (hlisted : (document.pathsOf kind).value = done ++ after) :
    (document.setEach leaf done).document =
      document.overwritten leaf (document.pathsOf kind).value done := by
  induction done using List.reverseRecOn generalizing after with
  | nil => exact (changedAt_nil document fun _ => leaf).symm
  | append_singleton done path ih =>
    rw [← List.append_cons] at hlisted
    rw [document_setEach_append, ih hlisted]
    show (set _ path leaf).document = _
    by_cases houtermost : path.OutermostIn (document.pathsOf kind).value
    · exact (set_overwritten_of_outermost hindexable hlisted houtermost leaf).2
    · obtain ⟨outer, -, -, -, hsame⟩ :=
        set_overwritten_of_inner hindexable hlisted houtermost hleaf
      rw [hsame, overwritten_of_inner houtermost]

/-- A scalar is written at all paths listed for one kind.  The write at an
outermost path succeeds.  Every other write is refused at the one outermost
path that is a beginning of its own, where the scalar is by then, and changes
nothing.  In the end the values at the outermost paths are replaced, and all
else is as it was. -/
theorem setEach_pathsOf_overwrites_outermost (document leaf : Document) (kind : Kind)
    (hleaf : ¬ (leaf.kind = .array ∨ leaf.kind = .object))
    (hindexable : document.root.Indexable) :
    (∀ before path after, (document.pathsOf kind).value = before ++ path :: after →
      let now := (document.setEach leaf before).document
      ((now.set path leaf).error? = none ↔ path.OutermostIn (document.pathsOf kind).value) ∧
        (¬ path.OutermostIn (document.pathsOf kind).value →
          (now.set path leaf).document = now ∧
          ∃ outer : Path,
            (∀ other : Path, other.OutermostIn (document.pathsOf kind).value ∧
              other.segments <+: path.segments ↔ other = outer) ∧
            (now.set path leaf).error? = some ⟨outer.text, .notAContainer leaf.kind⟩)) ∧
      (document.setEach leaf (document.pathsOf kind).value).document =
        document.revised fun path _ =>
          if path.OutermostIn (document.pathsOf kind).value then some leaf else none := by
  constructor
  · intro before path after hlisted now
    have hnow : now = document.overwritten leaf (document.pathsOf kind).value before :=
      setEach_eq_overwritten hindexable hleaf hlisted
    rw [hnow]
    by_cases houtermost : path.OutermostIn (document.pathsOf kind).value
    · have haccepted := (set_overwritten_of_outermost hindexable hlisted houtermost leaf).1
      exact ⟨iff_of_true haccepted houtermost, fun hinner => absurd houtermost hinner⟩
    · obtain ⟨outer, houter, hbegins, hrefused, hsame⟩ :=
        set_overwritten_of_inner hindexable hlisted houtermost hleaf
      refine ⟨iff_of_false (by simp [hrefused]) houtermost, fun _ => ⟨hsame, outer, ?_, hrefused⟩⟩
      intro other
      constructor
      · exact fun hother => houter.eq_of_prefix hother.1 hbegins hother.2
      · rintro rfl
        exact ⟨houter, hbegins⟩
  · rw [setEach_eq_overwritten hindexable hleaf (List.append_nil _).symm]
    exact overwritten_self document leaf _

/-- In `table` the rows are an array with an array in it.  Once the rows are
overwritten, the write at the inner array is refused where they were. -/
theorem setEach_pathsOf_overwrites_outermost_table :
    ¬ ((bool true).kind = .array ∨ (bool true).kind = .object) ∧ table.root.Indexable ∧
      (table.pathsOf .array).value = [rowsPath, rowsPath.push (.ofIndex 0)] ∧
      ((table.setEach (bool true) [rowsPath]).document.set (rowsPath.push (.ofIndex 0))
        (bool true)).error? = some ⟨rowsPath.text, .notAContainer .bool⟩ := by
  have hleaf : ¬ ((bool true).kind = .array ∨ (bool true).kind = .object) := by decide
  have hlisted : (table.pathsOf .array).value = [rowsPath, rowsPath.push (.ofIndex 0)] := by decide
  refine ⟨hleaf, indexable_table, hlisted, ?_⟩
  have hsteps := (setEach_pathsOf_overwrites_outermost table (bool true) .array hleaf
    indexable_table).1 [rowsPath] (rowsPath.push (.ofIndex 0)) [] hlisted
  rw [hlisted] at hsteps
  obtain ⟨-, outer, hunique, hrefused⟩ := hsteps.2 (by decide)
  obtain rfl := (hunique rowsPath).1 (by decide)
  exact hrefused

end Document

end Dotted
