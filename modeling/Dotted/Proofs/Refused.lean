import Dotted.Proofs.Written

/-!
# When a write is refused

The document and the path decide whether a write is refused, and the leaf has
no part in it.  Segments lead from the root to one value after the other until
none is left or the next one leads nowhere.  The value where that happens
takes the next segment or refuses it.  If it takes the segment, everything
below is made by the write itself, and nothing there is refused.

* `LongestPrefix` says how far segments lead, and `Refuses` lists the three
  reasons for which a value does not take a segment.
* `exists_longestPrefix_written_eq_error_iff` decides a write by the value at
  the end of the longest prefix.
* `error?_set_iff_longest_prefix_refuses` says so of `Document.set`.
-/

namespace Dotted

namespace Json

/-- The first `depth` of the segments lead to `value`, and no more of them
lead anywhere. -/
structure LongestPrefix (node : Json) (segments : List Segment) (depth : Nat) (value : Json) :
    Prop where
  within : depth ≤ segments.length
  leads : node.follow (segments.take depth) = .ok value
  longest : ∀ other ≤ segments.length, ∀ found,
    node.follow (segments.take other) = .ok found → other ≤ depth

/-- A value does not take a segment: it is a scalar, or an array to which the
segment is no position, or one that lies too far past the end. -/
inductive Refuses : Json → Segment → Refusal → Prop where
  | notAContainer {value : Json} {segment : Segment} (harray : value.kind ≠ .array)
      (hobject : value.kind ≠ .object) : Refuses value segment (.notAContainer value.kind)
  | notAnIndex {items : List Json} {segment : Segment} (hindex : segment.index? = none) :
      Refuses (.array items) segment (.notAnIndex segment)
  | indexOutOfRange {items : List Json} {segment : Segment} {index : Nat}
      (hindex : segment.index? = some index) (hfar : 65536 < index - items.length) :
      Refuses (.array items) segment (.indexOutOfRange index items.length)

/-! ## Longest prefixes -/

theorem longestPrefix_nil (node : Json) : node.LongestPrefix [] 0 node where
  within := Nat.le_refl 0
  leads := rfl
  longest _ h _ _ := h

/-- A segment that selects nothing ends the longest prefix before it. -/
theorem longestPrefix_of_child?_eq_none {node : Json} {segment : Segment}
    (h : node.child? segment = none) (rest : List Segment) :
    node.LongestPrefix (segment :: rest) 0 node where
  within := Nat.zero_le _
  leads := rfl
  longest other _ found hfound := by
    cases other with
    | zero => exact Nat.le_refl 0
    | succ other =>
      rw [List.take_succ_cons, follow_cons_eq_ok_iff] at hfound
      obtain ⟨child, hchild, -⟩ := hfound
      rw [h] at hchild
      cases hchild

/-- A segment that selects a child adds one to the longest prefix there. -/
theorem LongestPrefix.cons {node child value : Json} {segment : Segment} {rest : List Segment}
    {depth : Nat} (hchild : node.child? segment = some child)
    (h : child.LongestPrefix rest depth value) :
    node.LongestPrefix (segment :: rest) (depth + 1) value where
  within := Nat.succ_le_succ h.within
  leads := follow_cons_eq_ok_iff.2 ⟨child, hchild, h.leads⟩
  longest other hlength found hfound := by
    cases other with
    | zero => exact Nat.zero_le _
    | succ other =>
      rw [List.take_succ_cons, follow_cons_eq_ok_iff] at hfound
      obtain ⟨below, hbelow, hrest⟩ := hfound
      rw [hchild] at hbelow
      cases hbelow
      exact Nat.succ_le_succ (h.longest other (Nat.le_of_succ_le_succ hlength) found hrest)

/-! ## Refused segments -/

theorem enter_eq_error_iff {node : Json} {segment : Segment} {refusal : Refusal} :
    node.enter segment = .error refusal ↔ node.Refuses segment refusal := by
  constructor
  · intro h
    unfold enter at h
    split at h
    · cases h
    · next items =>
      split at h
      · next hindex =>
        cases h
        exact .notAnIndex hindex
      · next index hindex =>
        split at h
        · cases h
        · next hgap =>
          cases h
          exact .indexOutOfRange hindex (by rw [maxGap] at hgap; omega)
    · next hobject harray =>
      cases h
      cases node with
      | object members => exact absurd rfl (hobject members)
      | array items => exact absurd rfl (harray items)
      | _ => exact .notAContainer (by simp [kind]) (by simp [kind])
  · intro h
    cases h with
    | notAContainer harray hobject =>
      cases node with
      | object members => exact absurd rfl hobject
      | array items => exact absurd rfl harray
      | _ => rfl
    | notAnIndex hindex => rw [enter, hindex]
    | indexOutOfRange hindex hfar =>
      have hgap : ¬ _ ≤ maxGap := Nat.not_le.2 hfar
      rw [enter_array hindex, if_neg hgap]

/-- Where a segment selects nothing, a write goes on in an empty object. -/
theorem childOrNew_of_child?_eq_none {node : Json} {segment : Segment} {step : Step}
    (hchild : node.child? segment = none) (henter : node.enter segment = .ok step) :
    node.childOrNew step = .object [] := by
  rw [child?_of_enter henter] at hchild
  exact childOrNew_of_step?_eq_none hchild

/-- Where the first segment selects nothing, only that segment can be
refused. -/
theorem written_eq_error_iff_of_child?_eq_none {node leaf : Json} {segment : Segment}
    (hchild : node.child? segment = none) {rest : List Segment} {failure : Failure} :
    node.written leaf (segment :: rest) = .error failure ↔
      failure.depth = 0 ∧ node.Refuses segment failure.refusal := by
  rw [written_cons_eq_error_iff, ← enter_eq_error_iff]
  constructor
  · intro hfailed
    rcases hfailed with ⟨refusal, henter, rfl⟩ | ⟨step, below, henter, hbelow, -⟩
    · exact ⟨rfl, henter⟩
    · obtain ⟨new, hnew⟩ := written_emptyObject leaf rest
      rw [childOrNew_of_child?_eq_none hchild henter, hnew] at hbelow
      cases hbelow
  · intro hrefused
    obtain ⟨depth, refusal⟩ := failure
    obtain ⟨hdepth, henter⟩ := hrefused
    cases hdepth
    exact Or.inl ⟨refusal, henter, rfl⟩

/-- Where the first segment selects a child, a write is refused exactly if the
write to the child is. -/
theorem written_eq_error_iff_of_child?_eq_some {node child leaf : Json} {segment : Segment}
    (hchild : node.child? segment = some child) {rest : List Segment} {failure : Failure} :
    node.written leaf (segment :: rest) = .error failure ↔
      ∃ below, child.written leaf rest = .error below ∧ failure = below.deeper := by
  obtain ⟨step, henter, hstep⟩ := enter_of_child? hchild
  have hdown : node.childOrNew step = child := childOrNew_of_step?_eq_some hstep
  rw [written_cons_eq_error_iff]
  constructor
  · intro hfailed
    rcases hfailed with ⟨refusal, hrefused, -⟩ | ⟨other, below, hother, hbelow, hfailure⟩
    · rw [henter] at hrefused
      cases hrefused
    · rw [henter] at hother
      cases hother
      rw [hdown] at hbelow
      exact ⟨below, hbelow, hfailure⟩
  · intro hfailed
    obtain ⟨below, hbelow, hfailure⟩ := hfailed
    rw [← hdown] at hbelow
    exact Or.inr ⟨step, below, henter, hbelow, hfailure⟩

/-- The value at the end of the longest prefix decides: a write is refused
exactly if a segment is left there which the value does not take.  The
induction follows the prefix down. -/
theorem exists_longestPrefix_written_eq_error_iff (node : Json) (segments : List Segment) :
    ∃ depth value, node.LongestPrefix segments depth value ∧
      ∀ leaf failure, node.written leaf segments = .error failure ↔
        ∃ segment, segments[depth]? = some segment ∧ failure.depth = depth ∧
          value.Refuses segment failure.refusal := by
  induction segments generalizing node with
  | nil =>
    refine ⟨0, node, longestPrefix_nil node, fun leaf failure => ?_⟩
    constructor
    · intro h
      cases h
    · intro hleft
      obtain ⟨segment, hsegment, -⟩ := hleft
      cases hsegment
  | cons segment rest ih =>
    cases hchild : node.child? segment with
    | none =>
      refine ⟨0, node, longestPrefix_of_child?_eq_none hchild rest, fun leaf failure => ?_⟩
      rw [written_eq_error_iff_of_child?_eq_none hchild]
      simp
    | some child =>
      obtain ⟨depth, value, hlongest, hfails⟩ := ih child
      refine ⟨depth + 1, value, hlongest.cons hchild, fun leaf failure => ?_⟩
      rw [written_eq_error_iff_of_child?_eq_some hchild]
      constructor
      · intro hfailed
        obtain ⟨below, hbelow, rfl⟩ := hfailed
        obtain ⟨last, hlast, hdepth, hrefuses⟩ := (hfails leaf below).1 hbelow
        exact ⟨last, hlast, congrArg Nat.succ hdepth, hrefuses⟩
      · intro hleft
        obtain ⟨last, hlast, hdepth, hrefuses⟩ := hleft
        refine ⟨⟨depth, failure.refusal⟩, (hfails _ _).2 ⟨last, hlast, rfl, hrefuses⟩, ?_⟩
        obtain ⟨failed, refusal⟩ := failure
        exact congrArg (Failure.mk · refusal) hdepth

end Json

namespace Document

/-- A write is refused exactly if the longest prefix of the path that leads
anywhere ends before the path does, at a value that does not take the next
segment.  The error says where that is and why, whatever the leaf. -/
theorem error?_set_iff_longest_prefix_refuses (document : Document) (path : Path) :
    ∃ depth value, document.root.LongestPrefix path.segments depth value ∧
      (∀ leaf error, (document.set path leaf).error? = some error ↔
        ∃ segment, path.segments[depth]? = some segment ∧
          error.location =
            (if depth = 0 then "(root)" else joined (path.segments.take depth)) ∧
          value.Refuses segment error.refusal) ∧
      ∀ leaf other, (document.set path leaf).error? = (document.set path other).error? := by
  obtain ⟨depth, value, hlongest, hfails⟩ :=
    Json.exists_longestPrefix_written_eq_error_iff document.root path.segments
  have hiff : ∀ leaf error, (document.set path leaf).error? = some error ↔
      ∃ segment, path.segments[depth]? = some segment ∧
        error.location = path.location depth ∧ value.Refuses segment error.refusal := by
    intro leaf error
    rw [error?_set_eq_some_iff]
    constructor
    · intro hfailed
      obtain ⟨failure, hfailure, rfl⟩ := hfailed
      obtain ⟨segment, hsegment, hdepth, hrefuses⟩ := (hfails _ _).1 hfailure
      exact ⟨segment, hsegment, congrArg path.location hdepth, hrefuses⟩
    · intro hleft
      obtain ⟨segment, hsegment, hlocation, hrefuses⟩ := hleft
      refine ⟨⟨depth, error.refusal⟩, (hfails _ _).2 ⟨segment, hsegment, rfl, hrefuses⟩, ?_⟩
      rw [← hlocation]
  refine ⟨depth, value, hlongest, hiff, fun leaf other => ?_⟩
  refine Option.ext fun error => ?_
  exact (hiff leaf error).trans (hiff other error).symm

end Document

end Dotted
