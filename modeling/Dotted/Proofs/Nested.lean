import Dotted.Proofs.Commute
import Dotted.Proofs.Refused

/-!
# Writes along a path that goes on

A path can be cut in two anywhere.  A write along the whole path is a write
along its second part, into the value at the end of the first part, and then
a write of the value that comes out along the first part.  If the first part
leads nowhere, the second part is written into a new empty object.

This also says what a write leaves of earlier ones.  A write to a place
replaces whatever an earlier write has put there or below, and the earlier
write has made nothing else that the later one would not make.

* `Json.written_append` and `Json.written_append_eq_error` cut a write in two.
* `Json.written_written` is the law of two writes to one place, and
  `Json.written_written_append` the one of a write below a place and then a
  write to it.
* `Document.set_extend_is_nested_set` and `Document.set_absorbs_set_below`
  state both for documents.
-/

namespace Dotted

/-- The path that goes on with `segments` where `path` ends. -/
def Path.extend (path : Path) (segments : List Segment) : Path :=
  ⟨path.segments ++ segments, by simp [path.nonempty]⟩

/-- The beginning of a path is at the same location whether or not the path
goes on. -/
theorem Path.location_extend (path : Path) (segments : List Segment) {depth : Nat}
    (h : depth ≤ path.length) : (path.extend segments).location depth = path.location depth := by
  unfold location extend
  rw [List.take_append_of_le_length h]

/-- The same failure, seen from `depth` segments further up. -/
def Failure.under (depth : Nat) (failure : Failure) : Failure :=
  { failure with depth := depth + failure.depth }

namespace Json

variable {node leaf : Json} {above rest : List Segment}

/-- What a write goes on with at the end of some segments: the value there, or
else a new empty object. -/
def nodeOrNew (node : Json) (segments : List Segment) : Json :=
  match node.follow segments with
  | .ok value => value
  | .error _ => .object []

/-! ## The end of the first part -/

theorem nodeOrNew_of_follow_eq_ok {value : Json} (h : node.follow above = .ok value) :
    node.nodeOrNew above = value := by
  rw [nodeOrNew, h]

theorem nodeOrNew_of_follow_eq_error {miss : Miss} (h : node.follow above = .error miss) :
    node.nodeOrNew above = .object [] := by
  rw [nodeOrNew, h]

theorem nodeOrNew_emptyObject (segments : List Segment) :
    (Json.object []).nodeOrNew segments = .object [] := by
  cases segments <;> rfl

/-- One segment down, the rest of the segments ends where all of them end. -/
theorem nodeOrNew_childOrNew {segment : Segment} {step : Step}
    (h : node.enter segment = .ok step) (rest : List Segment) :
    (node.childOrNew step).nodeOrNew rest = node.nodeOrNew (segment :: rest) := by
  rw [nodeOrNew.eq_1 node, follow, child?_of_enter h]
  cases hstep : node.step? step with
  | none =>
    rw [childOrNew_of_step?_eq_none hstep]
    exact nodeOrNew_emptyObject rest
  | some child =>
    rw [childOrNew_of_step?_eq_some hstep, nodeOrNew]
    show _ = match (child.follow rest).mapError Miss.deeper with
      | .ok value => value
      | .error _ => Json.object []
    cases child.follow rest <;> rfl

/-- A value can be written wherever something is. -/
theorem written_of_follow_eq_ok {value : Json} (h : node.follow above = .ok value) (leaf : Json) :
    ∃ new, node.written leaf above = .ok new := by
  induction above generalizing node with
  | nil => exact ⟨leaf, rfl⟩
  | cons segment above ih =>
    obtain ⟨child, hchild, hbelow⟩ := follow_cons_eq_ok_iff.1 h
    obtain ⟨step, henter, hstep⟩ := enter_of_child? hchild
    obtain ⟨new, hnew⟩ := ih hbelow
    rw [← childOrNew_of_step?_eq_some hstep] at hnew
    exact ⟨node.put step new, written_cons_eq_ok_iff.2 ⟨step, new, henter, hnew, rfl⟩⟩

/-! ## Writes in two parts -/

/-- If the write along the second part succeeds, the write along both parts
does what a write of its result along the first part does. -/
theorem written_append {child : Json} (h : (node.nodeOrNew above).written leaf rest = .ok child) :
    node.written leaf (above ++ rest) = node.written child above := by
  induction above generalizing node with
  | nil => exact h
  | cons segment above ih =>
    rw [List.cons_append]
    cases henter : node.enter segment with
    | error refusal =>
      rw [written_cons_of_refused henter, written_cons_of_refused henter]
    | ok step =>
      rw [← nodeOrNew_childOrNew henter] at h
      rw [written_cons_of_enter henter, written_cons_of_enter henter, ih h]

/-- If the write along the second part is refused, so is the write along both
parts, for the same reason and as much deeper as the first part is long. -/
theorem written_append_eq_error {value : Json} {failure : Failure}
    (hfollow : node.follow above = .ok value) (h : value.written leaf rest = .error failure) :
    node.written leaf (above ++ rest) = .error (failure.under above.length) := by
  induction above generalizing node with
  | nil =>
    cases hfollow
    rw [List.nil_append, h, List.length_nil, Failure.under, Nat.zero_add]
  | cons segment above ih =>
    obtain ⟨child, hchild, hbelow⟩ := follow_cons_eq_ok_iff.1 hfollow
    rw [List.cons_append, written_eq_error_iff_of_child?_eq_some hchild]
    refine ⟨failure.under above.length, ih hbelow, ?_⟩
    rw [Failure.under, Failure.under, Failure.deeper, List.length_cons, Nat.add_right_comm]

/-- A write along two parts that succeeds also succeeds along the second part
alone.  It cannot be refused in a new object, and where it is refused in an
old one the whole write is. -/
theorem written_nodeOrNew_of_append {new : Json}
    (h : node.written leaf (above ++ rest) = .ok new) :
    ∃ child, (node.nodeOrNew above).written leaf rest = .ok child := by
  cases hfollow : node.follow above with
  | error miss =>
    rw [nodeOrNew_of_follow_eq_error hfollow]
    exact written_emptyObject leaf rest
  | ok value =>
    rw [nodeOrNew_of_follow_eq_ok hfollow]
    cases hvalue : value.written leaf rest with
    | ok child => exact ⟨child, rfl⟩
    | error failure =>
      rw [written_append_eq_error hfollow hvalue] at h
      cases h

/-- A refused write has not passed all segments. -/
theorem depth_lt_of_written_eq_error {segments : List Segment} {failure : Failure}
    (h : node.written leaf segments = .error failure) : failure.depth < segments.length := by
  obtain ⟨depth, value, -, hfails⟩ := exists_longestPrefix_written_eq_error_iff node segments
  obtain ⟨segment, hsegment, hdepth, -⟩ := (hfails leaf failure).1 h
  rw [hdepth]
  exact (List.getElem?_eq_some_iff.1 hsegment).1

/-! ## Two writes to one place -/

/-- Of two writes to one place the second counts, and it can be made without
the first. -/
theorem written_written {old first : Json} {segments : List Segment}
    (h : node.written old segments = .ok first) (new : Json) :
    ∃ second, node.written new segments = .ok second ∧ first.written new segments = .ok second := by
  induction segments generalizing node first with
  | nil => exact ⟨new, rfl, rfl⟩
  | cons segment rest ih =>
    obtain ⟨step, child, henter, hchild, rfl⟩ := written_cons_eq_ok_iff.1 h
    obtain ⟨below, hbelow, hagain⟩ := ih hchild
    refine ⟨node.put step below, ?_, ?_⟩
    · exact written_cons_eq_ok_iff.2 ⟨step, below, henter, hbelow, rfl⟩
    · exact (written_put_self_eq_ok_iff henter rest).2 ⟨below, hagain, rfl⟩

/-- A write below a place and then a write to it: the second counts, and it
can be made without the first. -/
theorem written_written_append {old first : Json}
    (h : node.written old (above ++ rest) = .ok first) (new : Json) :
    ∃ second, node.written new above = .ok second ∧ first.written new above = .ok second := by
  obtain ⟨child, hchild⟩ := written_nodeOrNew_of_append h
  rw [written_append hchild] at h
  exact written_written h new

end Json

/-! ## Documents -/

namespace Document

variable {document value leaf : Document} {path rest : Path}

/-- What a write that succeeds leaves is what the recursion gives. -/
theorem written_eq_ok_of_accepted (h : (document.set path leaf).error? = none) :
    document.root.written leaf.root path.segments = .ok (document.set path leaf).document.root := by
  obtain ⟨new, hnew⟩ := error?_set_eq_none_iff.1 h
  rw [hnew, (set_of_written_eq_ok hnew).2]

theorem error?_set_emptyObject (leaf : Document) (rest : Path) :
    ((object []).set rest leaf).error? = none :=
  error?_set_eq_none_iff.2 (Json.written_emptyObject leaf.root rest.segments)

/-- A value that is written into a new object is in that object, because a
path has at least one segment. -/
theorem kind_set_emptyObject (leaf : Document) (rest : Path) :
    ((object []).set rest leaf).document.kind = .object := by
  have hwritten := written_eq_ok_of_accepted (error?_set_emptyObject leaf rest)
  rw [← first_cons_tail] at hwritten
  obtain ⟨step, child, -, -, hroot⟩ := Json.written_cons_eq_ok_iff.1 hwritten
  show Json.kind (Document.root _) = .object
  rw [hroot]
  exact Json.kind_put _ step child

/-- If the second part of a path is written into the value at the end of the
first part, or into a new object, and gives `child`, then the write along the
whole path is the write of `child` along the first part. -/
theorem set_extend_of_written {child : Document}
    (h : (document.root.nodeOrNew path.segments).written leaf.root rest.segments =
      .ok child.root) :
    (document.set (path.extend rest.segments) leaf).error? = (document.set path child).error? ∧
      (document.set (path.extend rest.segments) leaf).document =
        (document.set path child).document := by
  have hsame : document.root.written leaf.root (path.extend rest.segments).segments =
      document.root.written child.root path.segments := Json.written_append h
  cases hchild : document.root.written child.root path.segments with
  | ok new =>
    rw [hchild] at hsame
    obtain ⟨hwhole, hroot⟩ := set_of_written_eq_ok hsame
    obtain ⟨hpart, hother⟩ := set_of_written_eq_ok hchild
    exact ⟨hwhole.trans hpart.symm, ext_root (hroot.trans hother.symm)⟩
  | error failure =>
    rw [hchild] at hsame
    obtain ⟨hwhole, hleft⟩ := set_of_written_eq_error hsame
    obtain ⟨hpart, hother⟩ := set_of_written_eq_error hchild
    have hdepth : failure.depth ≤ path.length :=
      Nat.le_of_lt (Json.depth_lt_of_written_eq_error hchild)
    refine ⟨?_, hleft.trans hother.symm⟩
    rw [hwhole, hpart, Path.location_extend path rest.segments hdepth]

/-- If the value at the end of `path` takes a write, then the write of what
comes out takes its place. -/
theorem set_extend_of_accepted (hget : (document.get path).value = some value)
    (h : (value.set rest leaf).error? = none) :
    (document.set (path.extend rest.segments) leaf).error? = none ∧
      (document.set path (value.set rest leaf).document).error? = none ∧
      (document.set (path.extend rest.segments) leaf).document =
        (document.set path (value.set rest leaf).document).document := by
  have hfollow := value_get_eq_some_iff.1 hget
  have hchild : (document.root.nodeOrNew path.segments).written leaf.root rest.segments =
      .ok (value.set rest leaf).document.root := by
    rw [Json.nodeOrNew_of_follow_eq_ok hfollow]
    exact written_eq_ok_of_accepted h
  obtain ⟨herror, hdocument⟩ := set_extend_of_written hchild
  have habove : (document.set path (value.set rest leaf).document).error? = none :=
    error?_set_eq_none_iff.2 (Json.written_of_follow_eq_ok hfollow _)
  exact ⟨herror.trans habove, habove, hdocument⟩

/-- If the value at the end of `path` refuses a write, then the whole write is
refused there. -/
theorem set_extend_of_refused {error : WriteError} (hget : (document.get path).value = some value)
    (h : (value.set rest leaf).error? = some error) :
    ∃ depth node, value.root.LongestPrefix rest.segments depth node ∧
      error.location = rest.location depth ∧
      (document.set (path.extend rest.segments) leaf).error? =
        some ⟨(path.extend rest.segments).location (path.length + depth), error.refusal⟩ := by
  obtain ⟨failure, hvalue, rfl⟩ := error?_set_eq_some_iff.1 h
  obtain ⟨depth, node, hlongest, hfails⟩ :=
    Json.exists_longestPrefix_written_eq_error_iff value.root rest.segments
  obtain ⟨-, -, rfl, -⟩ := (hfails _ _).1 hvalue
  have hwhole : document.root.written leaf.root (path.extend rest.segments).segments =
      .error (failure.under path.length) :=
    Json.written_append_eq_error (value_get_eq_some_iff.1 hget) hvalue
  exact ⟨failure.depth, node, hlongest, rfl, (set_of_written_eq_error hwhole).1⟩

/-- A write below a place where nothing is is a write into a new object and a
write of that object. -/
theorem set_extend_of_get_eq_none (h : (document.get path).value = none) :
    ((object []).set rest leaf).error? = none ∧
      ((object []).set rest leaf).document.kind = .object ∧
      (document.set (path.extend rest.segments) leaf).error? =
        (document.set path ((object []).set rest leaf).document).error? ∧
      (document.set (path.extend rest.segments) leaf).document =
        (document.set path ((object []).set rest leaf).document).document := by
  have haccepted := error?_set_emptyObject leaf rest
  obtain ⟨miss, hmiss⟩ := value_get_eq_none_iff.1 h
  refine ⟨haccepted, kind_set_emptyObject leaf rest, set_extend_of_written ?_⟩
  rw [Json.nodeOrNew_of_follow_eq_error hmiss]
  exact written_eq_ok_of_accepted haccepted

/-- A write along a path that goes on with `rest` after `path` is a nested
write.  If `path` leads to a value, then the whole write succeeds exactly if
the write of `rest` into that value does, and then it is a write of the
changed value; otherwise it is refused for the same reason, as much deeper as
`path` is long.  If `path` leads nowhere, then `rest` is written into a new
object, which succeeds, and the whole write is a write of that object, refused
or not. -/
theorem set_extend_is_nested_set (document leaf : Document) (path rest : Path) :
    (∀ value, (document.get path).value = some value →
      ((document.set (path.extend rest.segments) leaf).error? = none ↔
          (value.set rest leaf).error? = none) ∧
        ((value.set rest leaf).error? = none →
          (document.set path (value.set rest leaf).document).error? = none ∧
            (document.set (path.extend rest.segments) leaf).document =
              (document.set path (value.set rest leaf).document).document) ∧
        ∀ error, (value.set rest leaf).error? = some error →
          ∃ depth node, value.root.LongestPrefix rest.segments depth node ∧
            error.location = rest.location depth ∧
            (document.set (path.extend rest.segments) leaf).error? =
              some ⟨(path.extend rest.segments).location (path.length + depth),
                error.refusal⟩) ∧
      ((document.get path).value = none →
        ((object []).set rest leaf).error? = none ∧
          ((object []).set rest leaf).document.kind = .object ∧
          (document.set (path.extend rest.segments) leaf).error? =
            (document.set path ((object []).set rest leaf).document).error? ∧
          (document.set (path.extend rest.segments) leaf).document =
            (document.set path ((object []).set rest leaf).document).document) := by
  refine ⟨fun value hget => ⟨?_, fun h => (set_extend_of_accepted hget h).2,
    fun error h => set_extend_of_refused hget h⟩, set_extend_of_get_eq_none⟩
  cases h : (value.set rest leaf).error? with
  | none => simp [(set_extend_of_accepted hget h).1]
  | some error =>
    obtain ⟨depth, node, -, -, hrefused⟩ := set_extend_of_refused hget h
    simp [hrefused]

/-! ### Two writes, the first at or below the second -/

/-- A write leaves nothing that a later write to its place, or to one above
it, would notice: the later write succeeds, it would also have succeeded
without the first, and both ways lead to one document. -/
theorem set_absorbs_set_below (document old new : Document) (path : Path) (rest : List Segment)
    (h : (document.set (path.extend rest) old).error? = none) :
    ((document.set (path.extend rest) old).document.set path new).error? = none ∧
      (document.set path new).error? = none ∧
      ((document.set (path.extend rest) old).document.set path new).document =
        (document.set path new).document := by
  obtain ⟨second, hsecond, hagain⟩ :=
    Json.written_written_append (written_eq_ok_of_accepted h) new.root
  obtain ⟨hafter, hroot⟩ := set_of_written_eq_ok hagain
  obtain ⟨halone, hother⟩ := set_of_written_eq_ok hsecond
  exact ⟨hafter, halone, ext_root (hroot.trans hother.symm)⟩

/-- A member of an item past the end of a list, and then the item itself. -/
theorem set_absorbs_set_below_far_item :
    (oneItem.set (farItem.extend [.ofIndex 7]) .null).error? = none ∧
      ((oneItem.set (farItem.extend [.ofIndex 7]) .null).document.set farItem
        (.bool true)).error? = none ∧
      (oneItem.set farItem (.bool true)).error? = none ∧
      ((oneItem.set (farItem.extend [.ofIndex 7]) .null).document.set farItem
          (.bool true)).document =
        (oneItem.set farItem (.bool true)).document := by
  have h : (oneItem.set (farItem.extend [.ofIndex 7]) .null).error? = none := by decide
  exact ⟨h, set_absorbs_set_below oneItem .null (.bool true) farItem [.ofIndex 7] h⟩

end Document

end Dotted
