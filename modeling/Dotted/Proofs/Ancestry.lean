import Dotted.Proofs.Pieces

/-!
# Children and ancestors of paths

A path goes on with a token behind its last segment, or stops before its last
segment.  Each of these undoes the other.  On the written form they add a
delimiter and the token, or take both off, so that the ancestors of a path are
written like the locations on the way along it.

* `Path.child_eq_ok_iff` and `Path.parent?_eq_some_iff` say both with
  `Path.push`.
* `Path.text_push` is the written form of a child.
* `Path.segments_of_ancestor?` and `Path.exists_ancestor?` go any number of
  levels up: what is left are the first segments of the path.
* `Path.child_parent_inverse` puts all of this together.
-/

namespace Dotted

namespace Path

variable {path above below : Path} {token : String}

/-! ## One level -/

theorem length_push (path : Path) (segment : Segment) :
    (path.push segment).length = path.length + 1 := by
  simp [length, push]

theorem last_push (path : Path) (segment : Segment) : (path.push segment).last = segment := by
  simp [last, push]

theorem leading_push (path : Path) (segment : Segment) :
    (path.push segment).leading = path.segments := by
  simp [leading, push]

/-- A path goes on with every token that is a segment. -/
theorem child_eq_ok_iff :
    path.child token = .ok below ↔ ∃ segment, segment.text = token ∧ below = path.push segment := by
  unfold child
  constructor
  · intro h
    cases htoken : Segment.ofToken token with
    | error reason =>
      rw [htoken] at h
      cases h
    | ok segment =>
      rw [htoken] at h
      cases h
      exact ⟨segment, Segment.ofToken_eq_ok_iff.1 htoken, rfl⟩
  · rintro ⟨segment, htext, rfl⟩
    rw [Segment.ofToken_eq_ok_iff.2 htext]
    rfl

/-- A path stops one segment earlier at the path that it goes on from. -/
theorem parent?_eq_some_iff : path.parent? = some above ↔ path = above.push path.last := by
  have hsplit : path.leading ++ [path.last] = path.segments :=
    List.dropLast_concat_getLast path.nonempty
  unfold parent?
  constructor
  · intro h
    split at h
    · cases h
      exact ext_segments hsplit.symm
    · cases h
  · intro h
    have hleading : path.leading = above.segments := by
      rw [h, leading_push]
    have hsome : path.leading ≠ [] := hleading ▸ above.nonempty
    rw [dif_pos hsome]
    exact congrArg some (ext_segments hleading)

/-- Only a single segment has nothing above it. -/
theorem parent?_eq_none_iff : path.parent? = none ↔ path.length = 1 := by
  have hpositive : 0 < path.length := List.length_pos_iff.2 path.nonempty
  have hlength : path.leading.length = path.length - 1 := List.length_dropLast
  rw [parent?, dite_eq_right_iff]
  simp only [reduceCtorEq, imp_false, not_not, ← List.length_eq_zero_iff, hlength]
  omega

/-- The text of a child is that of the path, a delimiter and the token. -/
theorem text_push (path : Path) (segment : Segment) :
    (path.push segment).text = path.text ++ "." ++ segment.text := by
  have hsome : path.segments.map Segment.text ≠ [] := path.tokens_ne_nil
  simp only [text, joined, push, List.map_append, List.map_cons, List.map_nil]
  rw [String.intercalate_append_of_ne_nil hsome (by simp), String.intercalate_singleton]
  rfl

/-! ## Any number of levels -/

/-- The path some levels up, if there is one. -/
def ancestor? (path : Path) : Nat → Option Path
  | 0 => some path
  | levels + 1 => (path.ancestor? levels).bind parent?

/-- An ancestor has the first segments of the path. -/
theorem segments_of_ancestor? {levels : Nat} (h : path.ancestor? levels = some above) :
    above.length + levels = path.length ∧ above.segments <+: path.segments := by
  induction levels generalizing above with
  | zero =>
    cases h
    exact ⟨rfl, List.prefix_rfl⟩
  | succ levels ih =>
    obtain ⟨below, hbelow, hparent⟩ := Option.bind_eq_some_iff.1 h
    obtain ⟨hlength, hbegins⟩ := ih hbelow
    have hpush := parent?_eq_some_iff.1 hparent
    constructor
    · rw [hpush, length_push] at hlength
      omega
    · rw [hpush] at hbegins
      exact (List.prefix_append above.segments _).trans hbegins

/-- There is an ancestor as long as a segment is left. -/
theorem exists_ancestor? {levels : Nat} (h : levels < path.length) :
    ∃ above, path.ancestor? levels = some above := by
  induction levels with
  | zero => exact ⟨path, rfl⟩
  | succ levels ih =>
    obtain ⟨below, hbelow⟩ := ih (by omega)
    have hlength := (segments_of_ancestor? hbelow).1
    rw [ancestor?, hbelow, Option.bind_some, ← Option.ne_none_iff_exists', Ne,
      parent?_eq_none_iff]
    omega

/-! ## Both directions -/

/-- A path goes on with exactly the tokens that are segments.  From there the
parent is the path again, and what is split off is the token; the text is read
as the child too.  Every path but a single segment has a parent, which goes on
with its last segment to the path again, and the ancestors of a path are
written as the locations on the way along it are. -/
theorem child_parent_inverse (path : Path) :
    (∀ token,
      ((∃ below, path.child token = .ok below) ↔ token ≠ "" ∧ delimiter ∉ token.toList) ∧
        ∀ below, path.child token = .ok below →
          below.parent? = some path ∧ below.last.text = token ∧
            Checked.splitLast below.segments = .ok (below.last, path.segments) ∧
            parse (path.text ++ "." ++ token) = .ok below) ∧
      (path.parent? = none ↔ path.length = 1) ∧
      (∀ above, path.parent? = some above → above.child path.last.text = .ok path) ∧
      ∀ levels < path.length, ∃ above, path.ancestor? levels = some above ∧
        above.text = path.location (path.length - levels) := by
  refine ⟨fun token => ⟨?_, fun below hbelow => ?_⟩, parent?_eq_none_iff, fun above habove => ?_,
    fun levels hlevels => ?_⟩
  · rw [← Segment.exists_ofToken_eq_ok_iff]
    constructor
    · rintro ⟨below, hbelow⟩
      obtain ⟨segment, htext, -⟩ := child_eq_ok_iff.1 hbelow
      exact ⟨segment, Segment.ofToken_eq_ok_iff.2 htext⟩
    · rintro ⟨segment, hsegment⟩
      exact ⟨_, child_eq_ok_iff.2 ⟨segment, Segment.ofToken_eq_ok_iff.1 hsegment, rfl⟩⟩
  · obtain ⟨segment, rfl, rfl⟩ := child_eq_ok_iff.1 hbelow
    refine ⟨parent?_eq_some_iff.2 (by rw [last_push]), by rw [last_push], ?_, ?_⟩
    · rw [Checked.splitLast_eq_ok (path.push segment).nonempty, ← leading_push path segment]
      rfl
    · exact parse_eq_ok_iff.2 (text_push path segment)
  · exact child_eq_ok_iff.2 ⟨path.last, rfl, parent?_eq_some_iff.1 habove⟩
  · obtain ⟨above, habove⟩ := exists_ancestor? hlevels
    obtain ⟨hlength, hbegins⟩ := segments_of_ancestor? habove
    refine ⟨above, habove, ?_⟩
    rw [← location_of_prefix hbegins]
    congr 1
    omega

/-- A token that holds a delimiter is not the last one of a child, though it
can be read behind a path. -/
theorem child_parent_inverse_blank_signed :
    (∃ below, blankSigned.child "é" = .ok below ∧ below.parent? = some blankSigned ∧
        parse (" a.-01" ++ "." ++ "é") = .ok below) ∧
      (¬ ∃ below, blankSigned.child "é.b" = .ok below) ∧
      (∃ above, blankSigned.parent? = some above ∧ above.child "-01" = .ok blankSigned) ∧
      1 < blankSigned.length ∧
      ∃ above, blankSigned.ancestor? 1 = some above ∧ above.text = " a" := by
  obtain ⟨hchild, -, hparent, hlevels⟩ := child_parent_inverse blankSigned
  obtain ⟨below, hbelow⟩ := (hchild "é").1.2 (by decide)
  obtain ⟨hback, -, -, hparse⟩ := (hchild "é").2 below hbelow
  have habove : blankSigned.parent? = some (single ⟨" a", by decide, by decide⟩) := rfl
  have hlevel : 1 < blankSigned.length := by decide
  refine ⟨⟨below, hbelow, hback, hparse⟩, ?_, ⟨_, habove, hparent _ habove⟩, hlevel, ?_⟩
  · rw [(hchild "é.b").1]
    decide
  · exact hlevels 1 hlevel

end Path

end Dotted
