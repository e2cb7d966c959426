import Dotted.Proofs.Session

/-!
# Three ways down a path

A read follows a path and keeps the value at its end, a focus also keeps how
to put another value there, and a write makes what is missing on its way.
Each goes down by its own rules for objects and arrays.  Where the path leads
to a value all three come to that value, and there a replacement in the focus
and a write leave the same document.

* `Json.focus?_eq_bind` cuts a focus into its first step and the rest, in the
  same way for objects and for arrays.
* `Json.map_value_focus?`: a focus finds what a read finds.
* `Json.written_self`: a write of what is there changes nothing.
* `Document.set_of_focus?` and `Document.put_value_of_focus?` say what a
  replacement in the focus does, and `Document.focus_agrees_with_get_and_set`
  is the law of the three.
-/

namespace Dotted

namespace Json

variable {node value : Json} {segments : List Segment}

/-! ## A focus and a read -/

/-- A focus goes one step down and on from there, and a value that is put back
is put one step down. -/
theorem focus?_eq_bind (node : Json) (segment : Segment) (rest : List Segment) :
    node.focus? (segment :: rest) =
      (node.stepOf? segment).bind fun step => (node.step? step).bind fun child =>
        (child.focus? rest).map fun found => (found.1, fun new => node.put step (found.2 new)) := by
  cases node with
  | object members =>
    rw [focus?]
    show (members.lookup segment.text).bind _ = (members.lookup segment.text).bind _
    refine Option.bind_congr fun child _ => ?_
    cases child.focus? rest <;> rfl
  | array items =>
    rw [focus?, stepOf?, Option.bind_map]
    refine Option.bind_congr fun index _ => ?_
    show items[index]?.bind _ = items[index]?.bind _
    refine Option.bind_congr fun child hchild => ?_
    have hput := put_item_of_lt (List.getElem?_eq_some_iff.1 hchild).1
    cases child.focus? rest with
    | none => rfl
    | some found =>
      show some _ = some _
      rw [hput]
  | _ => rfl

/-- A focus finds the value that a read finds. -/
theorem map_value_focus? (node : Json) (segments : List Segment) :
    (node.focus? segments).map Prod.fst = (node.follow segments).toOption := by
  induction segments generalizing node with
  | nil => rfl
  | cons segment rest ih =>
    rw [focus?_eq_bind, follow, child?_eq_bind]
    cases node.stepOf? segment with
    | none => rfl
    | some step =>
      simp only [Option.bind_some]
      cases node.step? step with
      | none => rfl
      | some child =>
        have hvalue : ((child.focus? rest).map Prod.fst) = (child.follow rest).toOption := ih child
        rw [Option.bind_some, Option.map_map]
        show (child.focus? rest).map Prod.fst = ((child.follow rest).mapError _).toOption
        rw [hvalue]
        cases child.follow rest <;> rfl

/-! ## A write of what is there -/

/-- A write of the value to which the segments lead changes nothing. -/
theorem written_self (hordered : node.Ordered) (h : node.follow segments = .ok value) :
    node.written value segments = .ok node := by
  induction segments generalizing node with
  | nil =>
    cases h
    rfl
  | cons segment rest ih =>
    obtain ⟨child, hchild, hbelow⟩ := follow_cons_eq_ok_iff.1 h
    obtain ⟨step, henter, hstep⟩ := enter_of_child? hchild
    refine written_cons_eq_ok_iff.2 ⟨step, child, henter, ?_, (put_of_step? hordered hstep).symm⟩
    rw [childOrNew_of_step?_eq_some hstep]
    exact ih (hordered.child? hchild) hbelow

end Json

namespace Document

variable {document : Document} {path : Path} {focus : Focus}

/-- The focus of a document is that of its root. -/
theorem root_of_focus? (h : document.focus? path = some focus) :
    ∃ put, document.root.focus? path.segments = some (focus.value.root, put) ∧
      ∀ new, (focus.put new).root = put new.root := by
  unfold focus? at h
  split at h
  · cases h
  · next value put hput =>
    cases h
    exact ⟨put, hput, fun new => rfl⟩

theorem focus?_eq_none_iff :
    document.focus? path = none ↔ document.root.focus? path.segments = none := by
  unfold focus?
  split
  · next h => simp [h]
  · next value put h => simp [h]

/-- A focus finds the value that a read finds. -/
theorem map_value_focus? (document : Document) (path : Path) :
    (document.focus? path).map Focus.value = (document.get path).value := by
  have hroot := Json.map_value_focus? document.root path.segments
  cases hfocus : document.focus? path with
  | none =>
    rw [focus?_eq_none_iff.1 hfocus] at hroot
    cases hfollow : document.root.follow path.segments with
    | ok value =>
      rw [hfollow] at hroot
      cases hroot
    | error miss => exact (value_get_eq_none_iff.2 ⟨miss, hfollow⟩).symm
  | some focus =>
    obtain ⟨put, hput, -⟩ := root_of_focus? hfocus
    rw [hput] at hroot
    refine (value_get_eq_some_iff.2 ?_).symm
    cases hfollow : document.root.follow path.segments with
    | ok value =>
      rw [hfollow] at hroot
      exact congrArg Except.ok (Option.some.inj hroot).symm
    | error miss =>
      rw [hfollow] at hroot
      cases hroot

/-- A replacement in the focus of a path is a write along the path. -/
theorem set_of_focus? (h : document.focus? path = some focus) (new : Document) :
    (document.set path new).error? = none ∧ (document.set path new).document = focus.put new := by
  obtain ⟨put, hput, hroot⟩ := root_of_focus? h
  obtain ⟨haccepted, hwritten⟩ := set_of_written_eq_ok (Json.written_of_focus? hput new.root)
  exact ⟨haccepted, ext_root (hwritten.trans (hroot new).symm)⟩

/-- A value that is put back where it was found leaves the document as it
was. -/
theorem put_value_of_focus? (h : document.focus? path = some focus) :
    focus.put focus.value = document := by
  have hget : (document.get path).value = some focus.value := by
    rw [← map_value_focus?, h, Option.map_some]
  have hself := Json.written_self document.ordered (value_get_eq_some_iff.1 hget)
  rw [← (set_of_focus? h focus.value).2]
  exact ext_root (set_of_written_eq_ok hself).2

/-- A focus, a read and a write agree on every path.  The focus finds a value
exactly if the read does, and the same one.  If it finds none, a replacement
leaves the document as it was.  If it finds one, a write succeeds and leaves
what the replacement leaves, and to put back what was found changes
nothing. -/
theorem focus_agrees_with_get_and_set (document : Document) (path : Path) :
    (document.focus? path).map Focus.value = (document.get path).value ∧
      (document.focus? path = none →
        ∀ new, Operation.apply document (.replace path new) = document) ∧
      ∀ focus, document.focus? path = some focus →
        (∀ new, (document.set path new).error? = none ∧
          (document.set path new).document = focus.put new ∧
          Operation.apply document (.replace path new) = focus.put new) ∧
        focus.put focus.value = document := by
  refine ⟨map_value_focus? document path, ?_, ?_⟩
  · intro hnone new
    refine Operation.apply_of_no_effect ?_
    rw [Operation.takesEffect, hnone]
    rfl
  · intro focus hfocus
    refine ⟨fun new => ?_, put_value_of_focus? hfocus⟩
    obtain ⟨haccepted, hdocument⟩ := set_of_focus? hfocus new
    refine ⟨haccepted, hdocument, ?_⟩
    rw [Operation.apply, hfocus]

/-- An item of a list, and a position past its end. -/
theorem focus_agrees_with_get_and_set_one_item :
    (∃ focus, oneItem.focus? nearItem = some focus ∧
        (oneItem.set nearItem (.bool true)).document = focus.put (.bool true) ∧
        focus.put focus.value = oneItem) ∧
      oneItem.focus? farItem = none ∧
      Operation.apply oneItem (.replace farItem .null) = oneItem := by
  obtain ⟨-, -, hnear⟩ := focus_agrees_with_get_and_set oneItem nearItem
  obtain ⟨-, hfar, -⟩ := focus_agrees_with_get_and_set oneItem farItem
  obtain ⟨hset, hself⟩ := hnear _ rfl
  exact ⟨⟨_, rfl, (hset _).2.1, hself⟩, rfl, hfar rfl .null⟩

end Document

end Dotted
