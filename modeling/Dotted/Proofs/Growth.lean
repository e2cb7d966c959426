import Dotted.Proofs.Checked
import Dotted.Proofs.Nested

/-!
# How much a write adds

A path may name positions far past the end of several arrays, and each of them
could be padded with `maxGap` `null`s.  Yet a write pads once at most: the
array that it extends holds a new empty object afterwards, and all that the
write makes below is inside this object.

* `Json.nodeCount_put`: what one change of a container does to the number of
  nodes.  `Json.nodeCount_written_emptyObject` counts what is made below a new
  object, and `Json.nodeCount_written` bounds the growth of a whole write.
* `Json.ExtendedTo` says what an array looks like after it was extended up to a
  position.  `Json.arrayAt?_written`: a write leaves an array on its way as
  long as it was, or extends it, and makes no new one.
* `Json.arrayAt?_below_extended`: there was nothing below an extended array
  where the write went on.
* `Document.set_pads_once` puts this together with the checks of the
  arithmetic.
-/

namespace Dotted

namespace Json

/-! ## Numbers of nodes -/

mutual

/-- The number of values in a value, itself included. -/
def nodeCount : Json → Nat
  | .array items => itemNodes items + 1
  | .object members => memberNodes members + 1
  | _ => 1

/-- The number of values in items. -/
def itemNodes : List Json → Nat
  | [] => 0
  | item :: rest => item.nodeCount + itemNodes rest

/-- The number of values in members. -/
def memberNodes : List (String × Json) → Nat
  | [] => 0
  | (_, value) :: rest => value.nodeCount + memberNodes rest

end

/-- The number of nodes of a value that may be missing. -/
def nodesOf (value? : Option Json) : Nat := (value?.map nodeCount).getD 0

theorem itemNodes_append (items others : List Json) :
    itemNodes (items ++ others) = itemNodes items + itemNodes others := by
  induction items with
  | nil => simp [itemNodes]
  | cons item rest ih => simp [itemNodes, ih, Nat.add_assoc]

theorem itemNodes_nulls (count : Nat) : itemNodes (List.replicate count .null) = count := by
  induction count with
  | zero => rfl
  | succ count ih =>
    rw [List.replicate_succ, itemNodes, ih]
    exact Nat.add_comm 1 count

theorem itemNodes_set {items : List Json} {index : Nat} (h : index < items.length)
    (value : Json) :
    itemNodes (items.set index value) + nodesOf items[index]? =
      itemNodes items + value.nodeCount := by
  induction items generalizing index with
  | nil => exact absurd h (Nat.not_lt_zero _)
  | cons item rest ih =>
    cases index with
    | zero =>
      show value.nodeCount + itemNodes rest + item.nodeCount =
        item.nodeCount + itemNodes rest + value.nodeCount
      omega
    | succ index =>
      have hrest := ih (Nat.lt_of_succ_lt_succ h)
      rw [List.set_cons_succ, List.getElem?_cons_succ, itemNodes, itemNodes]
      omega

/-- An item that is put into an array takes the place of the one there, or
comes after new `null`s. -/
theorem itemNodes_putItem (items : List Json) (index : Nat) (value : Json) :
    itemNodes (putItem items index value) + nodesOf items[index]? =
      itemNodes items + (index - items.length) + value.nodeCount := by
  by_cases hlt : index < items.length
  · rw [putItem_of_lt hlt, replaceItem_eq_set, itemNodes_set hlt,
      Nat.sub_eq_zero_of_le (Nat.le_of_lt hlt), Nat.add_zero]
  · have hge : items.length ≤ index := Nat.le_of_not_lt hlt
    rw [putItem_of_ge hge, List.getElem?_eq_none hge, padded, itemNodes_append, itemNodes_append,
      itemNodes_nulls]
    rfl

theorem memberNodes_insert {members : Members Json} (hsorted : Members.Sorted members)
    (key : String) (value : Json) :
    memberNodes (Members.insert key value members) + nodesOf (members.lookup key) =
      memberNodes members + value.nodeCount := by
  induction members with
  | nil => simp [Members.insert, Members.update, memberNodes, nodesOf]
  | cons head rest ih =>
    obtain ⟨other, old⟩ := head
    have hparts := List.pairwise_cons.1 hsorted
    rcases Members.key_trichotomy key other with hlt | rfl | hgt
    · have hne : key ≠ other := fun heq => String.lt_irrefl key (heq ▸ hlt)
      have hrest := ih hparts.2
      rw [Members.insert_cons_of_lt hlt, List.lookup_cons, beq_false_of_ne hne, memberNodes,
        memberNodes]
      dsimp only
      omega
    · rw [Members.insert_cons_self, List.lookup_cons, beq_self_eq_true, memberNodes, memberNodes]
      show value.nodeCount + memberNodes rest + old.nodeCount = _
      omega
    · have hnone : List.lookup key ((other, old) :: rest) = none := by
        refine Members.lookup_eq_none fun member hmember => ?_
        rcases List.mem_cons.1 hmember with rfl | hrest
        · exact hgt
        · exact String.lt_trans hgt (hparts.1 _ hrest)
      rw [Members.insert_cons_of_gt hgt, hnone, memberNodes]
      show value.nodeCount + memberNodes ((other, old) :: rest) + 0 = _
      omega

/-- The number of `null`s that come before a value which is put one step
down. -/
def gap : Json → Step → Nat
  | .array items, .item index => index - items.length
  | _, _ => 0

/-- A value that is put one step down takes the place of what is there, or
comes after new `null`s. -/
theorem nodeCount_put {node : Json} (hordered : node.Ordered) {step : Step}
    (hfits : node.Fits step) (value : Json) :
    (node.put step value).nodeCount + nodesOf (node.step? step) =
      node.nodeCount + node.gap step + value.nodeCount := by
  unfold Fits at hfits
  split at hfits
  · next members name =>
    have hnodes := memberNodes_insert hordered.sorted name value
    show memberNodes (Members.insert name value members) + 1 + nodesOf (members.lookup name) =
      memberNodes members + 1 + 0 + value.nodeCount
    omega
  · next items index =>
    have hnodes := itemNodes_putItem items index value
    show itemNodes (putItem items index value) + 1 + nodesOf items[index]? =
      itemNodes items + 1 + (index - items.length) + value.nodeCount
    omega
  · exact hfits.elim

theorem gap_of_step? {node child : Json} {step : Step} (h : node.step? step = some child) :
    node.gap step = 0 := by
  unfold step? at h
  split at h
  · rfl
  · exact Nat.sub_eq_zero_of_le (Nat.le_of_lt (List.getElem?_eq_some_iff.1 h).1)
  · cases h

/-- An array that takes a segment takes it as a position, with a gap that is
not too wide. -/
theorem exists_index_of_enter {items : List Json} {segment : Segment} {step : Step}
    (h : (Json.array items).enter segment = .ok step) :
    ∃ index, segment.index? = some index ∧ index - items.length ≤ maxGap ∧
      step = .item index := by
  cases hindex : segment.index? with
  | none => simp [enter, hindex] at h
  | some index =>
    rw [enter_array hindex] at h
    split at h
    · next hgap =>
      cases h
      exact ⟨index, rfl, hgap, rfl⟩
    · cases h

theorem gap_le_of_enter {node : Json} {segment : Segment} {step : Step}
    (h : node.enter segment = .ok step) : node.gap step ≤ maxGap := by
  cases node with
  | array items =>
    obtain ⟨index, -, hgap, rfl⟩ := exists_index_of_enter h
    exact hgap
  | object members => exact Nat.zero_le _
  | _ => cases h

/-! ## Growth of a write -/

variable {node leaf new : Json} {segments : List Segment}

/-- A write into a new empty object leaves one object for each segment, and
the leaf. -/
theorem nodeCount_written_emptyObject
    (h : (Json.object []).written leaf segments = .ok new) :
    new.nodeCount = segments.length + leaf.nodeCount := by
  induction segments generalizing new with
  | nil =>
    cases h
    exact (Nat.zero_add _).symm
  | cons segment rest ih =>
    obtain ⟨step, child, henter, hbelow, rfl⟩ := written_cons_eq_ok_iff.1 h
    cases henter
    have hchild := ih hbelow
    show child.nodeCount + 0 + 1 = rest.length + 1 + leaf.nodeCount
    omega

/-- A write adds one gap at most, a new object for each segment but the last,
and the leaf.  The induction goes down the segments as long as something is
there, and there the bound of the child carries over without a gap.  Where
nothing is there, one gap is made, and all that is below it is new. -/
theorem nodeCount_written (hordered : node.Ordered) (h : node.written leaf segments = .ok new) :
    new.nodeCount ≤ node.nodeCount + maxGap + (segments.length - 1) + leaf.nodeCount := by
  induction segments generalizing node new with
  | nil =>
    cases h
    omega
  | cons segment rest ih =>
    obtain ⟨step, child, henter, hbelow, rfl⟩ := written_cons_eq_ok_iff.1 h
    have hput := nodeCount_put hordered (fits_of_enter henter) child
    rw [List.length_cons, Nat.add_sub_cancel]
    cases hstep : node.step? step with
    | some old =>
      rw [childOrNew_of_step?_eq_some hstep] at hbelow
      have hold : old.Ordered :=
        hordered.child? ((child?_of_enter henter).trans hstep)
      have hchild := ih hold hbelow
      have hgap := gap_of_step? hstep
      have hnodes : nodesOf (node.step? step) = old.nodeCount := by
        rw [hstep]
        rfl
      omega
    | none =>
      rw [childOrNew_of_step?_eq_none hstep] at hbelow
      have hchild := nodeCount_written_emptyObject hbelow
      have hgap := gap_le_of_enter henter
      omega

/-! ## Arrays on the way of a write -/

/-- The items of the array to which segments lead, if they lead to one. -/
def arrayAt? (node : Json) (segments : List Segment) : Option (List Json) :=
  match node.follow segments with
  | .ok (.array items) => some items
  | _ => none

/-- `grown` are the items of an array after it was extended up to the position
that the segment denotes: there are `maxGap` `null`s at most before the new
item, which is the last one. -/
def ExtendedTo (segment : Segment) (items grown : List Json) : Prop :=
  ∃ index value, segment.index? = some index ∧ items.length ≤ index ∧
    index - items.length ≤ maxGap ∧
    grown = items ++ List.replicate (index - items.length) .null ++ [value] ∧
    grown.length = index + 1

/-- What a write makes of the items of a container that it passes with a
segment.  A container that is no array has none. -/
def Passed (segment : Segment) (before after : Option (List Json)) : Prop :=
  before = none ∧ after = none ∨
    ∃ items grown, before = some items ∧ after = some grown ∧
      (grown.length = items.length ∨ ExtendedTo segment items grown)

theorem arrayAt?_cons (node : Json) (segment : Segment) (rest : List Segment) :
    node.arrayAt? (segment :: rest) =
      (node.child? segment).bind fun child => child.arrayAt? rest := by
  unfold arrayAt?
  rw [follow]
  cases node.child? segment with
  | none => rfl
  | some child =>
    dsimp only [Option.bind_some]
    cases child.follow rest <;> rfl

/-- There is no array in an empty object. -/
theorem arrayAt?_emptyObject (segments : List Segment) :
    (Json.object []).arrayAt? segments = none := by
  cases segments <;> rfl

/-- What is put one step down is an array on the way exactly if it was put. -/
theorem arrayAt?_put_cons {segment : Segment} {step : Step}
    (h : node.enter segment = .ok step) (child : Json) (rest : List Segment) :
    (node.put step child).arrayAt? (segment :: rest) = child.arrayAt? rest := by
  rw [arrayAt?_cons, child?_of_enter (enter_put h step child),
    step?_put_self (fits_of_enter h), Option.bind_some]

/-- A container that takes a value one step down is passed. -/
theorem passed_put {segment : Segment} {step : Step} (h : node.enter segment = .ok step)
    (child : Json) : Passed segment (node.arrayAt? []) ((node.put step child).arrayAt? []) := by
  cases node with
  | array items =>
    obtain ⟨index, hindex, hgap, rfl⟩ := exists_index_of_enter h
    refine Or.inr ⟨items, putItem items index child, rfl, rfl, ?_⟩
    have hlength := length_putItem items index child
    by_cases hlt : index < items.length
    · exact Or.inl (by omega)
    · have hge : items.length ≤ index := Nat.le_of_not_lt hlt
      exact Or.inr ⟨index, child, hindex, hge, hgap, putItem_of_ge hge child, by omega⟩
  | object members =>
    cases h
    exact Or.inl ⟨rfl, rfl⟩
  | _ => cases h

/-- A write passes every container on its way. -/
theorem arrayAt?_written (h : node.written leaf segments = .ok new) {depth : Nat}
    {segment : Segment} (hsegment : segments[depth]? = some segment) :
    Passed segment (node.arrayAt? (segments.take depth)) (new.arrayAt? (segments.take depth)) := by
  induction segments generalizing node new depth with
  | nil => cases hsegment
  | cons first rest ih =>
    obtain ⟨step, child, henter, hbelow, rfl⟩ := written_cons_eq_ok_iff.1 h
    cases depth with
    | zero =>
      obtain rfl := Option.some.inj hsegment
      exact passed_put henter child
    | succ depth =>
      have hpassed := ih hbelow hsegment
      rw [List.take_succ_cons, arrayAt?_put_cons henter, arrayAt?_cons, child?_of_enter henter]
      cases hstep : node.step? step with
      | some old =>
        rw [childOrNew_of_step?_eq_some hstep] at hpassed
        exact hpassed
      | none =>
        rw [childOrNew_of_step?_eq_none hstep, arrayAt?_emptyObject] at hpassed
        exact hpassed

/-- Where a segment is past the end of an array, nothing is below it. -/
theorem arrayAt?_below_extended {items : List Json} {segment : Segment} {index depth other : Nat}
    (hitems : node.arrayAt? (segments.take depth) = some items)
    (hsegment : segments[depth]? = some segment) (hindex : segment.index? = some index)
    (hlength : items.length ≤ index) (hlt : depth < other) :
    node.arrayAt? (segments.take other) = none := by
  induction segments generalizing node depth other with
  | nil => cases hsegment
  | cons first rest ih =>
    obtain ⟨other, rfl⟩ := Nat.exists_eq_succ_of_ne_zero (Nat.ne_zero_of_lt hlt)
    rw [List.take_succ_cons, arrayAt?_cons]
    cases depth with
    | zero =>
      obtain rfl := Option.some.inj hsegment
      obtain rfl : node = .array items := by
        unfold arrayAt? at hitems
        split at hitems
        · next found hfollow =>
          cases hitems
          exact Except.ok.inj hfollow
        · cases hitems
      have hnone : (Json.array items).child? first = none := by
        rw [child?, hindex]
        exact List.getElem?_eq_none hlength
      rw [hnone]
      rfl
    | succ depth =>
      rw [List.take_succ_cons, arrayAt?_cons] at hitems
      obtain ⟨child, hchild, hbelow⟩ := Option.bind_eq_some_iff.1 hitems
      rw [hchild]
      exact ih hbelow hsegment (Nat.lt_of_succ_lt_succ hlt)

/-- On the way of a write, the array to which the first `depth` segments lead
has become longer. -/
def Lengthened (before after : Json) (segments : List Segment) (depth : Nat) : Prop :=
  depth < segments.length ∧
    ∃ items grown, before.arrayAt? (segments.take depth) = some items ∧
      after.arrayAt? (segments.take depth) = some grown ∧ items.length < grown.length

/-- Nothing becomes longer below an array that did, because there is no array
of before. -/
theorem Lengthened.not_lt {depth other : Nat} (h : node.written leaf segments = .ok new)
    (hupper : Lengthened node new segments depth) (hlower : Lengthened node new segments other) :
    ¬ depth < other := by
  intro hlt
  obtain ⟨hdepth, items, grown, hitems, hgrown, hlonger⟩ := hupper
  obtain ⟨-, below, -, hbelow, -⟩ := hlower
  have hsegment : segments[depth]? = some segments[depth] := List.getElem?_eq_getElem hdepth
  rcases arrayAt?_written h hsegment with
    ⟨hnone, -⟩ | ⟨kept, made, hkept, hmade, hlength | ⟨index, -, hindex, hge, -⟩⟩
  · rw [hitems] at hnone
    cases hnone
  · obtain rfl := Option.some.inj (hitems.symm.trans hkept)
    obtain rfl := Option.some.inj (hgrown.symm.trans hmade)
    omega
  · obtain rfl := Option.some.inj (hitems.symm.trans hkept)
    rw [arrayAt?_below_extended hitems hsegment hindex hge hlt] at hbelow
    cases hbelow

/-- At most one array on the way of a write becomes longer. -/
theorem Lengthened.unique {depth other : Nat} (h : node.written leaf segments = .ok new)
    (hdepth : Lengthened node new segments depth) (hother : Lengthened node new segments other) :
    depth = other :=
  Nat.le_antisymm (Nat.not_lt.1 (hother.not_lt h hdepth)) (Nat.not_lt.1 (hdepth.not_lt h hother))

end Json

namespace Document

/-- No access and no arithmetic of a write along a path is out of bounds.  If
the write succeeds, every array on its way was there before and is as long as
it was, or was extended up to the position that its segment denotes.  The
latter is so of one array at most, and all in all the document grows by one
gap, a new object for each segment but the last, and the leaf. -/
theorem set_pads_once (document : Document) (path : Path) (leaf : Document) :
    Checked.set document.root path.segments leaf.root =
        .ok {
          node := (document.set path leaf).document.root
          error? := (document.set path leaf).error?
          events := (document.set path leaf).events } ∧
      ((document.set path leaf).error? = none →
        (∀ depth segment, path.segments[depth]? = some segment →
          Json.Passed segment (document.root.arrayAt? (path.segments.take depth))
            ((document.set path leaf).document.root.arrayAt? (path.segments.take depth))) ∧
        (∀ depth other,
          Json.Lengthened document.root (document.set path leaf).document.root path.segments depth →
          Json.Lengthened document.root (document.set path leaf).document.root path.segments other →
          depth = other) ∧
        (document.set path leaf).document.root.nodeCount ≤
          document.root.nodeCount + maxGap + (path.length - 1) + leaf.root.nodeCount) := by
  refine ⟨Checked.set_eq_ok document path leaf, fun haccepted => ?_⟩
  have hwritten := written_eq_ok_of_accepted haccepted
  refine ⟨fun depth segment hsegment => Json.arrayAt?_written hwritten hsegment, ?_,
    Json.nodeCount_written document.ordered hwritten⟩
  exact fun depth other hdepth hother => hdepth.unique hwritten hother

/-- An object with an array of one item. -/
def short : Document := .object [("short", .array [.null])]

/-- The path to a member of a value at a position past the end of the array. -/
def pastShort : Path where
  segments := [⟨"short", by decide, by decide⟩, .ofIndex 3, .ofIndex 9, .ofIndex 9]
  nonempty := by simp

theorem set_pads_once_past_short :
    (short.set pastShort (.bool true)).error? = none ∧
      Json.Passed (.ofIndex 3) (some [.null])
        (some [.null, .null, .null, .object [("9", .object [("9", .bool true)])]]) ∧
      (short.set pastShort (.bool true)).document.root.nodeCount ≤ 3 + maxGap + 3 + 1 := by
  obtain ⟨-, hbounds⟩ := set_pads_once short pastShort (.bool true)
  have haccepted : (short.set pastShort (.bool true)).error? = none := rfl
  obtain ⟨hpassed, -, hnodes⟩ := hbounds haccepted
  exact ⟨haccepted, hpassed 1 (.ofIndex 3) rfl, hnodes⟩

end Document

end Dotted
