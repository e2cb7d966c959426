import Dotted.Proofs.Session
import Dotted.Proofs.Walk
import Mathlib.Data.List.Sort

/-!
# Values with other values in some places

A revision says of every place to which segments lead what takes the place of
the value there, if anything does.  It is asked from the top down, and what is
below a value that is replaced is not looked at.  So a revised value differs
from the old one in the chosen places and nowhere else.  Members whose keys
are no segments are never chosen, and nothing below them is.

Writes at several places are revisions step by step: a write at one more place
makes a revision that chooses one more place.

* `Json.decideOrdered` decides whether a value is ordered, so that functions of
  documents can be made at any place of a value.
* `Json.step?_revised` and `Json.child?_revised` say what a revised value holds
  one step down, and `Json.follow_revised` at the end of any segments.
* `Json.ext_step?` compares values by what they hold at every step, and
  `Json.Ordered.step_induction` goes down the same way.  From them come
  `Json.revised_of_forall_eq_none` and `Json.revised_congr`.
* `Json.written_revised` is the law of a write into a revised value.
* `Document.revised` is a revision by paths, and `Document.set_revised` and
  `Document.get_revised_of_eq_some` are the laws of writes and reads.
-/

namespace Dotted

namespace Members

variable {α : Type}

instance (members : Members α) : Decidable (Sorted members) :=
  inferInstanceAs (Decidable (members.Pairwise fun a b => a.1 < b.1))

/-- Changing the values of members changes what is looked up. -/
theorem lookup_map (change : String → α → α) (members : Members α) (key : String) :
    (members.map fun member => (member.1, change member.1 member.2)).lookup key =
      (members.lookup key).map (change key) := by
  induction members with
  | nil => rfl
  | cons head rest ih =>
    obtain ⟨other, value⟩ := head
    by_cases h : key = other
    · subst h
      simp
    · simp [List.lookup_cons, beq_false_of_ne h, ih]

theorem sorted_map (change : String → α → α) {members : Members α} (h : Sorted members) :
    Sorted (members.map fun member => (member.1, change member.1 member.2)) :=
  List.pairwise_map.2 h

/-- Sorted members are determined by what is looked up in them. -/
theorem ext_lookup {members others : Members α} (hmembers : Sorted members)
    (hothers : Sorted others) (h : ∀ key, members.lookup key = others.lookup key) :
    members = others := by
  let smaller : String × α → String × α → Prop := fun a b => a.1 < b.1
  have : Std.Antisymm smaller := ⟨fun _ _ hab hba => absurd hba (String.lt_asymm hab)⟩
  have : Std.Irrefl smaller := ⟨fun a => String.lt_irrefl a.1⟩
  refine List.Pairwise.eq_of_mem_iff (r := smaller) hmembers hothers fun member => ?_
  obtain ⟨key, value⟩ := member
  rw [← lookup_eq_some_iff_mem hmembers, ← lookup_eq_some_iff_mem hothers, h]

end Members

namespace Json

/-! ## Deciding order -/

theorem ordered_array_iff {items : List Json} :
    Ordered (.array items) ↔ ∀ item ∈ items, item.Ordered :=
  ⟨Ordered.items, .array⟩

theorem ordered_object_iff {members : Members Json} :
    Ordered (.object members) ↔
      Members.Sorted members ∧ ∀ member ∈ members, member.2.Ordered :=
  ⟨fun h => ⟨h.sorted, h.values⟩, fun h => .object h.1 h.2⟩

mutual

/-- Decides whether a value is ordered, by recursion on the value. -/
def decideOrdered : (node : Json) → Decidable node.Ordered
  | .null => isTrue .null
  | .bool value => isTrue (.bool value)
  | .number value => isTrue (.number value)
  | .string value => isTrue (.string value)
  | .array items => @decidable_of_iff' _ _ ordered_array_iff (decideItemsOrdered items)
  | .object members =>
    @decidable_of_iff' _ _ ordered_object_iff
      (@instDecidableAnd _ _ inferInstance (decideValuesOrdered members))

/-- Decides whether all items are ordered. -/
def decideItemsOrdered : (items : List Json) → Decidable (∀ item ∈ items, item.Ordered)
  | [] => isTrue (by simp)
  | item :: rest =>
    @decidable_of_iff' _ _ List.forall_mem_cons
      (@instDecidableAnd _ _ (decideOrdered item) (decideItemsOrdered rest))

/-- Decides whether the values of all members are ordered. -/
def decideValuesOrdered :
    (members : List (String × Json)) → Decidable (∀ member ∈ members, member.2.Ordered)
  | [] => isTrue (by simp)
  | (key, value) :: rest =>
    @decidable_of_iff' _ _ List.forall_mem_cons
      (@instDecidableAnd _ _ (decideOrdered value) (decideValuesOrdered rest))

end

instance : DecidablePred Ordered := decideOrdered

/-! ## Revisions -/

/-- What takes the place of the value to which segments lead, if anything
does. -/
abbrev Revision := List Segment → Json → Option Json

/-- What a revision does below the value to which some segments lead. -/
def Revision.below (revision : Revision) (above : List Segment) : Revision :=
  fun segments => revision (above ++ segments)

theorem Revision.below_nil (revision : Revision) (above : List Segment) :
    revision.below above [] = revision above := by
  rw [below, List.append_nil]

mutual

/-- The value that takes the place of a value, or else the value with other
values in the places below it to which segments lead. -/
def revised (revision : Revision) : Json → Json
  | .object members =>
    (revision [] (.object members)).getD (.object (revisedMembers revision members))
  | .array items => (revision [] (.array items)).getD (.array (revisedItems revision 0 items))
  | scalar => (revision [] scalar).getD scalar

/-- The members with other values; a member whose key is no segment stays as it
is. -/
def revisedMembers (revision : Revision) : List (String × Json) → List (String × Json)
  | [] => []
  | (key, value) :: rest =>
    match Segment.ofString? key with
    | none => (key, value) :: revisedMembers revision rest
    | some segment =>
      (key, value.revised (revision.below [segment])) :: revisedMembers revision rest

/-- The items with other values, the first of them at position `index`. -/
def revisedItems (revision : Revision) (index : Nat) : List Json → List Json
  | [] => []
  | value :: rest =>
    value.revised (revision.below [.ofIndex index]) :: revisedItems revision (index + 1) rest

end

/-- The value with the revision made right below it, and not at it. -/
def revisedInside (revision : Revision) : Json → Json
  | .object members => .object (revisedMembers revision members)
  | .array items => .array (revisedItems revision 0 items)
  | scalar => scalar

/-- The segment that denotes a step, if there is one. -/
def Step.segment? : Step → Option Segment
  | .key name => Segment.ofString? name
  | .item index => some (.ofIndex index)

/-- What a revision makes of the value one step down. -/
def revisedUnder (revision : Revision) (step : Step) (child : Json) : Json :=
  match step.segment? with
  | none => child
  | some segment => child.revised (revision.below [segment])

variable {revision : Revision} {node : Json} {segment : Segment} {step : Step}

/-! ## One step down -/

theorem revisedMembers_eq_map (revision : Revision) (members : List (String × Json)) :
    revisedMembers revision members = members.map fun member =>
      (member.1, member.2.revisedUnder revision (.key member.1)) := by
  induction members with
  | nil => rfl
  | cons member rest ih =>
    obtain ⟨key, value⟩ := member
    rw [revisedMembers, List.map_cons, ← ih, revisedUnder, Step.segment?]
    cases Segment.ofString? key <;> rfl

theorem revisedItems_eq_map (revision : Revision) (index : Nat) (items : List Json) :
    revisedItems revision index items = (items.zipIdx index).map fun item =>
      item.1.revisedUnder revision (.item item.2) := by
  induction items generalizing index with
  | nil => rfl
  | cons item rest ih =>
    rw [revisedItems, List.zipIdx_cons, List.map_cons, ih]
    rfl

/-- A value that is replaced is not looked into. -/
theorem revised_of_eq_some {new : Json} (h : revision [] node = some new) :
    node.revised revision = new := by
  cases node <;> simp [revised, h]

/-- A value that stays is revised right below it. -/
theorem revised_of_eq_none (h : revision [] node = none) :
    node.revised revision = node.revisedInside revision := by
  cases node <;> simp [revised, revisedInside, h]

theorem kind_revised (h : revision [] node = none) : (node.revised revision).kind = node.kind := by
  rw [revised_of_eq_none h]
  cases node <;> rfl

/-- A revision that keeps a node is made one step down. -/
theorem step?_revised (h : revision [] node = none) (step : Step) :
    (node.revised revision).step? step =
      (node.step? step).map fun child => child.revisedUnder revision step := by
  rw [revised_of_eq_none h]
  cases node with
  | object members =>
    cases step with
    | key name =>
      show (revisedMembers revision members).lookup name = _
      rw [revisedMembers_eq_map]
      exact Members.lookup_map (fun key value => value.revisedUnder revision (.key key)) members
        name
    | item index => rfl
  | array items =>
    cases step with
    | key name => rfl
    | item index =>
      show (revisedItems revision 0 items)[index]? = items[index]?.map _
      rw [revisedItems_eq_map, List.getElem?_map, List.getElem?_zipIdx, Option.map_map,
        Nat.zero_add]
      rfl
  | _ => rfl

theorem stepOf?_revised (h : revision [] node = none) (segment : Segment) :
    (node.revised revision).stepOf? segment = node.stepOf? segment := by
  rw [revised_of_eq_none h]
  cases node <;> rfl

/-- The step of a segment is denoted by that segment. -/
theorem segment?_of_stepOf? (h : node.stepOf? segment = some step) :
    step.segment? = some segment := by
  cases node with
  | object members =>
    cases h
    exact Segment.ofString?_text segment
  | array items =>
    obtain ⟨index, hindex, rfl⟩ := Option.map_eq_some_iff.1 h
    rw [Segment.eq_ofIndex_of_index? hindex]
    rfl
  | _ => cases h

theorem revisedUnder_of_segment? (h : step.segment? = some segment) (child : Json) :
    child.revisedUnder revision step = child.revised (revision.below [segment]) := by
  rw [revisedUnder, h]

/-- Revisions that come to the same below the segment of a step come to the
same under the step. -/
theorem revisedUnder_congr {other : Revision} {child : Json}
    (h : ∀ segment, step.segment? = some segment →
      child.revised (revision.below [segment]) = child.revised (other.below [segment])) :
    child.revisedUnder revision step = child.revisedUnder other step := by
  unfold revisedUnder
  cases hsegment : step.segment? with
  | none => rfl
  | some segment => exact h segment hsegment

/-- What a segment selects is revised below that segment. -/
theorem child?_revised (h : revision [] node = none) (segment : Segment) :
    (node.revised revision).child? segment =
      (node.child? segment).map fun child => child.revised (revision.below [segment]) := by
  rw [child?_eq_bind, child?_eq_bind, stepOf?_revised h]
  cases hstep : node.stepOf? segment with
  | none => rfl
  | some step =>
    rw [Option.bind_some, Option.bind_some, step?_revised h]
    simp only [revisedUnder_of_segment? (segment?_of_stepOf? hstep)]

/-- A revision of a value that segments lead to gives ordered values only. -/
def Revision.Ordered (revision : Revision) : Prop :=
  ∀ segments value new, value.Ordered → revision segments value = some new → new.Ordered

theorem Revision.Ordered.below (h : revision.Ordered) (above : List Segment) :
    (revision.below above).Ordered :=
  fun segments => h (above ++ segments)

theorem Ordered.revised_of_inside (h : node.Ordered) (hrevision : revision.Ordered)
    (hinside : (node.revisedInside revision).Ordered) : (node.revised revision).Ordered := by
  cases hnew : revision [] node with
  | some new =>
    rw [revised_of_eq_some hnew]
    exact hrevision _ _ _ h hnew
  | none =>
    rw [revised_of_eq_none hnew]
    exact hinside

/-- A revision keeps the order of keys. -/
theorem Ordered.revised (h : node.Ordered) (hrevision : revision.Ordered) :
    (node.revised revision).Ordered := by
  induction h generalizing revision with
  | @array items hitems ih =>
    refine (Ordered.array hitems).revised_of_inside hrevision ?_
    rw [revisedInside, revisedItems_eq_map]
    refine .array fun item hitem => ?_
    obtain ⟨⟨old, index⟩, hold, rfl⟩ := List.mem_map.1 hitem
    exact ih old (List.fst_mem_of_mem_zipIdx hold) (hrevision.below _)
  | @object members hsorted hvalues ih =>
    refine (Ordered.object hsorted hvalues).revised_of_inside hrevision ?_
    rw [revisedInside, revisedMembers_eq_map]
    refine .object (Members.sorted_map (fun key value => value.revisedUnder revision (.key key))
      hsorted) fun member hmember => ?_
    obtain ⟨old, hold, rfl⟩ := List.mem_map.1 hmember
    show (old.2.revisedUnder revision (.key old.1)).Ordered
    unfold revisedUnder
    split
    · exact hvalues old hold
    · exact ih old hold (hrevision.below _)
  | null => exact Ordered.null.revised_of_inside hrevision .null
  | bool value => exact (Ordered.bool value).revised_of_inside hrevision (.bool value)
  | number value => exact (Ordered.number value).revised_of_inside hrevision (.number value)
  | string value => exact (Ordered.string value).revised_of_inside hrevision (.string value)

/-! ## Following segments -/

/-- The revision keeps every value on the way to the end of some segments, but
for the one at the end. -/
def KeptAbove (node : Json) (revision : Revision) (segments : List Segment) : Prop :=
  ∀ above value, above <+: segments → above ≠ segments → node.follow above = .ok value →
    revision above value = none

theorem KeptAbove.root {rest : List Segment} (h : node.KeptAbove revision (segment :: rest)) :
    revision [] node = none :=
  h [] node List.nil_prefix (by simp) rfl

theorem KeptAbove.child {child : Json} {rest : List Segment}
    (h : node.KeptAbove revision (segment :: rest)) (hchild : node.child? segment = some child) :
    child.KeptAbove (revision.below [segment]) rest := by
  intro above value habove hne hvalue
  refine h (segment :: above) value ?_ ?_ (follow_cons_eq_ok_iff.2 ⟨child, hchild, hvalue⟩)
  · exact List.cons_prefix_cons.2 ⟨rfl, habove⟩
  · exact fun heq => hne (List.cons.inj heq).2

/-- Segments lead to what the revision makes of the value to which they led. -/
theorem follow_revised {value : Json} {segments : List Segment}
    (h : node.KeptAbove revision segments) (hvalue : node.follow segments = .ok value) :
    (node.revised revision).follow segments = .ok (value.revised (revision.below segments)) := by
  induction segments generalizing node revision with
  | nil =>
    cases hvalue
    rfl
  | cons segment rest ih =>
    obtain ⟨child, hchild, hbelow⟩ := follow_cons_eq_ok_iff.1 hvalue
    refine follow_cons_eq_ok_iff.2 ⟨child.revised (revision.below [segment]), ?_, ?_⟩
    · rw [child?_revised h.root, hchild]
      rfl
    · exact ih (h.child hchild) hbelow

/-! ## Values that agree at every step -/

theorem Ordered.step? {child : Json} (h : node.Ordered) (hchild : node.step? step = some child) :
    child.Ordered := by
  unfold Json.step? at hchild
  split at hchild
  · exact h.lookup hchild
  · exact h.getElem? hchild
  · cases hchild

theorem Ordered.put {value : Json} (h : node.Ordered) (step : Step) (hvalue : value.Ordered) :
    (node.put step value).Ordered := by
  unfold Json.put
  split
  · exact h.insert _ hvalue
  · refine .array fun item hitem => ?_
    rcases List.mem_or_eq_of_mem_set hitem with hpadded | rfl
    · rcases List.mem_append.1 hpadded with hold | hnull
      · exact h.items item hold
      · rw [List.eq_of_mem_replicate hnull]
        exact .null
    · exact hvalue
  · exact h

/-- Containers that agree at every step are equal. -/
theorem ext_step? {new : Json} (hnode : node.Ordered) (hnew : new.Ordered)
    (hcontainer : node.kind = .array ∨ node.kind = .object) (hkind : new.kind = node.kind)
    (h : ∀ step, new.step? step = node.step? step) : new = node := by
  cases node with
  | object members =>
    cases new with
    | object others =>
      exact congrArg Json.object
        (Members.ext_lookup hnew.sorted hnode.sorted fun key => h (.key key))
    | _ => cases hkind
  | array items =>
    cases new with
    | array others =>
      exact congrArg Json.array (List.ext_getElem? fun index => h (.item index))
    | _ => cases hkind
  | _ => simp [kind] at hcontainer

/-- A value which differs from another one at a single step only is that other
value with its child put there. -/
theorem eq_put_of_step? {new old child : Json} (hnode : node.Ordered) (hnew : new.Ordered)
    (hkind : new.kind = node.kind) (hold : node.step? step = some old)
    (hself : new.step? step = some child)
    (hother : ∀ other, other ≠ step → new.step? other = node.step? other) :
    new = node.put step child := by
  have hfits := fits_of_step? hold
  have hcontainer : (node.put step child).kind = .array ∨ (node.put step child).kind = .object := by
    rw [kind_put]
    exact kind_of_fits hfits
  refine ext_step? (hnode.put step (hnew.step? hself)) hnew hcontainer ?_ fun other => ?_
  · rw [kind_put, hkind]
  · by_cases h : other = step
    · rw [h, hself, step?_put_self hfits]
    · rw [hother other h, step?_put_of_ne (Ne.symm h) (not_pads_of_step? hold other)]

/-- To prove something of an ordered value it may be assumed of all its
children. -/
@[elab_as_elim]
theorem Ordered.step_induction {motive : (node : Json) → node.Ordered → Prop}
    (down : ∀ (node : Json) (h : node.Ordered),
      (∀ step child (hchild : node.step? step = some child), motive child (h.step? hchild)) →
        motive node h)
    (node : Json) (h : node.Ordered) : motive node h := by
  induction h with
  | @array items hitems ih =>
    refine down _ (.array hitems) fun step child hchild => ?_
    cases step with
    | key name => cases hchild
    | item index => exact ih child (List.mem_of_getElem? hchild)
  | @object members hsorted hvalues ih =>
    refine down _ (.object hsorted hvalues) fun step child hchild => ?_
    cases step with
    | key name => exact ih (name, child) ((Members.lookup_eq_some_iff_mem hsorted).1 hchild)
    | item index => cases hchild
  | null => exact down _ .null fun _ _ hchild => by cases hchild
  | bool value => exact down _ (.bool value) fun _ _ hchild => by cases hchild
  | number value => exact down _ (.number value) fun _ _ hchild => by cases hchild
  | string value => exact down _ (.string value) fun _ _ hchild => by cases hchild

/-! ## What a revision comes to -/

theorem revised_of_scalar (hscalar : ¬ (node.kind = .array ∨ node.kind = .object))
    (h : revision [] node = none) : node.revised revision = node := by
  rw [revised_of_eq_none h]
  cases node <;> simp [kind, revisedInside] at hscalar ⊢

/-- A container that stays is revised to the container of the same kind that
holds at every step the revised child. -/
theorem revised_of_step? {new : Json} (hnode : node.Ordered) (hrevision : revision.Ordered)
    (hnew : new.Ordered) (hcontainer : node.kind = .array ∨ node.kind = .object)
    (h : revision [] node = none) (hkind : new.kind = node.kind)
    (hsteps : ∀ step, new.step? step =
      (node.step? step).map fun child => child.revisedUnder revision step) :
    node.revised revision = new := by
  have hsame : new.kind = .array ∨ new.kind = .object := by rwa [hkind]
  refine ext_step? hnew (hnode.revised hrevision) hsame ?_ fun step => ?_
  · rw [kind_revised h, hkind]
  · rw [step?_revised h, hsteps]

/-- A revision that replaces nothing changes nothing. -/
theorem revised_of_forall_eq_none (hnode : node.Ordered)
    (h : ∀ segments value, revision segments value = none) : node.revised revision = node := by
  induction node, hnode using Ordered.step_induction generalizing revision with
  | down node hnode ih =>
    by_cases hcontainer : node.kind = .array ∨ node.kind = .object
    · have hrevision : revision.Ordered := fun segments value new _ hnew => by
        rw [h] at hnew
        cases hnew
      refine revised_of_step? hnode hrevision hnode hcontainer (h _ _) rfl fun step => ?_
      cases hchild : node.step? step with
      | none => rfl
      | some child =>
        rw [Option.map_some, revisedUnder]
        split
        · rfl
        · exact congrArg some (ih step child hchild fun segments => h (_ :: segments)).symm
    · exact revised_of_scalar hcontainer (h _ _)

/-- Where a step is denoted by a segment, the segment selects what is there. -/
theorem child?_of_segment? {child : Json} (hindexable : node.Indexable)
    (hchild : node.step? step = some child) (h : step.segment? = some segment) :
    node.child? segment = some child := by
  cases node with
  | object members =>
    cases step with
    | key name =>
      obtain rfl := Segment.text_of_ofString? h
      exact hchild
    | item index => cases hchild
  | array items =>
    cases step with
    | key name => cases hchild
    | item index =>
      cases h
      have hlt : index < items.length := (List.getElem?_eq_some_iff.1 hchild).1
      rw [child?, Segment.index?_ofIndex (Nat.lt_trans hlt hindexable.length)]
      exact hchild
  | _ => cases hchild

/-- Revisions that agree on all values to which segments lead come to the
same. -/
theorem revised_congr {other : Revision} (hnode : node.Ordered) (hindexable : node.Indexable)
    (hrevision : revision.Ordered) (hother : other.Ordered)
    (h : ∀ segments value, node.follow segments = .ok value →
      revision segments value = other segments value) :
    node.revised revision = node.revised other := by
  induction node, hnode using Ordered.step_induction generalizing revision other with
  | down node hnode ih =>
    have hroot : revision [] node = other [] node := h [] node rfl
    cases hnew : revision [] node with
    | some new => rw [revised_of_eq_some hnew, revised_of_eq_some (hroot ▸ hnew)]
    | none =>
      have hkept : other [] node = none := by rw [← hroot, hnew]
      by_cases hcontainer : node.kind = .array ∨ node.kind = .object
      · refine revised_of_step? hnode hrevision (hnode.revised hother) hcontainer hnew
          (kind_revised hkept) fun step => ?_
        rw [step?_revised hkept]
        refine Option.map_congr fun child hchild => (revisedUnder_congr ?_).symm
        intro segment hsegment
        have hselected := child?_of_segment? hindexable hchild hsegment
        refine ih step child hchild (hindexable.child? hselected) (hrevision.below _)
          (hother.below _) fun segments value hvalue => ?_
        exact h (segment :: segments) value
          (follow_cons_eq_ok_iff.2 ⟨child, hselected, hvalue⟩)
      · rw [revised_of_scalar hcontainer hnew, revised_of_scalar hcontainer hkept]

/-! ## Writing at a place that is kept -/

/-- A step that a segment denotes is the one that the segment takes. -/
theorem eq_of_segment? {other : Step} (hstep : node.stepOf? segment = some step)
    (hfits : node.Fits other) (hother : other.segment? = some segment) : other = step := by
  cases node with
  | object members =>
    cases hstep
    cases other with
    | key name => rw [Segment.text_of_ofString? hother]
    | item index => exact hfits.elim
  | array items =>
    obtain ⟨index, hindex, rfl⟩ := Option.map_eq_some_iff.1 hstep
    cases other with
    | key name => exact hfits.elim
    | item position =>
      obtain rfl := Option.some.inj hother
      rw [Segment.ofIndex_injective (Segment.eq_ofIndex_of_index? hindex)]
  | _ => cases hstep

/-- Revisions that differ below one segment only differ in the child that it
selects. -/
theorem revised_eq_put {other : Revision} {child : Json} (hnode : node.Ordered)
    (hrevision : revision.Ordered) (hother : other.Ordered) (h : revision [] node = none)
    (hkept : other [] node = none) (hstep : node.stepOf? segment = some step)
    (hchild : node.step? step = some child)
    (hsame : ∀ second, second ≠ segment → other.below [second] = revision.below [second]) :
    node.revised other =
      (node.revised revision).put step (child.revised (other.below [segment])) := by
  have hself := segment?_of_stepOf? hstep
  have hold : (node.revised revision).step? step =
      some (child.revised (revision.below [segment])) := by
    rw [step?_revised h, hchild, Option.map_some, revisedUnder_of_segment? hself]
  refine eq_put_of_step? (hnode.revised hrevision) (hnode.revised hother) ?_ hold ?_ ?_
  · rw [kind_revised hkept, kind_revised h]
  · rw [step?_revised hkept, hchild, Option.map_some, revisedUnder_of_segment? hself]
  · intro beside hbeside
    rw [step?_revised hkept, step?_revised h]
    refine Option.map_congr fun found hfound => revisedUnder_congr fun second hsecond => ?_
    have hne : second ≠ segment := by
      rintro rfl
      exact hbeside (eq_of_segment? hstep (fits_of_step? hfound) hsecond)
    rw [hsame second hne]

/-- A write at a place of a revised value makes the revision that has the leaf
at this place.  The revision must keep every value on the way there; what it
does at the place and below does not matter. -/
theorem written_revised {other : Revision} {leaf value : Json} {segments : List Segment}
    (hnode : node.Ordered) (hrevision : revision.Ordered) (hother : other.Ordered)
    (hkept : node.KeptAbove revision segments) (hvalue : node.follow segments = .ok value)
    (hleaf : other segments value = some leaf)
    (hsame : ∀ place found, ¬ segments <+: place → other place found = revision place found) :
    (node.revised revision).written leaf segments = .ok (node.revised other) := by
  induction segments generalizing node revision other with
  | nil =>
    cases hvalue
    rw [revised_of_eq_some hleaf]
    rfl
  | cons segment rest ih =>
    obtain ⟨child, hchild, hbelow⟩ := follow_cons_eq_ok_iff.1 hvalue
    have hotherRoot : other [] node = none := by
      rw [hsame [] node (by simp), hkept.root]
    have hselected : (node.revised revision).child? segment =
        some (child.revised (revision.below [segment])) := by
      rw [child?_revised hkept.root, hchild]
      rfl
    obtain ⟨step, henter, hdown⟩ := enter_of_child? hselected
    have hstep : node.stepOf? segment = some step := by
      rw [← stepOf?_revised hkept.root]
      exact stepOf?_of_enter henter
    have hwritten : (child.revised (revision.below [segment])).written leaf rest =
        .ok (child.revised (other.below [segment])) := by
      refine ih (hnode.child? hchild) (hrevision.below _) (hother.below _) (hkept.child hchild)
        hbelow hleaf fun place found hplace => hsame (segment :: place) found ?_
      rw [List.cons_prefix_cons]
      exact fun hbegins => hplace hbegins.2
    rw [← childOrNew_of_step?_eq_some hdown] at hwritten
    refine written_cons_eq_ok_iff.2 ⟨step, _, henter, hwritten, ?_⟩
    rw [child?_eq_bind, hstep, Option.bind_some] at hchild
    refine revised_eq_put hnode hrevision hother hkept.root hotherRoot hstep hchild ?_
    refine fun second hne => funext fun place => funext fun found => ?_
    refine hsame (second :: place) found ?_
    rw [List.cons_prefix_cons]
    exact fun hbegins => hne hbegins.1.symm

end Json

/-! ## Documents -/

namespace Document

variable {document value new : Document} {path : Path}

/-- What takes the place of the value at a path, if anything does, as a
revision of values.  No path leads to the root, which stays. -/
def revisionOf (revise : Path → Document → Option Document) : Json.Revision :=
  fun segments node =>
    if h : segments ≠ [] ∧ node.Ordered then (revise ⟨segments, h.1⟩ ⟨node, h.2⟩).map root
    else none

theorem revisionOf_segments (revise : Path → Document → Option Document) (path : Path)
    (value : Document) :
    revisionOf revise path.segments value.root = (revise path value).map root :=
  dif_pos ⟨path.nonempty, value.ordered⟩

theorem ordered_revisionOf (revise : Path → Document → Option Document) :
    (revisionOf revise).Ordered := by
  intro segments node new _ hnew
  unfold revisionOf at hnew
  split at hnew
  · obtain ⟨found, -, rfl⟩ := Option.map_eq_some_iff.1 hnew
    exact found.ordered
  · cases hnew

/-- The document with other values in places below its root.  For every path
that leads to a value, from the root down, `revise` says what takes its place,
if anything does.  What is below a replaced value is not looked at. -/
def revised (document : Document) (revise : Path → Document → Option Document) : Document where
  root := document.root.revised (revisionOf revise)
  ordered := document.ordered.revised (ordered_revisionOf revise)

variable {revise other : Path → Document → Option Document}

/-- Every value on the way to the end of a path stays, but for the one at its
end. -/
def KeptAbove (document : Document) (revise : Path → Document → Option Document) (path : Path) :
    Prop :=
  ∀ above found, above.segments <+: path.segments → above ≠ path →
    (document.get above).value = some found → revise above found = none

theorem KeptAbove.root (h : document.KeptAbove revise path) :
    document.root.KeptAbove (revisionOf revise) path.segments := by
  intro above found habove hne hfound
  unfold revisionOf
  split
  · next hproper =>
    rw [h ⟨above, hproper.1⟩ ⟨found, hproper.2⟩ habove ?_ (value_get_eq_some_iff.2 hfound)]
    · rfl
    · exact fun heq => hne (congrArg Path.segments heq)
  · rfl

/-- A path leads to the value that has taken the place of the one there. -/
theorem get_revised_of_eq_some (hkept : document.KeptAbove revise path)
    (hvalue : (document.get path).value = some value) (h : revise path value = some new) :
    ((document.revised revise).get path).value = some new := by
  have hfollow := Json.follow_revised hkept.root (value_get_eq_some_iff.1 hvalue)
  rw [value_get_eq_some_iff]
  refine hfollow.trans (congrArg Except.ok (Json.revised_of_eq_some ?_))
  rw [Json.Revision.below_nil, revisionOf_segments, h]
  rfl

/-- A path leads to the scalar that has stayed there. -/
theorem get_revised_of_scalar (hkept : document.KeptAbove revise path)
    (hvalue : (document.get path).value = some value) (h : revise path value = none)
    (hscalar : ¬ (value.kind = .array ∨ value.kind = .object)) :
    ((document.revised revise).get path).value = some value := by
  have hfollow := Json.follow_revised hkept.root (value_get_eq_some_iff.1 hvalue)
  rw [value_get_eq_some_iff]
  refine hfollow.trans (congrArg Except.ok (Json.revised_of_scalar hscalar ?_))
  rw [Json.Revision.below_nil, revisionOf_segments, h]
  rfl

/-- A write at a path that has led to a value makes the revision that has the
leaf at this path. -/
theorem set_revised (hkept : document.KeptAbove revise path)
    (hvalue : (document.get path).value = some value) (hnew : other path value = some new)
    (hsame : ∀ place found, ¬ path.segments <+: place.segments →
      other place found = revise place found) :
    ((document.revised revise).set path new).error? = none ∧
      ((document.revised revise).set path new).document = document.revised other := by
  have hleaf : revisionOf other path.segments value.root = some new.root := by
    rw [revisionOf_segments, hnew]
    rfl
  have hwritten : (document.revised revise).root.written new.root path.segments =
      .ok (document.revised other).root := by
    refine Json.written_revised document.ordered (ordered_revisionOf revise)
      (ordered_revisionOf other) hkept.root (value_get_eq_some_iff.1 hvalue) hleaf ?_
    intro segments found hplace
    unfold revisionOf
    split
    · next hproper => rw [hsame _ _ hplace]
    · rfl
  obtain ⟨haccepted, hroot⟩ := set_of_written_eq_ok hwritten
  exact ⟨haccepted, ext_root hroot⟩

/-- Revisions that agree on all values to which paths lead come to the same. -/
theorem revised_congr (hindexable : document.root.Indexable)
    (h : ∀ path value, (document.get path).value = some value →
      revise path value = other path value) :
    document.revised revise = document.revised other := by
  refine ext_root (Json.revised_congr document.ordered hindexable (ordered_revisionOf revise)
    (ordered_revisionOf other) fun segments found hfound => ?_)
  unfold revisionOf
  split
  · next hproper => rw [h ⟨segments, hproper.1⟩ ⟨found, hproper.2⟩ (value_get_eq_some_iff.2 hfound)]
  · rfl

theorem revised_of_forall_eq_none (h : ∀ path value, revise path value = none) :
    document.revised revise = document := by
  refine ext_root (Json.revised_of_forall_eq_none document.ordered fun segments found => ?_)
  unfold revisionOf
  split
  · rw [h]
    rfl
  · rfl

end Document

end Dotted
