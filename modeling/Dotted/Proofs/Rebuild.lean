import Dotted.Proofs.Commute
import Dotted.Proofs.ReadAfterWrite
import Dotted.Proofs.Walk

/-!
# A document from its paths

The paths of a document, in the order in which a walk lists them, are enough
to build it again.  A write of an empty container or of a scalar at each path
finds the container above it in place, and in an array it comes right after
the items that are there.  So no write is refused and none pads an array.
What is missing at the end are the members that no path names, with
everything below them.

* `Json.shallow` is a value without what is below it, and `Json.pruned` a
  value without the members that no path names.
* `Json.Copies` is a series of writes for the steps of a walk.
  `Json.Copies.append` joins two series, and `Json.Copies.put` makes a
  series of writes to a child one of writes to its parent.
* `Json.copies_memberVisits` and `Json.copies_itemVisits` add the children of
  a container one after the other, and `Json.copies_visits` builds a value.
* `Document.paths_rebuild_document` is the result for `Document.paths`.
-/

namespace Dotted

namespace Members

variable {α : Type}

/-- A key that is greater than all others comes last. -/
theorem insert_eq_append {key : String} {members : Members α}
    (h : ∀ member ∈ members, member.1 < key) (value : α) :
    insert key value members = members ++ [(key, value)] := by
  induction members with
  | nil => rfl
  | cons head rest ih =>
    obtain ⟨other, old⟩ := head
    rw [insert_cons_of_lt (h _ (List.mem_cons_self ..)), List.cons_append,
      ih fun member hmember => h member (List.mem_cons_of_mem _ hmember)]

end Members

/-- A text is no segment exactly if it is empty or holds the delimiter. -/
theorem Segment.ofString?_eq_none_iff {text : String} :
    Segment.ofString? text = none ↔ text = "" ∨ delimiter ∈ text.toList := by
  rw [ofString?]
  split
  · next h => simp [h.1, h.2]
  · next h =>
    simp only [true_iff]
    by_cases hempty : text = ""
    · exact Or.inl hempty
    · exact Or.inr (Decidable.byContradiction fun hmem => h ⟨hempty, hmem⟩)

namespace Json

/-! ## Parts of a value -/

/-- The value without what is below it: a scalar, or an empty container. -/
def shallow : Json → Json
  | .array _ => .array []
  | .object _ => .object []
  | scalar => scalar

mutual

/-- The value without the members whose keys are empty or hold the delimiter,
and without what is below them, at every depth. -/
def pruned : Json → Json
  | .object members => .object (prunedMembers members)
  | .array items => .array (prunedItems items)
  | scalar => scalar

/-- The members that are kept, with their values pruned. -/
def prunedMembers : List (String × Json) → List (String × Json)
  | [] => []
  | (key, value) :: rest =>
    if key = "" ∨ delimiter ∈ key.toList then prunedMembers rest
    else (key, value.pruned) :: prunedMembers rest

/-- The items, with each of them pruned. -/
def prunedItems : List Json → List Json
  | [] => []
  | item :: rest => item.pruned :: prunedItems rest

end

/-- No key in the value is empty or holds the delimiter, at any depth. -/
def Addressable (node : Json) : Prop :=
  ∀ route key child, node.valueAt? (route ++ [.key key]) = some child →
    key ≠ "" ∧ delimiter ∉ key.toList

variable {node child : Json} {segment : Segment} {step : Step}

theorem Ordered.shallow (h : node.Ordered) : node.shallow.Ordered := by
  cases h with
  | array => exact .array fun item hitem => (List.not_mem_nil hitem).elim
  | object => exact .emptyObject
  | null => exact .null
  | bool value => exact .bool value
  | number value => exact .number value
  | string value => exact .string value

theorem prunedItems_eq_map (items : List Json) : prunedItems items = items.map pruned := by
  induction items with
  | nil => rfl
  | cons item rest ih => rw [prunedItems, List.map_cons, ih]

theorem prunedMembers_cons_of_skipped {key : String} (h : Segment.ofString? key = none)
    (value : Json) (rest : List (String × Json)) :
    prunedMembers ((key, value) :: rest) = prunedMembers rest := by
  rw [prunedMembers, if_pos (Segment.ofString?_eq_none_iff.1 h)]

theorem prunedMembers_cons_of_segment {key : String} (h : Segment.ofString? key = some segment)
    (value : Json) (rest : List (String × Json)) :
    prunedMembers ((key, value) :: rest) = (key, value.pruned) :: prunedMembers rest := by
  rw [prunedMembers, if_neg]
  rw [← Segment.ofString?_eq_none_iff, h]
  simp

theorem mem_prunedMembers {members : List (String × Json)} {member : String × Json}
    (h : member ∈ prunedMembers members) :
    ∃ value, (member.1, value) ∈ members ∧ member.2 = value.pruned := by
  induction members with
  | nil => cases h
  | cons head rest ih =>
    obtain ⟨key, value⟩ := head
    rw [prunedMembers] at h
    split at h
    · obtain ⟨found, hfound, heq⟩ := ih h
      exact ⟨found, List.mem_cons_of_mem _ hfound, heq⟩
    · rcases List.mem_cons.1 h with rfl | hrest
      · exact ⟨value, List.mem_cons_self .., rfl⟩
      · obtain ⟨found, hfound, heq⟩ := ih hrest
        exact ⟨found, List.mem_cons_of_mem _ hfound, heq⟩

theorem sorted_prunedMembers {members : Members Json} (h : Members.Sorted members) :
    Members.Sorted (prunedMembers members) := by
  induction members with
  | nil => exact List.Pairwise.nil
  | cons head rest ih =>
    obtain ⟨key, value⟩ := head
    have hparts := List.pairwise_cons.1 h
    rw [prunedMembers]
    split
    · exact ih hparts.2
    · refine List.pairwise_cons.2 ⟨fun member hmember => ?_, ih hparts.2⟩
      obtain ⟨found, hfound, -⟩ := mem_prunedMembers hmember
      exact hparts.1 (member.1, found) hfound

theorem Ordered.pruned (h : node.Ordered) : node.pruned.Ordered := by
  induction h with
  | null => exact .null
  | bool value => exact .bool value
  | number value => exact .number value
  | string value => exact .string value
  | @array items _ ih =>
    rw [Json.pruned, prunedItems_eq_map]
    refine .array fun item hitem => ?_
    obtain ⟨old, hold, rfl⟩ := List.mem_map.1 hitem
    exact ih old hold
  | object hsorted _ ih =>
    rw [Json.pruned]
    refine .object (sorted_prunedMembers hsorted) fun member hmember => ?_
    obtain ⟨value, hvalue, heq⟩ := mem_prunedMembers hmember
    rw [heq]
    exact ih _ hvalue

/-! ## Values without unnamed members -/

theorem Addressable.of_step? (h : node.Addressable) (hstep : node.step? step = some child) :
    child.Addressable := by
  intro route key found hfound
  refine h (step :: route) key found ?_
  rw [List.cons_append, valueAt?_cons_of_step? hstep, hfound]

theorem prunedMembers_eq_self {members : List (String × Json)}
    (h : ∀ member ∈ members,
      (member.1 ≠ "" ∧ delimiter ∉ member.1.toList) ∧ member.2.pruned = member.2) :
    prunedMembers members = members := by
  induction members with
  | nil => rfl
  | cons head rest ih =>
    obtain ⟨key, value⟩ := head
    obtain ⟨⟨hempty, hdotted⟩, hvalue⟩ := h (key, value) (List.mem_cons_self ..)
    have hkept : ¬ (key = "" ∨ delimiter ∈ key.toList) := not_or.2 ⟨hempty, hdotted⟩
    have hvalue : value.pruned = value := hvalue
    rw [prunedMembers, if_neg hkept, hvalue,
      ih fun member hmember => h member (List.mem_cons_of_mem _ hmember)]

/-- Nothing is pruned from a value of which paths name all members. -/
theorem pruned_of_addressable (hordered : node.Ordered) (h : node.Addressable) :
    node.pruned = node := by
  induction hordered with
  | @array items _ ih =>
    have hitems : ∀ item ∈ items, item.pruned = item := by
      intro item hitem
      obtain ⟨index, hindex⟩ := List.mem_iff_getElem?.1 hitem
      have hstep : (Json.array items).step? (.item index) = some item := hindex
      exact ih item hitem (h.of_step? hstep)
    rw [pruned, prunedItems_eq_map, List.map_congr_left hitems, List.map_id']
  | @object members hsorted _ ih =>
    rw [pruned, prunedMembers_eq_self]
    intro member hmember
    have hstep : (Json.object members).step? (.key member.1) = some member.2 :=
      (Members.lookup_eq_some_iff_mem hsorted).2 hmember
    refine ⟨h [] member.1 member.2 ?_, ih member hmember (h.of_step? hstep)⟩
    exact valueAt?_cons_of_step? hstep []
  | _ => rfl

/-! ## Series of writes -/

/-- In turn, a shallow copy of every value that a walk reaches is put at its
path, which turns the first value into the second.  No write is refused and
none pads an array. -/
inductive Copies : Json → List Visit → Json → Prop
  | nil (node : Json) : Copies node [] node
  | reached {before middle after value : Json} {path : Path} {route : Route}
      {visits : List Visit}
      (written_eq : before.written value.shallow path.segments = .ok middle)
      (route_eq : middle.route? path.segments = some route)
      (unpadded : ∀ place, ¬ before.PadsAt route place) (rest : Copies middle visits after) :
      Copies before (.reached path value :: visits) after
  | skipped {before after : Json} {key : String} {visits : List Visit}
      (rest : Copies before visits after) : Copies before (.skipped key :: visits) after

/-- Two series, one after the other. -/
theorem Copies.append {before middle after : Json} {first second : List Visit}
    (h : Copies before first middle) (hnext : Copies middle second after) :
    Copies before (first ++ second) after := by
  induction h with
  | nil node => exact hnext
  | reached hwritten hroute hpads _ ih => exact .reached hwritten hroute hpads (ih hnext)
  | skipped _ ih => exact .skipped (ih hnext)

/-- A route pads nothing if its first step does not pad and the rest of it
pads nothing one step down. -/
theorem not_padsAt_cons {route : Route} (hstep : ∀ other, ¬ node.Pads step other)
    (hbelow : ∀ place, ¬ (node.childOrNew step).PadsAt route place) (place : Route) :
    ¬ node.PadsAt (step :: route) place := by
  intro hpads
  cases place with
  | nil => exact hpads.ne_nil rfl
  | cons other rest =>
    by_cases heq : step = other
    · subst heq
      exact hbelow rest (padsAt_cons_self_iff.1 hpads)
    · exact hstep other ((padsAt_cons_iff_of_ne heq).1 hpads).2

/-- A series of writes to a child is one to its parent. -/
theorem Copies.put {before after : Json} {visits : List Visit}
    (henter : node.enter segment = .ok step) (h : Copies before visits after) :
    Copies (node.put step before) (visits.map (Visit.below segment)) (node.put step after) := by
  induction h with
  | nil child => exact .nil _
  | @reached before middle after value path route visits hwritten hroute hpads _ ih =>
    have hchild : (node.put step before).step? step = some before :=
      step?_put_self (fits_of_enter henter) before
    refine .reached ?_ (route?_put_cons henter hroute) ?_ ih
    · exact (written_put_self_eq_ok_iff henter _).2 ⟨middle, hwritten, rfl⟩
    · refine not_padsAt_cons (not_pads_of_step? hchild) ?_
      rw [childOrNew_of_step?_eq_some hchild]
      exact hpads
  | skipped _ ih => exact .skipped ih

/-! ## Building a value -/

/-- A child is put into its parent and then built there. -/
theorem copies_visitsAt (henter : node.enter segment = .ok step)
    (hpads : ∀ other, ¬ node.Pads step other)
    (h : Copies child.shallow child.visits child.pruned) :
    Copies node (child.visitsAt segment) (node.put step child.pruned) := by
  refine .reached ?_ (route?_put_cons henter rfl) (not_padsAt_cons hpads ?_) (h.put henter)
  · rw [Path.single, written_cons_of_enter henter]
    rfl
  · intro place hbelow
    obtain ⟨above, items, index, position, rest, hroute, -⟩ := hbelow
    simp at hroute

/-- Members with greater keys are added behind those that are there. -/
theorem copies_memberVisits {done members : List (String × Json)}
    (hsorted : Members.Sorted members)
    (hgreater : ∀ old ∈ done, ∀ member ∈ members, old.1 < member.1)
    (h : ∀ member ∈ members, Copies member.2.shallow member.2.visits member.2.pruned) :
    Copies (.object done) (members.flatMap visitsOfMember)
      (.object (done ++ prunedMembers members)) := by
  induction members generalizing done with
  | nil =>
    rw [prunedMembers, List.append_nil]
    exact .nil _
  | cons head rest ih =>
    obtain ⟨key, child⟩ := head
    have hparts := List.pairwise_cons.1 hsorted
    have hrest := fun member hmember => h member (List.mem_cons_of_mem (key, child) hmember)
    rw [List.flatMap_cons, visitsOfMember]
    cases hkey : Segment.ofString? key with
    | none =>
      rw [prunedMembers_cons_of_skipped hkey]
      refine .skipped (ih hparts.2 (fun old hold member hmember => ?_) hrest)
      exact hgreater old hold member (List.mem_cons_of_mem _ hmember)
    | some segment =>
      obtain rfl := Segment.text_of_ofString? hkey
      have hlast : (Json.object done).put (.key segment.text) child.pruned =
          .object (done ++ [(segment.text, child.pruned)]) :=
        congrArg Json.object (Members.insert_eq_append
          (fun old hold => hgreater old hold _ (List.mem_cons_self ..)) _)
      have hfirst : Copies (.object done) (child.visitsAt segment)
          ((Json.object done).put (.key segment.text) child.pruned) := by
        refine copies_visitsAt rfl ?_ (h (segment.text, child) (List.mem_cons_self ..))
        intro other hpads
        obtain ⟨items, index, position, hnode, -⟩ := hpads
        cases hnode
      rw [hlast] at hfirst
      rw [prunedMembers_cons_of_segment hkey, List.append_cons]
      refine hfirst.append (ih hparts.2 ?_ hrest)
      intro old hold member hmember
      rcases List.mem_append.1 hold with hdone | hnew
      · exact hgreater old hdone member (List.mem_cons_of_mem _ hmember)
      · obtain rfl := List.mem_singleton.1 hnew
        exact hparts.1 member hmember

/-- Items are added behind those that are there, each at the position right
after them. -/
theorem copies_itemVisits {done items : List Json} {index : Nat} (hindex : done.length = index)
    (hlength : done.length + items.length < Segment.indexBound)
    (h : ∀ item ∈ items, Copies item.shallow item.visits item.pruned) :
    Copies (.array done) (itemVisits index items) (.array (done ++ prunedItems items)) := by
  induction items generalizing done index with
  | nil =>
    rw [prunedItems, List.append_nil]
    exact .nil _
  | cons item rest ih =>
    rw [List.length_cons] at hlength
    have henter : (Json.array done).enter (.ofIndex index) = .ok (.item index) := by
      rw [enter_array (Segment.index?_ofIndex (by omega)), ← hindex, Nat.sub_self]
      rfl
    have hlast : (Json.array done).put (.item index) item.pruned =
        .array (done ++ [item.pruned]) := by
      show Json.array (putItem done index item.pruned) = _
      rw [← hindex, putItem_of_ge (Nat.le_refl _), padded, Nat.sub_self, List.replicate_zero,
        List.append_nil]
    have hfirst : Copies (.array done) (item.visitsAt (.ofIndex index))
        ((Json.array done).put (.item index) item.pruned) := by
      refine copies_visitsAt henter ?_ (h item (List.mem_cons_self ..))
      intro other hpads
      obtain ⟨items, position, before, hnode, hstep, -, hge, hbefore⟩ := hpads
      cases hnode
      cases hstep
      omega
    rw [hlast] at hfirst
    rw [prunedItems, List.append_cons]
    refine hfirst.append (ih ?_ ?_ fun other hother => h other (List.mem_cons_of_mem _ hother))
    · rw [List.length_append, hindex, List.length_singleton]
    · rw [List.length_append, List.length_singleton]
      omega

/-- The steps of a walk of a value build that value, pruned.  The induction is
on the value: its children are built one after the other, each in its place. -/
theorem copies_visits (hordered : node.Ordered) (hindexable : node.Indexable) :
    Copies node.shallow node.visits node.pruned := by
  induction hordered with
  | @array items _ ih =>
    have hlength : ([] : List Json).length + items.length < Segment.indexBound := by
      rw [List.length_nil, Nat.zero_add]
      exact hindexable.length
    rw [visits, pruned]
    exact copies_itemVisits rfl hlength fun item hitem =>
      ih item hitem (hindexable.items item hitem)
  | @object members hsorted _ ih =>
    rw [visits, memberVisits_eq_flatMap, pruned]
    exact copies_memberVisits hsorted (fun old hold => (List.not_mem_nil hold).elim)
      fun member hmember => ih member hmember (hindexable.values member hmember)
  | _ => exact .nil _

end Json

/-! ## Documents -/

namespace Document

/-- The document without what is below its root. -/
def shallow (document : Document) : Document :=
  ⟨document.root.shallow, document.ordered.shallow⟩

/-- The document without the members whose keys are empty or hold the
delimiter, and without what is below them, at every depth. -/
def pruned (document : Document) : Document := ⟨document.root.pruned, document.ordered.pruned⟩

/-- At each of the paths in turn, a shallow copy of what `source` has there is
put into a document, which turns `before` into `after`.  No write is refused
and none pads an array. -/
inductive Rebuilds (source : Document) : Document → List Path → Document → Prop
  | nil (document : Document) : Rebuilds source document [] document
  | cons {before value after : Document} {path : Path} {route : Json.Route} {rest : List Path}
      (found : (source.get path).value = some value)
      (accepted : (before.set path value.shallow).error? = none)
      (route_eq :
        (before.set path value.shallow).document.root.route? path.segments = some route)
      (unpadded : ∀ place, ¬ before.root.PadsAt route place)
      (rest_rebuilds : Rebuilds source (before.set path value.shallow).document rest after) :
      Rebuilds source before (path :: rest) after

/-- A series of writes for the steps of a walk is one for the paths that the
walk lists. -/
theorem rebuilds_of_copies {source before after : Document} {visits : List Visit}
    (h : Json.Copies before.root visits after.root)
    (hfound : ∀ path value, .reached path value ∈ visits →
      source.root.follow path.segments = .ok value) :
    Rebuilds source before (visits.filterMap (Visit.path? fun _ => true)) after := by
  generalize hbefore : before.root = first at h
  generalize hafter : after.root = last at h
  induction h generalizing before with
  | nil node =>
    rw [List.filterMap_nil, ext_root (hbefore.trans hafter.symm)]
    exact .nil after
  | @reached _ middle _ value path route visits hwritten hroute hpads _ ih =>
    subst hbefore
    have hfollow := hfound path value (List.mem_cons_self ..)
    have hget : (source.get path).value = some ⟨value, source.ordered.follow hfollow⟩ :=
      value_get_eq_some_iff.2 hfollow
    have hcopy : before.root.written (shallow ⟨value, source.ordered.follow hfollow⟩).root
        path.segments = .ok middle := hwritten
    obtain ⟨haccepted, hmiddle⟩ := set_of_written_eq_ok hcopy
    refine .cons hget haccepted ?_ hpads (ih ?_ hmiddle hafter)
    · rw [hmiddle, hroute]
    · exact fun path value hvisit => hfound path value (List.mem_cons_of_mem _ hvisit)
  | skipped _ ih =>
    refine ih ?_ hbefore hafter
    exact fun path value hvisit => hfound path value (List.mem_cons_of_mem _ hvisit)

/-- Writing shallow copies at the listed paths of a document, in the order of
the list, builds the document again from its empty root, without the members
that no path names.  If there are none it is the document itself. -/
theorem paths_rebuild_document (document : Document) (hindexable : document.root.Indexable) :
    Rebuilds document document.shallow document.paths.value document.pruned ∧
      (document.root.Addressable → document.pruned = document) := by
  refine ⟨rebuilds_of_copies (Json.copies_visits document.ordered hindexable) ?_, ?_⟩
  · exact fun path value => (Json.reached_mem_visits_iff document.ordered hindexable).1
  · exact fun h => ext_root (Json.pruned_of_addressable document.ordered h)

theorem paths_rebuild_document_table :
    table.root.Indexable ∧
      Rebuilds table (object [])
        [rowsPath, rowsPath.push (.ofIndex 0), (rowsPath.push (.ofIndex 0)).push (.ofIndex 0),
          rowsPath.push (.ofIndex 1)]
        (object [("rows", array [array [bool true], null])]) :=
  ⟨indexable_table, (paths_rebuild_document table indexable_table).1⟩

end Document

end Dotted
