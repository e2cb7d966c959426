import Dotted.Proofs.Written

/-!
# What a document holds after a write

A successful write puts its leaf at the end of one route.  `WrittenAt` says of
every route what it leads to afterwards.  At or below the written one it leads
into the leaf, above it to a container, and everywhere else to what was there
before, except for the `null`s that fill an array up to the new item.

* `WrittenAt.step` carries this account from a child to its parent, and
  `writtenAt_of_written` from the end of the path to the root.
* `ofString?_of_route?`: the route of a path has only keys that are segments,
  so that a write never reaches a member which no path can name.
* `set_leads_to_leaf` is the account of `Document.set`.
-/

namespace Dotted

namespace Json

/-- A write along `route` pads the array around `place` with `null`s, one of
them at `place` itself. -/
def PadsAt (node : Json) (route place : Route) : Prop :=
  ∃ above items index position below,
    route = above ++ .item index :: below ∧ place = above ++ [.item position] ∧
      node.valueAt? above = some (.array items) ∧ items.length ≤ position ∧ position < index

/-- What every place of `new` holds, where `new` is `node` with `leaf` at the
end of `route`. -/
structure WrittenAt (node leaf new : Json) (route : Route) : Prop where
  /-- At the end of the route is the leaf, and below it what is in the leaf. -/
  below : ∀ rest, new.valueAt? (route ++ rest) = leaf.valueAt? rest
  /-- Every place on the way holds a container, of the kind that was there or
  else an object. -/
  above : ∀ place, place <+: route → place ≠ route → ∃ container,
    new.valueAt? place = some container ∧
      (container.kind = .array ∨ container.kind = .object) ∧
      container.kind = ((node.valueAt? place).map kind).getD .object
  /-- Every other place holds what it held, unless it is padded. -/
  apart : ∀ place, ¬ route <+: place → ¬ place <+: route → ¬ node.PadsAt route place →
    new.valueAt? place = node.valueAt? place
  /-- A padded place held nothing and holds `null`. -/
  padded : ∀ place, node.PadsAt route place →
    node.valueAt? place = none ∧ new.valueAt? place = some .null

/-! ## Children, old and new -/

theorem valueAt?_childOrNew (node : Json) (step : Step) {place : Route} (h : place ≠ []) :
    (node.childOrNew step).valueAt? place = node.valueAt? (step :: place) := by
  rw [valueAt?_cons, childOrNew]
  cases node.step? step with
  | none => exact valueAt?_emptyObject h
  | some child => rfl

theorem kindAt_childOrNew (node : Json) (step : Step) (place : Route) :
    (((node.childOrNew step).valueAt? place).map kind).getD .object =
      ((node.valueAt? (step :: place)).map kind).getD .object := by
  rw [valueAt?_cons, childOrNew]
  cases node.step? step with
  | none => cases place with
    | nil => rfl
    | cons other rest =>
      show (((Json.object []).valueAt? (other :: rest)).map kind).getD .object = _
      rw [valueAt?_emptyObject (by simp)]
      rfl
  | some child => rfl

theorem PadsAt.ne_nil {node : Json} {route place : Route} (h : node.PadsAt route place) :
    place ≠ [] := by
  obtain ⟨above, items, index, position, below, -, hplace, -⟩ := h
  rw [hplace]
  simp

theorem not_padsAt_emptyObject (route place : Route) :
    ¬ (Json.object []).PadsAt route place := by
  intro hpads
  obtain ⟨above, items, index, position, below, -, -, habove, -, -⟩ := hpads
  cases above with
  | nil => cases habove
  | cons step rest =>
    rw [valueAt?_emptyObject (by simp)] at habove
    cases habove

/-- Padding one step down is padding of the child. -/
theorem padsAt_cons_self_iff {node : Json} {step : Step} {route place : Route} :
    node.PadsAt (step :: route) (step :: place) ↔
      (node.childOrNew step).PadsAt route place := by
  constructor
  · intro hpads
    obtain ⟨above, items, index, position, below, hroute, hplace, habove, hlength, hbefore⟩ := hpads
    cases above with
    | nil =>
      have hindex : step = .item index := (List.cons.inj hroute).1
      have hposition : step = .item position := (List.cons.inj hplace).1
      rw [hindex] at hposition
      have := Step.item.inj hposition
      omega
    | cons first rest =>
      obtain ⟨rfl, hrest⟩ := List.cons.inj hroute
      refine ⟨rest, items, index, position, below, hrest, (List.cons.inj hplace).2, ?_,
        hlength, hbefore⟩
      rw [valueAt?_cons] at habove
      obtain ⟨child, hchild, hvalue⟩ := Option.bind_eq_some_iff.1 habove
      rw [childOrNew_of_step?_eq_some hchild]
      exact hvalue
  · intro hpads
    obtain ⟨above, items, index, position, below, rfl, rfl, habove, hlength, hbefore⟩ := hpads
    refine ⟨step :: above, items, index, position, below, rfl, rfl, ?_, hlength, hbefore⟩
    cases hchild : node.step? step with
    | some child =>
      rw [childOrNew_of_step?_eq_some hchild] at habove
      rw [valueAt?_cons_of_step? hchild]
      exact habove
    | none =>
      rw [childOrNew_of_step?_eq_none hchild] at habove
      exact absurd ⟨above, items, index, position, below, rfl, rfl, habove, hlength, hbefore⟩
        (not_padsAt_emptyObject _ _)

/-- Padding beside the first step of the route is padding of the node. -/
theorem padsAt_cons_iff_of_ne {node : Json} {step other : Step} {route place : Route}
    (hne : step ≠ other) :
    node.PadsAt (step :: route) (other :: place) ↔ place = [] ∧ node.Pads step other := by
  constructor
  · intro hpads
    obtain ⟨above, items, index, position, below, hroute, hplace, habove, hlength, hbefore⟩ := hpads
    cases above with
    | nil =>
      obtain ⟨rfl, rfl⟩ := List.cons.inj hplace
      obtain ⟨rfl, -⟩ := List.cons.inj hroute
      exact ⟨rfl, items, index, position, Option.some.inj habove, rfl, rfl, hlength, hbefore⟩
    | cons first rest =>
      have hfirst : step = first := (List.cons.inj hroute).1
      have hother : other = first := (List.cons.inj hplace).1
      exact absurd (hfirst.trans hother.symm) hne
  · intro hpads
    obtain ⟨rfl, items, index, position, rfl, rfl, rfl, hlength, hbefore⟩ := hpads
    exact ⟨[], items, index, position, route, rfl, rfl, rfl, hlength, hbefore⟩

/-! ## From a child to its parent -/

theorem kind_of_fits {node : Json} {step : Step} (h : node.Fits step) :
    node.kind = .array ∨ node.kind = .object := by
  unfold Fits at h
  split at h
  · exact Or.inr rfl
  · exact Or.inl rfl
  · exact h.elim

theorem valueAt?_put_self {node : Json} {step : Step} (h : node.Fits step) (child : Json)
    (rest : Route) : (node.put step child).valueAt? (step :: rest) = child.valueAt? rest :=
  valueAt?_cons_of_step? (step?_put_self h child) rest

/-- Beside the step of a `put` every place holds what it held, unless it is
the padded one. -/
theorem valueAt?_put_of_ne {node : Json} {step other : Step} (hne : step ≠ other) {place : Route}
    (hpads : ¬ (place = [] ∧ node.Pads step other)) (child : Json) :
    (node.put step child).valueAt? (other :: place) = node.valueAt? (other :: place) := by
  by_cases hnode : node.Pads step other
  · obtain ⟨hbefore, hafter⟩ := step?_put_of_pads hnode child
    have hplace : place ≠ [] := fun hnil => hpads ⟨hnil, hnode⟩
    rw [valueAt?_cons_of_step? hafter, valueAt?_cons, hbefore, valueAt?_null hplace]
    rfl
  · rw [valueAt?_cons, valueAt?_cons, step?_put_of_ne hne hnode]

/-- The leaf itself, at the end of no segments. -/
theorem writtenAt_nil (node leaf : Json) : node.WrittenAt leaf leaf [] where
  below _ := rfl
  above place hplace hne := absurd (List.prefix_nil.1 hplace) hne
  apart place hroute := absurd (List.nil_prefix) hroute
  padded place := by
    intro hpads
    obtain ⟨above, items, index, position, below, hroute, -⟩ := hpads
    simp at hroute

/-- The account of a child is the account of its parent, one step down. -/
theorem WrittenAt.step {node leaf child : Json} {step : Step} {route : Route}
    (hfits : node.Fits step) (h : (node.childOrNew step).WrittenAt leaf child route) :
    node.WrittenAt leaf (node.put step child) (step :: route) := by
  refine ⟨?_, ?_, ?_, ?_⟩
  · intro rest
    rw [List.cons_append, valueAt?_put_self hfits]
    exact h.below rest
  · intro place hway hne
    cases place with
    | nil =>
      have hkind := kind_of_fits hfits
      rw [← kind_put node step child] at hkind
      exact ⟨node.put step child, rfl, hkind, kind_put node step child⟩
    | cons other place =>
      obtain ⟨rfl, hbelow⟩ := List.cons_prefix_cons.1 hway
      rw [valueAt?_put_self hfits, ← kindAt_childOrNew]
      exact h.above place hbelow fun heq => hne (congrArg (other :: ·) heq)
  · intro place hroute hplace hpads
    cases place with
    | nil => exact absurd List.nil_prefix hplace
    | cons other place =>
      by_cases heq : step = other
      · subst heq
        rw [List.cons_prefix_cons] at hroute hplace
        rw [padsAt_cons_self_iff] at hpads
        have hne : place ≠ [] := by
          intro hnil
          subst hnil
          exact hplace ⟨rfl, List.nil_prefix⟩
        rw [valueAt?_put_self hfits, ← valueAt?_childOrNew node step hne]
        exact h.apart place (fun hp => hroute ⟨rfl, hp⟩) (fun hp => hplace ⟨rfl, hp⟩) hpads
      · rw [padsAt_cons_iff_of_ne heq] at hpads
        exact valueAt?_put_of_ne heq hpads child
  · intro place hpads
    cases place with
    | nil => exact absurd rfl hpads.ne_nil
    | cons other place =>
      by_cases heq : step = other
      · subst heq
        rw [padsAt_cons_self_iff] at hpads
        rw [valueAt?_put_self hfits, ← valueAt?_childOrNew node step hpads.ne_nil]
        exact h.padded place hpads
      · obtain ⟨rfl, hnode⟩ := (padsAt_cons_iff_of_ne heq).1 hpads
        obtain ⟨hbefore, hafter⟩ := step?_put_of_pads hnode child
        rw [valueAt?_cons, hbefore, valueAt?_cons_of_step? hafter]
        exact ⟨rfl, rfl⟩

/-- A write puts its leaf at the end of the route that its segments take
afterwards. -/
theorem writtenAt_of_written {node leaf new : Json} {segments : List Segment}
    (h : node.written leaf segments = .ok new) :
    ∃ route, new.route? segments = some route ∧ node.WrittenAt leaf new route := by
  induction segments generalizing node new with
  | nil =>
    cases h
    exact ⟨[], rfl, writtenAt_nil node leaf⟩
  | cons segment rest ih =>
    obtain ⟨step, child, henter, hchild, rfl⟩ := written_cons_eq_ok_iff.1 h
    obtain ⟨route, hroute, hwritten⟩ := ih hchild
    exact ⟨step :: route, route?_put_cons henter hroute, hwritten.step (fits_of_enter henter)⟩

/-! ## Keys that no path names -/

/-- The keys on the route of a path are segments. -/
theorem ofString?_of_route? {node : Json} {segments : List Segment} {route : Route}
    (h : node.route? segments = some route) {key : String} (hkey : Step.key key ∈ route) :
    Segment.ofString? key ≠ none := by
  induction segments generalizing node route with
  | nil =>
    cases h
    cases hkey
  | cons segment rest ih =>
    obtain ⟨step, hstep, hmore⟩ := Option.bind_eq_some_iff.1 h
    obtain ⟨child, -, hmap⟩ := Option.bind_eq_some_iff.1 hmore
    obtain ⟨below, hbelow, rfl⟩ := Option.map_eq_some_iff.1 hmap
    rcases List.mem_cons.1 hkey with rfl | hrest
    · cases node with
      | object members =>
        cases hstep
        rw [Segment.ofString?_text]
        simp
      | array items =>
        obtain ⟨index, -, hitem⟩ := Option.map_eq_some_iff.1 hstep
        cases hitem
      | _ => cases hstep
    · exact ih hbelow hrest

/-- A place that a write pads has only keys of the written route. -/
theorem mem_of_padsAt {node : Json} {route place : Route} (h : node.PadsAt route place)
    {key : String} (hkey : Step.key key ∈ place) : Step.key key ∈ route := by
  obtain ⟨above, items, index, position, below, rfl, rfl, -⟩ := h
  rcases List.mem_append.1 hkey with habove | hitem
  · exact List.mem_append_left _ habove
  · simp at hitem

/-- A write leaves every member as it was that no path names, and everything
below it, unless it replaces a node above. -/
theorem WrittenAt.unnamed {node leaf new : Json} {segments : List Segment} {route : Route}
    (h : node.WrittenAt leaf new route) (hroute : new.route? segments = some route)
    {place : Route} {key : String} (hkey : Step.key key ∈ place)
    (hunnamed : Segment.ofString? key = none) (hbelow : ¬ route <+: place) :
    new.valueAt? place = node.valueAt? place := by
  have hnot : Step.key key ∉ route := fun hmem => ofString?_of_route? hroute hmem hunnamed
  refine h.apart place hbelow ?_ ?_
  · intro hway
    exact hnot (hway.subset hkey)
  · intro hpads
    exact hnot (mem_of_padsAt hpads hkey)

end Json

/-! ## Documents -/

namespace Document

/-- After a successful write the path leads to the leaf, and every place of
the document holds what `Json.WrittenAt` says.  Members that no path names are
as they were, unless a node above them was replaced. -/
theorem set_leads_to_leaf (document leaf : Document) (path : Path)
    (h : (document.set path leaf).error? = none) :
    ((document.set path leaf).document.get path).value = some leaf ∧
      ∃ route, (document.set path leaf).document.root.route? path.segments = some route ∧
        document.root.WrittenAt leaf.root (document.set path leaf).document.root route ∧
        ∀ place key, Json.Step.key key ∈ place → Segment.ofString? key = none →
          ¬ route <+: place →
          (document.set path leaf).document.root.valueAt? place =
            document.root.valueAt? place := by
  obtain ⟨new, hnew⟩ := error?_set_eq_none_iff.1 h
  obtain ⟨route, hroute, hwritten⟩ := Json.writtenAt_of_written hnew
  rw [value_get_eq_some_iff, (set_of_written_eq_ok hnew).2]
  refine ⟨?_, route, hroute, hwritten, ?_⟩
  · refine Json.follow_eq_ok_iff.2 ⟨route, hroute, ?_⟩
    have hend := hwritten.below []
    rwa [List.append_nil] at hend
  · intro place key hkey hunnamed hbelow
    exact hwritten.unnamed hroute hkey hunnamed hbelow

/-- A list of one item, and a member that no path names. -/
def shortList : Document := .object [("a.b", .bool true), ("list", .array [.null])]

/-- A position past the end of `shortList`. -/
def pastEnd : Path := (Path.single ⟨"list", by decide, by decide⟩).push (.ofIndex 2)

theorem set_leads_to_leaf_past_end :
    (shortList.set pastEnd (.bool false)).error? = none ∧
      ((shortList.set pastEnd (.bool false)).document.get pastEnd).value = some (.bool false) ∧
      (shortList.set pastEnd (.bool false)).document.root.valueAt? [.key "list", .item 1] =
        some .null ∧
      (shortList.set pastEnd (.bool false)).document.root.valueAt? [.key "a.b"] =
        some (.bool true) := by
  have h : (shortList.set pastEnd (.bool false)).error? = none := by decide
  obtain ⟨hget, route, hroute, hwritten, hunnamed⟩ :=
    set_leads_to_leaf shortList (.bool false) pastEnd h
  obtain rfl : [Json.Step.key "list", .item 2] = route :=
    Option.some.inj ((show _ = some [Json.Step.key "list", .item 2] by rfl).symm.trans hroute)
  refine ⟨h, hget, ?_, ?_⟩
  · refine (hwritten.padded _ ?_).2
    exact ⟨[.key "list"], [.null], 2, 1, [], rfl, rfl, rfl, by decide, by decide⟩
  · exact (hunnamed _ "a.b" (by simp) (by decide) (by decide)).trans rfl

end Document

end Dotted
