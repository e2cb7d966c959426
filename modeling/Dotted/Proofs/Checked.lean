import Dotted.Proofs.Focus

/-!
# Accesses that are checked when they are made

A program that runs on machine numbers reads a list at a position, cuts it at
a length, subtracts lengths and adds to them, and each of these ends the
program where it is out of bounds.  The definitions on paths and documents
have no such accesses, because a `Path` is known to have a first and a last
segment and differences of natural numbers stop at zero.  Here the accesses
are spelled out, on lists of which nothing is known, and each is checked when
it is made.

* `first_eq_ok`, `last_eq_ok`, `splitLast_eq_ok` and `parent?_eq_ok`: a list
  that is not empty has the parts that are asked for.
* `location_eq_ok`: a location is written up to any depth of the path.
* `get_eq_ok` and `focus_eq_ok`: a read and a focus along a path make no access
  out of bounds, and give what `Document.get` and `Document.focus?` give.
* `reserve_eq_ok`: the arithmetic of an array that grows is within bounds.
* `set_eq_ok`: a write along a path makes no access out of bounds, and gives
  what `Document.set` gives.
-/

namespace Dotted

/-- What ends a program in place of a result. -/
inductive Trap where
  /-- A position or a length is past the end of a list. -/
  | outOfRange
  /-- A difference is negative. -/
  | underflow
  /-- A sum does not fit into a machine number. -/
  | overflow
deriving DecidableEq

/-- A result, or the trap that a check on the way to it has sprung. -/
abbrev Checked (α : Type) : Type := Except Trap α

/-- The texts of the segments of a path. -/
def Path.tokens (path : Path) : List String := path.segments.map Segment.text

theorem Path.tokens_ne_nil (path : Path) : path.tokens ≠ [] :=
  fun h => path.nonempty (List.map_eq_nil_iff.1 h)

theorem Path.length_tokens (path : Path) : path.tokens.length = path.length :=
  List.length_map _

/-- The root is followed as the document is. -/
theorem Document.root_follow (document : Document) (path : Path) :
    document.root.follow path.segments = (document.follow path).map root := by
  unfold follow
  split
  · next value hvalue => exact hvalue
  · next miss hmiss => exact hmiss

namespace Checked

variable {α ε : Type}

/-! ## Machine numbers and lists -/

/-- The difference of two machine numbers. -/
def minus (a b : Nat) : Checked Nat := if b ≤ a then .ok (a - b) else .error .underflow

/-- The sum of two machine numbers. -/
def plus (a b : Nat) : Checked Nat :=
  if a + b < Segment.indexBound then .ok (a + b) else .error .overflow

/-- The item at a position of a list. -/
def item (items : List α) (index : Nat) : Checked α :=
  match items[index]? with
  | some found => .ok found
  | none => .error .outOfRange

/-- A list cut at a length. -/
def splitAt (items : List α) (length : Nat) : Checked (List α × List α) :=
  if length ≤ items.length then .ok (items.take length, items.drop length)
  else .error .outOfRange

/-- The first items of a list. -/
def slice (items : List α) (length : Nat) : Checked (List α) :=
  (splitAt items length).map Prod.fst

/-- What comes after an access that springs no trap. -/
theorem ok_bind {β : Type} (value : α) (next : α → Checked β) :
    ((.ok value : Checked α) >>= next) = next value :=
  rfl

theorem minus_eq_ok {a b : Nat} (h : b ≤ a) : minus a b = .ok (a - b) := if_pos h

theorem plus_eq_ok {a b : Nat} (h : a + b < Segment.indexBound) : plus a b = .ok (a + b) :=
  if_pos h

theorem item_eq_ok {items : List α} {index : Nat} {found : α} (h : items[index]? = some found) :
    item items index = .ok found := by
  rw [item, h]

theorem splitAt_eq_ok {items : List α} {length : Nat} (h : length ≤ items.length) :
    splitAt items length = .ok (items.take length, items.drop length) :=
  if_pos h

theorem slice_eq_ok {items : List α} {length : Nat} (h : length ≤ items.length) :
    slice items length = .ok (items.take length) := by
  rw [slice, splitAt_eq_ok h]
  rfl

/-! ## Parts of a list that should not be empty -/

/-- The first item. -/
def first (items : List α) : Checked α := item items 0

/-- The last item. -/
def last (items : List α) : Checked α := do
  item items (← minus items.length 1)

/-- The last item, and the items before it. -/
def splitLast (items : List α) : Checked (α × List α) := do
  let (parents, leaf) ← splitAt items (← minus items.length 1)
  return (← item leaf 0, parents)

/-- The items before the last one, unless there is only one. -/
def parent? (items : List α) : Checked (Option (List α)) :=
  if items.length = 1 then return none
  else do
    let parents ← slice items (← minus items.length 1)
    return some parents

variable {items : List α}

theorem minus_length_one (h : items ≠ []) : minus items.length 1 = .ok (items.length - 1) :=
  minus_eq_ok (List.length_pos_iff.2 h)

theorem first_eq_ok (h : items ≠ []) : first items = .ok (items.head h) := by
  refine item_eq_ok ?_
  rw [← List.head?_eq_getElem?, List.head?_eq_some_head h]

theorem last_eq_ok (h : items ≠ []) : last items = .ok (items.getLast h) := by
  rw [last, minus_length_one h]
  refine item_eq_ok ?_
  rw [← List.getLast?_eq_getElem?, List.getLast?_eq_some_getLast h]

theorem splitLast_eq_ok (h : items ≠ []) :
    splitLast items = .ok (items.getLast h, items.dropLast) := by
  have hleaf : (items.drop (items.length - 1))[0]? = some (items.getLast h) := by
    rw [List.getElem?_drop, Nat.add_zero, ← List.getLast?_eq_getElem?,
      List.getLast?_eq_some_getLast h]
  simp only [splitLast, minus_length_one h, ok_bind, splitAt_eq_ok (Nat.sub_le _ _),
    item_eq_ok hleaf, List.dropLast_eq_take]
  rfl

theorem parent?_eq_ok (h : items ≠ []) :
    parent? items = .ok (if items.dropLast = [] then none else some items.dropLast) := by
  have hpos : 0 < items.length := List.length_pos_iff.2 h
  have hone : items.length = 1 ↔ items.dropLast = [] := by
    rw [← List.length_eq_zero_iff, List.length_dropLast]
    omega
  unfold parent?
  by_cases hdrop : items.dropLast = []
  · rw [if_pos (hone.2 hdrop), if_pos hdrop]
    rfl
  · rw [if_neg (mt hone.1 hdrop), if_neg hdrop, minus_length_one h, ok_bind,
      slice_eq_ok (Nat.sub_le _ _), ← List.dropLast_eq_take]
    rfl

/-- A list without items has no last one, and not even a length for the
others. -/
example : splitLast ([] : List String) = .error .underflow := rfl

/-! ## Locations -/

/-- Where one stands after the first `depth` tokens. -/
def location (tokens : List String) (depth : Nat) : Checked String :=
  if depth = 0 then return Path.rootLabel
  else do
    let above ← slice tokens depth
    return (String.singleton delimiter).intercalate above

theorem location_eq_ok {path : Path} {depth : Nat} (h : depth ≤ path.length) :
    location path.tokens depth = .ok (path.location depth) := by
  rw [← path.length_tokens] at h
  unfold location Path.location
  split
  · rfl
  · rw [slice_eq_ok h, Path.tokens, ← List.map_take]
    rfl

/-! ## Reads -/

/-- The loop of a read, which starts at `depth`.  Where nothing is there for a
segment, it ends with what is `noted` of the place. -/
def descend (noted : Nat → Segment → Checked ε) (node : Json) (depth : Nat) :
    List Segment → Checked (Except ε Json)
  | [] => return .ok node
  | segment :: rest =>
    match node.child? segment with
    | some child => descend noted child (depth + 1) rest
    | none => do
      let note ← noted depth segment
      return .error note

/-- A read springs no trap if none of its notes does. -/
theorem descend_eq_ok {noted : Nat → Segment → Checked ε} (note : Nat → Segment → ε)
    {segments : List Segment} (node : Json) (depth : Nat)
    (h : ∀ below < segments.length, ∀ segment,
      noted (depth + below) segment = .ok (note (depth + below) segment)) :
    descend noted node depth segments =
      .ok ((node.follow segments).mapError fun miss => note (depth + miss.depth) miss.segment) := by
  induction segments generalizing node depth with
  | nil => rfl
  | cons segment rest ih =>
    rw [descend, Json.follow]
    cases hchild : node.child? segment with
    | none =>
      have hnote := h 0 (Nat.zero_lt_succ _) segment
      rw [Nat.add_zero] at hnote
      simp only [hnote]
      rfl
    | some child =>
      have hbelow := ih child (depth + 1) fun below hlt segment => by
        rw [Nat.add_assoc, Nat.add_comm 1 below]
        exact h (below + 1) (Nat.succ_lt_succ hlt) segment
      simp only [hbelow]
      cases child.follow rest with
      | ok value => rfl
      | error miss =>
        show _ = Except.ok (Except.error (note (depth + (miss.depth + 1)) miss.segment))
        rw [Nat.add_comm miss.depth, ← Nat.add_assoc]
        rfl

/-- A read along a path, which reports where it gets stuck. -/
def get (root : Json) (path : Path) : Checked (Logged (Option Json)) := do
  let result ← descend (fun depth segment => do
    let above ← location path.tokens depth
    return Event.unresolved path above segment) root 0 path.segments
  match result with
  | .ok value => return ⟨some value, []⟩
  | .error event => return ⟨none, [event]⟩

/-- The loop of a focus, which notes nothing. -/
def focus (root : Json) (segments : List Segment) : Checked (Option Json) := do
  let result ← descend (fun _ _ => return ()) root 0 segments
  return result.toOption

/-- A read along a path springs no trap, and gives what `Document.get`
gives. -/
theorem get_eq_ok (document : Document) (path : Path) :
    get document.root path =
      .ok ⟨(document.get path).value.map Document.root, (document.get path).events⟩ := by
  have hevents : ∀ below < path.segments.length, ∀ segment : Segment,
      (do
        let above ← location path.tokens (0 + below)
        return Event.unresolved path above segment) =
        .ok (Event.unresolved path (path.location (0 + below)) segment) := by
    intro below hlt segment
    rw [Nat.zero_add, location_eq_ok (Nat.le_of_lt hlt)]
    rfl
  rw [get, descend_eq_ok (fun depth segment => .unresolved path (path.location depth) segment)
    document.root 0 hevents, ok_bind, Document.root_follow]
  unfold Document.get
  simp only [Nat.zero_add]
  cases document.follow path <;> rfl

/-- A focus springs no trap, and finds what `Document.focus?` finds. -/
theorem focus_eq_ok (document : Document) (path : Path) :
    focus document.root path.segments =
      .ok ((document.focus? path).map fun focus => focus.value.root) := by
  have hvalue : (document.focus? path).map (fun focus => focus.value.root) =
      (document.get path).value.map Document.root := by
    rw [← Document.map_value_focus?, Option.map_map]
    rfl
  rw [focus, descend_eq_ok (fun _ _ => ()) document.root 0 fun _ _ _ => rfl, ok_bind, hvalue,
    Document.root_follow]
  unfold Document.get
  cases document.follow path <;> rfl

/-! ## Arrays that grow -/

/-- Whether an array of `length` items can be extended up to `index`, which is
not one of its positions.  The number of new items is worked out only after
the gap was found to be narrow enough.  Memory is taken to suffice. -/
def reserve (length index : Nat) : Checked Bool := do
  let gap ← minus index length
  if maxGap < gap then return false
  else
    let _additional ← plus gap 1
    return true

theorem reserve_eq_ok {length index : Nat} (h : length ≤ index) :
    reserve length index = .ok (decide (index - length ≤ maxGap)) := by
  rw [reserve, minus_eq_ok h, ok_bind]
  by_cases hgap : index - length ≤ maxGap
  · have hsum : index - length + 1 < Segment.indexBound :=
      Nat.lt_of_le_of_lt (Nat.succ_le_succ hgap) (by decide)
    rw [if_neg (Nat.not_lt.2 hgap), plus_eq_ok hsum, decide_eq_true hgap]
    rfl
  · rw [if_pos (Nat.lt_of_not_le hgap), decide_eq_false hgap]
    rfl

/-- An array that was extended up to a position has an item there. -/
theorem getElem?_extended {items : List Json} {index : Nat} (h : items.length ≤ index)
    (value : Json) : (Json.padded items index ++ [value])[index]? = some value := by
  rw [← Json.putItem_of_ge h, Json.getElem?_putItem, if_pos rfl]

/-! ## Writes -/

/-- What a write did to a node. -/
structure Written where
  /-- What stands in place of the node afterwards. -/
  node : Json
  /-- The error, if the write was refused. -/
  error? : Option WriteError
  /-- What was reported, in order. -/
  events : List Event

namespace Written

/-- What was done to a node, from what was done to one of its children. -/
def within (put : Json → Json) (events : List Event) (below : Written) : Written :=
  ⟨put below.node, below.error?, events ++ below.events⟩

/-- An outcome of a write that starts at `depth` on a path. -/
def ofOutcome (path : Path) (depth : Nat) (outcome : Json.Outcome) : Written where
  node := outcome.node
  error? := outcome.failure.map fun failure =>
    ⟨path.location (depth + failure.depth), failure.refusal⟩
  events := outcome.events

end Written

/-- The node stays as it is and does not take the segment. -/
def refused (node : Json) (refusal : Refusal) (events : List Event) (located : Checked String) :
    Checked Written := do
  let location ← located
  return ⟨node, some ⟨location, refusal⟩, events⟩

/-- The turn for a segment on the way: finds the child, or puts an empty
object there, and goes on `below` it. -/
def childOrInsert (node : Json) (segment : Segment) (located : Checked String)
    (below : Json → Checked Written) : Checked Written :=
  match node with
  | .object members =>
    match members.lookup segment.text with
    | some child => do
      let written ← below child
      return written.within (fun child => .object (Members.insert segment.text child members)) []
    | none => do
      let grown := Members.insert segment.text (.object []) members
      let written ← below (.object [])
      return written.within (fun child => .object (Members.insert segment.text child grown))
        [.creatingObject segment]
  | .array items =>
    match segment.index? with
    | none => refused node (.notAnIndex segment) [] located
    | some index =>
      if items.length ≤ index then do
        let event := Event.extendingArray index items.length
        if ← reserve items.length index then
          let grown := Json.padded items index ++ [.object []]
          let written ← below (← item grown index)
          return written.within (fun child => .array (Json.replaceItem grown index child)) [event]
        else refused node (.indexOutOfRange index items.length) [event] located
      else do
        let written ← below (← item items index)
        return written.within (fun child => .array (Json.replaceItem items index child)) []
  | scalar => refused node (.notAContainer scalar.kind) [] located

/-- The turn for the last segment: puts the leaf there. -/
def assign (node : Json) (segment : Segment) (leaf : Json) (located : Checked String) :
    Checked Written :=
  match node with
  | .object members =>
    return ⟨.object (Members.insert segment.text leaf members), none, []⟩
  | .array items =>
    match segment.index? with
    | none => refused node (.notAnIndex segment) [] located
    | some index =>
      if index < items.length then do
        let _replaced ← item items index
        return ⟨.array (Json.replaceItem items index leaf), none, []⟩
      else do
        if ← reserve items.length index then
          return ⟨.array (Json.padded items index ++ [leaf]), none, []⟩
        else refused node (.indexOutOfRange index items.length) [] located
  | scalar => refused node (.notAContainer scalar.kind) [] located

/-- The loop of a write, which starts at `depth`: the segments on the way, and
then the last one. -/
def setFrom (tokens : List String) (last : Segment) (leaf : Json) (node : Json) (depth : Nat) :
    List Segment → Checked Written
  | [] => assign node last leaf (location tokens depth)
  | segment :: rest =>
    childOrInsert node segment (location tokens depth) fun child =>
      setFrom tokens last leaf child (depth + 1) rest

/-- A write along segments of which nothing is known. -/
def set (root : Json) (segments : List Segment) (leaf : Json) : Checked Written := do
  let (last, parents) ← splitLast segments
  setFrom (segments.map Segment.text) last leaf root 0 parents

variable {path : Path} {depth : Nat}

theorem within_ofOutcome (put : Json → Json) (events : List Event) (outcome : Json.Outcome) :
    (Written.ofOutcome path (depth + 1) outcome).within put events =
      .ofOutcome path depth ⟨put outcome.node, outcome.failure.map Failure.deeper,
        events ++ outcome.events⟩ := by
  obtain ⟨node, failure, events⟩ := outcome
  cases failure with
  | none => rfl
  | some failure =>
    have hdepth : depth + 1 + failure.depth = depth + (failure.depth + 1) := by omega
    show Written.mk _ (some ⟨path.location (depth + 1 + failure.depth), _⟩) _ = _
    rw [hdepth]
    rfl

/-- The turn for a segment on the way springs no trap if what is done below
springs none, and does what a write does. -/
theorem childOrInsert_eq_ok {below : Json → Checked Written} {segment next : Segment}
    {leaf : Json} {rest : List Segment}
    (hbelow : ∀ child,
      below child = .ok (.ofOutcome path (depth + 1) (child.write next leaf rest)))
    (node : Json) :
    childOrInsert node segment (.ok (path.location depth)) below =
      .ok (.ofOutcome path depth (node.write segment leaf (next :: rest))) := by
  cases node with
  | object members =>
    cases hchild : members.lookup segment.text with
    | some child =>
      simp only [childOrInsert, Json.write, hchild, hbelow]
      exact congrArg Except.ok (within_ofOutcome _ _ _)
    | none =>
      simp only [childOrInsert, Json.write, hchild, hbelow]
      exact congrArg Except.ok (within_ofOutcome _ _ _)
  | array items =>
    cases hindex : segment.index? with
    | none =>
      simp only [childOrInsert, Json.write, hindex]
      rfl
    | some index =>
      by_cases hlt : index < items.length
      · have hitem : items[index]? = some items[index] := List.getElem?_eq_getElem hlt
        simp only [childOrInsert, Json.write, hindex, if_neg (Nat.not_le.2 hlt), hitem,
          item_eq_ok hitem, ok_bind, hbelow]
        exact congrArg Except.ok (within_ofOutcome _ _ _)
      · have hge : items.length ≤ index := Nat.le_of_not_lt hlt
        have hitem : items[index]? = none := List.getElem?_eq_none hge
        simp only [childOrInsert, Json.write, hindex, if_pos hge, hitem, reserve_eq_ok hge,
          ok_bind, decide_eq_true_eq]
        by_cases hgap : index - items.length ≤ maxGap
        · rw [if_pos hgap, if_pos hgap, item_eq_ok (getElem?_extended hge _), ok_bind, hbelow]
          exact congrArg Except.ok (within_ofOutcome _ _ _)
        · rw [if_neg hgap, if_neg hgap]
          rfl
  | _ => rfl

theorem assign_eq_ok (node : Json) (segment : Segment) (leaf : Json) :
    assign node segment leaf (.ok (path.location depth)) =
      .ok (.ofOutcome path depth (node.assign segment leaf)) := by
  cases node with
  | object members => rfl
  | array items =>
    cases hindex : segment.index? with
    | none =>
      simp only [assign, Json.assign, hindex]
      rfl
    | some index =>
      by_cases hlt : index < items.length
      · have hitem : items[index]? = some items[index] := List.getElem?_eq_getElem hlt
        simp only [assign, Json.assign, hindex, if_pos hlt, hitem, item_eq_ok hitem, ok_bind]
        rfl
      · have hge : items.length ≤ index := Nat.le_of_not_lt hlt
        have hitem : items[index]? = none := List.getElem?_eq_none hge
        simp only [assign, Json.assign, hindex, if_neg hlt, hitem, reserve_eq_ok hge, ok_bind,
          decide_eq_true_eq]
        by_cases hgap : index - items.length ≤ maxGap
        · rw [if_pos hgap, if_pos hgap]
          rfl
        · rw [if_neg hgap, if_neg hgap]
          rfl
  | _ => rfl

/-- The loop of a write springs no trap as long as it is within the path.  The
induction is on the segments on the way, and what is left of the path when
the loop stands before the first of them is `segment :: rest`. -/
theorem setFrom_eq_ok {last segment : Segment} {leaf : Json} {parents rest : List Segment}
    (hsegments : parents ++ [last] = segment :: rest) (node : Json)
    (hdepth : depth + parents.length ≤ path.length) :
    setFrom path.tokens last leaf node depth parents =
      .ok (.ofOutcome path depth (node.write segment leaf rest)) := by
  induction parents generalizing node depth segment rest with
  | nil =>
    cases hsegments
    rw [setFrom, location_eq_ok (Nat.le_of_add_right_le hdepth), Json.write, assign_eq_ok]
  | cons parent parents ih =>
    rw [List.cons_append] at hsegments
    obtain ⟨rfl, rfl⟩ := List.cons.inj hsegments
    obtain ⟨next, rest, hrest⟩ := List.exists_cons_of_ne_nil (l := parents ++ [last]) (by simp)
    have hbelow : depth + 1 + parents.length ≤ path.length := by
      rw [List.length_cons] at hdepth
      omega
    rw [setFrom, location_eq_ok (Nat.le_of_add_right_le hdepth), hrest]
    exact childOrInsert_eq_ok (fun child => ih hrest child hbelow) node

/-- A write along a path springs no trap, and does what `Document.set` does. -/
theorem set_eq_ok (document : Document) (path : Path) (leaf : Document) :
    set document.root path.segments leaf.root =
      .ok {
        node := (document.set path leaf).document.root
        error? := (document.set path leaf).error?
        events := (document.set path leaf).events } := by
  have hsegments : path.segments.dropLast ++ [path.segments.getLast path.nonempty] =
      path.first :: path.segments.tail := by
    rw [List.dropLast_concat_getLast, Document.first_cons_tail]
  have hdepth : 0 + path.segments.dropLast.length ≤ path.length := by
    rw [Nat.zero_add, List.length_dropLast]
    exact Nat.sub_le _ _
  rw [set, splitLast_eq_ok path.nonempty, ok_bind]
  refine (setFrom_eq_ok hsegments document.root hdepth).trans ?_
  simp only [Written.ofOutcome, Nat.zero_add]
  rfl

/-- Without a segment there is no last one to write at. -/
example (root leaf : Json) : set root [] leaf = .error .underflow := rfl

end Checked

end Dotted
