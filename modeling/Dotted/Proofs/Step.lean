import Dotted.Writing
import Mathlib.Tactic.SplitIfs

/-!
# One step down in a value

A step names a member of an object by its key or an item of an array by its
position.  Unlike a segment it says which of the two it is, and it reaches
every key, also one that no segment spells.  `Json.step?` reads the value
one step down and `Json.put` replaces it.  Both are total, and `put` is the
one form of all the changes that a write makes to a single container.

* Members: `insert_insert`, `insert_comm` and `insert_of_lookup` are the laws
  of `Members.insert` that say how two insertions combine.
* Items: `getElem?_putItem` says what an array holds after `Json.putItem`,
  which puts `null`s before an item past the end.
* Values: `step?_put_self`, `step?_put_of_ne`, `put_put`, `put_comm` and
  `put_of_step?` are the laws of a lens for `Json.step?` and `Json.put`.  The
  only step that a `put` elsewhere can give a value is a padded one
  (`Json.Pads`).
-/

namespace Dotted

/-! ## Insertions into members -/

namespace Members

variable {α : Type} {key other : String}

theorem insert_cons_of_lt (h : other < key) (value old : α) (members : Members α) :
    insert key value ((other, old) :: members) = (other, old) :: insert key value members := by
  simp [insert, update, h]

theorem insert_cons_self (key : String) (value old : α) (members : Members α) :
    insert key value ((key, old) :: members) = (key, value) :: members := by
  simp [insert, update]

theorem insert_cons_of_gt (h : key < other) (value old : α) (members : Members α) :
    insert key value ((other, old) :: members) = (key, value) :: (other, old) :: members := by
  have hlt : ¬ other < key := String.lt_asymm h
  have hne : other ≠ key := fun heq => String.lt_irrefl key (heq ▸ h)
  simp [insert, update, hlt, hne]

/-- Of two keys one is smaller, or they are the same. -/
theorem key_trichotomy (key other : String) : other < key ∨ other = key ∨ key < other := by
  by_cases hlt : other < key
  · exact Or.inl hlt
  · by_cases heq : other = key
    · exact Or.inr (Or.inl heq)
    · exact Or.inr (Or.inr (lt_of_not_lt_of_ne hlt heq))

/-- Of two insertions under one key the second counts. -/
theorem insert_insert (key : String) (old new : α) (members : Members α) :
    insert key new (insert key old members) = insert key new members := by
  induction members with
  | nil => exact insert_cons_self key new old []
  | cons head rest ih =>
    obtain ⟨other, value⟩ := head
    rcases key_trichotomy key other with hlt | rfl | hgt
    · rw [insert_cons_of_lt hlt, insert_cons_of_lt hlt, insert_cons_of_lt hlt, ih]
    · rw [insert_cons_self, insert_cons_self, insert_cons_self]
    · rw [insert_cons_of_gt hgt, insert_cons_of_gt hgt, insert_cons_self]

/-- An insertion before all other keys comes first. -/
theorem insert_insert_of_lt (h : key < other) (value otherValue first : α) (before : String)
    (members : Members α) (hbefore : key < before) :
    insert key value (insert other otherValue ((before, first) :: members)) =
      (key, value) :: insert other otherValue ((before, first) :: members) := by
  rcases key_trichotomy other before with hlt | rfl | hgt
  · rw [insert_cons_of_lt hlt, insert_cons_of_gt hbefore]
  · rw [insert_cons_self, insert_cons_of_gt h]
  · rw [insert_cons_of_gt hgt, insert_cons_of_gt h]

private theorem insert_comm_of_lt (h : key < other) (value otherValue : α)
    (members : Members α) :
    insert other otherValue (insert key value members) =
      insert key value (insert other otherValue members) := by
  induction members with
  | nil =>
    show insert other otherValue [(key, value)] = insert key value [(other, otherValue)]
    rw [insert_cons_of_lt h, insert_cons_of_gt h]
    rfl
  | cons head rest ih =>
    obtain ⟨first, old⟩ := head
    rcases key_trichotomy key first with hlt | rfl | hgt
    · have hother : first < other := String.lt_trans hlt h
      rw [insert_cons_of_lt hlt, insert_cons_of_lt hother, insert_cons_of_lt hother,
        insert_cons_of_lt hlt, ih]
    · rw [insert_cons_self, insert_cons_of_lt h, insert_cons_of_lt h, insert_cons_self]
    · rw [insert_cons_of_gt hgt, insert_cons_of_lt h, insert_insert_of_lt h _ _ _ _ _ hgt]

/-- Insertions under two keys can be made in either order. -/
theorem insert_comm (h : key ≠ other) (value otherValue : α) (members : Members α) :
    insert other otherValue (insert key value members) =
      insert key value (insert other otherValue members) := by
  rcases key_trichotomy other key with hlt | heq | hgt
  · exact insert_comm_of_lt hlt value otherValue members
  · exact absurd heq h
  · exact (insert_comm_of_lt hgt otherValue value members).symm

/-- Inserting what is there changes nothing. -/
theorem insert_of_lookup {members : Members α} (hsorted : Sorted members) {value : α}
    (h : members.lookup key = some value) : insert key value members = members := by
  induction members with
  | nil => cases h
  | cons head rest ih =>
    obtain ⟨other, old⟩ := head
    have hparts := List.pairwise_cons.1 hsorted
    rcases key_trichotomy key other with hlt | rfl | hgt
    · have hne : key ≠ other := fun heq => String.lt_irrefl key (heq ▸ hlt)
      rw [List.lookup_cons, beq_false_of_ne hne] at h
      rw [insert_cons_of_lt hlt, ih hparts.2 h]
    · rw [List.lookup_cons, beq_self_eq_true] at h
      rw [insert_cons_self, Option.some.inj h]
    · have hnone : List.lookup key ((other, old) :: rest) = none := by
        refine lookup_eq_none fun member hmember => ?_
        rcases List.mem_cons.1 hmember with rfl | hrest
        · exact hgt
        · exact String.lt_trans hgt (hparts.1 _ hrest)
      rw [hnone] at h
      cases h

end Members

namespace Json

/-! ## Items put into an array -/

/-- The items with `value` at position `index`; `null`s fill the positions
before it that were not there. -/
def putItem (items : List Json) (index : Nat) (value : Json) : List Json :=
  (padded items (index + 1)).set index value

/-- What an array holds after an item was put into it. -/
theorem getElem?_putItem (items : List Json) (index : Nat) (value : Json) (position : Nat) :
    (putItem items index value)[position]? =
      if position = index then some value
      else if position < items.length then items[position]?
      else if position < index then some .null
      else none := by
  unfold putItem padded
  rw [List.getElem?_set, List.length_append, List.length_replicate, List.getElem?_append,
    List.getElem?_replicate]
  by_cases heq : position = index
  · subst heq
    rw [if_pos rfl, if_pos rfl, if_pos (by omega)]
  · rw [if_neg (Ne.symm heq), if_neg heq]
    by_cases hlt : position < items.length
    · rw [if_pos hlt, if_pos hlt]
    · rw [if_neg hlt, if_neg hlt]
      by_cases hindex : position < index
      · rw [if_pos hindex, if_pos (by omega)]
      · rw [if_neg hindex, if_neg (by omega)]

/-- Putting an item at a position of the array replaces the one that is there. -/
theorem putItem_of_lt {items : List Json} {index : Nat} (h : index < items.length)
    (value : Json) : putItem items index value = replaceItem items index value := by
  rw [replaceItem_eq_set, putItem, padded, show index + 1 - items.length = 0 by omega]
  simp

/-- Putting an item past the end appends it after the padding. -/
theorem putItem_of_ge {items : List Json} {index : Nat} (h : items.length ≤ index)
    (value : Json) : putItem items index value = padded items index ++ [value] := by
  rw [putItem, padded, show index + 1 - items.length = index - items.length + 1 by omega,
    List.replicate_succ', ← List.append_assoc]
  show (padded items index ++ [Json.null]).set index value = _
  have hlength : (padded items index).length = index := by
    rw [padded, List.length_append, List.length_replicate]
    omega
  rw [List.set_append_right _ _ (by omega), hlength, Nat.sub_self]
  rfl

theorem length_putItem (items : List Json) (index : Nat) (value : Json) :
    (putItem items index value).length = max items.length (index + 1) := by
  rw [putItem, List.length_set, padded, List.length_append, List.length_replicate]
  omega

/-- Of two items put at one position the second counts. -/
theorem putItem_putItem (items : List Json) (index : Nat) (old new : Json) :
    putItem (putItem items index old) index new = putItem items index new := by
  refine List.ext_getElem? fun position => ?_
  rw [getElem?_putItem, getElem?_putItem, getElem?_putItem, length_putItem]
  split_ifs <;> first | rfl | omega

/-- Items can be put at two positions in either order. -/
theorem putItem_comm {index other : Nat} (h : index ≠ other) (items : List Json)
    (value otherValue : Json) :
    putItem (putItem items index value) other otherValue =
      putItem (putItem items other otherValue) index value := by
  refine List.ext_getElem? fun position => ?_
  rw [getElem?_putItem, getElem?_putItem, getElem?_putItem, getElem?_putItem, length_putItem,
    length_putItem]
  split_ifs <;> first | rfl | omega

/-- Putting the item that is there changes nothing. -/
theorem putItem_of_getElem? {items : List Json} {index : Nat} {value : Json}
    (h : items[index]? = some value) : putItem items index value = items := by
  refine List.ext_getElem? fun position => ?_
  have hlt : index < items.length := (List.getElem?_eq_some_iff.1 h).1
  rw [getElem?_putItem]
  split_ifs with heq hposition
  · rw [heq, h]
  · rfl
  · omega
  · rw [List.getElem?_eq_none (by omega)]

/-! ## Steps -/

/-- One step down: to the member of a key, whatever the key, or to the item
at a position. -/
inductive Step where
  | key (name : String)
  | item (index : Nat)
deriving DecidableEq

/-- The value one step down. -/
def step? : Json → Step → Option Json
  | .object members, .key name => members.lookup name
  | .array items, .item index => items[index]?
  | _, _ => none

/-- The node with `value` one step down.  A node of another kind than the
step asks for stays as it is. -/
def put : Json → Step → Json → Json
  | .object members, .key name, value => .object (Members.insert name value members)
  | .array items, .item index, value => .array (putItem items index value)
  | node, _, _ => node

/-- The node is of the kind that the step asks for. -/
def Fits : Json → Step → Prop
  | .object _, .key _ => True
  | .array _, .item _ => True
  | _, _ => False

/-- The value that a `put` at `step` pads at `other` is a `null`: both are
positions past the end of an array, and `other` is the smaller one. -/
def Pads (node : Json) (step other : Step) : Prop :=
  ∃ items index position, node = .array items ∧ step = .item index ∧ other = .item position ∧
    items.length ≤ position ∧ position < index

/-- A node that has a value one step down is of the kind that the step asks
for. -/
theorem fits_of_step? {node : Json} {step : Step} {value : Json}
    (h : node.step? step = some value) : node.Fits step := by
  unfold step? at h
  split at h
  · trivial
  · trivial
  · cases h

theorem step?_put_self {node : Json} {step : Step} (h : node.Fits step) (value : Json) :
    (node.put step value).step? step = some value := by
  unfold Fits at h
  split at h
  · exact Members.lookup_insert_self _ value _
  · show (putItem _ _ value)[_]? = some value
    rw [getElem?_putItem, if_pos rfl]
  · exact h.elim

/-- A `put` changes nothing one step elsewhere, padding apart. -/
theorem step?_put_of_ne {node : Json} {step other : Step} (hne : step ≠ other)
    (hpads : ¬ node.Pads step other) (value : Json) :
    (node.put step value).step? other = node.step? other := by
  unfold put
  split
  · next members name =>
    cases other with
    | key otherName =>
      have hnames : otherName ≠ name := fun heq => hne (congrArg Step.key heq.symm)
      exact Members.lookup_insert_of_ne hnames value members
    | item => rfl
  · next items index =>
    cases other with
    | key => rfl
    | item position =>
      have hindex : position ≠ index := fun heq => hne (congrArg Step.item heq.symm)
      show (putItem items index value)[position]? = items[position]?
      rw [getElem?_putItem, if_neg hindex]
      split_ifs with hlt hbefore
      · rfl
      · exact absurd ⟨items, index, position, rfl, rfl, rfl, by omega, hbefore⟩ hpads
      · rw [List.getElem?_eq_none (by omega)]
  · rfl

/-- Only a write at a position past the end of an array pads. -/
theorem not_pads_of_step? {node child : Json} {step : Step} (h : node.step? step = some child)
    (other : Step) : ¬ node.Pads step other := by
  intro hpads
  obtain ⟨items, index, position, rfl, rfl, rfl, hlength, hbefore⟩ := hpads
  have hlt : index < items.length := (List.getElem?_eq_some_iff.1 h).1
  omega

/-- A padded position was not there, and holds `null` afterwards. -/
theorem step?_put_of_pads {node : Json} {step other : Step} (h : node.Pads step other)
    (value : Json) :
    node.step? other = none ∧ (node.put step value).step? other = some .null := by
  obtain ⟨items, index, position, rfl, rfl, rfl, hlength, hbefore⟩ := h
  refine ⟨List.getElem?_eq_none hlength, ?_⟩
  show (putItem items index value)[position]? = some .null
  rw [getElem?_putItem, if_neg (by omega), if_neg (by omega), if_pos hbefore]

/-- Of two values put one step down the second counts. -/
theorem put_put (node : Json) (step : Step) (old new : Json) :
    (node.put step old).put step new = node.put step new := by
  cases node <;> cases step <;> try rfl
  case array.item items index =>
    exact congrArg Json.array (putItem_putItem items index old new)
  case object.key members name =>
    exact congrArg Json.object (Members.insert_insert name old new members)

/-- Values can be put at two steps in either order. -/
theorem put_comm {step other : Step} (hne : step ≠ other) (node value otherValue : Json) :
    (node.put step value).put other otherValue = (node.put other otherValue).put step value := by
  cases node <;> cases step <;> cases other <;> try rfl
  case array.item.item items index position =>
    exact congrArg Json.array (putItem_comm (fun heq => hne (congrArg Step.item heq)) items _ _)
  case object.key.key members name otherName =>
    exact congrArg Json.object (Members.insert_comm (fun heq => hne (congrArg Step.key heq)) _ _ _)

/-- Putting the value that is there changes nothing. -/
theorem put_of_step? {node : Json} (hordered : node.Ordered) {step : Step} {value : Json}
    (h : node.step? step = some value) : node.put step value = node := by
  unfold step? at h
  split at h
  · exact congrArg Json.object (Members.insert_of_lookup hordered.sorted h)
  · exact congrArg Json.array (putItem_of_getElem? h)
  · cases h

theorem kind_put (node : Json) (step : Step) (value : Json) :
    (node.put step value).kind = node.kind := by
  unfold put
  split <;> rfl

end Json

end Dotted
