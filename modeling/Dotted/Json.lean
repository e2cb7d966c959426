import Dotted.Kind
import Dotted.Members
import Dotted.Number

/-!
# JSON values

The values that documents are made of, as plain trees. `Json.Ordered` says of a tree that every
object in it lists its keys in strictly increasing order; `Document` bundles a tree with that fact.
-/

namespace Dotted

/-- A JSON value. -/
inductive Json where
  | null
  | bool (value : Bool)
  | number (value : Number)
  | string (value : String)
  | array (items : List Json)
  | object (members : List (String × Json))
deriving Inhabited

namespace Json

/-- The kind of a value. -/
def kind : Json → Kind
  | .null => .null
  | .bool _ => .bool
  | .number _ => .number
  | .string _ => .string
  | .array _ => .array
  | .object _ => .object

/-- The number of items or members of a container. -/
def size? : Json → Option Nat
  | .array items => some items.length
  | .object members => some members.length
  | _ => none

/-- The items with `value` in place of the one at position `index`, if there is one. This is
`List.set`, written so that a list which nothing else refers to is changed in place. -/
def replaceItem : List Json → Nat → Json → List Json
  | [], _, _ => []
  | _ :: rest, 0, value => value :: rest
  | item :: rest, index + 1, value => item :: replaceItem rest index value

theorem replaceItem_eq_set (items : List Json) (index : Nat) (value : Json) :
    replaceItem items index value = items.set index value := by
  induction items generalizing index with
  | nil => rfl
  | cons item rest ih =>
    cases index with
    | zero => rfl
    | succ index => simp [replaceItem, ih]

/-- Every object in the value lists its keys in strictly increasing order. -/
inductive Ordered : Json → Prop
  | null : Ordered .null
  | bool (value : Bool) : Ordered (.bool value)
  | number (value : Number) : Ordered (.number value)
  | string (value : String) : Ordered (.string value)
  | array {items : List Json} (items_ordered : ∀ item ∈ items, Ordered item) :
    Ordered (.array items)
  | object {members : Members Json} (sorted : Members.Sorted members)
    (values_ordered : ∀ member ∈ members, Ordered member.2) : Ordered (.object members)

theorem Ordered.items {items : List Json} (h : Ordered (.array items)) :
    ∀ item ∈ items, Ordered item := by
  cases h; assumption

theorem Ordered.sorted {members : Members Json} (h : Ordered (.object members)) :
    Members.Sorted members := by
  cases h; assumption

theorem Ordered.values {members : Members Json} (h : Ordered (.object members)) :
    ∀ member ∈ members, Ordered member.2 := by
  cases h; assumption

/-- The empty object. -/
theorem Ordered.emptyObject : Ordered (.object []) :=
  .object List.Pairwise.nil fun _ h => (List.not_mem_nil h).elim

/-- An object stays ordered when a key is given an ordered value. -/
theorem Ordered.insert {members : Members Json} (h : Ordered (.object members)) (key : String)
    {value : Json} (hvalue : Ordered value) :
    Ordered (.object (Members.insert key value members)) := by
  refine .object (h.sorted.insert key value) fun member hmember => ?_
  rcases Members.mem_insert hmember with rfl | hmember
  · exact hvalue
  · exact h.values _ hmember

/-- An array stays ordered when an item is replaced by an ordered value. -/
theorem Ordered.replaceItem {items : List Json} (h : Ordered (.array items)) (index : Nat)
    {value : Json} (hvalue : Ordered value) :
    Ordered (.array (Json.replaceItem items index value)) := by
  refine .array fun item hitem => ?_
  rw [replaceItem_eq_set] at hitem
  rcases List.mem_or_eq_of_mem_set hitem with hitem | rfl
  · exact h.items _ hitem
  · exact hvalue

/-- A value that is looked up in an ordered object is ordered. -/
theorem Ordered.lookup {members : Members Json} (h : Ordered (.object members)) {key : String}
    {value : Json} (hlookup : members.lookup key = some value) : Ordered value := by
  obtain ⟨before, after, rfl, _⟩ := List.lookup_eq_some_iff.1 hlookup
  exact h.values (key, value) (by simp)

/-- An item of an ordered array is ordered. -/
theorem Ordered.getElem? {items : List Json} (h : Ordered (.array items)) {index : Nat}
    {value : Json} (hitem : items[index]? = some value) : Ordered value :=
  h.items value (List.mem_of_getElem? hitem)

end Json

end Dotted
