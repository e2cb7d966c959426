import Dotted.Json

/-!
# Documents

A document is a JSON value in which every object lists its keys in strictly increasing order, so
that equal documents are equal trees. The constructors below build documents from documents; the
one for objects sorts, and of several members with one key keeps the last.
-/

namespace Dotted

/-- A JSON value whose objects all list their keys in increasing order, each once. -/
structure Document where
  /-- The value itself. -/
  root : Json
  ordered : root.Ordered

namespace Document

instance : Inhabited Document := ⟨⟨.null, .null⟩⟩

/-- A document is its root. -/
theorem ext_root {a b : Document} (h : a.root = b.root) : a = b := by
  cases a; cases b; cases h; rfl

/-- The null document. -/
def null : Document := ⟨.null, .null⟩

/-- A truth value. -/
def bool (value : Bool) : Document := ⟨.bool value, .bool value⟩

/-- A number. -/
def number (value : Number) : Document := ⟨.number value, .number value⟩

/-- A text. -/
def string (value : String) : Document := ⟨.string value, .string value⟩

/-- An array of the given items. -/
def array (items : List Document) : Document where
  root := .array (items.map root)
  ordered := .array fun item hitem => by
    obtain ⟨document, _, rfl⟩ := List.mem_map.1 hitem
    exact document.ordered

/-- An object of the given members; a later member replaces an earlier one of the same key. -/
def object (members : List (String × Document)) : Document where
  root := .object (Members.ofList (members.map fun member => (member.1, member.2.root)))
  ordered := .object (Members.sorted_ofList _) fun member hmember => by
    obtain ⟨pair, _, rfl⟩ := List.mem_map.1 (Members.mem_ofList hmember)
    exact pair.2.ordered

/-- One level of a document: a scalar, or a container of documents. -/
inductive View where
  | null
  | bool (value : Bool)
  | number (value : Number)
  | string (value : String)
  | array (items : List Document)
  | object (members : List (String × Document))

/-- The outermost level of a document. -/
def view : Document → View
  | ⟨.null, _⟩ => .null
  | ⟨.bool value, _⟩ => .bool value
  | ⟨.number value, _⟩ => .number value
  | ⟨.string value, _⟩ => .string value
  | ⟨.array items, h⟩ => .array (items.attach.map fun item => ⟨item.1, h.items item.1 item.2⟩)
  | ⟨.object members, h⟩ =>
    .object (members.attach.map fun member =>
      (member.1.1, ⟨member.1.2, h.values member.1 member.2⟩))

/-- The kind of the root. -/
def kind (document : Document) : Kind := document.root.kind

/-- The number of items or members, if the root is a container. -/
def size? (document : Document) : Option Nat := document.root.size?

end Document

end Dotted
