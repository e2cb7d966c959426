import Dotted.Document
import Dotted.Json.StringLiteral

/-!
# Writing JSON text

A value is written with or without line breaks. The two layouts differ in blanks between tokens
only: `Layout.lineBreak` and `Layout.space` say which, and `Json.render` is the same function for
both.
-/

namespace Dotted.Json

/-- How the text of a value is laid out. -/
inductive Layout where
  /-- On one line, without blanks. -/
  | compact
  /-- Each item and member on a line of its own, indented by two spaces for every open container. -/
  | indented
deriving DecidableEq

namespace Layout

/-- What separates the parts of a container, with `depth` containers open. -/
def lineBreak : Layout → Nat → List Char
  | .compact, _ => []
  | .indented, depth => '\n' :: List.replicate (2 * depth) ' '

/-- What separates a colon from the value after it. -/
def space : Layout → List Char
  | .compact => []
  | .indented => [' ']

end Layout

/-- The text of a key, up to its value. -/
def renderKey (layout : Layout) (key : String) : List Char :=
  StringLiteral.write key.toList ++ ':' :: layout.space

mutual

/-- The text of a value with `depth` containers open around it, and then `rest`. -/
def render (layout : Layout) (depth : Nat) (value : Json) (rest : List Char) : List Char :=
  match value with
  | .null => 'n' :: 'u' :: 'l' :: 'l' :: rest
  | .bool true => 't' :: 'r' :: 'u' :: 'e' :: rest
  | .bool false => 'f' :: 'a' :: 'l' :: 's' :: 'e' :: rest
  | .number value => value.text.toList ++ rest
  | .string value => StringLiteral.write value.toList ++ rest
  | .array [] => '[' :: ']' :: rest
  | .array (first :: items) =>
    '[' :: layout.lineBreak (depth + 1) ++ render layout (depth + 1) first
      (renderItems layout (depth + 1) items (layout.lineBreak depth ++ ']' :: rest))
  | .object [] => '{' :: '}' :: rest
  | .object ((key, first) :: members) =>
    '{' :: layout.lineBreak (depth + 1) ++ renderKey layout key ++ render layout (depth + 1) first
      (renderMembers layout (depth + 1) members (layout.lineBreak depth ++ '}' :: rest))

/-- The text of the items after the first, and then `rest`. -/
def renderItems (layout : Layout) (depth : Nat) (items : List Json) (rest : List Char) :
    List Char :=
  match items with
  | [] => rest
  | item :: items =>
    ',' :: layout.lineBreak depth ++ render layout depth item
      (renderItems layout depth items rest)

/-- The text of the members after the first, and then `rest`. -/
def renderMembers (layout : Layout) (depth : Nat) (members : List (String × Json))
    (rest : List Char) : List Char :=
  match members with
  | [] => rest
  | (key, value) :: members =>
    ',' :: layout.lineBreak depth ++ renderKey layout key ++ render layout depth value
      (renderMembers layout depth members rest)

end

mutual

/-- What follows a value does not change its text. -/
theorem render_append (layout : Layout) (depth : Nat) (value : Json) (rest more : List Char) :
    render layout depth value (rest ++ more) = render layout depth value rest ++ more := by
  cases value with
  | null => simp [render]
  | bool value => cases value <;> simp [render]
  | number value => simp [render]
  | string value => simp [render]
  | array items =>
    cases items with
    | nil => simp [render]
    | cons first items =>
      have hend : layout.lineBreak depth ++ ']' :: (rest ++ more)
          = (layout.lineBreak depth ++ ']' :: rest) ++ more := by simp
      rw [render, hend, renderItems_append, render_append]
      simp [render]
  | object members =>
    cases members with
    | nil => simp [render]
    | cons first members =>
      obtain ⟨key, first⟩ := first
      have hend : layout.lineBreak depth ++ '}' :: (rest ++ more)
          = (layout.lineBreak depth ++ '}' :: rest) ++ more := by simp
      rw [render, hend, renderMembers_append, render_append]
      simp [render]

theorem renderItems_append (layout : Layout) (depth : Nat) (items : List Json)
    (rest more : List Char) :
    renderItems layout depth items (rest ++ more)
      = renderItems layout depth items rest ++ more := by
  cases items with
  | nil => simp [renderItems]
  | cons item items =>
    rw [renderItems, renderItems_append, render_append]
    simp [renderItems]

theorem renderMembers_append (layout : Layout) (depth : Nat) (members : List (String × Json))
    (rest more : List Char) :
    renderMembers layout depth members (rest ++ more)
      = renderMembers layout depth members rest ++ more := by
  cases members with
  | nil => simp [renderMembers]
  | cons member members =>
    obtain ⟨key, value⟩ := member
    rw [renderMembers, renderMembers_append, render_append]
    simp [renderMembers]

end

end Dotted.Json

/-- The text of a document. -/
def Dotted.Document.text (document : Dotted.Document) (layout : Dotted.Json.Layout) : String :=
  String.ofList (document.root.render layout 0 [])
