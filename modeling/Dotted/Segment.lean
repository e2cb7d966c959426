/-!
# Segments

A segment is one token of a path: an object key or an array index. It is never empty and never
holds the delimiter, so a list of segments and its dotted text determine each other.

* `Segment.ofString?` accepts exactly the texts that are not empty and hold no `'.'`.
* `Segment.ofIndex` writes an array index, and `Segment.index?` reads one back: only the canonical
  decimal numeral of a number below `2 ^ 64` denotes an index.
-/

namespace Dotted

/-- The character that separates the segments of a path. -/
def delimiter : Char := '.'

/-- A path token: a text that is not empty and holds no delimiter. -/
structure Segment where
  /-- The token as it is written. -/
  text : String
  nonempty : text ≠ ""
  undotted : delimiter ∉ text.toList
deriving DecidableEq

namespace Segment

/-- A segment is its text. -/
theorem ext_text {s t : Segment} (h : s.text = t.text) : s = t := by
  cases s; cases t; cases h; rfl

/-- The segment with the given text, if there is one. -/
def ofString? (text : String) : Option Segment :=
  if h : text ≠ "" ∧ delimiter ∉ text.toList then some ⟨text, h.1, h.2⟩ else none

theorem ofString?_text (s : Segment) : ofString? s.text = some s := by
  simp [ofString?, s.nonempty, s.undotted]

theorem text_of_ofString? {text : String} {s : Segment} (h : ofString? text = some s) :
    s.text = text := by
  unfold ofString? at h
  split at h
  · cases h; rfl
  · cases h

/-- The delimiter is not a decimal digit, so no numeral holds it. -/
theorem delimiter_not_mem_toDigits (index : Nat) : delimiter ∉ Nat.toDigits 10 index := by
  intro h
  have digit := Nat.isDigit_of_mem_toDigits (by decide) (by decide) h
  exact absurd digit (by decide)

/-- The segment that addresses position `index` of an array: its decimal numeral. -/
def ofIndex (index : Nat) : Segment where
  text := index.repr
  nonempty := by
    intro h
    have := congrArg String.toList h
    simp [Nat.toList_repr] at this
  undotted := by
    rw [Nat.toList_repr]
    exact delimiter_not_mem_toDigits index

/-- Array positions are below this bound. -/
def indexBound : Nat := UInt64.size

/-- The array index that a segment denotes, if it denotes one: its text is a decimal numeral without
a leading zero, of a number below `indexBound`. -/
def index? (segment : Segment) : Option Nat :=
  let digits := segment.text.toList
  if digits.all Char.isDigit && !(digits.length > 1 && digits.head? == some '0') then
    let value := Nat.ofDigitChars 10 digits 0
    if value < indexBound then some value else none
  else none

/-- Segments are ordered by their texts, code point by code point. -/
def le (s t : Segment) : Bool := s.text ≤ t.text

end Segment

end Dotted
