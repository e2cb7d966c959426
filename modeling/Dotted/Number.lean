import Dotted.Number.Shortest

/-!
# Numbers of a document

A number is an integer of 64 bits, signed or unsigned, or a finite binary64 number. The two are
told apart even where they have the same value: `1` and `1.0` are different numbers.
-/

namespace Dotted

/-- A number of a document. -/
inductive Number where
  /-- An integer that fits into 64 bits, with or without a sign. -/
  | integer (value : Int) 
    (inRange : -0x8000000000000000 ≤ value ∧ value ≤ 0xffffffffffffffff)
  /-- A finite binary64 number. -/
  | float (value : Binary64)
deriving DecidableEq

namespace Number

/-- The integer with the given value, if it fits into 64 bits. -/
def ofInt? (value : Int) : Option Number :=
  if h : -0x8000000000000000 ≤ value ∧ value ≤ 0xffffffffffffffff then some (.integer value h)
  else none

theorem natAbs_lt {value : Int}
    (h : -0x8000000000000000 ≤ value ∧ value ≤ 0xffffffffffffffff) :
    value.natAbs < UInt64.size := by
  unfold UInt64.size
  omega

/-- The text of a number: a decimal numeral, or the shortest text of a binary64 number, which
always has a point or an exponent. -/
def text : Number → String
  | .integer value _ => value.repr
  | .float value => value.text

end Number

end Dotted
