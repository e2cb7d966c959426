/-!
# Showing bytes as text

Bytes are read as UTF-8, and what is not UTF-8 is shown as the replacement character: one for each
longest piece that starts some encoded character, or for a single byte that starts none.
-/

namespace Dotted.Text.Utf8

/-- The character that stands for bytes that are not UTF-8. -/
def replacement : Char := Char.ofNat 0xfffd

/-- The bounds of a byte that continues an encoded character. -/
abbrev Bounds := UInt8 × UInt8

/-- The bounds of most continuation bytes. -/
def continuation : Bounds := (0x80, 0xbf)

/-- What the first byte of an encoded character tells: its payload, and the bounds of the bytes to
come. -/
def lead? (byte : UInt8) : Option (Nat × List Bounds) :=
  if byte < 0x80 then some (byte.toNat, [])
  else if byte < 0xc2 then none
  else if byte < 0xe0 then some (byte.toNat % 0x20, [continuation])
  else if byte < 0xf0 then
    let second : Bounds :=
      if byte = 0xe0 then (0xa0, 0xbf) else if byte = 0xed then (0x80, 0x9f) else continuation
    some (byte.toNat % 0x10, [second, continuation])
  else if byte < 0xf5 then
    let second : Bounds :=
      if byte = 0xf0 then (0x90, 0xbf) else if byte = 0xf4 then (0x80, 0x8f) else continuation
    some (byte.toNat % 0x08, [second, continuation, continuation])
  else none

/-- Reads the bytes that continue an encoded character, as far as they are within bounds. -/
def finish (payload : Nat) : List Bounds → List UInt8 → Option Char × List UInt8
  | [], rest => (some (Char.ofNat payload), rest)
  | _ :: _, [] => (none, [])
  | bounds :: more, byte :: rest =>
    if bounds.1 ≤ byte ∧ byte ≤ bounds.2 then
      finish (payload * 0x40 + byte.toNat % 0x40) more rest
    else (none, byte :: rest)

theorem length_finish (payload : Nat) (bounds : List Bounds) (bytes : List UInt8) :
    (finish payload bounds bytes).2.length ≤ bytes.length := by
  fun_induction finish payload bounds bytes with
  | case1 => exact Nat.le_refl _
  | case2 => exact Nat.le_refl _
  | case3 _ _ _ _ _ _ ih => exact Nat.le_succ_of_le ih
  | case4 => exact Nat.le_refl _

/-- The text that bytes show. -/
def shown : List UInt8 → List Char
  | [] => []
  | byte :: rest =>
    match lead? byte with
    | none => replacement :: shown rest
    | some (payload, bounds) =>
      (finish payload bounds rest).1.getD replacement :: shown (finish payload bounds rest).2
termination_by bytes => bytes.length
decreasing_by
  · exact Nat.lt_succ_self _
  · exact Nat.lt_succ_of_le (length_finish payload bounds rest)

end Dotted.Text.Utf8
