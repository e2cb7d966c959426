import Dotted.Json.Fault
import Dotted.Number

/-!
# Number literals

The text of a number is a sign, digits, and perhaps a fraction and an exponent.

* Without fraction and exponent it is an integer, if that fits into 64 bits; minus zero is not an
  integer.
* Otherwise it is a binary64 number. Its digits are taken into a significand of 64 bits as long as
  they fit; a digit that does not is dropped, and one of the whole part then counts as a power of
  ten.

`Numeral.read` reads a literal from the start of a text and returns the rest, which is always a
proper part of the text (`Numeral.length_of_read`).
-/

namespace Dotted.Json.Numeral

/-- The digits of a literal that fit into 64 bits. -/
structure Significand where
  value : Nat
  bounded : value < UInt64.size

namespace Significand

/-- No digits yet. -/
def zero : Significand := ⟨0, by decide⟩

/-- One digit more, if it still fits. -/
@[irreducible]
def push? (significand : Significand) (digit : Char) : Option Significand :=
  let value := significand.value * 10 + (digit.toNat - '0'.toNat)
  if h : value < UInt64.size then some ⟨value, h⟩ else none

/-- Takes in digits of the whole part; returns how many were left when one did not fit. -/
def whole (significand : Significand) : List Char → Significand × Nat
  | [] => (significand, 0)
  | digit :: rest =>
    match significand.push? digit with
    | some longer => longer.whole rest
    | none => (significand, rest.length + 1)

/-- Takes in digits of the fraction; returns how many were taken before one did not fit. -/
def fraction (significand : Significand) : List Char → Significand × Nat
  | [] => (significand, 0)
  | digit :: rest =>
    match significand.push? digit with
    | some longer =>
      let (last, count) := longer.fraction rest
      (last, count + 1)
    | none => (significand, 0)

end Significand

/-- The digits at the start of a text. -/
def digits (text : List Char) : List Char := text.takeWhile Char.isDigit

/-- The text after the digits at its start. -/
def afterDigits (text : List Char) : List Char := text.dropWhile Char.isDigit

theorem length_afterDigits (text : List Char) : (afterDigits text).length ≤ text.length :=
  (List.dropWhile_suffix _).length_le

/-- The greatest exponent that is evaluated. -/
def maxExponent : Nat := 0x7fffffff

/-- The value of the digits of an exponent, or the digits after the one that makes it too large. -/
def exponentValue (value : Nat) : List Char → Except (List Char) Nat
  | [] => .ok value
  | digit :: rest =>
    let longer := value * 10 + (digit.toNat - '0'.toNat)
    if longer ≤ maxExponent then exponentValue longer rest else .error rest

/-- The binary64 number of a sign, a significand and an exponent, unless it is not finite. -/
def float? (negative : Bool) (significand : Significand) (exponent : Int) : Option Number :=
  (Binary64.ofDecimal? significand.value significand.bounded exponent).map fun magnitude =>
    .float (magnitude.withSign negative)

/-- The number read, with the rest of the text, unless it is out of range. -/
def finish (finite? : Option Number) (rest : List Char) : Except Fault (Number × List Char) :=
  match finite? with
  | some value => .ok (value, rest)
  | none => .error (.behind .numberOutOfRange rest)

/-- Reads the digits of an exponent, which is negative if `down`. An exponent that is too large to
be evaluated makes the number zero if it is negative or the significand is zero; otherwise the
number is out of range. -/
def readExponentDigits (negative : Bool) (significand : Significand) (exponent : Int)
    (down : Bool) (text : List Char) : Except Fault (Number × List Char) :=
  if (digits text).isEmpty then
    match text with
    | [] => .error (.behind .endInValue [])
    | _ => .error (.next .invalidNumber text)
  else
    match exponentValue 0 (digits text) with
    | .ok value =>
      let total := if down then exponent - value else exponent + value
      finish (float? negative significand total) (afterDigits text)
    | .error further =>
      if significand.value ≠ 0 ∧ down = false then
        .error (.behind .numberOutOfRange (further ++ afterDigits text))
      else .ok (.float (Binary64.zero negative), afterDigits text)

/-- Reads an exponent after its mark. -/
def readExponent (negative : Bool) (significand : Significand) (exponent : Int)
    (text : List Char) : Except Fault (Number × List Char) :=
  match text with
  | '+' :: rest => readExponentDigits negative significand exponent false rest
  | '-' :: rest => readExponentDigits negative significand exponent true rest
  | _ => readExponentDigits negative significand exponent false text

/-- Whether a character marks an exponent. -/
def isExponentMark (c : Char) : Bool := c == 'e' || c == 'E'

/-- Reads what may follow the fraction of a literal. -/
def readAfterFraction (negative : Bool) (significand : Significand) (exponent : Int)
    (text : List Char) : Except Fault (Number × List Char) :=
  match text with
  | [] => finish (float? negative significand exponent) []
  | c :: rest =>
    if isExponentMark c then readExponent negative significand exponent rest
    else finish (float? negative significand exponent) (c :: rest)

/-- Reads a fraction after its point; it has at least one digit. -/
def readFraction (negative : Bool) (significand : Significand) (exponent : Int)
    (text : List Char) : Except Fault (Number × List Char) :=
  if (digits text).isEmpty then
    match text with
    | [] => .error (.behind .endInValue [])
    | _ => .error (.next .invalidNumber text)
  else
    let (significand, count) := significand.fraction (digits text)
    readAfterFraction negative significand (exponent - count) (afterDigits text)

/-- The number that a whole part alone denotes, when `dropped` of its digits did not fit. -/
def ofWhole? (negative : Bool) (significand : Significand) (dropped : Nat) : Option Number :=
  if dropped ≠ 0 ∨ (negative = true ∧ significand.value = 0) then
    float? negative significand dropped
  else
    let value : Int := if negative then -significand.value else significand.value
    (Number.ofInt? value).or (float? negative significand 0)

/-- Reads what may follow the whole part of a literal. -/
def readAfterWhole (negative : Bool) (whole : List Char) (text : List Char) :
    Except Fault (Number × List Char) :=
  let (significand, dropped) := Significand.zero.whole whole
  match text with
  | [] => finish (ofWhole? negative significand dropped) []
  | c :: rest =>
    if c = '.' then readFraction negative significand dropped rest
    else if isExponentMark c then readExponent negative significand dropped rest
    else finish (ofWhole? negative significand dropped) (c :: rest)

/-- Reads a literal after its sign. A leading zero stands alone. -/
def readUnsigned (negative : Bool) : List Char → Except Fault (Number × List Char)
  | [] => .error (.behind .endInValue [])
  | c :: rest =>
    if c = '0' then
      if (digits rest).isEmpty then readAfterWhole negative ['0'] rest
      else .error (.next .invalidNumber rest)
    else if c.isDigit then readAfterWhole negative (c :: digits rest) (afterDigits rest)
    else .error (.next .invalidNumber (c :: rest))

/-- Reads a number literal from the start of a text. -/
def read (text : List Char) : Except Fault (Number × List Char) :=
  match text with
  | '-' :: rest => readUnsigned true rest
  | _ => readUnsigned false text

/-! ## The rest is a proper part of the text -/

theorem length_of_finish {finite? : Option Number} {text rest : List Char} {number : Number}
    (h : finish finite? text = .ok (number, rest)) : rest.length ≤ text.length := by
  unfold finish at h
  split at h
  · cases h; exact Nat.le_refl _
  · cases h

theorem length_of_readExponentDigits {negative : Bool} {significand : Significand}
    {exponent : Int} {down : Bool} {text rest : List Char} {number : Number}
    (h : readExponentDigits negative significand exponent down text = .ok (number, rest)) :
    rest.length ≤ text.length := by
  have hdigits := length_afterDigits text
  unfold readExponentDigits at h
  split at h
  · split at h <;> cases h
  · split at h
    · have := length_of_finish h
      omega
    · split at h
      · cases h
      · cases h
        omega

theorem length_of_readExponent {negative : Bool} {significand : Significand} {exponent : Int}
    {text rest : List Char} {number : Number}
    (h : readExponent negative significand exponent text = .ok (number, rest)) :
    rest.length ≤ text.length := by
  unfold readExponent at h
  split at h
  · have := length_of_readExponentDigits h
    simp only [List.length_cons]
    omega
  · have := length_of_readExponentDigits h
    simp only [List.length_cons]
    omega
  · exact length_of_readExponentDigits h

theorem length_of_readAfterFraction {negative : Bool} {significand : Significand}
    {exponent : Int} {text rest : List Char} {number : Number}
    (h : readAfterFraction negative significand exponent text = .ok (number, rest)) :
    rest.length ≤ text.length := by
  unfold readAfterFraction at h
  split at h
  · exact length_of_finish h
  · split at h
    · have := length_of_readExponent h
      simp only [List.length_cons]
      omega
    · exact length_of_finish h

theorem length_of_readFraction {negative : Bool} {significand : Significand} {exponent : Int}
    {text rest : List Char} {number : Number}
    (h : readFraction negative significand exponent text = .ok (number, rest)) :
    rest.length ≤ text.length := by
  unfold readFraction at h
  split at h
  · split at h <;> cases h
  · have := length_of_readAfterFraction h
    have := length_afterDigits text
    omega

theorem length_of_readAfterWhole {negative : Bool} {whole text rest : List Char}
    {number : Number} (h : readAfterWhole negative whole text = .ok (number, rest)) :
    rest.length ≤ text.length := by
  unfold readAfterWhole at h
  dsimp only at h
  split at h
  · exact length_of_finish h
  · simp only [List.length_cons]
    split at h
    · have := length_of_readFraction h
      omega
    · split at h
      · have := length_of_readExponent h
        omega
      · exact length_of_finish h

theorem length_of_readUnsigned {negative : Bool} {text rest : List Char} {number : Number}
    (h : readUnsigned negative text = .ok (number, rest)) : rest.length < text.length := by
  unfold readUnsigned at h
  split at h
  · cases h
  · next c tail =>
    have hdigits := length_afterDigits tail
    simp only [List.length_cons]
    split at h
    · split at h
      · have := length_of_readAfterWhole h
        omega
      · cases h
    · split at h
      · have := length_of_readAfterWhole h
        omega
      · cases h

theorem length_of_read {text rest : List Char} {number : Number}
    (h : read text = .ok (number, rest)) : rest.length < text.length := by
  unfold read at h
  split at h
  · have := length_of_readUnsigned h
    simp only [List.length_cons]
    omega
  · exact length_of_readUnsigned h

end Dotted.Json.Numeral
