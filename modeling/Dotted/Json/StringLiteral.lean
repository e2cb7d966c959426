import Dotted.Json.Fault

/-!
# String literals

The text between the quotes of a string: characters from the space on stand for themselves, except
the quote and the backslash, and a backslash starts an escape.

* `StringLiteral.write` escapes what has to be escaped, with the short form where there is one.
* `StringLiteral.read` accepts every escape of the format. A code point beyond the first plane is
  escaped as two surrogates, and a surrogate without its partner is refused.
-/

namespace Dotted.Json.StringLiteral

/-! ## Writing -/

/-- A control character by its number, in four lower-case hexadecimal digits. -/
def numericEscape (c : Char) : List Char :=
  ['\\', 'u', '0', '0', Nat.digitChar (c.toNat / 16), Nat.digitChar (c.toNat % 16)]

/-- How one character is written. -/
def writeChar (c : Char) : List Char :=
  if c = '"' then ['\\', '"']
  else if c = '\\' then ['\\', '\\']
  else if c = '\x08' then ['\\', 'b']
  else if c = '\x0c' then ['\\', 'f']
  else if c = '\n' then ['\\', 'n']
  else if c = '\r' then ['\\', 'r']
  else if c = '\t' then ['\\', 't']
  else if c < ' ' then numericEscape c
  else [c]

/-- A text as a literal, with its quotes. -/
def write (text : List Char) : List Char := '"' :: text.flatMap writeChar ++ ['"']

/-! ## Reading -/

/-- The character that a short escape stands for. -/
def shortEscape? (c : Char) : Option Char :=
  if c = '"' then some '"'
  else if c = '\\' then some '\\'
  else if c = '/' then some '/'
  else if c = 'b' then some '\x08'
  else if c = 'f' then some '\x0c'
  else if c = 'n' then some '\n'
  else if c = 'r' then some '\r'
  else if c = 't' then some '\t'
  else none

/-- The value of a hexadecimal digit of either case. -/
def hexDigit? (c : Char) : Option Nat :=
  if '0' ≤ c ∧ c ≤ '9' then some (c.toNat - '0'.toNat)
  else if 'a' ≤ c ∧ c ≤ 'f' then some (c.toNat - 'a'.toNat + 10)
  else if 'A' ≤ c ∧ c ≤ 'F' then some (c.toNat - 'A'.toNat + 10)
  else none

/-- The number that four hexadecimal digits write. -/
def hexNumber? (a b c d : Char) : Option Nat := do
  return (((← hexDigit? a) * 16 + (← hexDigit? b)) * 16 + (← hexDigit? c)) * 16 + (← hexDigit? d)

/-- What is wrong with a text that does not start with four hexadecimal digits: it is too short, or
one of its first four bytes is no such digit. -/
def hexFault (text : List Char) : Fault :=
  if Position.byteCount text < 4 then .behind .endInString [] else ⟨.invalidEscape, text, 4⟩

/-- Reads four hexadecimal digits. -/
def readHex (text : List Char) : Except Fault (Nat × List Char) :=
  match text with
  | a :: b :: c :: d :: rest =>
    match hexNumber? a b c d with
    | some unit => .ok (unit, rest)
    | none => .error (hexFault text)
  | _ => .error (hexFault text)

/-- Whether a number is the first of two surrogates. -/
def isHighSurrogate (number : Nat) : Bool := 0xd800 ≤ number && number ≤ 0xdbff

/-- Whether a number is the second of two surrogates. -/
def isLowSurrogate (number : Nat) : Bool := 0xdc00 ≤ number && number ≤ 0xdfff

/-- The character that two surrogates write. -/
def surrogatePair (high low : Nat) : Char :=
  Char.ofNat (0x10000 + (high - 0xd800) * 0x400 + (low - 0xdc00))

/-- Reads one given character. -/
def expect (c : Char) : List Char → Except Fault (List Char)
  | [] => .error (.behind .endInString [])
  | d :: rest => if d = c then .ok rest else .error (.next .endOfHexEscape (d :: rest))

/-- Reads the second of two surrogates, which is escaped like the first. -/
def readLowSurrogate (high : Nat) (text : List Char) : Except Fault (Char × List Char) := do
  let text ← expect '\\' text
  let text ← expect 'u' text
  let (low, rest) ← readHex text
  if isLowSurrogate low then return (surrogatePair high low, rest)
  else throw (.behind .loneSurrogate rest)

/-- Reads a numeric escape after its mark. -/
def readNumeric (text : List Char) : Except Fault (Char × List Char) := do
  let (number, rest) ← readHex text
  if isLowSurrogate number then throw (.behind .loneSurrogate rest)
  else if isHighSurrogate number then readLowSurrogate number rest
  else return (Char.ofNat number, rest)

/-- Reads an escape after its backslash. -/
def readEscape : List Char → Except Fault (Char × List Char)
  | [] => .error (.behind .endInString [])
  | c :: rest =>
    match shortEscape? c with
    | some value => .ok (value, rest)
    | none => if c = 'u' then readNumeric rest else .error (.next .invalidEscape (c :: rest))

theorem length_of_readHex {text rest : List Char} {number : Nat}
    (h : readHex text = .ok (number, rest)) : rest.length < text.length := by
  unfold readHex at h
  split at h
  · split at h
    · cases h
      simp only [List.length_cons]
      omega
    · cases h
  · cases h

theorem length_of_expect {c : Char} {text rest : List Char} (h : expect c text = .ok rest) :
    rest.length < text.length := by
  unfold expect at h
  split at h
  · cases h
  · split at h
    · cases h; exact Nat.lt_succ_self _
    · cases h

theorem length_of_readLowSurrogate {high : Nat} {text rest : List Char} {c : Char}
    (h : readLowSurrogate high text = .ok (c, rest)) : rest.length < text.length := by
  unfold readLowSurrogate at h
  cases hmark : expect '\\' text with
  | error fault => rw [hmark] at h; cases h
  | ok marked =>
    cases hunit : expect 'u' marked with
    | error fault => simp [hmark, hunit, bind, Except.bind] at h
    | ok unit =>
      cases hhex : readHex unit with
      | error fault => simp [hmark, hunit, hhex, bind, Except.bind] at h
      | ok result =>
        obtain ⟨low, after⟩ := result
        have := length_of_expect hmark
        have := length_of_expect hunit
        have := length_of_readHex hhex
        simp only [hmark, hunit, hhex, bind, Except.bind, pure, Except.pure] at h
        split at h
        · simp only [Except.ok.injEq, Prod.mk.injEq] at h
          obtain ⟨_, rfl⟩ := h
          omega
        · cases h

theorem length_of_readNumeric {text rest : List Char} {c : Char}
    (h : readNumeric text = .ok (c, rest)) : rest.length < text.length := by
  unfold readNumeric at h
  cases hhex : readHex text with
  | error fault => rw [hhex] at h; cases h
  | ok result =>
    obtain ⟨number, after⟩ := result
    have := length_of_readHex hhex
    simp only [hhex, bind, Except.bind] at h
    split at h
    · cases h
    · split at h
      · have := length_of_readLowSurrogate h
        omega
      · cases h; omega

theorem length_of_readEscape {text rest : List Char} {c : Char}
    (h : readEscape text = .ok (c, rest)) : rest.length < text.length := by
  unfold readEscape at h
  split at h
  · cases h
  · split at h
    · cases h; exact Nat.lt_succ_self _
    · split at h
      · have := length_of_readNumeric h
        simp only [List.length_cons]
        omega
      · cases h

/-- Reads a literal after its opening quote; `before` holds the characters read so far, the last
one first. -/
def readFrom (before : List Char) : List Char → Except Fault (List Char × List Char)
  | [] => .error (.behind .endInString [])
  | c :: rest =>
    if c = '"' then .ok (before.reverse, rest)
    else if c = '\\' then
      match _h : readEscape rest with
      | .ok (value, after) => readFrom (value :: before) after
      | .error fault => .error fault
    else if c < ' ' then .error (.next .controlCharacter (c :: rest))
    else readFrom (c :: before) rest
termination_by text => text.length
decreasing_by
  · have := length_of_readEscape _h
    simp only [List.length_cons]
    omega
  · simp

/-- Reads a literal after its opening quote. -/
def read (text : List Char) : Except Fault (List Char × List Char) := readFrom [] text

theorem length_of_readFrom {before text value rest : List Char}
    (h : readFrom before text = .ok (value, rest)) : rest.length < text.length := by
  fun_induction readFrom before text with
  | case1 => cases h
  | case2 => cases h; exact Nat.lt_succ_self _
  | case3 _ _ _ _ hescape _ ih =>
    have := ih h
    have := length_of_readEscape hescape
    simp only [List.length_cons]
    omega
  | case4 => cases h
  | case5 => cases h
  | case6 _ _ _ _ _ _ ih =>
    have := ih h
    simp only [List.length_cons]
    omega

end Dotted.Json.StringLiteral
