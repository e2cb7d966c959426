import Dotted.Document
import Dotted.Json.Numeral
import Dotted.Json.StringLiteral

/-!
# Tokens of JSON text

A text is cut into tokens before anything is said about their order. Blanks between tokens are
dropped. A token knows the text from its start on, which is where a fault with it is reported. What
starts like a literal and is none becomes a broken token, the last of its list, so that the order
of the tokens before it is judged first.

`Token.scan` cuts a text into its tokens.
-/

namespace Dotted.Json

/-- What a token is. -/
inductive Lexeme where
  | openArray
  | closeArray
  | openObject
  | closeObject
  | comma
  | colon
  /-- A literal other than a string. -/
  | scalar (value : Document)
  /-- A string literal. -/
  | text (value : String)
  /-- A literal with a fault in it; `quoted` if it starts as a string. -/
  | broken (fault : Fault) (quoted : Bool)
  /-- A character with which no token starts. -/
  | stray

/-- A token, and the text from its start on. -/
structure Token where
  lexeme : Lexeme
  start : List Char

/-- The blanks that may stand between tokens. -/
def isBlank (c : Char) : Bool := c == ' ' || c == '\t' || c == '\n' || c == '\r'

/-- Reads the characters of a word that has begun. -/
def readWord : List Char → List Char → Except Fault (List Char)
  | [], text => .ok text
  | _ :: _, [] => .error (.behind .endInValue [])
  | expected :: word, c :: rest =>
    if c = expected then readWord word rest else .error (.next .expectedWord (c :: rest))

namespace Lexeme

/-- The lexeme of a literal and the text after it; nothing is read after a fault. -/
def ofRead {α : Type} (lexeme : α → Lexeme) (quoted : Bool) :
    Except Fault (α × List Char) → Lexeme × List Char
  | .ok (value, rest) => (lexeme value, rest)
  | .error fault => (.broken fault quoted, [])

/-- The lexeme of a word whose first character has been read. -/
def ofWord (word : List Char) (value : Document) (rest : List Char) : Lexeme × List Char :=
  ofRead (fun _ => .scalar value) false ((readWord word rest).map fun rest => ((), rest))

/-- The lexeme that a character is by itself. -/
def symbol? (c : Char) : Option Lexeme :=
  if c = '[' then some .openArray
  else if c = ']' then some .closeArray
  else if c = '{' then some .openObject
  else if c = '}' then some .closeObject
  else if c = ',' then some .comma
  else if c = ':' then some .colon
  else none

/-- The word that a character begins: its other characters, and its value. -/
def word? (c : Char) : Option (List Char × Document) :=
  if c = 'n' then some (['u', 'l', 'l'], .null)
  else if c = 't' then some (['r', 'u', 'e'], .bool true)
  else if c = 'f' then some (['a', 'l', 's', 'e'], .bool false)
  else none

/-- The lexeme at the start of a text that is neither empty nor starts with a blank. -/
def read (c : Char) (rest : List Char) : Lexeme × List Char :=
  match symbol? c with
  | some lexeme => (lexeme, rest)
  | none =>
    match word? c with
    | some (word, value) => ofWord word value rest
    | none =>
      if c = '"' then
        ofRead (fun chars => .text (String.ofList chars)) true (StringLiteral.read rest)
      else if c = '-' ∨ c.isDigit then
        ofRead (fun number => .scalar (.number number)) false (Numeral.read (c :: rest))
      else (.stray, rest)

end Lexeme

theorem length_of_readWord {word text rest : List Char} (h : readWord word text = .ok rest) :
    rest.length ≤ text.length := by
  fun_induction readWord word text with
  | case1 => cases h; exact Nat.le_refl _
  | case2 => cases h
  | case3 _ _ _ ih =>
    have := ih h
    simp only [List.length_cons]
    omega
  | case4 => cases h

namespace Lexeme

theorem length_ofRead {α : Type} {lexeme : α → Lexeme} {quoted : Bool}
    {result : Except Fault (α × List Char)} {bound : Nat}
    (h : ∀ value rest, result = .ok (value, rest) → rest.length ≤ bound) :
    (ofRead lexeme quoted result).2.length ≤ bound := by
  cases result with
  | error fault => exact Nat.zero_le _
  | ok read => exact h read.1 read.2 rfl

theorem length_ofWord (word : List Char) (value : Document) (rest : List Char) :
    (ofWord word value rest).2.length ≤ rest.length := by
  refine length_ofRead fun _ after h => ?_
  cases hword : readWord word rest with
  | error fault => rw [hword] at h; cases h
  | ok tail =>
    rw [hword] at h
    cases h
    exact length_of_readWord hword

/-- A lexeme takes at least its first character. -/
theorem length_read (c : Char) (rest : List Char) : (read c rest).2.length ≤ rest.length := by
  unfold read
  split
  · exact Nat.le_refl _
  · split
    · exact length_ofWord _ _ _
    · split
      · exact length_ofRead fun _ _ h => Nat.le_of_lt (StringLiteral.length_of_readFrom h)
      · split
        · exact length_ofRead fun _ _ h => Nat.le_of_lt_succ (Numeral.length_of_read h)
        · exact Nat.le_refl _

end Lexeme

namespace Token

/-- The tokens of a text. -/
def scan : List Char → List Token
  | [] => []
  | c :: rest =>
    if isBlank c then scan rest
    else
      ⟨(Lexeme.read c rest).1, c :: rest⟩ :: scan (Lexeme.read c rest).2
termination_by text => text.length
decreasing_by
  · simp
  · have := Lexeme.length_read c rest
    simp only [List.length_cons]
    omega

end Token

end Dotted.Json
