/-!
# Control sequences of terminals

A text for a terminal may hold control sequences, which set colours, move the cursor or name the
window. `Terminal.plain` is the text that is left for a reader who is no terminal: without control
sequences, and without control characters other than blanks.

A sequence starts with the escape character, and the characters after it decide where it ends
(`Sequence.next`). A cancel or substitute character ends every sequence, and an escape character
starts a new one. A blank control character inside a sequence is shown nevertheless; it interrupts
the sequence, which goes on at the next character that is not shown.
-/

namespace Dotted.Command.Terminal

/-- The escape character. -/
def escapeCharacter : Char := '\x1b'

/-- Where a character stands between or inside control sequences. -/
inductive Sequence where
  /-- Outside of all sequences. -/
  | outside
  /-- Directly after the escape character. -/
  | escape
  /-- In an escape sequence that goes on. -/
  | escapeIntermediate
  /-- In a control sequence with parameters. -/
  | control
  /-- In a command to the operating system. -/
  | command
  /-- At the start of a control string for a device. -/
  | device
  /-- In the parameters of a control string for a device. -/
  | deviceParameter
  /-- Between the parameters and the data of a control string for a device. -/
  | deviceIntermediate
  /-- In the data of a control string. -/
  | string
deriving DecidableEq

namespace Sequence

/-- Whether a character is between two others. -/
def within (first last c : Char) : Bool := first ≤ c && c ≤ last

/-- The character that ends every sequence, or the one that stands for what was lost. -/
def cancels (c : Char) : Bool := c == '\x18' || c == '\x1a'

/-- Whether the encoding of a character holds the byte that terminates control strings. -/
def terminates (c : Char) : Bool := (String.utf8EncodeChar c).contains 0x9c

/-- Where the next character stands. -/
def next (sequence : Sequence) (c : Char) : Sequence :=
  if cancels c then .outside
  else if c = escapeCharacter then .escape
  else
    match sequence with
    | .outside => .outside
    | .escape =>
      if within ' ' '/' c then .escapeIntermediate
      else if c = '[' then .control
      else if c = ']' then .command
      else if c = 'P' then .device
      else if c = 'X' ∨ c = '^' ∨ c = '_' then .string
      else if within '0' '~' c then .outside
      else .escape
    | .escapeIntermediate => if within '0' '~' c then .outside else .escapeIntermediate
    | .control => if within '@' '~' c then .outside else .control
    | .command => if c = '\x07' then .outside else .command
    | .device =>
      if within ' ' '/' c then .deviceIntermediate
      else if within '0' '?' c then .deviceParameter
      else if within '@' '~' c then .string
      else .device
    | .deviceParameter =>
      if within ' ' '/' c then .deviceIntermediate
      else if within '<' '~' c then .string
      else .deviceParameter
    | .deviceIntermediate => if within '0' '~' c then .string else .deviceIntermediate
    | .string => if terminates c then .outside else .string

/-- The control characters that are blanks. -/
def isControlBlank (c : Char) : Bool := c == '\t' || c == '\n' || c == '\x0c' || c == '\r'

/-- Whether a character is shown: blanks are, in short sequences too, and outside of all sequences
everything but the controls. -/
def shows (sequence : Sequence) (c : Char) : Bool :=
  match sequence with
  | .outside => isControlBlank c || (' ' ≤ c && c != '\x7f')
  | .escape | .escapeIntermediate | .control => isControlBlank c
  | _ => false

/-- The sequence that a shown character leaves to be gone on with: the same, unless the character
is encoded in several bytes. -/
def interrupted (sequence : Sequence) (c : Char) : Sequence :=
  if c.utf8Size = 1 then sequence else .outside

end Sequence

/-- What is shown of a text that starts inside a sequence, or, if `showing`, after a character that
was shown in it. -/
def plainFrom (sequence : Sequence) (showing : Bool) : List Char → List Char
  | [] => []
  | c :: rest =>
    if (if showing then Sequence.outside else sequence).shows c then
      c :: plainFrom (sequence.interrupted c) true rest
    else plainFrom (sequence.next c) false rest

/-- What is shown of a text. -/
def plain (text : String) : String := String.ofList (plainFrom .outside false text.toList)

/-- A text between the control sequences that set a style and reset it. -/
def styled (style text : String) : String := "\x1b[" ++ style ++ "m" ++ text ++ "\x1b[0m"

/-- A text that is emphasized as wrong. -/
def wrong (text : String) : String := styled "33" text

/-- A text that is emphasized as one to be typed literally. -/
def literal (text : String) : String := styled "1" text

/-- The first line of a text. A line ends with a line feed, and a carriage return before that does
not belong to it either. -/
def firstLine (text : String) : String :=
  let line := text.toList.takeWhile (· != '\n')
  String.ofList (if line.getLast? = some '\r' then line.dropLast else line)

end Dotted.Command.Terminal
