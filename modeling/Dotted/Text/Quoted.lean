import Dotted.Text.Unicode

/-!
# Quoted text

Messages show foreign text between double quotes. `Text.quoted` keeps what a reader can see and
escapes the rest: the quote and the backslash, the four controls that have a short form, and every
invisible character or combining mark as its code point in hexadecimal.
-/

namespace Dotted.Text

/-- A code point between braces, in lower-case hexadecimal without leading zeros. -/
def codePointEscape (c : Char) : List Char :=
  '\\' :: 'u' :: '{' :: Nat.toDigits 16 c.toNat ++ ['}']

/-- How one character appears between double quotes. -/
def quotedChar (c : Char) : List Char :=
  if c = '"' then ['\\', '"']
  else if c = '\\' then ['\\', '\\']
  else if c = '\n' then ['\\', 'n']
  else if c = '\r' then ['\\', 'r']
  else if c = '\t' then ['\\', 't']
  else if c = '\x00' then ['\\', '0']
  else if Unicode.extendsGrapheme c || !Unicode.isVisible c then codePointEscape c
  else [c]

/-- A text between double quotes, with everything escaped that could not be seen in it. -/
def quoted (text : String) : String :=
  String.ofList ('"' :: text.toList.flatMap quotedChar ++ ['"'])

end Dotted.Text
