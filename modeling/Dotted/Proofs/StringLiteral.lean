import Dotted.Json.StringLiteral
import Mathlib.Tactic.SplitIfs

/-!
# String literals, read again

A literal ends at the first quote that is not escaped, and writing escapes
every quote.  Each character is therefore read back from the one, two or six
characters that it is written as, and the quote at the end is the only one
that ends the literal.

* `readFrom_writeChar` is the step for one character.
* `read_write`: reading gives back the text that was written, and leaves what
  follows the literal.
-/

namespace Dotted.Json.StringLiteral

variable {before text rest : List Char} {c mark : Char}

/-- An escape is read as the character that it stands for. -/
theorem readFrom_escape (h : readEscape text = .ok (c, rest)) :
    readFrom before ('\\' :: text) = readFrom (c :: before) rest := by
  rw [readFrom, if_neg (by decide), if_pos rfl]
  split
  · next value after hread =>
    rw [h] at hread
    cases hread
    rfl
  · next fault hread =>
    rw [h] at hread
    cases hread

theorem readEscape_short (h : shortEscape? mark = some c) :
    readEscape (mark :: rest) = .ok (c, rest) := by
  rw [readEscape, h]

/-- The two digits of a control character write its number. -/
theorem hexNumber?_digits :
    ∀ number < 32, hexNumber? '0' '0' (Nat.digitChar (number / 16)) (Nat.digitChar (number % 16))
      = some number := by
  decide

/-- A control character is read from its number. -/
theorem readEscape_numeric (h : c < ' ') :
    readEscape ('u' :: '0' :: '0' :: Nat.digitChar (c.toNat / 16) ::
      Nat.digitChar (c.toNat % 16) :: rest) = .ok (c, rest) := by
  have hlt : c.toNat < 32 := h
  have hhex : readHex ('0' :: '0' :: Nat.digitChar (c.toNat / 16) ::
      Nat.digitChar (c.toNat % 16) :: rest) = .ok (c.toNat, rest) := by
    rw [readHex, hexNumber?_digits c.toNat hlt]
  have hlow : isLowSurrogate c.toNat = false := by
    simp only [isLowSurrogate, Bool.and_eq_false_iff, decide_eq_false_iff_not]
    omega
  have hhigh : isHighSurrogate c.toNat = false := by
    simp only [isHighSurrogate, Bool.and_eq_false_iff, decide_eq_false_iff_not]
    omega
  have hmark : shortEscape? 'u' = none := rfl
  rw [readEscape, hmark]
  dsimp only
  rw [if_pos rfl, readNumeric, hhex]
  show (if isLowSurrogate c.toNat = true then _ else _) = _
  rw [hlow, hhigh, if_neg Bool.false_ne_true, if_neg Bool.false_ne_true, Char.ofNat_toNat]
  rfl

/-- A character is read back from what it is written as. -/
theorem readFrom_writeChar (before : List Char) (c : Char) (rest : List Char) :
    readFrom before (writeChar c ++ rest) = readFrom (c :: before) rest := by
  unfold writeChar
  split_ifs with hquote hslash hback hform hline hreturn htab hcontrol
  · exact readFrom_escape (readEscape_short (by rw [hquote]; rfl))
  · exact readFrom_escape (readEscape_short (by rw [hslash]; rfl))
  · exact readFrom_escape (readEscape_short (by rw [hback]; rfl))
  · exact readFrom_escape (readEscape_short (by rw [hform]; rfl))
  · exact readFrom_escape (readEscape_short (by rw [hline]; rfl))
  · exact readFrom_escape (readEscape_short (by rw [hreturn]; rfl))
  · exact readFrom_escape (readEscape_short (by rw [htab]; rfl))
  · exact readFrom_escape (readEscape_numeric hcontrol)
  · show readFrom before (c :: rest) = _
    rw [readFrom, if_neg hquote, if_neg hslash, if_neg hcontrol]

theorem readFrom_flatMap (before text rest : List Char) :
    readFrom before (text.flatMap writeChar ++ '"' :: rest) =
      .ok (before.reverse ++ text, rest) := by
  induction text generalizing before with
  | nil =>
    rw [List.flatMap_nil, List.nil_append, readFrom, if_pos rfl, List.append_nil]
  | cons c text ih =>
    rw [List.flatMap_cons, List.append_assoc, readFrom_writeChar, ih, List.reverse_cons,
      List.append_assoc, List.singleton_append]

/-- After its opening quote a literal is read as the text that it was written
for. -/
theorem read_write (text rest : List Char) :
    read (text.flatMap writeChar ++ '"' :: rest) = .ok (text, rest) :=
  readFrom_flatMap [] text rest

end Dotted.Json.StringLiteral
