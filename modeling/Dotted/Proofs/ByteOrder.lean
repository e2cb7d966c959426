import Dotted.Members
import Mathlib.Tactic.SplitIfs

/-!
# The order of texts is the order of their bytes

Keys are compared code point by code point.  UTF-8 is made so that this is
also the order of the bytes: a character takes no fewer bytes than a smaller
one, and the first byte in which the two differ is smaller in the smaller one.

* `Text.encode_append_lt`: two different characters decide the comparison,
  whatever follows them.
* `Text.bytes_lt_bytes`: a smaller text has smaller bytes.
-/

namespace Dotted.Text

variable {s t : String}

/-- The bytes of a text in UTF-8. -/
def bytes (text : String) : List UInt8 := text.toUTF8.data.toList

theorem bytes_eq_flatMap (text : String) :
    bytes text = text.toList.flatMap String.utf8EncodeChar := by
  have h : text.toUTF8 = text.toList.utf8Encode := by
    rw [String.toUTF8, String.utf8Encode_toList]
  rw [bytes, h, List.utf8Encode, List.toList_data_toByteArray]

/-- The bytes of a character are smaller than those of a larger one, and they
stay so when other bytes follow. -/
theorem encode_append_lt {c d : Char} (h : c < d) (rest other : List UInt8) :
    String.utf8EncodeChar c ++ rest < String.utf8EncodeChar d ++ other := by
  have hlt : c.val.toNat < d.val.toNat := h
  have hbound : d.val.toNat < 0x110000 := by
    rcases d.valid with hsmall | ⟨-, hlarge⟩
    · exact Nat.lt_trans hsmall (by decide)
    · exact hlarge
  unfold String.utf8EncodeChar
  generalize c.val.toNat = m at hlt
  generalize d.val.toNat = n at hlt hbound
  have hm : m / 64 / 64 = m / 4096 ∧ m / 4096 / 64 = m / 262144 := by omega
  have hn : n / 64 / 64 = n / 4096 ∧ n / 4096 / 64 = n / 262144 := by omega
  dsimp only
  -- one case for each pair of lengths; in each the bytes are compared as numbers
  split_ifs <;>
    simp only [List.cons_append, List.cons_lt_cons_iff, UInt8.lt_iff_toNat_lt,
      UInt8.toNat_ofNat', UInt8.ofNat_eq_iff_mod_eq_toNat, Nat.reducePow] <;>
    simp (disch := omega) only [Nat.mod_eq_of_lt] <;>
    omega

theorem flatMap_encode_lt {chars others : List Char} (h : chars < others) :
    chars.flatMap String.utf8EncodeChar < others.flatMap String.utf8EncodeChar := by
  induction h with
  | @nil c others =>
    rw [List.flatMap_nil, List.flatMap_cons]
    cases hbytes : String.utf8EncodeChar c ++ others.flatMap String.utf8EncodeChar with
    | nil => exact absurd (List.append_eq_nil_iff.1 hbytes).1 String.utf8EncodeChar_ne_nil
    | cons first rest => exact List.nil_lt_cons first rest
  | cons _ ih =>
    rw [List.flatMap_cons, List.flatMap_cons]
    exact List.append_left_lt ih
  | rel hlt =>
    rw [List.flatMap_cons, List.flatMap_cons]
    exact encode_append_lt hlt _ _

/-- A smaller text has smaller bytes. -/
theorem bytes_lt_bytes (h : s < t) : bytes s < bytes t := by
  rw [bytes_eq_flatMap, bytes_eq_flatMap]
  exact flatMap_encode_lt h

end Dotted.Text
