import Dotted.Segment
import Mathlib.Data.List.Induction

/-!
# Segments that denote array positions

An array takes a segment only if its text is a decimal numeral without a
leading zero.  Such a numeral is fixed by its number, so that no two
segments denote one position.

* `toDigits_ofDigitChars`: digits without a leading zero are the digits of
  the number that they denote.
* `eq_ofIndex_of_index?`: a segment that denotes a position is the segment
  that `Segment.ofIndex` makes for it.
* `index?_injective`: two segments of one position are equal.
* `ofIndex_injective`: the segments of two positions differ.
* `index?_ofIndex`: the segment that is made for a position denotes it, if the
  position is below `Segment.indexBound`.
* `index?_iff_decimal_numeral` puts these together.
-/

namespace Dotted

/-! ## Digits and numbers -/

/-- A decimal digit is the character of its own value. -/
theorem digitChar_of_isDigit {c : Char} (h : c.isDigit = true) :
    c.toNat - '0'.toNat < 10 ∧ (c.toNat - '0'.toNat).digitChar = c := by
  have hbounds : 48 ≤ c.toNat ∧ c.toNat ≤ 57 := by
    simpa [Char.isDigit, UInt32.le_iff_toNat_le] using h
  have hlt : c.toNat - '0'.toNat < 10 := by
    show c.toNat - 48 < 10
    omega
  refine ⟨hlt, Char.toNat_inj.1 ?_⟩
  rw [Nat.toNat_digitChar_of_lt_ten hlt]
  show 48 + (c.toNat - 48) = c.toNat
  omega

/-- Digits of which the first is not zero denote a positive number. -/
theorem ofDigitChars_pos {c : Char} {cs : List Char} (hdigit : c.isDigit = true)
    (hzero : c ≠ '0') : 0 < Nat.ofDigitChars 10 (c :: cs) 0 := by
  have hvalue : 0 < c.toNat - '0'.toNat := by
    refine Nat.pos_of_ne_zero fun h => hzero ?_
    rw [← (digitChar_of_isDigit hdigit).2, h]
    rfl
  rw [Nat.ofDigitChars_cons, Nat.ofDigitChars_eq_ofDigitChars_zero, Nat.mul_zero, Nat.zero_add]
  have hpower : 0 < 10 ^ cs.length := Nat.pow_pos (by decide)
  have hpos := Nat.mul_pos hpower hvalue
  omega

/-- The digits of the number that some digits denote are these digits, unless
they start with a superfluous zero.  The induction takes the last digit off,
because that is how `Nat.toDigits` makes them. -/
theorem toDigits_ofDigitChars {cs : List Char} (hne : cs ≠ [])
    (hdigits : ∀ c ∈ cs, c.isDigit = true) (hzero : 1 < cs.length → cs.head? ≠ some '0') :
    Nat.toDigits 10 (Nat.ofDigitChars 10 cs 0) = cs := by
  induction cs using List.reverseRecOn with
  | nil => exact absurd rfl hne
  | append_singleton ds d ih =>
    obtain ⟨hlt, hchar⟩ := digitChar_of_isDigit (hdigits d (by simp))
    rw [Nat.ofDigitChars_append, Nat.ofDigitChars_cons, Nat.ofDigitChars_nil]
    cases ds with
    | nil =>
      rw [Nat.ofDigitChars_nil, Nat.mul_zero, Nat.zero_add, Nat.toDigits_of_lt_base hlt, hchar]
      rfl
    | cons c cs =>
      have hhead : c ≠ '0' := by
        simpa using hzero
      have hpos : 0 < Nat.ofDigitChars 10 (c :: cs) 0 :=
        ofDigitChars_pos (hdigits c (by simp)) hhead
      have hih := ih (by simp) (fun e he => hdigits e (List.mem_append_left _ he))
        (fun _ => by simpa using hhead)
      rw [← Nat.toDigits_append_toDigits (by decide) hpos hlt, hih,
        Nat.toDigits_of_lt_base hlt, hchar]

/-- The digits of a positive number do not start with a zero.  `Nat.toDigits`
keeps the first digit of the number that is left when the last one is taken
off. -/
theorem head?_toDigits_ne_zero {n : Nat} (h : 0 < n) : (Nat.toDigits 10 n).head? ≠ some '0' := by
  induction n using Nat.strongRecOn with
  | ind n ih =>
    by_cases hlt : n < 10
    · rw [Nat.toDigits_of_lt_base hlt, List.head?_cons, Ne, Option.some.injEq,
        Nat.digitChar_eq_zero]
      omega
    · have hhead := ih (n / 10) (by omega) (by omega)
      rw [Nat.toDigits_of_base_le (by decide) (by omega)]
      cases hdigits : Nat.toDigits 10 (n / 10) with
      | nil => exact absurd hdigits Nat.toDigits_ne_nil
      | cons c cs =>
        rw [hdigits] at hhead
        exact hhead

/-! ## Positions of segments -/

namespace Segment

/-- A segment that denotes a position is the segment that is made for it. -/
theorem eq_ofIndex_of_index? {segment : Segment} {index : Nat}
    (h : segment.index? = some index) : segment = ofIndex index := by
  unfold index? at h
  simp only [Bool.and_eq_true, List.all_eq_true, Bool.not_eq_true', Bool.and_eq_false_iff,
    decide_eq_false_iff_not] at h
  split at h
  · next hcanonical =>
    obtain ⟨hdigits, hzero⟩ := hcanonical
    split at h
    · obtain rfl := Option.some.inj h
      have hne : segment.text.toList ≠ [] := by
        simpa using segment.nonempty
      refine ext_text (String.toList_inj.1 ?_)
      show segment.text.toList = (Nat.repr _).toList
      rw [Nat.toList_repr, toDigits_ofDigitChars hne hdigits]
      intro hlength
      rcases hzero with hshort | hhead
      · exact absurd hlength hshort
      · simpa using hhead
    · cases h
  · cases h

/-- The segment that is made for a position denotes that position. -/
theorem index?_ofIndex {index : Nat} (h : index < indexBound) :
    (ofIndex index).index? = some index := by
  have htext : (ofIndex index).text.toList = Nat.toDigits 10 index := Nat.toList_repr
  have hdigits : (Nat.toDigits 10 index).all Char.isDigit = true :=
    List.all_eq_true.2 fun _ => Nat.isDigit_of_mem_toDigits (by decide) (by decide)
  have hzero : ((Nat.toDigits 10 index).length > 1 && (Nat.toDigits 10 index).head? == some '0') =
      false := by
    by_cases hpos : 0 < index
    · rw [beq_false_of_ne (head?_toDigits_ne_zero hpos), Bool.and_false]
    · obtain rfl : index = 0 := by omega
      rw [Nat.toDigits_zero]
      rfl
  simp only [index?, htext, hdigits, hzero]
  rw [Nat.ofDigitChars_toDigits (by decide) (by decide), if_pos h]
  rfl

/-- The segments that are made for two positions differ. -/
theorem ofIndex_injective {index other : Nat} (h : ofIndex index = ofIndex other) :
    index = other := by
  have hdigits : Nat.toDigits 10 index = Nat.toDigits 10 other := by
    rw [← Nat.toList_repr, ← Nat.toList_repr]
    exact congrArg (fun segment => segment.text.toList) h
  have hvalue := congrArg (Nat.ofDigitChars 10 · 0) hdigits
  simpa [Nat.ofDigitChars_toDigits] using hvalue

/-- Two segments of one position are equal. -/
theorem index?_injective {s t : Segment} {index : Nat} (hs : s.index? = some index)
    (ht : t.index? = some index) : s = t := by
  rw [eq_ofIndex_of_index? hs, eq_ofIndex_of_index? ht]

/-- Only numbers below the bound are denoted. -/
theorem lt_indexBound_of_index? {segment : Segment} {index : Nat}
    (h : segment.index? = some index) : index < indexBound := by
  unfold index? at h
  dsimp only at h
  split at h
  · split at h
    · next hlt => exact Option.some.inj h ▸ hlt
    · cases h
  · cases h

/-- A segment denotes a position exactly if it is the decimal numeral of the
position, which has to be a machine number of 64 bits.  So the segment that is
made for a machine number denotes this number, and no two segments denote one
position of an array. -/
theorem index?_iff_decimal_numeral :
    (∀ (segment : Segment) (index : Nat), segment.index? = some index ↔
        index < 0x10000000000000000 ∧ segment.text = index.repr) ∧
      (∀ index : UInt64, (ofIndex index.toNat).index? = some index.toNat) ∧
      ∀ (s t : Segment) (index : Nat), s ≠ t → s.index? = some index → t.index? ≠ some index := by
  refine ⟨fun segment index => ⟨fun h => ?_, ?_⟩, fun index => index?_ofIndex index.toNat_lt,
    fun s t index hne hs ht => hne (index?_injective hs ht)⟩
  · obtain rfl := eq_ofIndex_of_index? h
    exact ⟨lt_indexBound_of_index? h, rfl⟩
  · rintro ⟨hlt, htext⟩
    obtain rfl : segment = ofIndex index := ext_text htext
    exact index?_ofIndex hlt

/-- The greatest position, the number after it, and a numeral with a
superfluous zero. -/
theorem index?_iff_decimal_numeral_greatest :
    (ofIndex 0xffffffffffffffff).index? = some 0xffffffffffffffff ∧
      (∀ index, (ofIndex 0x10000000000000000).index? ≠ some index) ∧
      (⟨"07", by decide, by decide⟩ : Segment).index? ≠ some 7 := by
  obtain ⟨hnumeral, -, hapart⟩ := index?_iff_decimal_numeral
  refine ⟨(hnumeral _ _).2 ⟨by decide, rfl⟩, fun index h => ?_, ?_⟩
  · obtain ⟨hlt, htext⟩ := (hnumeral _ _).1 h
    have hindex : 0x10000000000000000 = index := ofIndex_injective (ext_text htext)
    omega
  · exact hapart (ofIndex 7) _ 7 (by decide) rfl

end Segment

end Dotted
