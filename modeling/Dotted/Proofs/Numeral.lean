import Dotted.Json.Numeral
import Dotted.Proofs.Index
import Mathlib.Data.List.TakeWhile

/-!
# The text of a number, read again

A numeral has no mark at its end.  It ends where no digit, no point and no
exponent mark follows, and this is what stands behind a number in a document:
a comma, a bracket or a blank.

* `Numeral.Ends` says this of the text behind a numeral, and
  `Numeral.read_append`: such a text is left over when the numeral is read.
* `Numeral.whole_of_lt`: digits that fit into 64 bits are taken in one by one.
* `Number.reread` is the number that comes of writing a number and reading it
  again, and `Number.Rereads` says that this is the number itself.  Integers
  do (`Number.rereads_integer`).
-/

namespace Dotted

namespace Json.Numeral

/-- No numeral goes on with the text. -/
def Ends (text : List Char) : Prop :=
  ∀ c ∈ text.head?, c.isDigit = false ∧ c ≠ '.' ∧ isExponentMark c = false

theorem ends_cons {c : Char} (h : c.isDigit = false ∧ c ≠ '.' ∧ isExponentMark c = false)
    (rest : List Char) : Ends (c :: rest) := by
  intro d hd
  rw [← Option.some.inj hd]
  exact h

variable {text left rest : List Char} {number : Number} {negative down : Bool}
  {significand : Significand} {exponent : Int}

/-! ## What follows a numeral -/

theorem digits_append (hrest : Ends rest) : digits (text ++ rest) = digits text := by
  induction text with
  | nil =>
    cases rest with
    | nil => rfl
    | cons c rest =>
      have hdigit : c.isDigit = false := (hrest c rfl).1
      simp [digits, hdigit]
  | cons c text ih =>
    cases hdigit : c.isDigit with
    | true => simpa [digits, hdigit] using ih
    | false => simp [digits, hdigit]

theorem afterDigits_append (hrest : Ends rest) :
    afterDigits (text ++ rest) = afterDigits text ++ rest := by
  induction text with
  | nil =>
    cases rest with
    | nil => rfl
    | cons c rest =>
      have hdigit : c.isDigit = false := (hrest c rfl).1
      simp [afterDigits, hdigit]
  | cons c text ih =>
    cases hdigit : c.isDigit with
    | true => simpa [afterDigits, hdigit] using ih
    | false => simp [afterDigits, hdigit]

theorem finish_append {finite? : Option Number} (h : finish finite? text = .ok (number, left)) :
    finish finite? (text ++ rest) = .ok (number, left ++ rest) := by
  cases finite? with
  | none => cases h
  | some value =>
    cases h
    rfl

theorem readExponentDigits_append (hrest : Ends rest)
    (h : readExponentDigits negative significand exponent down text = .ok (number, left)) :
    readExponentDigits negative significand exponent down (text ++ rest)
      = .ok (number, left ++ rest) := by
  unfold readExponentDigits at h ⊢
  rw [digits_append hrest, afterDigits_append hrest]
  split at h
  · split at h <;> cases h
  · next hdigits =>
    rw [if_neg hdigits]
    split at h
    · exact finish_append h
    · split at h
      · cases h
      · next hzero =>
        cases h
        rw [if_neg hzero]

theorem readExponent_append (hrest : Ends rest)
    (h : readExponent negative significand exponent text = .ok (number, left)) :
    readExponent negative significand exponent (text ++ rest) = .ok (number, left ++ rest) := by
  cases text with
  | nil => cases h
  | cons c text =>
    unfold readExponent at h ⊢
    split at h
    · next hsign =>
      cases hsign
      exact readExponentDigits_append hrest h
    · next hsign =>
      cases hsign
      exact readExponentDigits_append hrest h
    · next hplus hminus =>
      split
      · next hsign => exact absurd (congrArg (· :: text) (List.cons.inj hsign).1) (hplus text)
      · next hsign => exact absurd (congrArg (· :: text) (List.cons.inj hsign).1) (hminus text)
      · exact readExponentDigits_append hrest h

theorem readAfterFraction_append (hrest : Ends rest)
    (h : readAfterFraction negative significand exponent text = .ok (number, left)) :
    readAfterFraction negative significand exponent (text ++ rest)
      = .ok (number, left ++ rest) := by
  cases text with
  | nil =>
    cases rest with
    | nil =>
      rw [List.append_nil, List.append_nil]
      exact h
    | cons c rest =>
      have hmark : isExponentMark c = false := (hrest c rfl).2.2
      rw [List.nil_append, readAfterFraction, hmark]
      exact finish_append h
  | cons c text =>
    rw [List.cons_append, readAfterFraction]
    rw [readAfterFraction] at h
    split at h
    · next hmark =>
      rw [if_pos hmark]
      exact readExponent_append hrest h
    · next hmark =>
      rw [if_neg hmark]
      exact finish_append h

theorem readFraction_append (hrest : Ends rest)
    (h : readFraction negative significand exponent text = .ok (number, left)) :
    readFraction negative significand exponent (text ++ rest) = .ok (number, left ++ rest) := by
  unfold readFraction at h ⊢
  rw [digits_append hrest, afterDigits_append hrest]
  split at h
  · split at h <;> cases h
  · next hdigits =>
    rw [if_neg hdigits]
    exact readAfterFraction_append hrest h

theorem readAfterWhole_append {whole : List Char} (hrest : Ends rest)
    (h : readAfterWhole negative whole text = .ok (number, left)) :
    readAfterWhole negative whole (text ++ rest) = .ok (number, left ++ rest) := by
  cases text with
  | nil =>
    cases rest with
    | nil =>
      rw [List.append_nil, List.append_nil]
      exact h
    | cons c rest =>
      obtain ⟨-, hpoint, hmark⟩ := hrest c rfl
      rw [List.nil_append, readAfterWhole]
      simp only [hpoint, hmark, if_false]
      exact finish_append h
  | cons c text =>
    rw [List.cons_append, readAfterWhole]
    rw [readAfterWhole] at h
    dsimp only at h ⊢
    split at h
    · next hpoint =>
      rw [if_pos hpoint]
      exact readFraction_append hrest h
    · next hpoint =>
      rw [if_neg hpoint]
      split at h
      · next hmark =>
        rw [if_pos hmark]
        exact readExponent_append hrest h
      · next hmark =>
        rw [if_neg hmark]
        exact finish_append h

theorem readUnsigned_append (hrest : Ends rest)
    (h : readUnsigned negative text = .ok (number, left)) :
    readUnsigned negative (text ++ rest) = .ok (number, left ++ rest) := by
  cases text with
  | nil => cases h
  | cons c text =>
    rw [List.cons_append, readUnsigned, digits_append hrest, afterDigits_append hrest]
    rw [readUnsigned] at h
    split at h
    · next hzero =>
      rw [if_pos hzero]
      split at h
      · next hdigits =>
        rw [if_pos hdigits]
        exact readAfterWhole_append hrest h
      · cases h
    · next hzero =>
      rw [if_neg hzero]
      split at h
      · next hdigit =>
        rw [if_pos hdigit]
        exact readAfterWhole_append hrest h
      · cases h

/-- What follows a numeral is left over. -/
theorem read_append (hrest : Ends rest) (h : read text = .ok (number, left)) :
    read (text ++ rest) = .ok (number, left ++ rest) := by
  cases text with
  | nil => cases h
  | cons c text =>
    unfold read at h ⊢
    split at h
    · next hsign =>
      cases hsign
      exact readUnsigned_append hrest h
    · next hminus =>
      split
      · next hsign => exact absurd (congrArg (· :: text) (List.cons.inj hsign).1) (hminus text)
      · exact readUnsigned_append hrest h

/-- A numeral starts with a minus sign or with a digit. -/
theorem starts_of_read (h : read text = .ok (number, left)) :
    ∃ c tail, text = c :: tail ∧ (c = '-' ∨ c.isDigit = true) := by
  cases text with
  | nil => cases h
  | cons c text =>
    refine ⟨c, text, rfl, ?_⟩
    unfold read at h
    split at h
    · next hsign => exact Or.inl (List.cons.inj hsign).1
    · unfold readUnsigned at h
      split at h
      · cases h
      · next hcons =>
        obtain ⟨rfl, rfl⟩ := List.cons.inj hcons
        split at h
        · next hzero =>
          subst hzero
          exact Or.inr (by decide)
        · split at h
          · next hdigit => exact Or.inr hdigit
          · cases h

/-! ## Integers -/

theorem le_ofDigitChars (chars : List Char) (value : Nat) :
    value ≤ Nat.ofDigitChars 10 chars value := by
  induction chars generalizing value with
  | nil => exact Nat.le_of_eq Nat.ofDigitChars_nil.symm
  | cons c chars ih =>
    rw [Nat.ofDigitChars_cons]
    have := ih (10 * value + (c.toNat - '0'.toNat))
    omega

theorem push?_of_lt {c : Char}
    (h : significand.value * 10 + (c.toNat - '0'.toNat) < UInt64.size) :
    significand.push? c = some ⟨significand.value * 10 + (c.toNat - '0'.toNat), h⟩ := by
  unfold Significand.push?
  exact dif_pos h

/-- Digits are taken in as long as the number fits into 64 bits.  It only
grows with further digits, so each of them fits if all do. -/
theorem whole_of_lt {chars : List Char} {value : Nat}
    (hvalue : Nat.ofDigitChars 10 chars significand.value = value) (h : value < UInt64.size) :
    significand.whole chars = (⟨value, h⟩, 0) := by
  induction chars generalizing significand with
  | nil =>
    cases significand
    cases hvalue
    rfl
  | cons c chars ih =>
    rw [Nat.ofDigitChars_cons, Nat.mul_comm] at hvalue
    have hfits : significand.value * 10 + (c.toNat - '0'.toNat) < UInt64.size :=
      Nat.lt_of_le_of_lt (le_ofDigitChars chars _) (hvalue ▸ h)
    rw [Significand.whole, push?_of_lt hfits]
    exact ih hvalue

theorem digits_of_forall (h : ∀ c ∈ text, c.isDigit = true) : digits text = text := by
  rw [digits, List.takeWhile_eq_self_iff]
  exact h

theorem afterDigits_of_forall (h : ∀ c ∈ text, c.isDigit = true) : afterDigits text = [] := by
  rw [afterDigits, List.dropWhile_eq_nil_iff]
  exact h

/-- The digits of a natural number are read as its value. -/
theorem readUnsigned_toDigits {value : Nat} (h : value < UInt64.size) :
    readUnsigned negative (Nat.toDigits 10 value) = finish (ofWhole? negative ⟨value, h⟩ 0) [] := by
  have hwhole : Significand.zero.whole (Nat.toDigits 10 value) = (⟨value, h⟩, 0) :=
    whole_of_lt Nat.ofDigitChars_ten_toDigits h
  have hdigits : ∀ c ∈ Nat.toDigits 10 value, c.isDigit = true :=
    fun c => Nat.isDigit_of_mem_toDigits (by decide) (by decide)
  rcases Nat.eq_zero_or_pos value with rfl | hpos
  · have htext : Nat.toDigits 10 0 = ['0'] := rfl
    have hnone : (digits []).isEmpty = true := rfl
    rw [htext] at hwhole
    rw [htext, readUnsigned, if_pos rfl, if_pos hnone, readAfterWhole, hwhole]
  · have hzero := head?_toDigits_ne_zero hpos
    cases htext : Nat.toDigits 10 value with
    | nil => exact absurd htext Nat.toDigits_ne_nil
    | cons c tail =>
      rw [htext] at hwhole hdigits hzero
      have hne : c ≠ '0' := fun heq => hzero (congrArg some heq)
      have htail : ∀ d ∈ tail, d.isDigit = true := fun d hd => hdigits d (List.mem_cons_of_mem c hd)
      rw [readUnsigned, if_neg hne, if_pos (hdigits c List.mem_cons_self),
        digits_of_forall htail, afterDigits_of_forall htail, readAfterWhole, hwhole]

/-- The digits of a natural number do not start with a minus sign. -/
theorem read_toDigits (value : Nat) :
    read (Nat.toDigits 10 value) = readUnsigned false (Nat.toDigits 10 value) := by
  unfold read
  split
  · next hsign =>
    have hdigit : '-'.isDigit = true :=
      Nat.isDigit_of_mem_toDigits (by decide) (by decide) (hsign ▸ List.mem_cons_self)
    exact absurd hdigit (by decide)
  · rfl

/-- A whole part of which all digits fit is an integer, unless it is minus
zero. -/
theorem ofWhole?_eq_integer {value : Int} (hfits : ¬ (negative = true ∧ significand.value = 0))
    (hvalue : (if negative then -significand.value else significand.value : Int) = value)
    (inRange : -0x8000000000000000 ≤ value ∧ value ≤ 0xffffffffffffffff) :
    ofWhole? negative significand 0 = some (.integer value inRange) := by
  have hwhole : ¬ (0 ≠ 0 ∨ (negative = true ∧ significand.value = 0)) := by
    rintro (hdropped | hzero)
    · exact hdropped rfl
    · exact hfits hzero
  rw [ofWhole?, if_neg hwhole]
  dsimp only
  rw [hvalue, Number.ofInt?, dif_pos inRange, Option.some_or]

end Json.Numeral

/-! ## Numbers -/

namespace Number

open Json Json.Numeral

/-- The number that is read from the text of a number, or why none is. -/
def reread (number : Number) : Except Cause Number :=
  ((Numeral.read number.text.toList).map Prod.fst).mapError Fault.cause

/-- A number is read from the text of the number, up to the end of the text,
wherever that stands. -/
structure Readable (number : Number) : Prop where
  starts : ∃ c tail, number.text.toList = c :: tail ∧ (c = '-' ∨ c.isDigit = true)
  read_append : ∀ rest, Ends rest → (Numeral.read (number.text.toList ++ rest)).mapError Fault.cause
    = number.reread.map fun again => (again, rest)

/-- The number is read from its own text. -/
def Rereads (number : Number) : Prop :=
  Numeral.read number.text.toList = .ok (number, [])

theorem Rereads.reread {number : Number} (h : number.Rereads) : number.reread = .ok number := by
  rw [Number.reread, h]
  rfl

theorem Rereads.readable {number : Number} (h : number.Rereads) : number.Readable := by
  refine ⟨starts_of_read h, fun rest hrest => ?_⟩
  rw [Numeral.read_append hrest h, h.reread]
  rfl

/-- An integer is read from its numeral. -/
theorem rereads_integer (value : Int)
    (inRange : -0x8000000000000000 ≤ value ∧ value ≤ 0xffffffffffffffff) :
    (Number.integer value inRange).Rereads := by
  show Numeral.read value.repr.toList = _
  cases value with
  | ofNat value =>
    have hlt : value < UInt64.size := natAbs_lt inRange
    have hwhole : ofWhole? false ⟨value, hlt⟩ 0 = some (.integer value inRange) := by
      apply ofWhole?_eq_integer
      · exact fun hzero => Bool.noConfusion hzero.1
      · rfl
    show Numeral.read value.repr.toList = _
    rw [Nat.toList_repr, read_toDigits, readUnsigned_toDigits hlt, hwhole]
    rfl
  | negSucc value =>
    have hlt : value + 1 < UInt64.size := natAbs_lt inRange
    have htext : (Int.negSucc value).repr.toList = '-' :: Nat.toDigits 10 (value + 1) := by
      rw [← Nat.toList_repr]
      show ("-" ++ (value + 1).repr).toList = _
      rw [String.toList_append]
      rfl
    have hwhole : ofWhole? true ⟨value + 1, hlt⟩ 0
        = some (.integer (Int.negSucc value) inRange) := by
      apply ofWhole?_eq_integer
      · exact fun hzero => Nat.succ_ne_zero value hzero.2
      · exact (Int.negSucc_eq value).symm
    rw [htext, Numeral.read, readUnsigned_toDigits hlt, hwhole]
    rfl

end Number

end Dotted
