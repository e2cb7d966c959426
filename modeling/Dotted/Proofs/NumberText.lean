import Dotted.Proofs.Numeral

/-!
# The text of every number is a numeral

A number is not always read from its own text as itself: a binary64 number with
many digits may come back as a neighbour, or be too large for the reader.  What
comes of its text is nevertheless decided by the text alone, wherever it stands,
because the text is a complete numeral: digits, perhaps a point and digits, and
perhaps an exponent with digits.

* `Numeral.IsDigits`, `Numeral.IsExponent` and `Numeral.IsFraction` are this
  form.
* `Numeral.TakesAll` says of one part of the reader that it takes a text as a
  whole, and that what comes of it does not depend on what follows.  There is
  one lemma for each part of the reader.
* `Decimal.exists_form_text` says that decimals are written in this form, and
  `Number.readable` is the result for all numbers.
-/

namespace Dotted

namespace Json.Numeral

variable {text tail rest : List Char}

/-! ## The form of a numeral -/

/-- Digits, at least one of them. -/
structure IsDigits (text : List Char) : Prop where
  nonempty : text ≠ []
  all_digits : ∀ c ∈ text, c.isDigit = true

/-- An exponent with a sign, or nothing. -/
inductive IsExponent : List Char → Prop
  | absent : IsExponent []
  | plus {digits : List Char} (h : IsDigits digits) : IsExponent ('e' :: '+' :: digits)
  | minus {digits : List Char} (h : IsDigits digits) : IsExponent ('e' :: '-' :: digits)

/-- What stands behind the whole part: a fraction or nothing, and an exponent or
nothing. -/
inductive IsFraction : List Char → Prop
  | absent {exponent : List Char} (h : IsExponent exponent) : IsFraction exponent
  | present {digits exponent : List Char} (hdigits : IsDigits digits) (h : IsExponent exponent) :
      IsFraction ('.' :: (digits ++ exponent))

/-- The text does not start with a digit. -/
def NoDigit (text : List Char) : Prop := ∀ c ∈ text.head?, c.isDigit = false

theorem Ends.noDigit (h : Ends rest) : NoDigit rest := fun c hc => (h c hc).1

theorem IsExponent.noDigit_append (h : IsExponent tail) (hrest : NoDigit rest) :
    NoDigit (tail ++ rest) := by
  cases h with
  | absent => exact hrest
  | plus _ =>
    rintro c hc
    rw [← Option.some.inj hc]
    rfl
  | minus _ =>
    rintro c hc
    rw [← Option.some.inj hc]
    rfl

theorem IsFraction.noDigit_append (h : IsFraction tail) (hrest : NoDigit rest) :
    NoDigit (tail ++ rest) := by
  cases h with
  | absent h => exact h.noDigit_append hrest
  | present _ _ =>
    rintro c hc
    rw [← Option.some.inj hc]
    rfl

/-- Digits go up to where there are no more. -/
theorem digits_append_noDigit (htext : ∀ c ∈ text, c.isDigit = true) (hrest : NoDigit rest) :
    digits (text ++ rest) = text := by
  have hnone : digits rest = [] := by
    cases rest with
    | nil => rfl
    | cons c rest =>
      exact List.takeWhile_cons_of_neg (by rw [hrest c rfl]; exact Bool.false_ne_true)
  rw [digits, List.takeWhile_append_of_pos htext]
  exact (congrArg (text ++ ·) hnone).trans (List.append_nil text)

theorem afterDigits_append_noDigit (htext : ∀ c ∈ text, c.isDigit = true) (hrest : NoDigit rest) :
    afterDigits (text ++ rest) = rest := by
  rw [afterDigits, List.dropWhile_append_of_pos htext]
  cases rest with
  | nil => rfl
  | cons c rest => exact List.dropWhile_cons_of_neg (by rw [hrest c rfl]; exact Bool.false_ne_true)

theorem IsDigits.isEmpty_digits_append (h : IsDigits text) (hrest : NoDigit rest) :
    (digits (text ++ rest)).isEmpty = false := by
  rw [digits_append_noDigit h.all_digits hrest]
  exact List.isEmpty_eq_false_iff.2 h.nonempty

/-! ## Reading a numeral to its end -/

/-- The reader takes the text as a whole, and what comes of it does not depend on
what follows. -/
def TakesAll (reader : List Char → Except Fault (Number × List Char)) (text : List Char) : Prop :=
  ∃ result : Except Cause Number, ∀ rest, Ends rest →
    (reader (text ++ rest)).mapError Fault.cause = result.map fun number => (number, rest)

/-- A reader takes a text if it goes on with another reader that takes the rest
of it. -/
theorem TakesAll.before {reader other : List Char → Except Fault (Number × List Char)}
    (h : TakesAll other tail)
    (hgoes : ∀ rest, Ends rest → reader (text ++ rest) = other (tail ++ rest)) :
    TakesAll reader text := by
  obtain ⟨result, hresult⟩ := h
  exact ⟨result, fun rest hrest => (congrArg _ (hgoes rest hrest)).trans (hresult rest hrest)⟩

theorem takesAll_finish (finite? : Option Number) : TakesAll (finish finite?) [] := by
  cases finite? with
  | none => exact ⟨.error .numberOutOfRange, fun _ _ => rfl⟩
  | some value => exact ⟨.ok value, fun _ _ => rfl⟩

section Parts

variable (negative : Bool) (significand : Significand) (exponent : Int)

theorem readExponentDigits_of_value (down : Bool) {value : Nat} (h : IsDigits text)
    (hrest : NoDigit rest) (hvalue : exponentValue 0 text = .ok value) :
    readExponentDigits negative significand exponent down (text ++ rest) =
      finish (float? negative significand (if down then exponent - value else exponent + value))
        rest := by
  unfold readExponentDigits
  rw [h.isEmpty_digits_append hrest, digits_append_noDigit h.all_digits hrest,
    afterDigits_append_noDigit h.all_digits hrest, if_neg Bool.false_ne_true, hvalue]

/-- An exponent that is not even counted: the number is too large, or zero. -/
theorem readExponentDigits_of_uncounted (down : Bool) {further : List Char} (h : IsDigits text)
    (hrest : NoDigit rest) (hvalue : exponentValue 0 text = .error further) :
    readExponentDigits negative significand exponent down (text ++ rest) =
      if significand.value ≠ 0 ∧ down = false then
        .error (.behind .numberOutOfRange (further ++ rest))
      else .ok (.float (Binary64.zero negative), rest) := by
  unfold readExponentDigits
  rw [h.isEmpty_digits_append hrest, digits_append_noDigit h.all_digits hrest,
    afterDigits_append_noDigit h.all_digits hrest, if_neg Bool.false_ne_true, hvalue]

theorem takesAll_readExponentDigits (down : Bool) (h : IsDigits text) :
    TakesAll (readExponentDigits negative significand exponent down) text := by
  cases hvalue : exponentValue 0 text with
  | ok value =>
    refine (takesAll_finish (float? negative significand
      (if down then exponent - value else exponent + value))).before fun rest hrest => ?_
    exact readExponentDigits_of_value negative significand exponent down h hrest.noDigit hvalue
  | error further =>
    have hread (rest : List Char) (hrest : Ends rest) :=
      readExponentDigits_of_uncounted negative significand exponent down h hrest.noDigit hvalue
    by_cases hlarge : significand.value ≠ 0 ∧ down = false
    · refine ⟨.error .numberOutOfRange, fun rest hrest => ?_⟩
      rw [hread rest hrest, if_pos hlarge]
      rfl
    · refine ⟨.ok (.float (Binary64.zero negative)), fun rest hrest => ?_⟩
      rw [hread rest hrest, if_neg hlarge]
      rfl

/-- An exponent is read by its digits; without one the number is complete. -/
theorem takesAll_readAfterFraction (h : IsExponent text) :
    TakesAll (readAfterFraction negative significand exponent) text := by
  cases h with
  | absent =>
    refine (takesAll_finish (float? negative significand exponent)).before fun rest hrest => ?_
    cases rest with
    | nil => rfl
    | cons c rest =>
      rw [List.nil_append, readAfterFraction, (hrest c rfl).2.2]
      rfl
  | plus h => exact (takesAll_readExponentDigits _ _ _ false h).before fun _ _ => rfl
  | minus h => exact (takesAll_readExponentDigits _ _ _ true h).before fun _ _ => rfl

theorem takesAll_readFraction (h : IsDigits text) (htail : IsExponent tail) :
    TakesAll (readFraction negative significand exponent) (text ++ tail) := by
  rcases hfraction : significand.fraction text with ⟨longer, count⟩
  refine (takesAll_readAfterFraction negative longer (exponent - count) htail).before
    fun rest hrest => ?_
  have hnone := htail.noDigit_append hrest.noDigit
  unfold readFraction
  rw [List.append_assoc, h.isEmpty_digits_append hnone, if_neg Bool.false_ne_true,
    digits_append_noDigit h.all_digits hnone, afterDigits_append_noDigit h.all_digits hnone,
    hfraction]

theorem takesAll_readAfterWhole (whole : List Char) (h : IsFraction text) :
    TakesAll (readAfterWhole negative whole) text := by
  cases h with
  | absent h =>
    cases h with
    | absent =>
      rcases hwhole : Significand.zero.whole whole with ⟨significand, dropped⟩
      refine (takesAll_finish (ofWhole? negative significand dropped)).before fun rest hrest => ?_
      unfold readAfterWhole
      rw [hwhole]
      cases rest with
      | nil => rfl
      | cons c rest =>
        obtain ⟨-, hpoint, hmark⟩ := hrest c rfl
        dsimp only [List.nil_append]
        rw [if_neg hpoint, hmark]
        rfl
    | plus h => exact (takesAll_readExponentDigits _ _ _ false h).before fun _ _ => rfl
    | minus h => exact (takesAll_readExponentDigits _ _ _ true h).before fun _ _ => rfl
  | present hdigits h => exact (takesAll_readFraction _ _ _ hdigits h).before fun _ _ => rfl

/-- A whole part is taken with all its digits, unless it has a superfluous zero
at its start. -/
theorem takesAll_readUnsigned (h : IsDigits text) (htail : IsFraction tail) :
    TakesAll (readUnsigned negative) (text ++ tail) := by
  obtain ⟨hne, hall⟩ := h
  cases text with
  | nil => exact absurd rfl hne
  | cons c text =>
    have hdigits : ∀ d ∈ text, d.isDigit = true := fun d hd => hall d (List.mem_cons_of_mem c hd)
    have hread : ∀ rest, Ends rest → readUnsigned negative (c :: text ++ tail ++ rest) =
        if c = '0' then
          if text.isEmpty = true then readAfterWhole negative ['0'] (text ++ (tail ++ rest))
          else .error (.next .invalidNumber (text ++ (tail ++ rest)))
        else readAfterWhole negative (c :: text) (tail ++ rest) := by
      intro rest hrest
      have hnone := htail.noDigit_append hrest.noDigit
      rw [List.append_assoc, List.cons_append, readUnsigned, digits_append_noDigit hdigits hnone,
        afterDigits_append_noDigit hdigits hnone, if_pos (hall c List.mem_cons_self)]
    by_cases hzero : c = '0'
    · cases text with
      | nil =>
        refine (takesAll_readAfterWhole negative ['0'] htail).before fun rest hrest => ?_
        rw [hread rest hrest, if_pos hzero]
        rfl
      | cons d text =>
        refine ⟨.error .invalidNumber, fun rest hrest => ?_⟩
        rw [hread rest hrest, if_pos hzero]
        rfl
    · refine (takesAll_readAfterWhole negative (c :: text) htail).before fun rest hrest => ?_
      rw [hread rest hrest, if_neg hzero]

end Parts

theorem takesAll_read (h : IsDigits text) (htail : IsFraction tail) :
    TakesAll read (text ++ tail) := by
  refine (takesAll_readUnsigned false h htail).before fun rest _ => ?_
  obtain ⟨hne, hall⟩ := h
  cases text with
  | nil => exact absurd rfl hne
  | cons c text =>
    have hdigit := hall c List.mem_cons_self
    unfold read
    split
    · next hsign =>
      rw [List.cons_append, List.cons_append] at hsign
      rw [(List.cons.inj hsign).1] at hdigit
      exact absurd hdigit (by decide)
    · rfl

theorem takesAll_read_minus (h : IsDigits text) (htail : IsFraction tail) :
    TakesAll read ('-' :: (text ++ tail)) :=
  (takesAll_readUnsigned true h htail).before fun _ _ => rfl

/-! ## Digits in part -/

theorem IsDigits.append (h : IsDigits text) (hrest : ∀ c ∈ rest, c.isDigit = true) :
    IsDigits (text ++ rest) where
  nonempty := List.append_ne_nil_of_left_ne_nil h.nonempty rest
  all_digits c hc := (List.mem_append.1 hc).elim (h.all_digits c) (hrest c)

theorem IsDigits.prepend (h : IsDigits rest) (htext : ∀ c ∈ text, c.isDigit = true) :
    IsDigits (text ++ rest) where
  nonempty := List.append_ne_nil_of_right_ne_nil text h.nonempty
  all_digits c hc := (List.mem_append.1 hc).elim (htext c) (h.all_digits c)

theorem IsDigits.take {count : Nat} (h : IsDigits text) (hcount : 0 < count) :
    IsDigits (text.take count) where
  nonempty htake := (List.take_eq_nil_iff.1 htake).elim (Nat.ne_of_gt hcount) h.nonempty
  all_digits c hc := h.all_digits c (List.mem_of_mem_take hc)

theorem IsDigits.drop {count : Nat} (h : IsDigits text) (hcount : count < text.length) :
    IsDigits (text.drop count) where
  nonempty hdrop := Nat.not_le.2 hcount (List.drop_eq_nil_iff.1 hdrop)
  all_digits c hc := h.all_digits c (List.mem_of_mem_drop hc)

theorem isDigits_toDigits (value : Nat) : IsDigits (Nat.toDigits 10 value) where
  nonempty := Nat.toDigits_ne_nil
  all_digits _ := Nat.isDigit_of_mem_toDigits (by decide) (by decide)

theorem isDigits_zero : IsDigits ['0'] := isDigits_toDigits 0

theorem isDigit_of_mem_zeros {count : Nat} : ∀ c ∈ List.replicate count '0', c.isDigit = true := by
  intro c hc
  rw [List.eq_of_mem_replicate hc]
  rfl

/-- A fraction with nothing behind it. -/
theorem isFraction_point (h : IsDigits text) : IsFraction ('.' :: text) := by
  have hfraction := IsFraction.present h .absent
  rwa [List.append_nil] at hfraction

end Json.Numeral

open Json Json.Numeral

/-! ## How numbers are written -/

/-- The text of a decimal is a whole part, perhaps a fraction, and perhaps an
exponent. -/
theorem Decimal.exists_form_text (decimal : Decimal) : ∃ whole tail,
    decimal.text.toList = whole ++ tail ∧ IsDigits whole ∧ IsFraction tail := by
  have hdigits := isDigits_toDigits decimal.digits
  unfold text
  rw [String.toList_ofList]
  dsimp only
  generalize Nat.toDigits 10 decimal.digits = digits at hdigits
  have hlength : 0 < digits.length := List.length_pos_iff.2 hdigits.nonempty
  generalize hleading : decimal.exponent + digits.length - 1 = leading
  split
  · split
    · exact ⟨['0'], _, rfl, isDigits_zero, isFraction_point (hdigits.prepend isDigit_of_mem_zeros)⟩
    · split
      · exact ⟨_, _, rfl, hdigits.append isDigit_of_mem_zeros, isFraction_point isDigits_zero⟩
      · next hsmall hlarge =>
        have hcut : leading.toNat + 1 < digits.length := by omega
        exact ⟨_, _, rfl, hdigits.take (Nat.succ_pos _), isFraction_point (hdigits.drop hcut)⟩
  · have hexponent : IsExponent
        ('e' :: (if leading < 0 then '-' else '+') :: Nat.toDigits 10 leading.natAbs) := by
      split
      · exact .minus (isDigits_toDigits _)
      · exact .plus (isDigits_toDigits _)
    refine ⟨_, _, List.append_assoc _ _ _, hdigits.take Nat.one_pos, ?_⟩
    split
    · exact .absent hexponent
    · next hmore =>
      have hfraction : digits.drop 1 ≠ [] := fun hnil => hmore (List.isEmpty_iff.2 hnil)
      have hcut : 1 < digits.length :=
        Nat.not_le.1 fun hle => hfraction (List.drop_eq_nil_iff.2 hle)
      exact .present (hdigits.drop hcut) hexponent

/-- A number without its sign is written in the form of a numeral. -/
theorem Binary64.exists_form_text (x : Binary64) : ∃ whole tail,
    x.text.toList = (if x.negative then ['-'] else []) ++ (whole ++ tail) ∧ IsDigits whole ∧
      IsFraction tail := by
  have hmagnitude : ∃ whole tail,
      (if x.isZero then "0.0" else (shortest x.rank).text).toList = whole ++ tail ∧
        IsDigits whole ∧ IsFraction tail := by
    split
    · exact ⟨['0'], ['.', '0'], rfl, isDigits_zero, isFraction_point isDigits_zero⟩
    · exact (shortest x.rank).exists_form_text
  obtain ⟨whole, tail, htext, hform⟩ := hmagnitude
  refine ⟨whole, tail, ?_, hform⟩
  unfold text
  dsimp only
  split
  · rw [String.toList_append, htext]
    rfl
  · exact htext

namespace Number

/-- A text that the reader takes as a whole can stand anywhere. -/
theorem readable_of_takesAll {number : Number} (h : TakesAll Numeral.read number.text.toList)
    (hstarts : ∃ c tail, number.text.toList = c :: tail ∧ (c = '-' ∨ c.isDigit = true)) :
    number.Readable := by
  obtain ⟨result, hresult⟩ := h
  have hends : Ends [] := fun _ hc => absurd hc (Option.not_mem_none _)
  have hagain : number.reread = result := by
    have hself := hresult [] hends
    rw [List.append_nil] at hself
    rw [Number.reread]
    cases hread : Numeral.read number.text.toList with
    | error fault =>
      rw [hread] at hself
      cases result with
      | error cause => exact congrArg Except.error (Except.error.inj hself)
      | ok again => cases hself
    | ok found =>
      rw [hread] at hself
      cases result with
      | error cause => cases hself
      | ok again => exact congrArg Except.ok (Prod.mk.inj (Except.ok.inj hself)).1
  exact ⟨hstarts, fun rest hrest => by rw [hresult rest hrest, hagain]⟩

/-- What comes of the text of a number does not depend on where the text
stands. -/
theorem readable (number : Number) : number.Readable := by
  cases number with
  | integer value inRange => exact (rereads_integer value inRange).readable
  | float x =>
    obtain ⟨whole, tail, htext, hwhole, htail⟩ := x.exists_form_text
    change (Number.float x).text.toList = _ at htext
    cases hnegative : x.negative with
    | true =>
      have hminus : (Number.float x).text.toList = '-' :: (whole ++ tail) := by
        rw [htext, hnegative]
        rfl
      refine readable_of_takesAll ?_ ⟨_, _, hminus, Or.inl rfl⟩
      rw [hminus]
      exact takesAll_read_minus hwhole htail
    | false =>
      have hplain : (Number.float x).text.toList = whole ++ tail := by
        rw [htext, hnegative]
        rfl
      obtain ⟨c, others, rfl⟩ := List.exists_cons_of_ne_nil hwhole.nonempty
      have hfirst : c.isDigit = true := hwhole.all_digits c List.mem_cons_self
      refine readable_of_takesAll ?_ ⟨_, _, hplain, Or.inr hfirst⟩
      rw [hplain]
      exact takesAll_read hwhole htail

end Number

end Dotted
