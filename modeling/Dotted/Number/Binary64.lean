/-!
# Finite binary64 numbers

The finite binary64 numbers, with a sign on zero too, and their arithmetic in exact natural
numbers. The magnitudes are numbered from zero upwards; a number is a sign and the rank of its
magnitude, so that every value of the type is finite and the neighbours of a magnitude have the
neighbouring ranks.

* `Binary64.units` is the magnitude of a rank as a multiple of the least positive one. The ranks run
  from zero to `0x7fefffffffffffff`, and `0x10000000000000` ranks in a row have the same spacing.
* `Binary64.nearestRank` rounds a fraction to the nearest magnitude, a tie going to the even rank.
* `Binary64.ofNat`, `Binary64.mul?` and `Binary64.div?` round once each; the last two have no result
  when it would not be finite.
* `Binary64.ofDecimal?` evaluates a decimal significand and exponent.
-/

namespace Dotted

/-- A finite binary64 number. -/
structure Binary64 where
  /-- Whether the number carries a minus sign; zero may. -/
  negative : Bool
  /-- The position of the magnitude among all finite magnitudes, which start with zero. -/
  rank : Fin 0x7ff0000000000000
deriving DecidableEq

/-- A quotient rounded to the nearest natural number, a tie going to the even one. -/
def roundHalfEven (numerator denominator : Nat) : Nat :=
  let quotient := numerator / denominator
  let twice := 2 * (numerator % denominator)
  if twice < denominator ∨ (twice = denominator ∧ quotient % 2 = 0) then quotient
  else quotient + 1

theorem roundHalfEven_le (numerator denominator : Nat) :
    roundHalfEven numerator denominator ≤ numerator / denominator + 1 := by
  unfold roundHalfEven
  dsimp only
  split <;> omega

namespace Binary64

/-- The least positive magnitude is two to the minus this power. -/
def unitExponent : Nat := 1074

/-- How often the least positive magnitude fits into one. -/
def unitsPerOne : Nat := 1 <<< unitExponent

/-- A power of ten. -/
def powerOfTen (exponent : Nat) : Nat := Nat.pow 10 exponent

/-- The magnitude of a rank, as a multiple of the least positive magnitude. The first
`0x20000000000000` ranks are evenly spaced, and from then on the spacing doubles every
`0x10000000000000` ranks. -/
def units (rank : Nat) : Nat :=
  if rank < 0x10000000000000 then rank
  else (0x10000000000000 + rank % 0x10000000000000) <<< (rank / 0x10000000000000 - 1)

/-- The rank nearest to a multiple of the least positive magnitude, where the ranks go on without
end: the fraction is cut to a significand of 53 bits, and the significand is rounded. -/
def rankOfUnits (numerator denominator : Nat) : Nat :=
  let shift := (numerator / denominator).log2 - 52
  shift * 0x10000000000000 + roundHalfEven numerator (denominator <<< shift)

/-- The rank nearest to a fraction, where the ranks go on without end. -/
def nearestRank (numerator denominator : Nat) : Nat :=
  rankOfUnits (numerator * unitsPerOne) denominator

/-- The number of the given sign whose magnitude is nearest to a fraction, if it is finite. -/
def ofRatio? (negative : Bool) (numerator denominator : Nat) : Option Binary64 :=
  let rank := nearestRank numerator denominator
  if h : rank < 0x7ff0000000000000 then some ⟨negative, ⟨rank, h⟩⟩ else none

/-- What is below `1 <<< (52 + k)` units has a rank of at most `k + 1` times `0x10000000000000`. -/
theorem rankOfUnits_le {n k : Nat} (h : n < 1 <<< (52 + k)) :
    rankOfUnits n 1 ≤ (k + 1) * 0x10000000000000 := by
  rw [Nat.one_shiftLeft] at h
  simp only [rankOfUnits, Nat.div_one, Nat.one_shiftLeft]
  have hround := roundHalfEven_le n (2 ^ (n.log2 - 52))
  by_cases hsmall : n < 2 ^ 52
  · have hlog : n.log2 - 52 = 0 := by
      by_cases hzero : n = 0
      · simp [hzero]
      · have := (Nat.log2_lt hzero).2 hsmall
        omega
    rw [hlog, Nat.pow_zero] at hround ⊢
    rw [Nat.div_one] at hround
    omega
  · have hzero : n ≠ 0 := by
      intro hn
      rw [hn] at hsmall
      exact hsmall (Nat.two_pow_pos 52)
    have hlog : n.log2 < 52 + k := (Nat.log2_lt hzero).2 h
    have hlarge : 52 ≤ n.log2 := (Nat.le_log2 hzero).2 (Nat.le_of_not_lt hsmall)
    have hself : n < 2 ^ (n.log2 + 1) := Nat.lt_log2_self
    have hquotient : n / 2 ^ (n.log2 - 52) < 2 ^ 53 := by
      rw [Nat.div_lt_iff_lt_mul (Nat.two_pow_pos _), ← Nat.pow_add]
      exact Nat.lt_of_lt_of_le hself (Nat.pow_le_pow_right (by decide) (by omega))
    omega

/-- A word of 64 bits has at most `64 + k` bits after multiplication by `1 <<< k`. -/
theorem mul_shiftLeft_lt {n : Nat} (h : n < UInt64.size) (k : Nat) :
    n * 1 <<< k < 1 <<< (52 + (12 + k)) := by
  rw [Nat.one_shiftLeft, Nat.one_shiftLeft, ← Nat.add_assoc, Nat.pow_add]
  exact Nat.mul_lt_mul_of_pos_right h (Nat.two_pow_pos k)

/-- A word of 64 bits rounds to a finite magnitude. -/
theorem nearestRank_lt {n : Nat} (h : n < UInt64.size) :
    nearestRank n 1 < 0x7ff0000000000000 := by
  have hrank := rankOfUnits_le (mul_shiftLeft_lt h unitExponent)
  have hexponent : unitExponent = 1074 := rfl
  rw [nearestRank, unitsPerOne]
  omega

/-- The number nearest to a word of 64 bits. -/
def ofNat (negative : Bool) (n : Nat) (h : n < UInt64.size) : Binary64 :=
  ⟨negative, ⟨nearestRank n 1, nearestRank_lt h⟩⟩

/-- Whether the magnitude is zero. -/
def isZero (x : Binary64) : Bool := x.rank.val == 0

/-- The zero of the given sign. -/
def zero (negative : Bool) : Binary64 := ⟨negative, ⟨0, by decide⟩⟩

/-- The number of the same magnitude with the given sign. -/
def withSign (negative : Bool) (x : Binary64) : Binary64 := { x with negative }

/-- The product, if it is finite. -/
def mul? (x y : Binary64) : Option Binary64 :=
  ofRatio? (x.negative ^^ y.negative) (units x.rank * units y.rank) (unitsPerOne * unitsPerOne)

/-- The quotient by a number other than zero, if it is finite. -/
def div? (x y : Binary64) : Option Binary64 :=
  ofRatio? (x.negative ^^ y.negative) (units x.rank) (units y.rank)

/-- The greatest power of ten that is finite. -/
def maxPowerOfTen : Nat := 308

/-- The number nearest to a power of ten, up to the greatest finite one. -/
def powerOfTen? (exponent : Nat) : Option Binary64 :=
  ofRatio? false (powerOfTen exponent) 1

/-- A number divided by a power of ten. Powers beyond the greatest finite one are taken in several
steps, until nothing is left of the number. -/
def scaleDown? (x : Binary64) (exponent : Nat) : Option Binary64 :=
  if _h : exponent ≤ maxPowerOfTen then do x.div? (← powerOfTen? exponent)
  else if x.isZero then some x
  else do
    let quotient ← x.div? (← powerOfTen? maxPowerOfTen)
    scaleDown? quotient (exponent - maxPowerOfTen)
termination_by exponent
decreasing_by
  have : maxPowerOfTen = 308 := rfl
  omega

/-- A number multiplied by a power of ten, if the product is finite. -/
def scaleUp? (x : Binary64) (exponent : Nat) : Option Binary64 :=
  if exponent ≤ maxPowerOfTen then do x.mul? (← powerOfTen? exponent)
  else if x.isZero then some x
  else none

/-- The value of a decimal significand and exponent, if it is finite. The significand, the power of
ten and their product or quotient are each rounded to the nearest number. -/
def ofDecimal? (significand : Nat) (h : significand < UInt64.size) (exponent : Int) :
    Option Binary64 :=
  let x := ofNat false significand h
  if 0 ≤ exponent then x.scaleUp? exponent.toNat else x.scaleDown? (-exponent).toNat

end Binary64

end Dotted
