import Kashida.Number.FixedPoint

/-! Rounding to binary64 keeps the order. The nearest rank is at least that of every number below the exact result and
at most that of every number above it, which says where a rounded quotient lies without its digits. -/
namespace Kashida

theorem le_nearestEven (positive : 0 < den) (bound : whole * den ≤ num) : whole ≤ nearestEven num den := by
  have quotient : whole ≤ num / den := (Nat.le_div_iff_mul_le positive).mpr bound
  unfold nearestEven
  dsimp only
  split
  · exact quotient
  · split <;> omega

theorem nearestEven_le (positive : 0 < den) (bound : num ≤ whole * den) : nearestEven num den ≤ whole := by
  have split := Nat.div_add_mod num den
  have quotient : num / den ≤ whole := Nat.div_le_of_le_mul (by rwa [Nat.mul_comm] at bound)
  rcases Nat.eq_or_lt_of_le quotient with same | less
  · -- Nothing is left over, so nothing is rounded up.
    have noRest : num % den = 0 := by
      rw [same, Nat.mul_comm] at split
      omega
    unfold nearestEven
    rw [noRest, if_pos (by omega)]
    exact quotient
  · unfold nearestEven
    dsimp only
    split
    · exact quotient
    · split <;> omega

theorem nearestAway_eq_zero_iff (positive : 0 < den) : nearestAway num den = 0 ↔ 2 * num.natAbs < den := by
  unfold nearestAway
  rw [Int.mul_eq_zero, Int.sign_eq_zero_iff_zero]
  have none : ((2 * num.natAbs + den) / (2 * den) : Nat) = 0 ↔ 2 * num.natAbs < den := by
    rw [Nat.div_eq_zero_iff]
    omega
  omega

theorem nearestAway_nonneg (nonneg : 0 ≤ num) : 0 ≤ nearestAway num den :=
  Int.mul_nonneg (Int.sign_nonneg_iff.mpr nonneg) (Int.natCast_nonneg _)

theorem nearestAway_nonpos (nonpos : num ≤ 0) : nearestAway num den ≤ 0 :=
  Int.mul_nonpos_of_nonpos_of_nonneg (Int.sign_nonpos_iff.mpr nonpos) (Int.natCast_nonneg _)

theorem natAbs_nearestAway (positive : 0 < den) :
    (nearestAway num den).natAbs = (2 * num.natAbs + den) / (2 * den) := by
  unfold nearestAway
  rw [Int.natAbs_mul, Int.natAbs_natCast, Int.natAbs_sign]
  split
  · rename_i none
    rw [none, Nat.zero_mul, Int.natAbs_zero, Nat.mul_zero, Nat.zero_add, Nat.div_eq_of_lt (by omega)]
  · rw [Nat.one_mul]

/-- The multiple of a fraction that is at most one is rounded to no more than the factor. -/
theorem natAbs_nearestAway_mul_le (positive : 0 < den) (fraction : num.natAbs ≤ den) (factor : Nat) :
    (nearestAway (num * factor) den).natAbs ≤ factor := by
  have bound := Nat.mul_le_mul_right factor fraction
  rw [natAbs_nearestAway positive, Int.natAbs_mul, Int.natAbs_natCast]
  have next : (factor + 1) * (2 * den) = 2 * (den * factor) + 2 * den := by
    rw [Nat.succ_mul, Nat.mul_left_comm, Nat.mul_comm factor den]
  apply Nat.le_of_lt_succ
  rw [Nat.div_lt_iff_lt_mul (by omega), Nat.succ_eq_add_one, next]
  omega

namespace Binary64

/-- A rank is a multiple of 2^52 for the exponent and a significand of at most 53 bits, which is only short if the
exponent is the least one. -/
structure Significand (rank exponent digits : Nat) : Prop where
  split : rank = exponent * Nat.pow 2 52 + digits
  short : digits < Nat.pow 2 53
  long : exponent = 0 ∨ Nat.pow 2 52 ≤ digits

theorem exists_significand (rank : Nat) : ∃ exponent digits, Significand rank exponent digits := by
  refine ⟨rank / Nat.pow 2 52 - 1, rank - (rank / Nat.pow 2 52 - 1) * Nat.pow 2 52, ?_, ?_, ?_⟩ <;>
    simp only [Nat.pow_eq] <;> omega

/-- The carry out of a significand is the least significand of the next exponent. -/
theorem unitsAt_eq (carried : digits ≤ Nat.pow 2 53) (long : exponent = 0 ∨ Nat.pow 2 52 ≤ digits) :
    unitsAt (exponent * Nat.pow 2 52 + digits) = digits * Nat.pow 2 exponent := by
  simp only [Nat.pow_eq] at carried long ⊢
  unfold unitsAt
  simp only [Nat.pow_eq]
  split
  · have least : exponent = 0 := by omega
    rw [least]
    omega
  · rcases Nat.eq_or_lt_of_le carried with carry | short
    · have next : (exponent * 2 ^ 52 + digits) / 2 ^ 52 - 1 = exponent + 1 := by omega
      have rest : (exponent * 2 ^ 52 + digits) % 2 ^ 52 = 0 := by omega
      rw [next, rest, carry, Nat.pow_succ]
      omega
    · have same : (exponent * 2 ^ 52 + digits) / 2 ^ 52 - 1 = exponent := by omega
      have rest : 2 ^ 52 + (exponent * 2 ^ 52 + digits) % 2 ^ 52 = digits := by omega
      rw [same, rest]

theorem Significand.unitsAt {rank exponent digits : Nat} (significand : Significand rank exponent digits) :
    unitsAt rank = digits * Nat.pow 2 exponent := by
  rw [significand.split]
  exact unitsAt_eq (Nat.le_of_lt significand.short) significand.long

end Binary64

namespace Rounded

open Binary64

/-- How a fraction is rounded: its quotient has 53 bits more than are shifted out, or fewer if there is no shift. -/
structure Rounding (num den shift digits : Nat) : Prop where
  rank : nearestRank num den = shift * Nat.pow 2 52 + digits
  nearest : digits = nearestEven num (den * Nat.pow 2 shift)
  below : num < den * Nat.pow 2 (53 + shift)
  above : shift = 0 ∨ den * Nat.pow 2 (52 + shift) ≤ num

theorem exists_rounding (num : Nat) (positive : 0 < den) : ∃ shift digits, Rounding num den shift digits := by
  refine ⟨_, _, rfl, rfl, ?_, ?_⟩ <;> simp only [Nat.pow_eq]
  · rw [Nat.mul_comm, ← Nat.div_lt_iff_lt_mul positive]
    apply Nat.lt_of_lt_of_le Nat.lt_log2_self
    exact Nat.pow_le_pow_right (by decide) (by omega)
  · by_cases shifted : (num / den).log2 ≤ 52
    · exact .inl (by omega)
    · right
      have nonzero : num / den ≠ 0 := by
        intro zero
        rw [zero, Nat.log2_zero] at shifted
        exact shifted (Nat.zero_le 52)
      rw [Nat.mul_comm, ← Nat.le_div_iff_mul_le positive, Nat.add_sub_cancel' (Nat.le_of_not_ge shifted)]
      exact Nat.log2_self_le nonzero

namespace Rounding

variable {num den shift digits : Nat}

theorem carried (rounding : Rounding num den shift digits) (positive : 0 < den) : digits ≤ Nat.pow 2 53 := by
  have below := rounding.below
  rw [rounding.nearest]
  apply nearestEven_le (Nat.mul_pos positive (Nat.two_pow_pos shift))
  simp only [Nat.pow_eq] at below ⊢
  rw [Nat.mul_left_comm, ← Nat.pow_add]
  exact Nat.le_of_lt below

theorem long (rounding : Rounding num den shift digits) (positive : 0 < den) :
    shift = 0 ∨ Nat.pow 2 52 ≤ digits := by
  apply rounding.above.imp_right
  intro above
  rw [rounding.nearest]
  apply le_nearestEven (Nat.mul_pos positive (Nat.two_pow_pos shift))
  simp only [Nat.pow_eq] at above ⊢
  rwa [Nat.mul_left_comm, ← Nat.pow_add]

end Rounding

/-- A number up to the exact result is at or below the rounded one. -/
theorem le_nearestRank {rank : Nat} (positive : 0 < den) (bound : den * unitsAt rank ≤ num) :
    rank ≤ nearestRank num den := by
  obtain ⟨exponent, significant, significand⟩ := exists_significand rank
  obtain ⟨shift, digits, rounding⟩ := exists_rounding num positive
  have short := significand.short
  rw [significand.unitsAt] at bound
  rw [rounding.rank, significand.split]
  rcases Nat.lt_trichotomy exponent shift with less | same | greater
  · have long := rounding.long positive
    simp only [Nat.pow_eq] at short long ⊢
    omega
  · subst same
    apply Nat.add_le_add_left
    rw [rounding.nearest]
    apply le_nearestEven (Nat.mul_pos positive (Nat.two_pow_pos exponent))
    rwa [Nat.mul_left_comm]
  · -- The number would be too large for the quotient.
    have large : Nat.pow 2 (53 + shift) ≤ significant * Nat.pow 2 exponent := by
      have long := significand.long.resolve_left (Nat.ne_of_gt (Nat.zero_lt_of_lt greater))
      calc Nat.pow 2 (53 + shift)
        _ ≤ Nat.pow 2 (52 + exponent) := Nat.pow_le_pow_right (by decide) (by omega)
        _ = Nat.pow 2 52 * Nat.pow 2 exponent := Nat.pow_add 2 52 exponent
        _ ≤ significant * Nat.pow 2 exponent := Nat.mul_le_mul_right _ long
    have below := Nat.lt_of_lt_of_le rounding.below (Nat.mul_le_mul_left den large)
    omega

/-- A number from the exact result on is at or above the rounded one. -/
theorem nearestRank_le {rank : Nat} (positive : 0 < den) (bound : num ≤ den * unitsAt rank) :
    nearestRank num den ≤ rank := by
  obtain ⟨exponent, significant, significand⟩ := exists_significand rank
  obtain ⟨shift, digits, rounding⟩ := exists_rounding num positive
  rw [significand.unitsAt] at bound
  rw [rounding.rank, significand.split]
  rcases Nat.lt_trichotomy exponent shift with less | same | greater
  · -- The number would be too small for the quotient.
    have small : significant * Nat.pow 2 exponent < Nat.pow 2 (52 + shift) := by
      calc significant * Nat.pow 2 exponent
        _ < Nat.pow 2 53 * Nat.pow 2 exponent :=
            Nat.mul_lt_mul_of_pos_right significand.short (Nat.two_pow_pos exponent)
        _ = Nat.pow 2 (53 + exponent) := (Nat.pow_add 2 53 exponent).symm
        _ ≤ Nat.pow 2 (52 + shift) := Nat.pow_le_pow_right (by decide) (by omega)
    have above := rounding.above.resolve_left (Nat.ne_of_gt (Nat.zero_lt_of_lt less))
    have below := Nat.mul_lt_mul_of_pos_left small positive
    omega
  · subst same
    apply Nat.add_le_add_left
    rw [rounding.nearest]
    apply nearestEven_le (Nat.mul_pos positive (Nat.two_pow_pos exponent))
    rwa [Nat.mul_left_comm]
  · have long := significand.long
    have carried := rounding.carried positive
    simp only [Nat.pow_eq] at long carried ⊢
    omega

end Rounded

namespace Binary64

/-- Magnitudes stand in the order of their ranks. -/
theorem unitsAt_le_iff {rank other : Nat} : unitsAt rank ≤ unitsAt other ↔ rank ≤ other := by
  have back : ∀ rank, Rounded.nearestRank (unitsAt rank) 1 ≤ rank := fun rank =>
    Rounded.nearestRank_le Nat.one_pos (Nat.le_of_eq (Nat.one_mul (unitsAt rank)).symm)
  have ordered : ∀ {rank other : Nat}, unitsAt rank ≤ unitsAt other → rank ≤ other := by
    intro rank other below
    refine Nat.le_trans (Rounded.le_nearestRank Nat.one_pos ?_) (back other)
    exact Nat.le_trans (Nat.le_of_eq (Nat.one_mul (unitsAt rank))) below
  constructor
  · exact ordered
  · intro below
    rcases Nat.le_total (unitsAt rank) (unitsAt other) with here | there
    · exact here
    · exact Nat.le_of_eq (congrArg unitsAt (Nat.le_antisymm below (ordered there)))

theorem scaled_gap {digits other : Nat} (short : digits < Nat.pow 2 53) (less : digits < other) :
    digits * Nat.pow 2 53 ≤ other * (Nat.pow 2 53 - 1) := by
  have next := Nat.mul_le_mul_right (Nat.pow 2 53 - 1) (Nat.succ_le_of_lt less)
  rw [Nat.succ_mul] at next
  have whole : Nat.pow 2 53 = 9007199254740992 := rfl
  have lower : Nat.pow 2 53 - 1 = 9007199254740991 := rfl
  rw [whole] at short ⊢
  rw [lower] at next ⊢
  omega

/-- Significands of 53 bits with any two exponents differ by more than the last bit of the larger one. -/
theorem significand_gap (short : digits < Nat.pow 2 53) (otherShort : others < Nat.pow 2 53)
    (less : digits * Nat.pow 2 exponent < others * Nat.pow 2 other) :
    digits * Nat.pow 2 exponent * Nat.pow 2 53 ≤ others * Nat.pow 2 other * (Nat.pow 2 53 - 1) := by
  rcases Nat.le_total exponent other with lower | higher
  · obtain ⟨more, rfl⟩ := Nat.exists_eq_add_of_le' lower
    rw [show Nat.pow 2 (more + exponent) = Nat.pow 2 more * Nat.pow 2 exponent from Nat.pow_add 2 more exponent,
      ← Nat.mul_assoc] at less ⊢
    rw [Nat.mul_right_comm, Nat.mul_right_comm _ (Nat.pow 2 exponent)]
    exact Nat.mul_le_mul_right _ (scaled_gap short (Nat.lt_of_mul_lt_mul_right less))
  · obtain ⟨more, rfl⟩ := Nat.exists_eq_add_of_le' higher
    rw [show Nat.pow 2 (more + other) = Nat.pow 2 more * Nat.pow 2 other from Nat.pow_add 2 more other,
      ← Nat.mul_assoc] at less ⊢
    rw [Nat.mul_right_comm, Nat.mul_right_comm _ (Nat.pow 2 other)]
    have fewer := Nat.lt_of_mul_lt_mul_right less
    exact Nat.mul_le_mul_right _ (scaled_gap (Nat.lt_trans fewer otherShort) fewer)

/-- A magnitude below a 32768th of another one is so by more than rounding can make up. -/
theorem unitsAt_gap {rank other : Nat} (small : 32768 * unitsAt rank < unitsAt other) :
    32768 * unitsAt rank * Nat.pow 2 53 ≤ unitsAt other * (Nat.pow 2 53 - 1) := by
  obtain ⟨exponent, digits, significand⟩ := exists_significand rank
  obtain ⟨otherExponent, others, otherSignificand⟩ := exists_significand other
  have scaled : 32768 * unitsAt rank = digits * Nat.pow 2 (15 + exponent) := by
    rw [significand.unitsAt, Nat.mul_left_comm]
    exact congrArg (digits * ·) (Nat.pow_add 2 15 exponent).symm
  rw [scaled, otherSignificand.unitsAt] at small ⊢
  exact significand_gap significand.short otherSignificand.short small

/-- The rank of half a unit of 2.14. -/
def halfStep : Nat := 1008 * Nat.pow 2 52

theorem unitsPerOne_eq : unitsPerOne = 32768 * unitsAt halfStep := by
  decide +kernel

theorem lt_halfStep_iff {rank : Nat} : rank < halfStep ↔ 32768 * unitsAt rank < unitsPerOne := by
  rw [← Nat.not_le, ← unitsAt_le_iff, unitsPerOne_eq]
  omega

/-- A quotient is rounded to less than 2^-15 only if it is less. -/
theorem nearestRank_lt_halfStep_iff {rank other : Nat} (positive : 0 < unitsAt other) :
    Rounded.nearestRank (unitsAt rank * unitsPerOne) (unitsAt other) < halfStep ↔
      32768 * unitsAt rank < unitsAt other := by
  constructor
  · intro below
    apply Nat.lt_of_not_le
    intro large
    apply Nat.not_le_of_lt below
    apply Rounded.le_nearestRank positive
    rw [unitsPerOne_eq]
    generalize unitsAt halfStep = step
    rw [Nat.mul_left_comm, ← Nat.mul_assoc]
    exact Nat.mul_le_mul_right _ large
  · intro small
    -- The largest number below the half step is still not below the quotient.
    have last : unitsAt (halfStep - 1) = (Nat.pow 2 53 - 1) * Nat.pow 2 1006 := by decide +kernel
    have whole : unitsPerOne = 32768 * (Nat.pow 2 53 * Nat.pow 2 1006) := by decide +kernel
    suffices below : Rounded.nearestRank (unitsAt rank * unitsPerOne) (unitsAt other) ≤ halfStep - 1 by
      apply Nat.lt_of_le_of_lt below
      decide +kernel
    apply Rounded.nearestRank_le positive
    rw [whole, last]
    generalize Nat.pow 2 1006 = factor
    calc unitsAt rank * (32768 * (Nat.pow 2 53 * factor))
      _ = 32768 * unitsAt rank * Nat.pow 2 53 * factor := by rw [Nat.mul_left_comm, ← Nat.mul_assoc, ← Nat.mul_assoc]
      _ ≤ unitsAt other * (Nat.pow 2 53 - 1) * factor := Nat.mul_le_mul_right factor (unitsAt_gap small)
      _ = unitsAt other * ((Nat.pow 2 53 - 1) * factor) := Nat.mul_assoc _ _ _

end Binary64

end Kashida
