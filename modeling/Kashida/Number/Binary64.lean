/-! Finite binary64 numbers on the integer grid of 2^-1074, with correctly rounded results.

Every finite number is a whole multiple of the least positive one, so comparisons and conversions are exact integer
arithmetic. A result is an exact fraction of units rounded once, to nearest with ties to even. Only a result can be
infinite: numbers that are read, stored or compared are finite, and no operation below is applied where it has no
value. -/
namespace Kashida

/-- A finite number, given by its sign and the position of its magnitude among all finite magnitudes in ascending
order. Both zeros are kept apart. -/
structure Binary64 where
  negative : Bool
  rank : Nat
  rank_lt : rank < 2047 * Nat.pow 2 52
deriving DecidableEq

namespace Binary64

/-- The least positive number is one unit; this many units make one. -/
def unitsPerOne : Nat := Nat.pow 2 1074

/-- The magnitude at a rank, in units. Ranks below 2^53 are the units themselves, then the spacing doubles every 2^52
ranks. -/
def unitsAt (rank : Nat) : Nat :=
  if rank < Nat.pow 2 52 then rank
  else (Nat.pow 2 52 + rank % Nat.pow 2 52) * Nat.pow 2 (rank / Nat.pow 2 52 - 1)

/-- The value in units. -/
def units (x : Binary64) : Int :=
  if x.negative then -(unitsAt x.rank : Int) else unitsAt x.rank

def zero : Binary64 := ⟨false, 0, by decide⟩

instance : Inhabited Binary64 := ⟨zero⟩

def one : Binary64 := ⟨false, 1023 * Nat.pow 2 52, by decide⟩

def negOne : Binary64 := ⟨true, 1023 * Nat.pow 2 52, by decide⟩

/-- Changes the sign, also that of zero. -/
def neg (x : Binary64) : Binary64 := { x with negative := !x.negative }

instance : Neg Binary64 := ⟨neg⟩

instance : LT Binary64 := ⟨fun x y => x.units < y.units⟩

instance (x y : Binary64) : Decidable (x < y) := inferInstanceAs (Decidable (x.units < y.units))

/-- Both zeros are zero. -/
def isZero (x : Binary64) : Bool := x.units == 0

/-- The interchange encoding: the sign above the rank. -/
def bits (x : Binary64) : Nat := (if x.negative then Nat.pow 2 63 else 0) + x.rank

end Binary64

/-- A fraction rounded to the nearest integer, a half to the even neighbour. -/
def nearestEven (num den : Nat) : Nat :=
  let quotient := num / den
  let rest := num % den
  if 2 * rest < den then quotient
  else if den < 2 * rest then quotient + 1
  else quotient + quotient % 2

/-- A fraction rounded to the nearest integer, a half away from zero. -/
def nearestAway (num : Int) (den : Nat) : Int :=
  num.sign * ((2 * num.natAbs + den) / (2 * den) : Nat)

/-- The outcome of a rounded operation. -/
inductive Rounded where
  | finite (value : Binary64)
  | infinite (negative : Bool)
deriving DecidableEq

namespace Rounded

/-- The rank nearest to a fraction of units. The significand has 53 bits, so all but that many leading bits are
rounded off; a carry out of the significand lands on the next rank by itself. -/
def nearestRank (num den : Nat) : Nat :=
  let shift := (num / den).log2 - 52
  shift * Nat.pow 2 52 + nearestEven num (den * Nat.pow 2 shift)

/-- The number nearest to a fraction of units with the given sign. -/
def ofUnits (negative : Bool) (num den : Nat) : Rounded :=
  let rank := nearestRank num den
  if h : rank < 2047 * Nat.pow 2 52 then .finite ⟨negative, rank, h⟩ else .infinite negative

def bits : Rounded → Nat
  | .finite x => x.bits
  | .infinite negative => (if negative then Nat.pow 2 63 else 0) + 2047 * Nat.pow 2 52

/-- The result when it is finite. -/
def toFinite? : Rounded → Option Binary64
  | .finite x => some x
  | .infinite _ => none

/-- The value times 2^places, rounded to an integer with halves away from zero. An infinite result has no such
integer. -/
def scaled? (places : Nat) : Rounded → Option Int
  | .finite x => some (nearestAway (x.units * Nat.pow 2 places) Binary64.unitsPerOne)
  | .infinite _ => none

/-- Clamps to 32 bits. -/
def clamp32 (n : Int) : Int :=
  if n < Int32.minValue.toInt then Int32.minValue.toInt
  else if Int32.maxValue.toInt < n then Int32.maxValue.toInt
  else n

/-- The nearest 32-bit integer with halves away from zero; what lies outside becomes the nearer end. -/
def roundToInt32 : Rounded → Int
  | .finite x => clamp32 (nearestAway x.units Binary64.unitsPerOne)
  | .infinite negative => if negative then Int32.minValue.toInt else Int32.maxValue.toInt

/-- The integer part as a 32-bit integer; what lies outside becomes the nearer end. -/
def truncateToInt32 : Rounded → Int
  | .finite x => clamp32 (x.units.tdiv Binary64.unitsPerOne)
  | .infinite negative => if negative then Int32.minValue.toInt else Int32.maxValue.toInt

end Rounded

namespace Binary64

/-- The quotient of a number other than zero. A zero divisor gives infinity with the sign of the quotient. -/
def div (x y : Binary64) : Rounded :=
  if y.isZero then .infinite (x.negative ^^ y.negative)
  else .ofUnits (x.negative ^^ y.negative) (unitsAt x.rank * unitsPerOne) (unitsAt y.rank)

def mul (x y : Binary64) : Rounded :=
  .ofUnits (x.negative ^^ y.negative) (unitsAt x.rank * unitsAt y.rank) unitsPerOne

def sub (x y : Binary64) : Rounded :=
  let difference := x.units - y.units
  .ofUnits (difference < 0) difference.natAbs 1

/-- The number nearest to `coefficient * 10 ^ exponent`. Exponents far outside the range are decided without the
power: a coefficient below 2^(b+1) has at most b/3+1 digits. -/
def ofDecimal (negative : Bool) (coefficient : Nat) (exponent : Int) : Rounded :=
  if coefficient = 0 ∨ exponent + coefficient.log2 / 3 + 1 < -400 then .ofUnits negative 0 1
  else if 400 < exponent then .infinite negative
  else if exponent < 0 then .ofUnits negative (coefficient * unitsPerOne) (Nat.pow 10 (-exponent).toNat)
  else .ofUnits negative (coefficient * Nat.pow 10 exponent.toNat * unitsPerOne) 1

/-- The number nearest to `numerator / 2 ^ places`. -/
def ofScaled (numerator : Int) (places : Nat) : Rounded :=
  .ofUnits (numerator < 0) (numerator.natAbs * unitsPerOne) (Nat.pow 2 places)

end Binary64

end Kashida
