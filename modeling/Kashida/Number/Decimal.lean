import Kashida.Number.Binary64

/-! The decimal text of a binary64 number: the fewest digits that read back as the number, written positionally.

The reals that round to a number form an interval around it, from half-way to the magnitude below to half-way to the
one above; the ends belong to it when the rank is even. For one digit, two digits and so on the two neighbours of the
number on that decimal grid are tried, and the first grid with a neighbour in the interval gives the digits. -/
namespace Kashida.Decimal

/-- `digits * 10 ^ exponent`. -/
structure Digits where
  digits : Nat
  exponent : Int
deriving DecidableEq

/-- Compares a decimal with `quarters / 4` units by cross-multiplication. -/
def compareQuarters (d : Digits) (quarters : Nat) : Ordering :=
  compare (4 * d.digits * Nat.pow 10 d.exponent.toNat * Binary64.unitsPerOne)
    (quarters * Nat.pow 10 (-d.exponent).toNat)

/-- The decimal lies in the interval of reals that round to the magnitude at this positive rank. -/
def readsBack (rank : Nat) (d : Digits) : Bool :=
  let low := 2 * (Binary64.unitsAt (rank - 1) + Binary64.unitsAt rank)
  let high := 2 * (Binary64.unitsAt rank + Binary64.unitsAt (rank + 1))
  let closed := rank % 2 == 0
  let atLow := compareQuarters d low
  let atHigh := compareQuarters d high
  (atLow == .gt || closed && atLow == .eq) && (atHigh == .lt || closed && atHigh == .eq)

/-- The floor of a magnitude over `10 ^ exponent`. -/
def floorOn (rank : Nat) (exponent : Int) : Nat :=
  Binary64.unitsAt rank * Nat.pow 10 (-exponent).toNat / (Binary64.unitsPerOne * Nat.pow 10 exponent.toNat)

/-- On the grid of `10 ^ exponent`, the neighbour of the magnitude that reads back: the nearer of two, and the upper
one when both are equally near. -/
def onGrid? (rank : Nat) (exponent : Int) : Option Digits :=
  let lower : Digits := ⟨floorOn rank exponent, exponent⟩
  let upper : Digits := ⟨lower.digits + 1, exponent⟩
  let lowerFits := lower.digits != 0 && readsBack rank lower
  let upperFits := readsBack rank upper
  if upperFits then
    let middle : Digits := ⟨lower.digits + upper.digits, exponent⟩
    if lowerFits && compareQuarters middle (8 * Binary64.unitsAt rank) == .gt then some lower else some upper
  else if lowerFits then some lower
  else none

/-- The least exponent above the leading digit, searched downwards from a bound. -/
def leadingExponent (rank : Nat) : (steps : Nat) → (exponent : Int) → Int
  | 0, exponent => exponent
  | steps + 1, exponent =>
      if floorOn rank (exponent - 1) = 0 then leadingExponent rank steps (exponent - 1) else exponent

/-- The fewest digits that read back as the magnitude at a positive rank. Seventeen are always enough; the exact value
stands in for the case that none is found. -/
def shortest (rank : Nat) : Digits :=
  let top := leadingExponent rank 640 310
  ((List.range 17).findSome? fun (count : Nat) => onGrid? rank (top - count - 1)).getD
    ⟨Binary64.unitsAt rank * Nat.pow 5 1074, -1074⟩

/-- Writes digits positionally, without a trailing point or trailing zeros after it. -/
def positional (d : Digits) : String :=
  let text := Nat.toDigits 10 d.digits
  if 0 ≤ d.exponent then String.ofList (text ++ List.replicate d.exponent.toNat '0')
  else
    let places := (-d.exponent).toNat
    let padded := List.replicate (places + 1 - text.length) '0' ++ text
    let whole := padded.take (padded.length - places)
    let fraction := ((padded.drop (padded.length - places)).reverse.dropWhile (· == '0')).reverse
    if fraction.isEmpty then String.ofList whole else String.ofList (whole ++ '.' :: fraction)

end Kashida.Decimal

namespace Kashida.Binary64

/-- The shortest positional text; a zero keeps its sign. -/
def toText (x : Binary64) : String :=
  let magnitude := if x.rank = 0 then "0" else Decimal.positional (Decimal.shortest x.rank)
  if x.negative then "-" ++ magnitude else magnitude

end Kashida.Binary64
