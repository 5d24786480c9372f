/-! Sets of characters as ranges of code points. -/
namespace Kashida

/-- Ranges of code points in ascending order. No two of them overlap or touch. -/
structure CharSet where
  ranges : Array (Nat × Nat)
deriving DecidableEq

namespace CharSet

def empty : CharSet := ⟨#[]⟩

def range (low high : Char) : CharSet := ⟨#[(low.toNat, high.toNat)]⟩

def char (c : Char) : CharSet := range c c

/-- Searches the ranges from `low` up to `high` by halving; `steps` bounds the number of halvings. -/
def search (ranges : Array (Nat × Nat)) (code : Nat) : (steps low high : Nat) → Bool
  | 0, _, _ => false
  | steps + 1, low, high =>
      let middle := (low + high) / 2
      match ranges[middle]? with
      | none => false
      | some (first, last) =>
          if high ≤ low then false
          else if code < first then search ranges code steps low middle
          else if last < code then search ranges code steps (middle + 1) high
          else true

def containsCode (set : CharSet) (code : Nat) : Bool := search set.ranges code (set.ranges.size + 1) 0 set.ranges.size

def contains (set : CharSet) (c : Char) : Bool := set.containsCode c.toNat

/-- Joins a range with those behind it that it overlaps or touches. -/
def coalesce : Nat × Nat → List (Nat × Nat) → List (Nat × Nat)
  | first, [] => [first]
  | (low, high), (low', high') :: others =>
      if low' ≤ high + 1 then coalesce (low, max high high') others
      else (low, high) :: coalesce (low', high') others

/-- Ranges in ascending order of their starts. -/
def ofSorted : List (Nat × Nat) → CharSet
  | [] => empty
  | first :: others => ⟨(coalesce first others).toArray⟩

def union (left right : CharSet) : CharSet :=
  ofSorted (List.merge left.ranges.toList right.ranges.toList fun a b => a.1 ≤ b.1)

/-- Adds single code points in any order. -/
def insertCodes (set : CharSet) (codes : List Nat) : CharSet :=
  set.union (ofSorted ((codes.mergeSort fun a b => a ≤ b).map fun code => (code, code)))

def maxCode : Nat := 0x10ffff

/-- The code point of the next character. Surrogates are no characters. -/
def next (code : Nat) : Nat := if code = 0xd7ff then 0xe000 else code + 1

/-- The code point of the character before. -/
def previous (code : Nat) : Nat := if code = 0xe000 then 0xd7ff else code - 1

/-- The bounds of what lies between ranges, after one that ends at a code point. Where two ranges have only surrogates
between them, the bounds are the wrong way round. -/
def boundsBetween (last : Nat) : List (Nat × Nat) → List (Nat × Nat)
  | [] => if last < maxCode then [(next last, maxCode)] else []
  | (low, high) :: others => (next last, previous low) :: boundsBetween high others

/-- The bounds of what ranges leave out. -/
def gaps : List (Nat × Nat) → List (Nat × Nat)
  | [] => [(0, maxCode)]
  | (low, high) :: others =>
      if 0 < low then (0, previous low) :: boundsBetween high others else boundsBetween high others

/-- Every gap as a range between its bounds, whichever of them is the lower. -/
def complement (set : CharSet) : CharSet :=
  ⟨((gaps set.ranges.toList).map fun (low, high) => (min low high, max low high)).toArray⟩

/-- What two lists of ranges share. -/
def overlaps : List (Nat × Nat) → List (Nat × Nat) → List (Nat × Nat)
  | [], _ => []
  | _, [] => []
  | (low, high) :: others, (low', high') :: others' =>
      let more :=
        if high < high' then overlaps others ((low', high') :: others')
        else overlaps ((low, high) :: others) others'
      if max low low' ≤ min high high' then (max low low', min high high') :: more else more
termination_by left right => left.length + right.length

def intersection (left right : CharSet) : CharSet := ⟨(overlaps left.ranges.toList right.ranges.toList).toArray⟩

def difference (left right : CharSet) : CharSet :=
  left.intersection ⟨((gaps right.ranges.toList).filter fun (low, high) => low ≤ high).toArray⟩

/-- What is in one of two sets but not in both. -/
def symmetricDifference (left right : CharSet) : CharSet := (left.union right).difference (left.intersection right)

end CharSet

end Kashida
