import Kashida.Pattern.Escape
import Kashida.Text.CaseFold

/-! Bracketed sets of characters: single characters, ranges, named sets, nested sets and operations between them. -/
namespace Kashida.Pattern

/-- Something that has been read, with the levels of nesting inside of it. -/
structure Nested (α : Type) where
  value : α
  depth : Nat := 0

/-- The levels of a list: one more than its deepest item has, unless it is a single item. -/
def listDepth : List Nat → Nat
  | [] => 0
  | [depth] => depth
  | depths => depths.foldl max 0 + 1

inductive SetOperation where
  | intersection
  | difference
  | symmetricDifference

def SetOperation.apply : SetOperation → CharSet → CharSet → CharSet
  | .intersection => CharSet.intersection
  | .difference => CharSet.difference
  | .symmetricDifference => CharSet.symmetricDifference

/-- A set whose closing bracket has not been met. -/
structure OpenSet where
  negated : Bool
  /-- The left side of an operation and the operation. -/
  pending : Option (Nested CharSet × SetOperation) := none
  /-- What has been listed since. -/
  items : CharSet := .empty
  depths : List Nat := []

def fold (flags : Flags) (set : CharSet) : CharSet :=
  if flags.ignoreCase then (if flags.ascii then CaseFold.closeAscii set else CaseFold.close set) else set

namespace OpenSet

def add (frame : OpenSet) (item : Nested CharSet) : OpenSet :=
  { frame with items := frame.items.union item.value, depths := item.depth :: frame.depths }

/-- Everything listed so far, with a pending operation carried out. -/
def value (frame : OpenSet) (flags : Flags) : Nested CharSet :=
  let depth := listDepth frame.depths
  match frame.pending with
  | none => ⟨frame.items, depth⟩
  | some (left, operation) =>
      ⟨operation.apply (fold flags left.value) (fold flags frame.items), max left.depth depth + 1⟩

def operate (frame : OpenSet) (flags : Flags) (operation : SetOperation) : OpenSet :=
  { negated := frame.negated, pending := some (frame.value flags, operation) }

/-- The finished set. Case variants are added before the complement is taken. -/
def close? (frame : OpenSet) (flags : Flags) : Option (Nested CharSet) :=
  let inside := frame.value flags
  let set := fold flags inside.value
  (if frame.negated then negated? flags set else some set).map (⟨·, inside.depth + 1⟩)

end OpenSet

/-- Named ASCII sets, by their ranges. -/
def asciiRanges? : String → Option (List (Char × Char))
  | "alnum" => some [('0', '9'), ('A', 'Z'), ('a', 'z')]
  | "alpha" => some [('A', 'Z'), ('a', 'z')]
  | "ascii" => some [('\x00', '\x7f')]
  | "blank" => some [('\t', '\t'), (' ', ' ')]
  | "cntrl" => some [('\x00', '\x1f'), ('\x7f', '\x7f')]
  | "digit" => some [('0', '9')]
  | "graph" => some [('!', '~')]
  | "lower" => some [('a', 'z')]
  | "print" => some [(' ', '~')]
  | "punct" => some [('!', '/'), (':', '@'), ('[', '\x60'), ('\x7b', '~')]
  | "space" => some [('\t', '\r'), (' ', ' ')]
  | "upper" => some [('A', 'Z')]
  | "word" => some [('0', '9'), ('A', 'Z'), ('_', '_'), ('a', 'z')]
  | "xdigit" => some [('0', '9'), ('A', 'F'), ('a', 'f')]
  | _ => none

/-- A named ASCII set after its opening bracket, such as `:alpha:]` or `:^alpha:]`. -/
def namedAscii? (cs : List Char) : Option (CharSet × Bool × List Char) :=
  match cs with
  | ':' :: cs =>
      let (negated, cs) := match cs with
        | '^' :: cs => (true, cs)
        | cs => (false, cs)
      let name := cs.takeWhile fun c => c != ':'
      match cs.dropWhile fun c => c != ':' with
      | ':' :: ']' :: rest =>
          (asciiRanges? (String.ofList name)).map fun ranges =>
            (.ofSorted (ranges.map fun (low, high) => (low.toNat, high.toNat)), negated, rest)
      | _ => none
  | _ => none

/-- The signs right after an opening bracket: a caret complements, and a closing bracket or hyphens stand for
themselves. -/
def openBracket? (flags : Flags) (cs : List Char) : Option (OpenSet × List Char) :=
  let cs := flags.skip cs
  let (negated, cs) := match cs with
    | '^' :: cs => (true, flags.skip cs)
    | cs => (false, cs)
  match cs with
  | [] => none
  | ']' :: cs => some (({ negated } : OpenSet).add ⟨.char ']', 0⟩, cs)
  | cs => some (hyphens { negated } cs)
where
  hyphens (frame : OpenSet) : List Char → OpenSet × List Char
    | [] => (frame, [])
    | c :: cs =>
        if c = '-' then hyphens (frame.add ⟨.char '-', 0⟩) cs
        else if flags.spaced && CharClass.isBlank c then hyphens frame cs
        else (frame, c :: cs)

/-- A character or an escape inside of brackets. -/
def item? (flags : Flags) : List Char → Option (Primitive × List Char)
  | [] => none
  | '\\' :: cs => escape? flags cs
  | c :: cs => if flags.ascii && 0x7f < c.toNat then none else some (.literal c, cs)

def Primitive.charSet? : Primitive → Option CharSet
  | .literal c => some (.char c)
  | .set chars => some chars
  | .assertion _ => none

/-- A range, or a single item. A hyphen before the closing bracket or before another hyphen makes no range. -/
def rangeOrItem? (flags : Flags) (cs : List Char) : Option (CharSet × List Char) := do
  let (first, rest) ← item? flags cs
  match flags.skip rest with
  | '-' :: after =>
      match flags.skip after with
      | [] => none
      | next :: more =>
          if next = ']' || next = '-' then
            return (← first.charSet?, flags.skip rest)
          else
            let (second, rest) ← item? flags (next :: more)
            match first, second with
            | .literal low, .literal high => if low ≤ high then some (.range low high, rest) else none
            | _, _ => none
  | rest => return (← first.charSet?, rest)

/-- Reads up to the bracket that closes the outermost set; `outer` holds the sets around the current one. Every round
takes a character, so as many units of `fuel` as there are characters are enough. -/
def bracket? (flags : Flags) :
    (fuel : Nat) → (frame : OpenSet) → (outer : List OpenSet) → List Char → Option (Nested CharSet × List Char)
  | 0, _, _, _ => none
  | fuel + 1, frame, outer, cs =>
      match flags.skip cs with
      | [] => none
      | ']' :: rest =>
          match frame.close? flags, outer with
          | none, _ => none
          | some set, [] => some (set, rest)
          | some set, around :: outer => bracket? flags fuel (around.add set) outer rest
      | '[' :: rest =>
          match namedAscii? rest with
          | some (set, negated, rest) =>
              match if negated then negated? flags (fold flags set) else some set with
              | some set => bracket? flags fuel (frame.add ⟨set, 0⟩) outer rest
              | none => none
          | none =>
              match openBracket? flags rest with
              | some (inner, rest) => bracket? flags fuel inner (frame :: outer) rest
              | none => none
      | '&' :: '&' :: rest => bracket? flags fuel (frame.operate flags .intersection) outer rest
      | '-' :: '-' :: rest => bracket? flags fuel (frame.operate flags .difference) outer rest
      | '~' :: '~' :: rest => bracket? flags fuel (frame.operate flags .symmetricDifference) outer rest
      | c :: rest =>
          match rangeOrItem? flags (c :: rest) with
          | some (set, rest) => bracket? flags fuel (frame.add ⟨set, 0⟩) outer rest
          | none => none

end Kashida.Pattern
