import Kashida.Pattern.Bracket

/-! Reading patterns: literals, sets, groups, alternatives, repetitions and flags. -/
namespace Kashida.Pattern

/-- A group whose closing parenthesis has not been met, or the whole pattern. Lists have their latest member first. -/
structure OpenGroup where
  /-- The group records what it matched. -/
  capturing : Bool := false
  /-- The alternatives before the last bar. -/
  branches : List (Nested Node) := []
  /-- What follows the last bar. -/
  pieces : List (Nested Node) := []
  /-- The last piece may be repeated. A change of flags may not. -/
  repeatable : Bool := false

namespace OpenGroup

def push (group : OpenGroup) (piece : Nested Node) : OpenGroup :=
  { group with pieces := piece :: group.pieces, repeatable := true }

/-- A change of flags, which matches nothing by itself. -/
def pushFlags (group : OpenGroup) : OpenGroup :=
  { group with pieces := ⟨.empty, 0⟩ :: group.pieces, repeatable := false }

def branch (group : OpenGroup) : Nested Node :=
  ⟨.ofSequence (group.pieces.reverse.map (·.value)), listDepth (group.pieces.map (·.depth))⟩

def value (group : OpenGroup) : Nested Node :=
  let branches := group.branch :: group.branches
  ⟨.ofAlternatives (branches.reverse.map (·.value)), listDepth (branches.map (·.depth))⟩

/-- What the group is in the group around it. -/
def closed (group : OpenGroup) : Nested Node :=
  let inside := group.value
  ⟨if group.capturing then .group inside.value else inside.value, inside.depth + 1⟩

def bar (group : OpenGroup) : OpenGroup :=
  { capturing := group.capturing, branches := group.branch :: group.branches }

/-- Repeats the last piece, which must be there. -/
def repeat? (group : OpenGroup) (least : Nat) (most : Option Nat) (greedy : Bool) : Option OpenGroup :=
  match group.repeatable, group.pieces with
  | true, piece :: pieces =>
      some { group with pieces := ⟨.ofRepetition piece.value least most greedy, piece.depth + 1⟩ :: pieces }
  | _, _ => none

end OpenGroup

structure State where
  flags : Flags := {}
  group : OpenGroup := {}
  /-- The groups around the current one, each with the flags it goes on with. -/
  outer : List (OpenGroup × Flags) := []
  names : List String := []

/-- A character that stands for itself, or for its case variants. -/
def Flags.literal (flags : Flags) (c : Char) : Node :=
  if !flags.ignoreCase then .text [c]
  else if flags.ascii then .ofSet (CaseFold.closeAscii (.char c)) true
  else .ofSet (CaseFold.variants c) false

def Primitive.node (flags : Flags) : Primitive → Node
  | .literal c => flags.literal c
  | .set chars => .ofSet chars flags.ascii
  | .assertion condition => .holds condition

/-- Any character, or any but those that end a line. -/
def dot? (flags : Flags) : Option Node :=
  let ends : CharSet :=
    if flags.dotNewline then .empty
    else if flags.carriage then (CharSet.char '\n').union (.char '\r')
    else .char '\n'
  if flags.ascii then none else some (.ofSet ends.complement false)

def lineStart (flags : Flags) : Node := .holds (if flags.multiLine then .lineStart flags.carriage else .textStart)

def lineEnd (flags : Flags) : Node := .holds (if flags.multiLine then .lineEnd flags.carriage else .textEnd)

/-- A decimal number below 2^32, with white space around it. -/
def decimal? (flags : Flags) (cs : List Char) : Option (Option Nat × List Char) :=
  let cs := flags.skip (cs.dropWhile CharClass.isBlank)
  let digits := cs.takeWhile fun c => c.isDigit || (flags.spaced && CharClass.isBlank c)
  let rest := flags.skip ((cs.dropWhile fun c => c.isDigit || (flags.spaced && CharClass.isBlank c)).dropWhile
    CharClass.isBlank)
  let digits := digits.filter Char.isDigit
  if digits.isEmpty then some (none, rest)
  else
    let value := digits.foldl (fun value c => value * 10 + (c.toNat - '0'.toNat)) 0
    if value < Nat.pow 2 32 then some (some value, rest) else none

/-- Whether a repetition is greedy, which a question mark behind it changes. -/
def greed (flags : Flags) : List Char → Bool × List Char
  | '?' :: cs => (flags.swapGreed, cs)
  | cs => (!flags.swapGreed, cs)

/-- The bounds of a counted repetition after its opening brace. -/
def bounds? (flags : Flags) (cs : List Char) : Option (Nat × Option Nat × List Char) := do
  let (least, cs) ← decimal? flags cs
  match cs with
  | '\x7d' :: cs =>
      let least ← least
      return (least, some least, flags.skip cs)
  | ',' :: cs =>
      match flags.skip cs with
      | '\x7d' :: cs => return (← least, none, flags.skip cs)
      | cs =>
          let least ← least
          let (most, cs) ← decimal? flags cs
          let most ← most
          match cs with
          | '\x7d' :: cs => if least ≤ most then some (least, some most, flags.skip cs) else none
          | _ => none
  | _ => none

def setFlag? (flags : Flags) (on : Bool) : Char → Option Flags
  | 'i' => some { flags with ignoreCase := on }
  | 'm' => some { flags with multiLine := on }
  | 's' => some { flags with dotNewline := on }
  | 'R' => some { flags with carriage := on }
  | 'x' => some { flags with spaced := on }
  | 'u' => some { flags with ascii := !on }
  | 'U' => some { flags with swapGreed := on }
  | _ => none

/-- Flags up to the colon or the parenthesis that ends them, each written once. A hyphen turns off those behind it. -/
def flags? (flags : Flags) (seen : List Char) : List Char → Option (Flags × Bool × List Char)
  | [] => none
  | c :: cs =>
      if c = ':' || c = ')' then
        if seen.head? = some '-' then none
        else if c = ')' && seen.isEmpty then none
        else some (flags, c = ':', cs)
      else if seen.contains c then none
      else if c = '-' then flags? flags (c :: seen) cs
      else
        match setFlag? flags (!seen.contains '-') c with
        | some flags => flags? flags (c :: seen) cs
        | none => none

def isNameStart (c : Char) : Bool := c = '_' || CharClass.isAlphabetic c

def isNameRest (c : Char) : Bool := isNameStart c || c = '.' || c = '[' || c = ']' || CharClass.isNumeric c

/-- The name of a group up to its closing angle. -/
def groupName? (cs : List Char) : Option (String × List Char) :=
  let name := cs.takeWhile fun c => c != '>'
  match name, cs.dropWhile fun c => c != '>' with
  | first :: others, '>' :: rest =>
      if isNameStart first && others.all isNameRest then some (String.ofList name, rest) else none
  | _, _ => none

namespace State

def enter (state : State) (inside : Flags) (capturing : Bool) : State :=
  { state with flags := inside, group := { capturing }, outer := (state.group, state.flags) :: state.outer }

def enterNamed? (state : State) (cs : List Char) : Option (State × List Char) := do
  let (name, cs) ← groupName? cs
  if state.names.contains name then none
  else return ({ (state.enter state.flags true) with names := name :: state.names }, cs)

/-- What follows an opening parenthesis. Looking around is no part of the dialect. -/
def openGroup? (state : State) (cs : List Char) : Option (State × List Char) :=
  match state.flags.skip cs with
  | '?' :: '=' :: _ => none
  | '?' :: '!' :: _ => none
  | '?' :: '<' :: '=' :: _ => none
  | '?' :: '<' :: '!' :: _ => none
  | '?' :: 'P' :: '<' :: cs => state.enterNamed? cs
  | '?' :: '<' :: cs => state.enterNamed? cs
  | '?' :: cs =>
      match flags? state.flags [] cs with
      | some (flags, true, cs) => some (state.enter flags false, cs)
      | some (flags, false, cs) => some ({ state with flags, group := state.group.pushFlags }, cs)
      | none => none
  | cs => some (state.enter state.flags true, cs)

def closeGroup? (state : State) : Option State :=
  match state.outer with
  | [] => none
  | (group, flags) :: outer => some { state with flags, group := group.push state.group.closed, outer }

def push (state : State) (node : Node) : State := { state with group := state.group.push ⟨node, 0⟩ }

/-- Repeats the last piece; the mark of a lazy repetition may follow. -/
def repeat? (state : State) (least : Nat) (most : Option Nat) (cs : List Char) : Option (State × List Char) :=
  let (greedy, cs) := greed state.flags cs
  (state.group.repeat? least most greedy).map fun group => ({ state with group }, cs)

/-- Reads one part of a pattern, of which there is at least one character and not more of them than units of `fuel`. -/
def step? (fuel : Nat) (state : State) : List Char → Option (State × List Char)
  | [] => none
  | '(' :: cs => state.openGroup? cs
  | ')' :: cs => state.closeGroup?.map (·, cs)
  | '|' :: cs => some ({ state with group := state.group.bar }, cs)
  | '[' :: cs => do
      let (frame, cs) ← openBracket? state.flags cs
      let (set, cs) ← bracket? state.flags fuel frame [] cs
      return ({ state with group := state.group.push ⟨.ofSet set.value state.flags.ascii, set.depth⟩ }, cs)
  | '?' :: cs => state.repeat? 0 (some 1) cs
  | '*' :: cs => state.repeat? 0 none cs
  | '+' :: cs => state.repeat? 1 none cs
  | '\x7b' :: cs => do
      let (least, most, cs) ← bounds? state.flags (state.flags.skip cs)
      state.repeat? least most cs
  | '\\' :: cs => do
      let (part, cs) ← escape? state.flags cs
      return (state.push (part.node state.flags), cs)
  | '.' :: cs => (dot? state.flags).map fun node => (state.push node, cs)
  | '^' :: cs => some (state.push (lineStart state.flags), cs)
  | '$' :: cs => some (state.push (lineEnd state.flags), cs)
  | c :: cs => some (state.push (state.flags.literal c), cs)

/-- Reads the parts of a pattern to its end, where every group must be closed. Every part takes a character, so as many
units of `fuel` as there are characters and one more are enough. -/
def run? : (fuel : Nat) → State → List Char → Option (Nested Node)
  | 0, _, _ => none
  | fuel + 1, state, pattern =>
      match state.flags.skip pattern with
      | [] => if state.outer.isEmpty then some state.group.value else none
      | c :: cs =>
          match state.step? fuel (c :: cs) with
          | some (state, rest) => run? fuel state rest
          | none => none

end State

/-- The node that a pattern spells. -/
def parse? (pattern : String) : Option (Nested Node) :=
  let chars := pattern.toList
  State.run? (chars.length + 1) {} chars

end Kashida.Pattern
