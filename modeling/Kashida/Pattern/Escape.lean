import Kashida.Pattern.Basic
import Kashida.Text.CharClass
import Kashida.Text.Hex

/-! The flags of a pattern and its backslash escapes. -/
namespace Kashida.Pattern

/-- What the flags of a pattern change. -/
structure Flags where
  ignoreCase : Bool := false
  multiLine : Bool := false
  dotNewline : Bool := false
  carriage : Bool := false
  spaced : Bool := false
  ascii : Bool := false
  /-- Repetitions are greedy where they are marked as lazy, and the other way round. -/
  swapGreed : Bool := false

/-- The smallest parts of a pattern. -/
inductive Primitive where
  | literal (c : Char)
  | set (set : CharSet)
  | assertion (condition : Assertion)

/-- Skips white space and comments where the flags say that they do not count. -/
def skipSpace (spaced : Bool) (comment : Bool) : List Char → List Char
  | [] => []
  | c :: cs =>
      if !spaced then c :: cs
      else if comment then skipSpace spaced (c != '\n') cs
      else if CharClass.isBlank c then skipSpace spaced false cs
      else if c = '#' then skipSpace spaced true cs
      else c :: cs

namespace Flags

def skip (flags : Flags) (cs : List Char) : List Char := skipSpace flags.spaced false cs

def word (flags : Flags) : CharSet := if flags.ascii then CharClass.asciiWord else CharClass.word

def digit (flags : Flags) : CharSet := if flags.ascii then CharClass.asciiDigit else CharClass.digit

def blank (flags : Flags) : CharSet := if flags.ascii then CharClass.asciiBlank else CharClass.blank

end Flags

/-- A character by its number, which must be one. -/
def charOfCode? (code : Nat) : Option Char := if code.isValidChar then some (Char.ofNat code) else none

/-- Exactly `count` digits. -/
def hexDigits? (flags : Flags) : (count : Nat) → (done : List Char) → List Char → Option (List Char × List Char)
  | 0, done, cs => some (done.reverse, cs)
  | count + 1, done, cs =>
      match flags.skip cs with
      | c :: cs => if (Hex.digit? c).isSome then hexDigits? flags count (c :: done) cs else none
      | [] => none

/-- Digits up to a closing brace. -/
def bracedDigits? (flags : Flags) : (done : List Char) → List Char → Option (List Char × List Char)
  | _, [] => none
  | done, c :: cs =>
      if flags.spaced && CharClass.isBlank c then bracedDigits? flags done cs
      else if c = '\x7d' then some (done.reverse, cs)
      else if (Hex.digit? c).isSome then bracedDigits? flags (c :: done) cs
      else none

/-- A character number in hexadecimal: `count` digits, or any number of them in braces. -/
def hexChar? (flags : Flags) (count : Nat) (cs : List Char) : Option (Primitive × List Char) := do
  let (digits, rest) ← match flags.skip cs with
    | '\x7b' :: cs => bracedDigits? flags [] cs
    | cs => hexDigits? flags count [] cs
  if digits.isEmpty then none
  else
    let c ← charOfCode? (← Hex.number? digits)
    if flags.ascii && 0x7f < c.toNat then none else some (.literal c, rest)

/-- Punctuation may always be escaped; letters and digits are kept for escapes with a meaning. -/
def isEscapable (c : Char) : Bool := c.toNat < 0x80 && !c.isAlphanum && c != '<' && c != '>'

def isBoundaryName (c : Char) : Bool := c.isAlpha || c = '-'

/-- After a word boundary, a name in braces makes it one-sided. Braces with anything else are left for a repetition. -/
def boundary? (flags : Flags) (cs : List Char) : Option (Primitive × List Char) :=
  let plain : Primitive × List Char := (.assertion (.wordBoundary flags.ascii), cs)
  match cs with
  | '\x7b' :: inside =>
      match flags.skip inside with
      | [] => none
      | c :: cs =>
          if isBoundaryName c then
            let name := String.ofList ((c :: cs).takeWhile isBoundaryName)
            match (c :: cs).dropWhile isBoundaryName with
            | '\x7d' :: rest =>
                match name with
                | "start" => some (.assertion (.wordStart flags.ascii), rest)
                | "end" => some (.assertion (.wordEnd flags.ascii), rest)
                | "start-half" => some (.assertion (.noWordBefore flags.ascii), rest)
                | "end-half" => some (.assertion (.noWordAfter flags.ascii), rest)
                | _ => none
            | _ => none
          else some plain
  | _ => some plain

/-- A set outside ASCII cannot be written where only ASCII counts. -/
def negated? (flags : Flags) (set : CharSet) : Option CharSet :=
  if flags.ascii then none else some set.complement

/-- What follows a backslash. -/
def escape? (flags : Flags) : List Char → Option (Primitive × List Char)
  | [] => none
  | 'x' :: cs => hexChar? flags 2 cs
  | 'u' :: cs => hexChar? flags 4 cs
  | 'U' :: cs => hexChar? flags 8 cs
  | 'd' :: cs => some (.set flags.digit, cs)
  | 's' :: cs => some (.set flags.blank, cs)
  | 'w' :: cs => some (.set flags.word, cs)
  | 'D' :: cs => (negated? flags flags.digit).map fun set => (.set set, cs)
  | 'S' :: cs => (negated? flags flags.blank).map fun set => (.set set, cs)
  | 'W' :: cs => (negated? flags flags.word).map fun set => (.set set, cs)
  | 'a' :: cs => some (.literal '\x07', cs)
  | 'f' :: cs => some (.literal '\x0c', cs)
  | 't' :: cs => some (.literal '\t', cs)
  | 'n' :: cs => some (.literal '\n', cs)
  | 'r' :: cs => some (.literal '\r', cs)
  | 'v' :: cs => some (.literal '\x0b', cs)
  | 'A' :: cs => some (.assertion .textStart, cs)
  | 'z' :: cs => some (.assertion .textEnd, cs)
  | 'b' :: cs => boundary? flags cs
  | 'B' :: cs => some (.assertion (.noWordBoundary flags.ascii), cs)
  | '<' :: cs => some (.assertion (.wordStart flags.ascii), cs)
  | '>' :: cs => some (.assertion (.wordEnd flags.ascii), cs)
  | c :: cs => if isEscapable c then some (.literal c, cs) else none

end Kashida.Pattern
