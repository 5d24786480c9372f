import Kashida.Json.Basic
import Kashida.Text.Hex

/-! Reading JSON text: characters to tokens, tokens to one value. -/
namespace Kashida.Json

inductive Token where
  | openObject
  | closeObject
  | openArray
  | closeArray
  | colon
  | comma
  | atom (value : Json)

/-- What is missing or malformed at some place of a text. -/
inductive Fault where
  | value
  | number
  | name
  | colon
  | itemEnd
  | memberEnd
  | trailing

/-- A fault and the column of its place, counted in bytes from one. Texts are single lines. -/
structure ReadError where
  fault : Fault
  column : Nat

def Fault.message : Fault → String
  | .value => "expected value"
  | .number => "invalid number"
  | .name => "key must be a string"
  | .colon => "expected `:`"
  | .itemEnd => "expected `,` or `]`"
  | .memberEnd => "expected `,` or `\x7d`"
  | .trailing => "trailing characters"

def ReadError.message (e : ReadError) : String := s!"{e.fault.message} at line 1 column {e.column}"

/-- What is read, or a fault and the characters from its place on. -/
abbrev Read (α : Type) := Except (Fault × List Char) α

def hexUnit? (a b c d : Char) : Option Nat := Hex.number? [a, b, c, d]

def escaped? : Char → Option Char
  | '"' => some '"'
  | '\\' => some '\\'
  | '/' => some '/'
  | 'b' => some '\x08'
  | 'f' => some '\x0c'
  | 'n' => some '\n'
  | 'r' => some '\r'
  | 't' => some '\t'
  | _ => none

/-- The rest of a string after its opening quote, with what was read so far in reverse. A high surrogate must be
followed by a low one. -/
def stringTail : List Char → List Char → Option (String × List Char)
  | done, '"' :: rest => some (String.ofList done.reverse, rest)
  | done, '\\' :: 'u' :: a :: b :: c :: d :: rest =>
      match hexUnit? a b c d with
      | none => none
      | some unit =>
          if 0xD800 ≤ unit ∧ unit < 0xDC00 then
            match rest with
            | '\\' :: 'u' :: e :: f :: g :: h :: rest =>
                match hexUnit? e f g h with
                | none => none
                | some low =>
                    if 0xDC00 ≤ low ∧ low < 0xE000 then
                      stringTail (Char.ofNat (0x10000 + (unit - 0xD800) * 0x400 + (low - 0xDC00)) :: done) rest
                    else none
            | _ => none
          else if 0xDC00 ≤ unit ∧ unit < 0xE000 then none
          else stringTail (Char.ofNat unit :: done) rest
  | done, '\\' :: c :: rest =>
      match escaped? c with
      | some e => stringTail (e :: done) rest
      | none => none
  | done, c :: rest => if c.toNat < 0x20 then none else stringTail (c :: done) rest
  | _, [] => none

def digitsValue (digits : List Char) : Nat :=
  digits.foldl (fun value c => value * 10 + (c.toNat - '0'.toNat)) 0

/-- Digits without a superfluous leading zero. -/
def wholePart? (cs : List Char) : Option (List Char × List Char) :=
  let digits := cs.takeWhile Char.isDigit
  if digits.isEmpty ∨ (1 < digits.length ∧ digits.head? = some '0') then none
  else some (digits, cs.dropWhile Char.isDigit)

def fractionPart? : List Char → Option (List Char × List Char)
  | '.' :: cs =>
      let digits := cs.takeWhile Char.isDigit
      if digits.isEmpty then none else some (digits, cs.dropWhile Char.isDigit)
  | cs => some ([], cs)

def exponentDigits? (negative : Bool) (cs : List Char) : Option (Int × List Char) :=
  let digits := cs.takeWhile Char.isDigit
  if digits.isEmpty then none
  else
    let size : Int := digitsValue digits
    some (if negative then -size else size, cs.dropWhile Char.isDigit)

/-- An exponent with its sign; absent means none was written. -/
def exponentPart? : List Char → Option (Option Int × List Char)
  | mark :: cs =>
      if mark = 'e' ∨ mark = 'E' then
        let read := match cs with
          | '-' :: cs => exponentDigits? true cs
          | '+' :: cs => exponentDigits? false cs
          | cs => exponentDigits? false cs
        read.map fun (exponent, rest) => (some exponent, rest)
      else some (none, mark :: cs)
  | [] => some (none, [])

def number? (negative : Bool) (cs : List Char) : Option (JsonNumber × List Char) := do
  let (whole, cs) ← wholePart? cs
  let (fraction, cs) ← fractionPart? cs
  let (exponent, cs) ← exponentPart? cs
  return (⟨negative, digitsValue (whole ++ fraction), exponent.getD 0 - fraction.length,
    fraction.isEmpty && exponent.isNone⟩, cs)

/-- A number without its sign. Where not even a digit follows, `missing` is the fault. -/
def readNumber (missing : Fault) (negative : Bool) (cs : List Char) : Read (Token × List Char) :=
  match number? negative cs with
  | some (n, rest) => .ok (.atom (.number n), rest)
  | none => .error (if cs.head?.any Char.isDigit then .number else missing, cs)

/-- The token at the front of a text, with the characters behind it. -/
def readToken : List Char → Read (Token × List Char)
  | '\x7b' :: cs => .ok (.openObject, cs)
  | '\x7d' :: cs => .ok (.closeObject, cs)
  | '[' :: cs => .ok (.openArray, cs)
  | ']' :: cs => .ok (.closeArray, cs)
  | ':' :: cs => .ok (.colon, cs)
  | ',' :: cs => .ok (.comma, cs)
  | 'n' :: 'u' :: 'l' :: 'l' :: cs => .ok (.atom .null, cs)
  | 't' :: 'r' :: 'u' :: 'e' :: cs => .ok (.atom (.bool true), cs)
  | 'f' :: 'a' :: 'l' :: 's' :: 'e' :: cs => .ok (.atom (.bool false), cs)
  | '"' :: cs =>
      match stringTail [] cs with
      | some (s, rest) => .ok (.atom (.string s), rest)
      | none => .error (.value, '"' :: cs)
  | '-' :: cs => readNumber .number true cs
  | cs => readNumber .value false cs

def isBlank (c : Char) : Bool := c = ' ' || c = '\n' || c = '\r' || c = '\t'

/-- All tokens of a text, each with the characters from it on. Every token takes at least one character, so as many
units of `fuel` as there are characters and one more are enough. -/
def readTokens : (fuel : Nat) → (done : List (Token × List Char)) → List Char → Read (List (Token × List Char))
  | 0, _, text => .error (.value, text)
  | fuel + 1, done, text =>
      match text.dropWhile isBlank with
      | [] => .ok done.reverse
      | c :: cs =>
          match readToken (c :: cs) with
          | .error fault => .error fault
          | .ok (token, rest) => readTokens fuel ((token, c :: cs) :: done) rest

/-- A fault at the first of some tokens, or at the end of the text. -/
def faultAt (fault : Fault) : List (Token × List Char) → Read α
  | [] => .error (fault, [])
  | (_, text) :: _ => .error (fault, text)

mutual

/-- One value at the front of the tokens. Each call spends one unit of `fuel`, so as many units as there are tokens and
one more are enough. -/
def readValue : (fuel : Nat) → List (Token × List Char) → Read (Json × List (Token × List Char))
  | 0, tokens => faultAt .value tokens
  | fuel + 1, tokens =>
      match tokens with
      | (.atom value, _) :: rest => .ok (value, rest)
      | (.openArray, _) :: (.closeArray, _) :: rest => .ok (.array [], rest)
      | (.openArray, _) :: rest => readItems fuel [] rest
      | (.openObject, _) :: (.closeObject, _) :: rest => .ok (.object [], rest)
      | (.openObject, _) :: rest => readMembers fuel [] rest
      | _ => faultAt .value tokens

def readItems : (fuel : Nat) → (done : List Json) → List (Token × List Char) → Read (Json × List (Token × List Char))
  | 0, _, tokens => faultAt .value tokens
  | fuel + 1, done, tokens =>
      match readValue fuel tokens with
      | .ok (value, (.comma, _) :: rest) => readItems fuel (value :: done) rest
      | .ok (value, (.closeArray, _) :: rest) => .ok (.array (value :: done).reverse, rest)
      | .ok (_, rest) => faultAt .itemEnd rest
      | .error fault => .error fault

def readMembers : (fuel : Nat) → (done : List (String × Json)) → List (Token × List Char) →
    Read (Json × List (Token × List Char))
  | 0, _, tokens => faultAt .value tokens
  | fuel + 1, done, tokens =>
      match tokens with
      | (.atom (.string name), _) :: (.colon, _) :: rest =>
          match readValue fuel rest with
          | .ok (value, (.comma, _) :: rest) => readMembers fuel (putMember name value done) rest
          | .ok (value, (.closeObject, _) :: rest) => .ok (.object (putMember name value done), rest)
          | .ok (_, rest) => faultAt .memberEnd rest
          | .error fault => .error fault
      | (.atom (.string _), _) :: rest => faultAt .colon rest
      | _ => faultAt .name tokens

end

def readText (text : List Char) : Read Json := do
  let tokens ← readTokens (text.length + 1) [] text
  match ← readValue (tokens.length + 1) tokens with
  | (value, []) => return value
  | (_, rest) => faultAt .trailing rest

def byteCount (text : List Char) : Nat := text.foldl (fun count c => count + c.utf8Size) 0

/-- The value that a line of text holds. -/
def parse (line : String) : Except ReadError Json :=
  let text := line.toList
  (readText text).mapError fun (fault, rest) => ⟨fault, byteCount text - byteCount rest + 1⟩

end Kashida.Json
