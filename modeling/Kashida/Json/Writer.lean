import Kashida.Json.Basic
import Kashida.Text.Hex

/-! Writing JSON text without white space. -/
namespace Kashida.Json

def escape (c : Char) : String :=
  if c = '"' then "\\\""
  else if c = '\\' then "\\\\"
  else if c.toNat < 0x20 then "\\u" ++ Hex.ofNat 4 c.toNat
  else c.toString

def writeString (out : String) (s : String) : String :=
  s.foldl (fun out c => out ++ escape c) (out ++ "\"") ++ "\""

def numberText (n : JsonNumber) : String :=
  let digits := (if n.negative then "-" else "") ++ toString n.coefficient
  if n.plain then digits else digits ++ "e" ++ toString n.exponent

mutual

/-- Appends a value to the text written so far. -/
def write (out : String) : Json → String
  | .null => out ++ "null"
  | .bool true => out ++ "true"
  | .bool false => out ++ "false"
  | .number n => out ++ numberText n
  | .string s => writeString out s
  | .array items => writeItems (out ++ "[") items ++ "]"
  | .object members => writeMembers (out ++ "\x7b") members ++ "\x7d"

def writeItems (out : String) : List Json → String
  | [] => out
  | [item] => write out item
  | item :: rest => writeItems (write out item ++ ",") rest

def writeMembers (out : String) : List (String × Json) → String
  | [] => out
  | [(name, value)] => write (writeString out name ++ ":") value
  | (name, value) :: rest => writeMembers (write (writeString out name ++ ":") value ++ ",") rest

end

def text (value : Json) : String := write "" value

end Kashida.Json
