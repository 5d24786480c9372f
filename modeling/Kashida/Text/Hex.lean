/-! Hexadecimal text of numbers and bytes. -/
namespace Kashida.Hex

/-- The value of a digit of either case. -/
def digit? (c : Char) : Option Nat :=
  if '0' ≤ c ∧ c ≤ '9' then some (c.toNat - '0'.toNat)
  else if 'a' ≤ c ∧ c ≤ 'f' then some (c.toNat - 'a'.toNat + 10)
  else if 'A' ≤ c ∧ c ≤ 'F' then some (c.toNat - 'A'.toNat + 10)
  else none

/-- The value of digits, most significant first. -/
def number? (digits : List Char) : Option Nat :=
  digits.foldlM (fun value c => (digit? c).map (value * 16 + ·)) 0

def digit (n : Nat) : Char := if n < 10 then Char.ofNat (48 + n) else Char.ofNat (87 + n)

/-- A number in at least `width` lowercase digits. -/
def ofNat (width n : Nat) : String :=
  let text := Nat.toDigits 16 n
  String.ofList (List.replicate (width - text.length) '0' ++ text)

/-- Two lowercase digits a byte. -/
def ofBytes (bytes : List UInt8) : String :=
  bytes.foldl (fun text byte => (text.push (digit (byte.toNat / 16))).push (digit (byte.toNat % 16))) ""

def pairs? : List Char → Option (List UInt8)
  | [] => some []
  | high :: low :: rest => do
      let high ← digit? high
      let low ← digit? low
      let bytes ← pairs? rest
      return UInt8.ofNat (high * 16 + low) :: bytes
  | _ => none

def toBytes? (text : String) : Option (List UInt8) := pairs? text.toList

end Kashida.Hex
