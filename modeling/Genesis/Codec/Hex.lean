import Genesis.Bytes
import Genesis.Text.Quoted

/-! Byte strings as pairs of digits in base 16. -/

namespace Genesis.Hex

inductive Fault where
  | oddLength
  | badDigit (byte : UInt8) (index : Nat)
  deriving DecidableEq, Repr

def Fault.message : Fault → String
  | .oddLength => "Odd number of digits"
  | .badDigit byte index => s!"Invalid character {Text.quoteByte byte} at position {index}"

def digit (n : Nat) : Char := Nat.digitChar n

def digitValue (b : UInt8) : Option Nat :=
  let n := b.toNat
  if 48 ≤ n ∧ n ≤ 57 then some (n - 48)
  else if 97 ≤ n ∧ n ≤ 102 then some (n - 87)
  else if 65 ≤ n ∧ n ≤ 70 then some (n - 55)
  else none

def encodeByte (b : UInt8) : List Char := [digit (b.toNat / 16), digit (b.toNat % 16)]

def encode (bytes : Bytes) : String := String.ofList (bytes.flatMap encodeByte)

def utf8 (text : List Char) : Bytes := text.flatMap String.utf8EncodeChar

def decodePairs (index : Nat) : Bytes → Except Fault Bytes
  | [] => .ok []
  | [_] => .error .oddLength
  | a :: b :: rest =>
    match digitValue a with
    | none => .error (.badDigit a index)
    | some high =>
      match digitValue b with
      | none => .error (.badDigit b (index + 1))
      | some low => do
        let bytes ← decodePairs (index + 2) rest
        return UInt8.ofNat (16 * high + low) :: bytes

/-- An odd number of bytes is refused before any of them is looked at. -/
def decode (text : String) : Except Fault Bytes :=
  let bytes := utf8 text.toList
  if bytes.length % 2 = 1 then .error .oddLength else decodePairs 0 bytes

end Genesis.Hex
