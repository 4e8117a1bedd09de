import Genesis.Bytes

/-! Byte strings in base 64, with the standard alphabet and padding. -/

namespace Genesis.Base64

def alphabet : List Char :=
  "ABCDEFGHIJKLMNOPQRSTUVWXYZabcdefghijklmnopqrstuvwxyz0123456789+/".toList

def digit (n : Nat) : Char := alphabet.getD n 'A'

def digitValue (c : Char) : Option Nat := alphabet.findIdx? (· = c)

def encode : Bytes → List Char
  | [] => []
  | [a] => [digit (a.toNat / 4), digit (a.toNat % 4 * 16), '=', '=']
  | [a, b] =>
    [digit (a.toNat / 4), digit (a.toNat % 4 * 16 + b.toNat / 16), digit (b.toNat % 16 * 4), '=']
  | a :: b :: c :: rest =>
    digit (a.toNat / 4) :: digit (a.toNat % 4 * 16 + b.toNat / 16) ::
      digit (b.toNat % 16 * 4 + c.toNat / 64) :: digit (c.toNat % 64) :: encode rest

def firstByte (p q : Nat) : UInt8 := UInt8.ofNat (p * 4 + q / 16)

def secondByte (q r : Nat) : UInt8 := UInt8.ofNat (q % 16 * 16 + r / 4)

def thirdByte (r s : Nat) : UInt8 := UInt8.ofNat (r % 4 * 64 + s)

def decode : List Char → Option Bytes
  | [] => some []
  | [p, q, '=', '='] => do
    let p ← digitValue p
    let q ← digitValue q
    if q % 16 = 0 then some [firstByte p q] else none
  | [p, q, r, '='] => do
    let p ← digitValue p
    let q ← digitValue q
    let r ← digitValue r
    if r % 4 = 0 then some [firstByte p q, secondByte q r] else none
  | p :: q :: r :: s :: rest => do
    let p ← digitValue p
    let q ← digitValue q
    let r ← digitValue r
    let s ← digitValue s
    let bytes ← decode rest
    return firstByte p q :: secondByte q r :: thirdByte r s :: bytes
  | _ => none

end Genesis.Base64
