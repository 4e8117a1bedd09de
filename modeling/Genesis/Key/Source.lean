import Genesis.Bytes
import Genesis.Error
import Genesis.Hash.Keccak

/-! Streams of key pairs. -/

namespace Genesis

/-- An endless stream of key pairs. Either half of a pair may fail to be written out. -/
structure KeySource where
  publicKey : Nat → Except Error Bytes
  privateKey : Nat → Except Error Bytes

namespace KeySource

/-- The first `length` bytes of the digests of `label`, `index` and 0, 1, 2 and so on. -/
def expand (label : Bytes) (index length : Nat) : Bytes :=
  let blocks := (length + Keccak.digestLength - 1) / Keccak.digestLength
  ((List.range blocks).flatMap fun block =>
    Keccak.digest (label ++ littleEndian 8 index ++ littleEndian 4 block)).take length

/-- Both halves hashed from the pair's number. From pair `failFrom` on, none can be written out. -/
def numbered (publicLength privateLength : Nat) (failFrom : Option Nat := none) : KeySource :=
  let guarded (label : UInt8) (length i : Nat) : Except Error Bytes :=
    if failFrom.any (· ≤ i) then .error (.badKey "stub serialization failure")
    else .ok (expand [label] i length)
  { publicKey := guarded 1 publicLength, privateKey := guarded 0 privateLength }

def seedLength : Nat := 32

def scalarLength : Nat := 32

/-- Wallet keys hashed from `entropy`: a private key is a seed followed by the public key. -/
def wallets (entropy : Bytes) (publicLength : Nat) : KeySource :=
  { publicKey := fun i => .ok (expand (1 :: entropy) i publicLength)
    privateKey := fun i =>
      .ok (expand (0 :: entropy) i seedLength ++ expand (1 :: entropy) i publicLength) }

def validators (entropy : Bytes) (publicLength : Nat) : KeySource :=
  { publicKey := fun i => .ok (expand (3 :: entropy) i publicLength)
    privateKey := fun i => .ok (expand (2 :: entropy) i scalarLength) }

end KeySource

end Genesis
