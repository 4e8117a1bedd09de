import Genesis.Hash.Keccak
import Genesis.Key.Format

/-!
The address of a contract: the digest of its creator and nonce, with the machine type written in
front and the creator's last bytes behind, so that it falls into the creator's shard.
-/

namespace Genesis.Contract

def machineTypeLength : Nat := 2

def zeroLength : Nat := 8

/-- The bytes at the end that a contract shares with its creator. -/
def sharedLength : Nat := 2

def defaultMachineType : String := "0500"

/-- The address of the contract that `creator` makes at `nonce`, addresses of creators having
`addressLength` bytes. It breaks off at a creator that has not even the bytes to be shared. -/
def derive (addressLength : Nat) (creator : Bytes) (nonce : Nat) (machineType : Bytes) :
    Attempt Bytes :=
  if creator.length ≠ addressLength then
    some (.error (.badDerivation
      s!"creator address length {creator.length} not correct, expected {addressLength}"))
  else if machineType.length ≠ machineTypeLength then
    some (.error (.badDerivation
      s!"vm type length {machineType.length} not correct, expected {machineTypeLength}"))
  else if creator.length < sharedLength then none
  else
    let digest := Keccak.digest (creator ++ littleEndian 8 nonce)
    let middle := (digest.drop (zeroLength + machineTypeLength)).take
      (Keccak.digestLength - zeroLength - machineTypeLength - sharedLength)
    some (.ok (List.replicate zeroLength 0 ++ machineType ++ middle ++
      creator.drop (creator.length - sharedLength)))

/-- The written address of the contract of a written owner, the machine type standing in base 16. -/
def deriveText (format : KeyFormat) (addressLength : Nat) (owner : String) (nonce : Nat)
    (machineType : String) : Attempt String := do
  let creator ← format.decode owner
  let machineBytes ←
    match Hex.decode machineType with
    | .ok bytes => pure bytes
    | .error fault => throw (.badDerivation s!"vm type {machineType}: {fault.message}")
  let address ← derive addressLength creator nonce machineBytes
  format.encode address

end Genesis.Contract
