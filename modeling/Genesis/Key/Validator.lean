import Genesis.Key.Basic
import Genesis.Key.Source

/-! Drawing validator keys from a stream. -/

namespace Genesis.KeySource

def validatorKey (source : KeySource) (i : Nat) : Except Error BlsKey := do
  let publicKey ← source.publicKey i
  let privateKey ← source.privateKey i
  return { publicKey, privateKey }

/-- Draws `n` keys from place `i` on, and tells the place behind the last pair drawn. A failure
ends the draw and names the place of its key among those asked for, the first being `index`. -/
def validatorKeysFrom (source : KeySource) (index : Nat) :
    (n i : Nat) → Except Error (List BlsKey) × Nat
  | 0, i => (.ok [], i)
  | n + 1, i =>
    match source.validatorKey i with
    | .error e => (.error (.atIndex index e), i + 1)
    | .ok key =>
      match source.validatorKeysFrom (index + 1) n (i + 1) with
      | (.error e, j) => (.error e, j)
      | (.ok keys, j) => (.ok (key :: keys), j)

def validatorKeys (source : KeySource) (n i : Nat) : Except Error (List BlsKey) × Nat :=
  source.validatorKeysFrom 0 n i

end Genesis.KeySource
