import Genesis.Key.Basic
import Genesis.Key.Source
import Genesis.Random.Basic

/-!
Drawing wallet keys from a stream, on demand one for each shard in turn, and grouping validators
under owner wallets.
-/

namespace Genesis

structure WalletRules where
  keys : KeySource
  /-- The stake for one validator. -/
  nodePrice : Int
  shards : Nat
  /-- Whether the keys fall into the shards in turn, by their last byte. -/
  everyShard : Bool

structure WalletCursor (ρ : Type) where
  taken : Nat := 0
  /-- The shard whose turn it is. -/
  shard : Nat := 0
  randomizer : ρ

namespace WalletRules

/-- A shard is recognised by a single byte, so there can be no more of them. -/
def maxShards : Nat := 256

/-- The rules and the start of the draws, if all that they need is there. -/
def start? {ρ : Type} (keys : Option KeySource) (randomizer : Option ρ) (nodePrice : Option Int)
    (shards : Nat) (everyShard : Bool) : Except Error (WalletRules × WalletCursor ρ) := do
  let some keys := keys | throw .noKeySource
  let some randomizer := randomizer | throw .noRandomizer
  let some nodePrice := nodePrice | throw .noNodePrice
  if shards = 0 then throw .noShards
  if everyShard && maxShards < shards then throw (.invalidValue "NumShards")
  return ({ keys, nodePrice, shards, everyShard }, { randomizer })

def accepts (rules : WalletRules) (shard : Nat) (publicKey : Bytes) : Bool :=
  !rules.everyShard || publicKey.getLast?.any (·.toNat = shard)

/-- Looks for the next accepted pair from place `i` on, and tells the place behind the last pair
looked at. The private half of a pair that is passed over is never written out. Nothing comes of a
search that passes over all pairs there are. -/
def search (rules : WalletRules) (shard i : Nat) : Option (Except Error WalletKey × Nat) :=
  match rules.keys.publicKey i with
  | .error e => some (.error e, i + 1)
  | .ok publicKey =>
    if publicKey.isEmpty then some (.error (.badKey "empty wallet public key"), i + 1)
    else if rules.accepts shard publicKey then
      match rules.keys.privateKey i with
      | .error e => some (.error e, i + 1)
      | .ok privateKey => some (.ok { publicKey, privateKey }, i + 1)
    else rules |>.search shard (i + 1)
partial_fixpoint

variable {ρ : Type}

/-- Draws one wallet; the turn passes to the next shard only if that succeeds. Where the search goes
on for ever, so does this draw and all that it is a part of. -/
def next (rules : WalletRules) (c : WalletCursor ρ) :
    Option (Except Error WalletKey × WalletCursor ρ) :=
  match rules.search c.shard c.taken with
  | none => none
  | some (.error e, taken) => some (.error e, { c with taken })
  | some (.ok key, taken) =>
    some (.ok key, { c with taken, shard := (c.shard + 1) % rules.shards })

def walletsFrom (rules : WalletRules) (index : Nat) :
    Nat → WalletCursor ρ → Option (Except Error (List WalletKey) × WalletCursor ρ)
  | 0, c => some (.ok [], c)
  | n + 1, c =>
    match rules.next c with
    | none => none
    | some (.error e, c) => some (.error (.atIndex index e), c)
    | some (.ok key, c) =>
      match rules.walletsFrom (index + 1) n c with
      | none => none
      | some (.error e, c) => some (.error e, c)
      | some (.ok keys, c) => some (.ok (key :: keys), c)

def wallets (rules : WalletRules) (n : Nat) (c : WalletCursor ρ) :
    Option (Except Error (List WalletKey) × WalletCursor ρ) :=
  rules.walletsFrom 0 n c

/-- The number of validators for the next owner, before it is cut to those that are left: always
one if no owner may have more, else one more than the randomizer's answer below `limit - 1`. -/
def batch [Randomizer ρ] (limit : Nat) (randomizer : ρ) : Nat × ρ :=
  if limit = 1 then (1, randomizer)
  else
    let (answer, randomizer) := Randomizer.below randomizer (limit - 1)
    (answer + 1, randomizer)

theorem batch_pos [Randomizer ρ] (limit : Nat) (randomizer : ρ) :
    0 < (batch limit randomizer).1 := by
  unfold batch; split <;> simp

theorem batch_lt [Randomizer ρ] {limit : Nat} (h : limit < UInt64.size) (randomizer : ρ) :
    (batch limit randomizer).1 < UInt64.size := by
  unfold batch
  split
  · exact (by decide : 1 < UInt64.size)
  · exact Randomizer.succ_lt randomizer (Nat.lt_of_le_of_lt (Nat.sub_le limit 1) h)

/-- Groups the validators of `pool`, in order, under new wallets. The number of an owner's
validators is drawn before its key. -/
def ownersFrom [Randomizer ρ] (rules : WalletRules) (limit index : Nat) (pool : List BlsKey)
    (start : WalletCursor ρ) : Option (Except Error (List WalletKey) × WalletCursor ρ) :=
  match pool with
  | [] => some (.ok [], start)
  | first :: others =>
    let size := (batch limit start.randomizer).1
    let owned := (first :: others).take size
    match rules.next { start with randomizer := (batch limit start.randomizer).2 } with
    | none => none
    | some (.error e, c) => some (.error (.atIndex index e), c)
    | some (.ok key, c) =>
      let owner := { key with blsKeys := owned, staked := rules.nodePrice * (owned.length : Int) }
      match rules.ownersFrom limit (index + 1) ((first :: others).drop size) c with
      | none => none
      | some (.error e, c) => some (.error e, c)
      | some (.ok owners, c) => some (.ok (owner :: owners), c)
termination_by pool.length
decreasing_by
  have := batch_pos limit start.randomizer
  simp only [List.length_drop, List.length_cons]
  omega

def owners [Randomizer ρ] (rules : WalletRules) (pool : List BlsKey) (limit : Nat)
    (c : WalletCursor ρ) : Option (Except Error (List WalletKey) × WalletCursor ρ) :=
  if limit < 1 then some (.error (.invalidValue "maxNumKeysOnOwner"), c)
  else rules.ownersFrom limit 0 pool c

end WalletRules

end Genesis
