import Genesis.Setup
import Genesis.Key.Format
import Genesis.Shard

/-! Accounts for a generator of transactions, grouped by shard. -/

namespace Genesis

structure TrafficAccount where
  pubKey : String
  /-- In base 16. -/
  privKey : String
  lastNonce : UInt64
  balance : Int
  tokenBalance : Int
  canReuseNonce : Bool
  deriving DecidableEq, Repr, Inhabited

/-- Accounts by shard, in ascending order. -/
abbrev TrafficGroups := List (Nat × List TrafficAccount)

namespace TrafficAccount

def ofWallet (format : KeyFormat) (wallet : WalletKey) : Except Error TrafficAccount := do
  let pubKey ← format.encode wallet.publicKey
  return { pubKey, privKey := Hex.encode wallet.privateKey, lastNonce := 0,
           balance := wallet.balance, tokenBalance := 0, canReuseNonce := true }

def insert (shard : Nat) (a : TrafficAccount) : TrafficGroups → TrafficGroups
  | [] => [(shard, [a])]
  | (s, group) :: rest =>
    if shard < s then (shard, [a]) :: (s, group) :: rest
    else if shard = s then (s, group ++ [a]) :: rest
    else (s, group) :: insert shard a rest

def groupInto (format : KeyFormat) (coordinator : Coordinator) (groups : TrafficGroups) :
    List WalletKey → Except Error TrafficGroups
  | [] => .ok groups
  | wallet :: rest => do
    let a ← ofWallet format wallet
    groupInto format coordinator (insert (coordinator.shardOf wallet.publicKey) a groups) rest

def group (format : KeyFormat) (coordinator : Coordinator) (wallets : List WalletKey) :
    Except Error TrafficGroups :=
  groupInto format coordinator [] wallets

end TrafficAccount

namespace Json

def ofTraffic (a : TrafficAccount) : Json :=
  .object
    [("pubKey", .string a.pubKey), ("privKey", .string a.privKey),
     ("lastNonce", .ofNat a.lastNonce.toNat), ("balance", .string (Amount.render a.balance)),
     ("tokenBalance", .string (Amount.render a.tokenBalance)),
     ("canReuseNonce", .bool a.canReuseNonce)]

def ofTrafficGroups (groups : TrafficGroups) : Json :=
  .object (groups.map fun (shard, accounts) =>
    (Amount.render (shard : Int), .array (accounts.map ofTraffic)))

def Reader.traffic : Reader TrafficAccount := fun d => do
  let values ←
    row [field "pubKey" text, field "privKey" text, field "lastNonce" word64,
      field "balance" amount, field "tokenBalance" amount, field "canReuseNonce" flag] d
  let pubKey ← fetch values "pubKey" text
  let privKey ← fetch values "privKey" text
  let lastNonce ← fetch values "lastNonce" word64
  let balance ← fetch values "balance" amount
  let tokenBalance ← fetch values "tokenBalance" amount
  let canReuseNonce ← fetch values "canReuseNonce" flag
  return { pubKey, privKey, lastNonce, balance, tokenBalance, canReuseNonce }

end Json

end Genesis
