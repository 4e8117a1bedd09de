import Genesis.Account
import Genesis.Json.Single

/-! The description of a network that nodes start from, and the JSON forms of genesis entries. -/

namespace Genesis

def defaultRoundDuration : UInt64 := 6000

def defaultHysteresis : Binary.Number := Binary.ofDecimal false 2 (-1)

def defaultChainId : String := "testnet"

def defaultTransactionVersion : UInt32 := 1

structure NetworkConfig where
  /-- In milliseconds. -/
  roundDuration : UInt64 := defaultRoundDuration
  consensusGroupSize : UInt32 := 1
  minNodesPerShard : UInt32 := 1
  metaConsensusGroupSize : UInt32 := 1
  metaMinNodes : UInt32 := 1
  hysteresis : Binary.Number := defaultHysteresis
  adaptivity : Bool := false
  chainId : String := defaultChainId
  minTransactionVersion : UInt32 := defaultTransactionVersion
  deriving DecidableEq, Repr

structure NodesSetup where
  startTime : Int64 := 0
  config : NetworkConfig
  initialNodes : List Node
  deriving DecidableEq, Repr

namespace Json

def ofDelegation (d : Delegation) : Json :=
  .object [("address", .string d.address), ("value", .string (Amount.render d.value))]

def ofAccount (a : Account) : Json :=
  .object
    [("address", .string a.address), ("supply", .string (Amount.render a.supply)),
     ("balance", .string (Amount.render a.balance)),
     ("stakingValue", .string (Amount.render a.stakingValue)),
     ("delegation", ofDelegation a.delegation)]

def ofNode (n : Node) : Json :=
  .object
    [("pubKey", .string n.pubKey), ("address", .string n.address),
     ("initialRating", .ofNat n.initialRating.toNat)]

def ofSetup (s : NodesSetup) : Json :=
  .object
    [("startTime", .ofInt s.startTime.toInt),
     ("roundDuration", .ofNat s.config.roundDuration.toNat),
     ("consensusGroupSize", .ofNat s.config.consensusGroupSize.toNat),
     ("minNodesPerShard", .ofNat s.config.minNodesPerShard.toNat),
     ("metaChainConsensusGroupSize", .ofNat s.config.metaConsensusGroupSize.toNat),
     ("metaChainMinNodes", .ofNat s.config.metaMinNodes.toNat),
     ("hysteresis", ofSingle s.config.hysteresis), ("adaptivity", .bool s.config.adaptivity),
     ("chainID", .string s.config.chainId),
     ("minTransactionVersion", .ofNat s.config.minTransactionVersion.toNat),
     ("initialNodes", .array (s.initialNodes.map ofNode))]

namespace Reader

def delegation : Reader Delegation := fun d => do
  let values ← row [field "address" text, field "value" amount] d
  let address ← fetch values "address" text
  let value ← fetch values "value" amount
  return { address, value }

def account : Reader Account := fun d => do
  let values ←
    row [field "address" text, field "supply" amount, field "balance" amount,
      field "stakingValue" amount, field "delegation" delegation] d
  let address ← fetch values "address" text
  let supply ← fetch values "supply" amount
  let balance ← fetch values "balance" amount
  let stakingValue ← fetch values "stakingValue" amount
  let delegation ← fetch values "delegation" delegation
  return { address, supply, balance, stakingValue, delegation }

def node : Reader Node := fun d => do
  let values ←
    row [field "pubKey" text, field "address" text, field "initialRating" word32] d
  let pubKey ← fetch values "pubKey" text
  let address ← fetch values "address" text
  let initialRating ← fetch values "initialRating" word32
  return { pubKey, address, initialRating }

def setup : Reader NodesSetup := fun d => do
  let values ←
    row [field "startTime" signed64, field "roundDuration" word64,
      field "consensusGroupSize" word32, field "minNodesPerShard" word32,
      field "metaChainConsensusGroupSize" word32, field "metaChainMinNodes" word32,
      field "hysteresis" single, field "adaptivity" flag, field "chainID" text,
      field "minTransactionVersion" word32, field "initialNodes" (list node)] d
  let startTime ← fetch values "startTime" signed64
  let roundDuration ← fetch values "roundDuration" word64
  let consensusGroupSize ← fetch values "consensusGroupSize" word32
  let minNodesPerShard ← fetch values "minNodesPerShard" word32
  let metaConsensusGroupSize ← fetch values "metaChainConsensusGroupSize" word32
  let metaMinNodes ← fetch values "metaChainMinNodes" word32
  let hysteresis ← fetch values "hysteresis" single
  let adaptivity ← fetch values "adaptivity" flag
  let chainId ← fetch values "chainID" text
  let minTransactionVersion ← fetch values "minTransactionVersion" word32
  let initialNodes ← fetch values "initialNodes" (list node)
  let config : NetworkConfig :=
    { roundDuration, consensusGroupSize, minNodesPerShard, metaConsensusGroupSize, metaMinNodes,
      hysteresis, adaptivity, chainId, minTransactionVersion }
  return { startTime, config, initialNodes }

end Reader

end Json

end Genesis
