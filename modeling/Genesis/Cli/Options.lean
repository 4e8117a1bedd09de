import Genesis.Demo
import Genesis.Setup
import Genesis.Strategy.Plan

/-! What can be asked of the program, and which wishes do not go together. -/

namespace Genesis.Cli

structure Options where
  outputFolder : String := "output"
  shards : UInt32 := 3
  validatorsPerShard : UInt32 := 4
  observersPerShard : UInt32 := 1
  metaValidators : UInt32 := 4
  metaObservers : UInt32 := 1
  consensusSize : UInt32 := 3
  metaConsensusSize : UInt32 := 3
  totalSupply : String := Amount.render Amount.defaultTotalSupply
  nodePrice : String := Amount.render Amount.defaultNodePrice
  minimumBalance : String := Amount.render Amount.defaultMinimumBalance
  initialRating : UInt32 := defaultRating
  roundDuration : UInt64 := defaultRoundDuration
  hysteresis : Binary.Number := defaultHysteresis
  adaptivity : Bool := false
  chainId : String := defaultChainId
  transactionVersion : UInt32 := defaultTransactionVersion
  strategy : String := Kind.direct.name
  richest : Bool := false
  maxPerOwner : UInt64 := 1
  additional : UInt64 := 0
  delegators : UInt64 := 0
  delegatedNodes : UInt64 := 0
  owner : String := "erd1ulhw20j7jvgfgak5p05kv667k5k9f320sgef5ayxkt9784ql0zssrzyhjp"
  ownerNonce : UInt64 := 0
  machineType : String := Contract.defaultMachineType
  walletPrefix : String := KeyFormat.defaultPrefix
  everyShard : Bool := false
  traffic : Bool := false
  delegatorsFile : Bool := false
  seed : Option UInt64 := none
  demoAddresses : List String := []
  deriving DecidableEq, Repr

inductive Misfit where
  | noShards
  | noValidators
  | noMetaValidators
  | consensusSize (size validators : UInt32)
  | metaConsensusSize (size validators : UInt32)
  | demoCount
  | tooManyValidators
  | tooManyObservers
  deriving DecidableEq, Repr

def Misfit.message : Misfit → String
  | .noShards => "num-shards must be at least 1"
  | .noValidators => "num-validators-per-shard must be at least 1"
  | .noMetaValidators => "num-validators-meta must be at least 1"
  | .consensusSize size validators =>
    s!"consensus-group-size {size} must be between 1 and num-validators-per-shard {validators}"
  | .metaConsensusSize size validators =>
    s!"meta-consensus-group-size {size} must be between 1 and num-validators-meta {validators}"
  | .demoCount =>
    "demo-addresses takes exactly four addresses: faucet,web,controller,sponsor"
  | .tooManyValidators => "number of validators does not fit in u32"
  | .tooManyObservers => "number of observers does not fit in u32"

def nodeCount? (shards perShard inMeta : UInt32) : Option Nat :=
  let count := shards.toNat * perShard.toNat + inMeta.toNat
  if count < UInt32.size then some count else none

structure NodeCounts where
  validators : Nat
  observers : Nat
  deriving DecidableEq, Repr

namespace Options

def demo? (o : Options) : Option DemoAddresses := DemoAddresses.ofList? o.demoAddresses

/-- The numbers of nodes, if all wishes go together. The first misfit counts. -/
def counts? (o : Options) : Except Misfit NodeCounts := do
  if o.shards = 0 then throw .noShards
  if o.validatorsPerShard = 0 then throw .noValidators
  if o.metaValidators = 0 then throw .noMetaValidators
  if o.consensusSize = 0 ∨ o.validatorsPerShard < o.consensusSize then
    throw (.consensusSize o.consensusSize o.validatorsPerShard)
  if o.metaConsensusSize = 0 ∨ o.metaValidators < o.metaConsensusSize then
    throw (.metaConsensusSize o.metaConsensusSize o.metaValidators)
  if !o.demoAddresses.isEmpty && o.demo?.isNone then throw .demoCount
  let some validators := nodeCount? o.shards o.validatorsPerShard o.metaValidators
    | throw .tooManyValidators
  let some observers := nodeCount? o.shards o.observersPerShard o.metaObservers
    | throw .tooManyObservers
  return { validators, observers }

def network (o : Options) : NetworkConfig :=
  { roundDuration := o.roundDuration, consensusGroupSize := o.consensusSize
    minNodesPerShard := o.validatorsPerShard, metaConsensusGroupSize := o.metaConsensusSize
    metaMinNodes := o.metaValidators, hysteresis := o.hysteresis, adaptivity := o.adaptivity
    chainId := o.chainId, minTransactionVersion := o.transactionVersion }

end Options

end Genesis.Cli
