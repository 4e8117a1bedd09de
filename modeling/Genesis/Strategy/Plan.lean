import Genesis.Account
import Genesis.Contract
import Genesis.Event
import Genesis.Key.Validator
import Genesis.Key.Wallet
import Genesis.Strategy.Kind

/-! From what is asked of a generation to a plan that can be carried out again and again. -/

namespace Genesis

/-- All that can be asked of a generation. The strategy decides what of it counts. -/
structure Request (ρ : Type) where
  strategy : String := Kind.direct.name
  validatorKeys : Option KeySource := none
  walletKeys : Option KeySource := none
  walletFormat : Option KeyFormat := none
  validatorFormat : Option KeyFormat := none
  validators : Nat := 0
  observers : Nat := 0
  additional : Nat := 0
  richest : Bool := false
  nodePrice : Option Int := none
  totalSupply : Int := Amount.defaultTotalSupply
  minimumBalance : Int := Amount.defaultMinimumBalance
  initialRating : UInt32 := defaultRating
  shards : Nat := 1
  everyShard : Bool := false
  maxPerOwner : Nat := 1
  randomizer : Option ρ := none
  owner : String := ""
  ownerNonce : Nat := 0
  machineType : String := Contract.defaultMachineType
  addressLength : Nat := KeyFormat.walletSize
  delegators : Nat := 0
  delegatedNodes : Nat := 0

structure Terms where
  validatorKeys : KeySource
  walletRules : WalletRules
  walletFormat : KeyFormat
  validatorFormat : KeyFormat
  validators : Nat
  observers : Nat
  additional : Nat
  richest : Bool
  totalSupply : Int
  minimumBalance : Int
  initialRating : UInt32

structure Pool where
  address : String
  bytes : Bytes
  delegators : Nat

/-- What a strategy goes by besides the common terms. -/
inductive Staking where
  | direct (maxPerOwner : Nat)
  | delegated (pool : Pool)
  | mixed (pool : Pool) (delegatedNodes maxPerOwner : Nat)

def Staking.kind : Staking → Kind
  | .direct _ => .direct
  | .delegated _ => .delegated
  | .mixed .. => .mixed

structure Plan where
  terms : Terms
  staking : Staking

structure Progress (ρ : Type) where
  validatorsTaken : Nat := 0
  wallets : WalletCursor (Option ρ)
  journal : List Event := []

namespace Request

variable {ρ : Type}

def terms (r : Request ρ) (randomizer : Option ρ) :
    Except Error (Terms × WalletCursor (Option ρ)) := do
  let some walletFormat := r.walletFormat | throw (.noConverter "wallets")
  let some validatorFormat := r.validatorFormat | throw (.noConverter "validators")
  if r.minimumBalance < 0 then throw (.invalidValue "MinimumBalance")
  let some validatorKeys := r.validatorKeys | throw .noKeySource
  let (walletRules, cursor) ←
    WalletRules.start? r.walletKeys (some randomizer) r.nodePrice r.shards r.everyShard
  return ({ validatorKeys, walletRules, walletFormat, validatorFormat, validators := r.validators,
            observers := r.observers, additional := r.additional, richest := r.richest,
            totalSupply := r.totalSupply, minimumBalance := r.minimumBalance,
            initialRating := r.initialRating }, cursor)

def pool (r : Request ρ) (walletFormat : KeyFormat) : Attempt Pool := do
  let address ←
    Contract.deriveText walletFormat r.addressLength r.owner r.ownerNonce r.machineType
  let bytes ← walletFormat.decode address
  return { address, bytes, delegators := r.delegators }

def delegatedTerms (r : Request ρ) (randomizer : Option ρ) :
    Attempt (Terms × WalletCursor (Option ρ) × Pool) := do
  if r.walletFormat.isNone then throw (.noConverter "wallets")
  if r.validatorFormat.isNone then throw (.noConverter "validators")
  if r.delegators = 0 then throw (.invalidValue "NumDelegators")
  let (terms, cursor) ← r.terms randomizer
  let pool ← r.pool terms.walletFormat
  return (terms, cursor, pool)

def directPlan (r : Request ρ) : Except Error (Plan × Progress ρ) := do
  if r.maxPerOwner = 0 then throw (.invalidValue "MaxNumNodesOnOwner")
  let some randomizer := r.randomizer | throw .noRandomizer
  let (terms, cursor) ← r.terms randomizer
  return ({ terms, staking := .direct r.maxPerOwner },
    { wallets := cursor, journal := [.strategyChosen Kind.direct.name] })

/-- No validators are grouped, so there is nothing to choose at random. -/
def delegatedPlan (r : Request ρ) : Attempt (Plan × Progress ρ) := do
  let (terms, cursor, pool) ← r.delegatedTerms none
  return ({ terms, staking := .delegated pool },
    { wallets := cursor,
      journal := [.strategyChosen Kind.delegated.name, .contractDerived pool.address] })

def mixedPlan (r : Request ρ) : Attempt (Plan × Progress ρ) := do
  if r.delegatedNodes = 0 ∨ r.validators < r.delegatedNodes then
    throw (.invalidValue "NumDelegatedNodes")
  if r.maxPerOwner = 0 then throw (.invalidValue "MaxNumNodesOnOwner")
  let some randomizer := r.randomizer | throw .noRandomizer
  let (terms, cursor, pool) ← r.delegatedTerms randomizer
  return ({ terms, staking := .mixed pool r.delegatedNodes r.maxPerOwner },
    { wallets := cursor,
      journal := [.strategyChosen Kind.mixed.name, .contractDerived pool.address] })

def plan (r : Request ρ) : Attempt (Plan × Progress ρ) := do
  match ← Kind.ofName? r.strategy with
  | .direct => r.directPlan
  | .delegated => r.delegatedPlan
  | .mixed => r.mixedPlan

end Request

end Genesis
