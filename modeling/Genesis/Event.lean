import Genesis.Amount

/-! What is reported on the way to a genesis. -/

namespace Genesis

structure Totals where
  supply : Int := 0
  staked : Int := 0
  balance : Int := 0
  delegated : Int := 0
  deriving DecidableEq, Repr, Inhabited

inductive Event where
  | strategyChosen (name : String)
  | contractDerived (address : String)
  | ownersGrouped (owners validators : Nat)
  | directGenerated (validators observers owners additional : Nat) (staked : Int)
  | delegatedGenerated (validators observers delegators additional : Nat) (contract : String)
  | mixedGenerated (validators observers delegated owners delegators additional : Nat)
  | accountsChecked (totals : Totals)
  | demoApplied (firstIndex : Nat)
  | delegatorsSkipped
  | trafficSkipped
  | filesWritten (accounts nodes wallets delegators : Nat)
  deriving DecidableEq, Repr

namespace Event

inductive Level where
  | info
  | debug
  deriving DecidableEq, Repr

def Level.name : Level → String
  | .info => "INFO"
  | .debug => "DEBUG"

def level : Event → Level
  | .contractDerived _ | .ownersGrouped _ _ | .delegatorsSkipped | .trafficSkipped => .debug
  | _ => .info

def message : Event → String
  | .strategyChosen _ => "creating data generator"
  | .contractDerived _ => "derived delegation contract address"
  | .ownersGrouped _ _ => "grouped validators under owner wallets"
  | .directGenerated .. => "generated direct staking data"
  | .delegatedGenerated .. => "generated delegated staking data"
  | .mixedGenerated .. => "generated mixed staking data"
  | .accountsChecked _ => "checked values"
  | .demoApplied _ => "applied demo addresses"
  | .delegatorsSkipped => "delegators file not requested, skipping delegator keys"
  | .trafficSkipped => "txgen accounts file not requested, skipping"
  | .filesWritten .. => "output files written"

def count (n : Nat) : String := Amount.render (n : Int)

def fields : Event → List (String × String)
  | .strategyChosen name => [("generation_type", name)]
  | .contractDerived address => [("address", address)]
  | .ownersGrouped owners validators =>
    [("owners", count owners), ("validators", count validators)]
  | .directGenerated validators observers owners additional staked =>
    [("validators", count validators), ("observers", count observers), ("owners", count owners),
     ("additional", count additional), ("staked", Amount.render staked)]
  | .delegatedGenerated validators observers delegators additional contract =>
    [("validators", count validators), ("observers", count observers),
     ("delegators", count delegators), ("additional", count additional), ("contract", contract)]
  | .mixedGenerated validators observers delegated owners delegators additional =>
    [("validators", count validators), ("observers", count observers),
     ("delegated", count delegated), ("owners", count owners), ("delegators", count delegators),
     ("additional", count additional)]
  | .accountsChecked totals =>
    [("total_supply", Amount.render totals.supply), ("total_staked", Amount.render totals.staked),
     ("total_balance", Amount.render totals.balance),
     ("total_delegated", Amount.render totals.delegated)]
  | .demoApplied firstIndex => [("first_index", count firstIndex)]
  | .delegatorsSkipped => []
  | .trafficSkipped => []
  | .filesWritten accounts nodes wallets delegators =>
    [("accounts", count accounts), ("nodes", count nodes), ("wallets", count wallets),
     ("delegators", count delegators)]

end Event

end Genesis
