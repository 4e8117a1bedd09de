import Genesis.Balance
import Genesis.Strategy.Draw

/-! From the keys of one generation to its accounts and nodes, the supply being shared out. -/

namespace Genesis

namespace Terms

def remaining (t : Terms) (used : Int) : Except Error Int :=
  if t.totalSupply - used < 0 then .error (.supplyTooSmall t.totalSupply used)
  else .ok (t.totalSupply - used)

def fund (t : Terms) (wallets additional : List WalletKey) (balance : Int) :
    Except Error (List WalletKey × List WalletKey) := do
  let (share, rest) ←
    splitBalance (wallets.length + additional.length) balance t.minimumBalance t.richest
  return (giveBalance share rest (wallets ++ additional)).splitAt wallets.length

def stake (t : Terms) (n : Nat) : Int := t.walletRules.nodePrice * n

def walletAccount (t : Terms) (wallet : WalletKey) : Except Error Account := do
  let address ← t.walletFormat.encode wallet.publicKey
  return .ofParts address wallet.balance wallet.staked {}

def delegatorAccount (t : Terms) (delegator : WalletKey) : Except Error Account := do
  let contract ← t.walletFormat.encode delegator.contract
  let address ← t.walletFormat.encode delegator.publicKey
  return .ofParts address delegator.balance 0 { address := contract, value := delegator.delegated }

def nodesAt (t : Terms) (address : String) (keys : List BlsKey) : Except Error (List Node) :=
  keys.mapM fun key => do
    let pubKey ← t.validatorFormat.encode key.publicKey
    return { pubKey, address, initialRating := t.initialRating }

def ownedNodes (t : Terms) (wallet : WalletKey) : Except Error (List Node) := do
  let address ← t.walletFormat.encode wallet.publicKey
  t.nodesAt address wallet.blsKeys

def settleDirect (t : Terms) (m : Material) : Except Error Bundle := do
  if m.wallets.isEmpty && m.additional.isEmpty then throw .noWallets
  let balance ← t.remaining (totalStaked m.wallets)
  let (wallets, additional) ← t.fund m.wallets m.additional balance
  let owned ← wallets.mapM fun wallet => do
    let account ← t.walletAccount wallet
    let nodes ← t.ownedNodes wallet
    return (account, nodes)
  let others ← additional.mapM t.walletAccount
  return { validators := m.validators, observers := m.observers, wallets, additional
           accounts := owned.map (·.1) ++ others, nodes := (owned.map (·.2)).flatten }

/-- The delegators' accounts come first, then those of the wallets. -/
def accountsOf (t : Terms) (delegators wallets additional : List WalletKey) :
    Except Error (List Account) := do
  let first ← delegators.mapM t.delegatorAccount
  let others ← (wallets ++ additional).mapM t.walletAccount
  return first ++ others

def settleDelegated (t : Terms) (pool : Pool) (m : Material) : Except Error Bundle := do
  if m.wallets.isEmpty then throw .noWallets
  let stake := t.stake m.validators.length
  let delegators := giveDelegation pool.bytes stake t.minimumBalance m.delegators
  let balance ← t.remaining (delegationCost stake t.minimumBalance m.delegators.length)
  let (wallets, additional) ← t.fund m.wallets m.additional balance
  let accounts ← t.accountsOf delegators wallets additional
  let nodes ← t.nodesAt pool.address m.validators
  return { validators := m.validators, observers := m.observers, wallets, additional, delegators
           accounts, nodes }

def settleMixed (t : Terms) (pool : Pool) (delegatedNodes : Nat) (m : Material) :
    Except Error Bundle := do
  let delegated := m.validators.take delegatedNodes
  let stake := t.stake delegated.length
  let delegators := giveDelegation pool.bytes stake t.minimumBalance m.delegators
  let balance ← t.remaining
    (delegationCost stake t.minimumBalance m.delegators.length + totalStaked m.wallets)
  let (wallets, additional) ← t.fund m.wallets m.additional balance
  let accounts ← t.accountsOf delegators wallets additional
  let pooled ← t.nodesAt pool.address delegated
  let owned ← wallets.mapM t.ownedNodes
  return { validators := m.validators, observers := m.observers, wallets, additional, delegators
           accounts, nodes := pooled ++ owned.flatten }

end Terms

namespace Plan

def settle (plan : Plan) (m : Material) : Except Error Bundle :=
  match plan.staking with
  | .direct _ => plan.terms.settleDirect m
  | .delegated pool => plan.terms.settleDelegated pool m
  | .mixed pool delegatedNodes _ => plan.terms.settleMixed pool delegatedNodes m

def event (plan : Plan) (b : Bundle) : Event :=
  match plan.staking with
  | .direct _ =>
    .directGenerated b.validators.length b.observers.length b.wallets.length b.additional.length
      (totalStaked b.wallets)
  | .delegated pool =>
    .delegatedGenerated b.validators.length b.observers.length b.delegators.length
      b.additional.length pool.address
  | .mixed _ delegatedNodes _ =>
    .mixedGenerated b.validators.length b.observers.length
      (b.validators.take delegatedNodes).length b.wallets.length b.delegators.length
      b.additional.length

/-- One generation. How far it came counts for the next one, also when it fails. -/
def generate {ρ : Type} [Randomizer ρ] (plan : Plan) (p : Progress ρ) :
    Option (Except Error Bundle × Progress ρ) :=
  match plan.draw.run p with
  | none => none
  | some (.error e, p) => some (.error e, p)
  | some (.ok material, p) =>
    match plan.settle material with
    | .error e => some (.error e, p)
    | .ok bundle => some (.ok bundle, { p with journal := p.journal ++ [plan.event bundle] })

end Plan

end Genesis
