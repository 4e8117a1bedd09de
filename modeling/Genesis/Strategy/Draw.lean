import Genesis.Strategy.Plan

/-! Drawing the keys of one generation, each strategy in an order of its own. -/

namespace Genesis

structure Material where
  validators : List BlsKey
  observers : List BlsKey
  wallets : List WalletKey
  delegators : List WalletKey
  additional : List WalletKey

/-- A draw leaves behind how far it came, also when it fails, unless it never ends. -/
abbrev Drawing (ρ α : Type) := ExceptT Error (StateT (Progress ρ) Option) α

namespace Terms

variable {ρ : Type}

def drawValidators (t : Terms) (n : Nat) : Drawing ρ (List BlsKey) := fun p =>
  let (result, taken) := t.validatorKeys.validatorKeys n p.validatorsTaken
  some (result, { p with validatorsTaken := taken })

def drawWallets (t : Terms) (n : Nat) : Drawing ρ (List WalletKey) := fun p =>
  match t.walletRules.wallets n p.wallets with
  | none => none
  | some (result, cursor) => some (result, { p with wallets := cursor })

def drawOwners [Randomizer ρ] (t : Terms) (pool : List BlsKey) (limit : Nat) :
    Drawing ρ (List WalletKey) := fun p =>
  match t.walletRules.owners pool limit p.wallets with
  | none => none
  | some (.error e, cursor) => some (.error e, { p with wallets := cursor })
  | some (.ok owners, cursor) =>
    some (.ok owners,
      { p with wallets := cursor
               journal := p.journal ++ [.ownersGrouped owners.length pool.length] })

end Terms

/-- Validators and observers come first. Owners are drawn before the additional wallets when all
validators have one, and after them when some are delegated. -/
def Plan.draw {ρ : Type} [Randomizer ρ] (plan : Plan) : Drawing ρ Material := do
  let t := plan.terms
  let validators ← t.drawValidators t.validators
  let observers ← t.drawValidators t.observers
  match plan.staking with
  | .direct maxPerOwner =>
    let wallets ← t.drawOwners validators maxPerOwner
    let additional ← t.drawWallets t.additional
    return { validators, observers, wallets, delegators := [], additional }
  | .delegated pool =>
    let wallets ← t.drawWallets validators.length
    let delegators ← t.drawWallets pool.delegators
    let additional ← t.drawWallets t.additional
    return { validators, observers, wallets, delegators, additional }
  | .mixed pool delegatedNodes maxPerOwner =>
    let delegators ← t.drawWallets pool.delegators
    let additional ← t.drawWallets t.additional
    let wallets ← t.drawOwners (validators.drop delegatedNodes) maxPerOwner
    return { validators, observers, wallets, delegators, additional }

end Genesis
