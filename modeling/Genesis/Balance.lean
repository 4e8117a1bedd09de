import Genesis.Error
import Genesis.Key.Basic

/-! Sharing out a balance among wallets, and a stake among delegators. -/

namespace Genesis

/-- What each of `n` wallets gets of a balance, and what is left for the first one. Beside a single
rich wallet the others get no more than the minimum. -/
def splitBalance (n : Nat) (balance minimum : Int) (richest : Bool) : Except Error (Int × Int) :=
  if n = 0 then .error .noWallets
  else
    let share := balance.tdiv n
    if richest && minimum < share then .ok (minimum, balance - n * minimum)
    else .ok (share, balance.tmod n)

def giveBalance (share rest : Int) : List WalletKey → List WalletKey
  | [] => []
  | first :: others =>
    { first with balance := share + rest } :: others.map ({ · with balance := share })

/-- Shares `stake` out among delegators to a contract, the first one also taking what the others
leave, and gives each of them `gas` to claim rewards with. -/
def giveDelegation (contract : Bytes) (stake gas : Int) : List WalletKey → List WalletKey
  | [] => []
  | first :: others =>
    let n : Int := others.length + 1
    let share := stake.tdiv n
    { first with contract, delegated := share + stake.tmod n, balance := gas } ::
      others.map ({ · with contract, delegated := share, balance := gas })

/-- What delegators take of the supply: the stake and each one's gas, or nothing if there are
none. -/
def delegationCost (stake gas : Int) (delegators : Nat) : Int :=
  if delegators = 0 then 0 else stake + gas * delegators

def totalStaked : List WalletKey → Int
  | [] => 0
  | wallet :: rest => wallet.staked + totalStaked rest

end Genesis
