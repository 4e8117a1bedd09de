import Genesis.Account
import Genesis.Error
import Genesis.Event

/-! The gate before anything is written: whether a list of accounts makes a sound genesis. -/

namespace Genesis

structure Checker where
  nodePrice : Int
  totalSupply : Int
  nodePrice_pos : 0 < nodePrice
  totalSupply_pos : 0 < totalSupply

namespace Checker

def ofAmounts? (nodePrice totalSupply : Option Int) : Except Error Checker := do
  let some nodePrice := nodePrice | throw (.missingValue "nodePrice")
  let some totalSupply := totalSupply | throw (.missingValue "totalSupply")
  if hp : 0 < nodePrice then
    if hs : 0 < totalSupply then return ⟨nodePrice, totalSupply, hp, hs⟩
    else throw (.notPositive "totalSupply")
  else throw (.notPositive "nodePrice")

def checkAccount (c : Checker) (a : Account) : Except Error Unit :=
  if a.stakingValue < 0 then .error (.negativeField a.address "StakingValue")
  else if a.balance < 0 then .error (.negativeField a.address "Balance")
  else if a.supply < 0 then .error (.negativeField a.address "Supply")
  else if a.delegation.value < 0 then .error (.negativeField a.address "Delegation.Value")
  else if a.parts ≠ a.supply then .error (.supplyMismatch a.address)
  else if a.stakingValue.tmod c.nodePrice ≠ 0 then .error (.unevenStake a.address)
  else if 0 < a.delegation.value ∧ a.delegation.address.isEmpty then
    .error (.delegationNowhere a.address)
  else .ok ()

def addUp (c : Checker) (t : Totals) : List Account → Except Error Totals
  | [] => .ok t
  | a :: rest => do
    c.checkAccount a
    c.addUp
      { supply := t.supply + a.parts, staked := t.staked + a.stakingValue
        balance := t.balance + a.balance, delegated := t.delegated + a.delegation.value } rest

/-- The sums over the accounts, if each is sound and together they make up the total supply. -/
def check (c : Checker) (accounts : List Account) : Except Error Totals := do
  if accounts.isEmpty then throw .noAccounts
  let totals ← c.addUp {} accounts
  if totals.supply ≠ c.totalSupply then throw (.totalMismatch totals.supply c.totalSupply)
  return totals

end Checker

end Genesis
