import Genesis.Account
import Genesis.Event
import Mathlib.Algebra.BigOperators.Group.List.Basic
import Mathlib.Tactic.Ring

/-! The sums over a list of accounts. -/

namespace Genesis.Totals

def ofAccounts (accounts : List Account) : Totals where
  supply := (accounts.map (·.supply)).sum
  staked := (accounts.map (·.stakingValue)).sum
  balance := (accounts.map (·.balance)).sum
  delegated := (accounts.map (·.delegation.value)).sum

instance : Add Totals where
  add s t :=
    { supply := s.supply + t.supply, staked := s.staked + t.staked
      balance := s.balance + t.balance, delegated := s.delegated + t.delegated }

theorem add_def (s t : Totals) :
    s + t =
      { supply := s.supply + t.supply, staked := s.staked + t.staked
        balance := s.balance + t.balance, delegated := s.delegated + t.delegated } := rfl

theorem ofAccounts_nil : ofAccounts [] = {} := rfl

theorem ofAccounts_cons (a : Account) (accounts : List Account) :
    ofAccounts (a :: accounts) =
      { supply := a.supply, staked := a.stakingValue, balance := a.balance
        delegated := a.delegation.value } + ofAccounts accounts := by
  simp only [ofAccounts, List.map_cons, List.sum_cons, add_def]

theorem zero_add (t : Totals) : {} + t = t := by
  simp only [add_def, Int.zero_add]

theorem add_zero (t : Totals) : t + {} = t := by
  simp only [add_def, Int.add_zero]

theorem add_assoc (s t u : Totals) : s + t + u = s + (t + u) := by
  simp only [add_def, Int.add_assoc]

theorem supply_ofAccounts {accounts : List Account}
    (h : ∀ a ∈ accounts, a.supply = a.balance + a.stakingValue + a.delegation.value) :
    (ofAccounts accounts).supply =
      (ofAccounts accounts).balance + (ofAccounts accounts).staked +
        (ofAccounts accounts).delegated := by
  simp only [ofAccounts, ← List.sum_map_add]
  exact congrArg List.sum (List.map_congr_left h)

end Genesis.Totals
