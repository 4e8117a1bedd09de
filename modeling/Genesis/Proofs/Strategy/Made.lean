import Genesis.Proofs.Strategy.Gate
import Genesis.Proofs.Strategy.Nodes

/-! What holds of all that a plan brings forth, whichever its strategy is. -/

namespace Genesis

open Steps

structure Plan.Made (plan : Plan) (b : Bundle) : Prop where
  accounts : plan.terms.Accounts b.delegators (b.wallets ++ b.additional) b.accounts
  nodes : List.Forall₂ plan.terms.Written b.validators b.nodes
  validators : plan.terms.validatorKeys.Keys plan.terms.validators b.validators
  observers : plan.terms.validatorKeys.Keys plan.terms.observers b.observers

structure Account.BelongsTo (format : KeyFormat) (w : WalletKey) (a : Account) : Prop where
  address : format.encode w.publicKey = .ok a.address
  balance : a.balance = w.balance

namespace Plan

variable {plan : Plan} {m : Material} {b : Bundle}

theorem made_of_settle (hd : plan.Drew m) (h : plan.settle m = .ok b) : plan.Made b := by
  obtain ⟨contract, n, cost, hsettled⟩ := settled_of_settle hd h
  have haccounts := hsettled.accounts
  rw [← hsettled.delegators_eq] at haccounts
  refine ⟨haccounts, ?_, ?_, ?_⟩
  · rw [hsettled.validators_eq]
    exact written_of_settle hd h
  · rw [hsettled.validators_eq]
    exact hd.validators
  · rw [hsettled.observers_eq]
    exact hd.observers

theorem made_of_outcome {ρ : Type} [Randomizer ρ] {start : Progress ρ} {n : Nat}
    (h : plan.outcome start n = some (.ok b)) : plan.Made b := by
  obtain ⟨m, hdrew, hsettle⟩ := outcome_ok h
  exact made_of_settle hdrew hsettle

theorem Made.forall₂_accounts (h : plan.Made b) :
    List.Forall₂ (Account.BelongsTo plan.terms.walletFormat)
      (b.delegators ++ (b.wallets ++ b.additional)) b.accounts := by
  obtain ⟨first, others, hsplit, hfirst, hothers⟩ := h.accounts.split
  rw [hsplit]
  refine List.rel_append (hfirst.imp fun d a ha => ?_) (hothers.imp fun w a ha => ?_)
  · obtain ⟨haddress, _, hparts⟩ := Terms.delegatorAccount_ok ha
    exact ⟨haddress, congrArg Account.balance hparts⟩
  · obtain ⟨haddress, hparts⟩ := Terms.walletAccount_ok ha
    exact ⟨haddress, congrArg Account.balance hparts⟩

theorem Made.exists_encode (h : plan.Made b) {w : WalletKey}
    (hw : w ∈ b.delegators ++ (b.wallets ++ b.additional)) :
    ∃ text, plan.terms.walletFormat.encode w.publicKey = .ok text := by
  obtain ⟨a, _, ha⟩ := exists_mem_of_forall₂ h.forall₂_accounts.flip hw
  exact ⟨a.address, ha.address⟩

theorem Made.exists_publicKey (h : plan.Made b) {key : BlsKey}
    (hkey : key ∈ b.validators ++ b.observers) :
    ∃ i, plan.terms.validatorKeys.publicKey i = .ok key.publicKey := by
  rcases List.mem_append.mp hkey with hkey | hkey
  · exact h.validators.fromStream key hkey
  · exact h.observers.fromStream key hkey

theorem check_of_settle {ρ : Type} {r : Request ρ} (hf : plan.Follows r) (hd : plan.Drew m)
    (h : plan.settle m = .ok b) {c : Checker}
    (hprice : c.nodePrice = plan.terms.walletRules.nodePrice)
    (hsupply : c.totalSupply = r.totalSupply) :
    c.check b.accounts = .ok (Totals.ofAccounts b.accounts) := by
  obtain ⟨contract, n, cost, hsettled⟩ := settled_of_settle hd h
  have hmin : 0 ≤ plan.terms.minimumBalance := by
    rw [hf.terms.minimumBalance]
    exact hf.terms.minimumBalance_nonneg
  have hsound : ∀ a ∈ b.accounts, c.Sound a := hsettled.sound hd.stakes hmin hprice
  have htotal := congrArg Totals.supply (totals_of_settle hf hd h)
  exact Checker.check_eq_ok_iff.mpr
    ⟨hsettled.accounts_ne_nil, hsound, htotal.trans hsupply.symm, rfl⟩

end Plan

end Genesis
