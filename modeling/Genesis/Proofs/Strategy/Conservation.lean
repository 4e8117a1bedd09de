import Genesis.Proofs.Strategy.Verdict

/-!
The supply is conserved: whatever the strategy, the amounts and the grouping of validators, the
accounts of a generation make up the supply exactly, and each validator's price is staked or
delegated once.
-/

namespace Genesis

theorem Terms.Settled.totals_eq {t : Terms} {m : Material} {delegators : List WalletKey}
    {cost : Int} {b : Bundle} (h : t.Settled m delegators cost b) {n : Nat}
    (ha : t.walletRules.Wallets n m.additional) :
    let balance := (delegators.map (·.balance)).sum + (t.totalSupply - cost)
    let delegated := (delegators.map (·.delegated)).sum
    Totals.ofAccounts b.accounts =
      { supply := balance + totalStaked m.wallets + delegated, staked := totalStaked m.wallets
        balance, delegated } := by
  have hstaked : totalStaked (b.wallets ++ b.additional) = totalStaked m.wallets := by
    obtain ⟨hwallets, hadditional⟩ := Terms.fund_map (f := (·.staked)) (fun _ _ => rfl) h.fund
    have hzero := ha.totalStaked_eq
    rw [totalStaked_eq_sum] at hzero ⊢
    rw [List.map_append, List.sum_append, hwallets, hadditional, hzero, add_zero,
      totalStaked_eq_sum]
  have htotals := h.accounts.totals_eq
  rw [hstaked, Terms.fund_sum h.fund] at htotals
  exact htotals

namespace Request

variable {ρ : Type}

def staked (r : Request ρ) (price : Int) : Kind → Int
  | .direct => price * r.validators
  | .delegated => 0
  | .mixed => price * (r.validators - r.delegatedNodes)

def delegated (r : Request ρ) (price : Int) : Kind → Int
  | .direct => 0
  | .delegated => price * r.validators
  | .mixed => price * r.delegatedNodes

theorem staked_add_delegated (r : Request ρ) (price : Int) (kind : Kind) :
    r.staked price kind + r.delegated price kind = price * r.validators := by
  cases kind with
  | direct => exact Int.add_zero _
  | delegated => exact Int.zero_add _
  | mixed =>
    unfold staked delegated
    ring

def delegatorsOf (r : Request ρ) : Kind → Nat
  | .direct => 0
  | .delegated | .mixed => r.delegators

/-- What is taken from the supply for validators and delegators, before wallets hold anything. -/
def used (r : Request ρ) (price : Int) (kind : Kind) : Int :=
  price * r.validators + r.minimumBalance * r.delegatorsOf kind

end Request

namespace Plan

variable {ρ : Type} {r : Request ρ} {plan : Plan} {m : Material} {b : Bundle}

theorem parts_of_settle (h : plan.settle m = .ok b) :
    ∀ a ∈ b.accounts, a.supply = a.balance + a.stakingValue + a.delegation.value := by
  obtain ⟨t, staking⟩ := plan
  cases staking with
  | direct limit => exact fun a => (Terms.settleDirect_ok h).1.accounts.parts_eq
  | delegated pool => exact fun a => (Terms.settleDelegated_ok h).1.accounts.parts_eq
  | mixed pool k limit => exact fun a => (Terms.settleMixed_ok h).1.accounts.parts_eq

theorem Drew.length_wallets_le (hd : plan.Drew m) : m.wallets.length ≤ plan.terms.validators := by
  rw [← hd.validators.length_eq]
  obtain ⟨t, staking⟩ := plan
  cases staking with
  | direct limit => exact hd.staking.1.length_le
  | delegated pool => exact hd.staking.1.length_eq.le
  | mixed pool k limit =>
    have hle := hd.staking.1.length_le
    rw [List.length_drop] at hle
    omega

section Drew

variable (hf : plan.Follows r) (hd : plan.Drew m)
include hf hd

theorem length_delegators : m.delegators.length = r.delegatorsOf plan.staking.kind := by
  obtain ⟨t, staking⟩ := plan
  cases staking with
  | direct limit =>
    obtain ⟨_, hnil⟩ := hd.staking
    exact congrArg List.length hnil
  | delegated pool => exact hd.staking.2.length_eq.trans hf.staking.delegators
  | mixed pool k limit => exact hd.staking.2.length_eq.trans hf.staking.1.delegators

theorem totalStaked_wallets :
    totalStaked m.wallets = r.staked plan.terms.walletRules.nodePrice plan.staking.kind := by
  obtain ⟨t, staking⟩ := plan
  have hv := hf.length_validators hd
  cases staking with
  | direct limit =>
    obtain ⟨howners, _⟩ := hd.staking
    rw [howners.totalStaked_eq, hv]
    rfl
  | delegated pool => exact hd.staking.1.totalStaked_eq
  | mixed pool k limit =>
    obtain ⟨howners, _⟩ := hd.staking
    obtain ⟨_, rfl, _, hkle, _⟩ := hf.staking
    rw [howners.totalStaked_eq, List.length_drop, hv, Nat.cast_sub hkle]
    rfl

theorem exists_settled (h : plan.settle m = .ok b) :
    ∃ contract, plan.terms.Settled m
      (giveDelegation contract (r.delegated plan.terms.walletRules.nodePrice plan.staking.kind)
        r.minimumBalance m.delegators)
      (r.used plan.terms.walletRules.nodePrice plan.staking.kind) b := by
  have hlength := length_delegators hf hd
  have hv := hf.length_validators hd
  have hminimum := hf.terms.minimumBalance
  obtain ⟨t, staking⟩ := plan
  cases staking with
  | direct limit =>
    obtain ⟨_, hnil⟩ := hd.staking
    have hsettled := (Terms.settleDirect_ok h).1
    have hcost : totalStaked m.wallets = r.used t.walletRules.nodePrice .direct := by
      rw [totalStaked_wallets hf hd, Request.used, Request.delegatorsOf, Nat.cast_zero, mul_zero,
        add_zero]
      rfl
    rw [hcost] at hsettled
    refine ⟨[], ?_⟩
    rw [hnil]
    exact hsettled
  | delegated pool =>
    have hne : m.delegators ≠ [] := hf.staking.ne_nil hd.staking.2
    have hsettled := (Terms.settleDelegated_ok h).1
    rw [delegationCost_eq hne, hlength, hminimum, Terms.stake, hv] at hsettled
    exact ⟨pool.bytes, hsettled⟩
  | mixed pool k limit =>
    obtain ⟨hpool, rfl, _, hkle, _⟩ := hf.staking
    have hne : m.delegators ≠ [] := hpool.ne_nil hd.staking.2
    have hsettled := (Terms.settleMixed_ok h).1
    have hk : (m.validators.take r.delegatedNodes).length = r.delegatedNodes := by
      rw [List.length_take, hv, Nat.min_eq_left hkle]
    rw [delegationCost_eq hne, hlength, hminimum, Terms.stake, hk] at hsettled
    -- the owners' part and the delegators' part of the stake make up the price of all validators
    have hcost : t.walletRules.nodePrice * r.delegatedNodes +
        r.minimumBalance * r.delegatorsOf .mixed + totalStaked m.wallets =
          r.used t.walletRules.nodePrice .mixed := by
      have hstaked : totalStaked m.wallets = r.staked t.walletRules.nodePrice .mixed :=
        totalStaked_wallets hf hd
      rw [hstaked, Request.used, Request.staked]
      ring
    exact ⟨pool.bytes, hcost ▸ hsettled⟩

theorem sum_delegated (contract : Bytes) :
    ((giveDelegation contract (r.delegated plan.terms.walletRules.nodePrice plan.staking.kind)
      r.minimumBalance m.delegators).map (·.delegated)).sum =
      r.delegated plan.terms.walletRules.nodePrice plan.staking.kind := by
  obtain ⟨t, staking⟩ := plan
  cases staking with
  | direct limit =>
    obtain ⟨_, hnil⟩ := hd.staking
    rw [hnil]
    rfl
  | delegated pool => exact sum_delegated_giveDelegation (hf.staking.ne_nil hd.staking.2)
  | mixed pool k limit => exact sum_delegated_giveDelegation (hf.staking.1.ne_nil hd.staking.2)

theorem totals_of_settle (h : plan.settle m = .ok b) :
    Totals.ofAccounts b.accounts =
      { supply := r.totalSupply
        staked := r.staked plan.terms.walletRules.nodePrice plan.staking.kind
        balance := r.totalSupply - plan.terms.walletRules.nodePrice * r.validators
        delegated := r.delegated plan.terms.walletRules.nodePrice plan.staking.kind } := by
  obtain ⟨contract, hsettled⟩ := exists_settled hf hd h
  have hsplit := r.staked_add_delegated plan.terms.walletRules.nodePrice plan.staking.kind
  rw [hsettled.totals_eq hd.additional, totalStaked_wallets hf hd, sum_delegated hf hd,
    sum_balance_giveDelegation, length_delegators hf hd, Request.used, hf.terms.totalSupply]
  simp only [Totals.mk.injEq, true_and, and_true]
  -- the gas of the delegators comes back in the balances
  constructor
  · linarith
  · ring

end Drew

end Plan

/-- Of every generation that succeeds, however many others went before it, the accounts make up the
supply, and the price of each validator is staked or delegated. -/
theorem generate_conserves_supply {ρ : Type} [Randomizer ρ] {r : Request ρ} {plan : Plan}
    {start : Progress ρ} (accepted : r.plan = some (.ok (plan, start))) {n : Nat} {b : Bundle}
    (made : plan.outcome start n = some (.ok b)) :
    (∀ a ∈ b.accounts, a.supply = a.balance + a.stakingValue + a.delegation.value) ∧
      ∃ price kind, r.nodePrice = some price ∧ Kind.ofName? r.strategy = .ok kind ∧
        Totals.ofAccounts b.accounts =
          { supply := r.totalSupply, staked := r.staked price kind
            balance := r.totalSupply - price * r.validators
            delegated := r.delegated price kind } := by
  obtain ⟨hfollows, _⟩ := Request.plan_ok accepted
  obtain ⟨m, hdrew, hsettle⟩ := Plan.outcome_ok made
  refine ⟨Plan.parts_of_settle hsettle, plan.terms.walletRules.nodePrice, plan.staking.kind,
    hfollows.terms.nodePrice, hfollows.kind, ?_⟩
  exact Plan.totals_of_settle hfollows hdrew hsettle

theorem sample_conserves_supply : ∃ plan start b,
    (Request.sample .mixed .validator).plan = some (.ok (plan, start)) ∧
      plan.outcome start 1 = some (.ok b) ∧
      Totals.ofAccounts b.accounts =
        { supply := 20000, staked := 5000, balance := 12500, delegated := 2500 } := by
  obtain ⟨plan, start, b, hplan, hb⟩ := Request.exists_outcome_sample .mixed 1
  obtain ⟨_, price, kind, hprice, hkind, htotals⟩ := generate_conserves_supply hplan hb
  obtain rfl : 2500 = price := Option.some.inj hprice
  obtain rfl : Kind.mixed = kind := Except.ok.inj hkind
  exact ⟨plan, start, b, hplan, hb, htotals⟩

end Genesis
