import Genesis.Proofs.Checker
import Genesis.Proofs.Strategy.Conservation

/-!
The gate lets every generation pass: its accounts are sound, and nobody both stakes and delegates.
-/

namespace Genesis

open Steps

structure WalletRules.Stakes (rules : WalletRules) (w : WalletKey) : Prop where
  staked : ∃ n : Nat, w.staked = rules.nodePrice * n
  delegated : w.delegated = 0

namespace WalletRules

variable {rules : WalletRules} {w : WalletKey}

theorem Drawn.stakes (h : rules.Drawn w) : rules.Stakes w :=
  ⟨⟨0, h.staked_eq.trans (Int.mul_zero _).symm⟩, h.delegated_eq⟩

theorem Owner.stakes (h : rules.Owner w) : rules.Stakes w :=
  ⟨⟨w.blsKeys.length, h.staked⟩, h.delegated⟩

end WalletRules

namespace Terms.Settled

variable {t : Terms} {m : Material} {b : Bundle} {contract : Bytes} {n : Nat} {cost : Int}

theorem stakes (h : t.Settled m (giveDelegation contract (t.stake n) t.minimumBalance m.delegators)
    cost b) (hw : ∀ w ∈ m.wallets ++ m.additional, t.walletRules.Stakes w) :
    ∀ w ∈ b.wallets ++ b.additional, t.walletRules.Stakes w := by
  obtain ⟨hwallets, hadditional⟩ := Terms.fund_forall (P := t.walletRules.Stakes)
    (fun _ _ hstakes => ⟨hstakes.staked, hstakes.delegated⟩) h.fund
  intro w hmem
  rcases List.mem_append.mp hmem with hmem | hmem
  · exact hwallets (fun w₀ hw₀ => hw w₀ (List.mem_append_left _ hw₀)) w hmem
  · exact hadditional (fun w₀ hw₀ => hw w₀ (List.mem_append_right _ hw₀)) w hmem

theorem accounts_ne_nil
    (h : t.Settled m (giveDelegation contract (t.stake n) t.minimumBalance m.delegators) cost b) :
    b.accounts ≠ [] := by
  obtain ⟨first, others, hsplit, _, hothers⟩ := h.accounts.split
  have hne := Terms.fund_ne_nil h.fund
  intro hnil
  rw [hsplit] at hnil
  rw [(List.append_eq_nil_iff.mp hnil).2, List.forall₂_nil_right_iff] at hothers
  exact hne hothers

theorem sound
    (h : t.Settled m (giveDelegation contract (t.stake n) t.minimumBalance m.delegators) cost b)
    (hw : ∀ w ∈ m.wallets ++ m.additional, t.walletRules.Stakes w)
    (hmin : 0 ≤ t.minimumBalance) {c : Checker} (hc : c.nodePrice = t.walletRules.nodePrice) :
    ∀ a ∈ b.accounts, c.Sound a := by
  have hprice : 0 ≤ t.walletRules.nodePrice := hc ▸ c.nodePrice_pos.le
  have hstake : ∀ k : Nat, 0 ≤ t.walletRules.nodePrice * k :=
    fun k => Int.mul_nonneg hprice (Int.natCast_nonneg k)
  have hfunded := Terms.fund_nonneg h.fund (Int.sub_nonneg.mpr h.cost_le) hmin
  obtain ⟨first, others, hsplit, hfirst, hothers⟩ := h.accounts.split
  intro a ha
  rw [hsplit] at ha
  rcases List.mem_append.mp ha with ha | ha
  -- a delegator holds its gas and has a part of the stake in the contract
  · obtain ⟨d, hd, haccount⟩ := exists_mem_of_forall₂ hfirst ha
    obtain ⟨_, hbalance, hdelegated, _⟩ := of_mem_giveDelegation hd
    obtain ⟨_, hcontract, heq⟩ := Terms.delegatorAccount_ok haccount
    rw [heq]
    refine Checker.sound_ofParts (hbalance ▸ hmin) le_rfl (hdelegated (hstake n)) (dvd_zero _) ?_
    exact fun _ => KeyFormat.isEmpty_of_encode hcontract
  -- any other account holds its share of what the supply leaves
  · obtain ⟨w, hmem, haccount⟩ := exists_mem_of_forall₂ hothers ha
    obtain ⟨k, hstaked⟩ := (h.stakes hw w hmem).staked
    obtain ⟨_, heq⟩ := Terms.walletAccount_ok haccount
    rw [heq, hstaked]
    refine Checker.sound_ofParts (hfunded w hmem) (hstake k) le_rfl ?_ fun hpos => ?_
    · exact hc ▸ dvd_mul_right _ _
    · exact absurd hpos (lt_irrefl 0)

end Terms.Settled

namespace Plan

variable {plan : Plan} {m : Material} {b : Bundle}

theorem Drew.stakes (hd : plan.Drew m) :
    ∀ w ∈ m.wallets ++ m.additional, plan.terms.walletRules.Stakes w := by
  obtain ⟨t, staking⟩ := plan
  have hadditional : ∀ w ∈ m.additional, t.walletRules.Stakes w :=
    fun w hw => (hd.additional.drawn w hw).stakes
  intro w hw
  rcases List.mem_append.mp hw with hw | hw
  · cases staking with
    | direct limit => exact (hd.staking.1.owner w hw).stakes
    | delegated pool => exact (hd.staking.1.drawn w hw).stakes
    | mixed pool k limit => exact (hd.staking.1.owner w hw).stakes
  · exact hadditional w hw

theorem Drew.staked_delegator (hd : plan.Drew m) : ∀ d ∈ m.delegators, d.staked = 0 := by
  obtain ⟨t, staking⟩ := plan
  intro d hmem
  cases staking with
  | direct limit =>
    rw [hd.staking.2] at hmem
    cases hmem
  | delegated pool => exact (hd.staking.2.drawn d hmem).staked_eq
  | mixed pool k limit => exact (hd.staking.2.drawn d hmem).staked_eq

theorem settled_of_settle (hd : plan.Drew m) (h : plan.settle m = .ok b) :
    ∃ contract n cost, plan.terms.Settled m
      (giveDelegation contract (plan.terms.stake n) plan.terms.minimumBalance m.delegators)
      cost b := by
  obtain ⟨t, staking⟩ := plan
  cases staking with
  | direct limit =>
    have hnil : m.delegators = [] := hd.staking.2
    rw [hnil]
    exact ⟨[], 0, _, (Terms.settleDirect_ok h).1⟩
  | delegated pool => exact ⟨_, _, _, (Terms.settleDelegated_ok h).1⟩
  | mixed pool k limit => exact ⟨_, _, _, (Terms.settleMixed_ok h).1⟩

end Plan

/-- The accounts of every generation that succeeds are accepted at its own price and supply, and no
wallet both stakes for validators and delegates. -/
theorem generate_passes_check {ρ : Type} [Randomizer ρ] {r : Request ρ} {plan : Plan}
    {start : Progress ρ} (accepted : r.plan = some (.ok (plan, start))) {price : Int}
    (priced : r.nodePrice = some price) (price_pos : 0 < price) (supply_pos : 0 < r.totalSupply)
    {n : Nat} {b : Bundle} (made : plan.outcome start n = some (.ok b)) :
    (∃ checker, Checker.ofAmounts? r.nodePrice (some r.totalSupply) = .ok checker ∧
      checker.check b.accounts = .ok (Totals.ofAccounts b.accounts) ∧ b.accounts ≠ [] ∧
        (∀ a ∈ b.accounts, checker.Sound a) ∧
          (Totals.ofAccounts b.accounts).supply = checker.totalSupply) ∧
      ∀ w ∈ b.wallets ++ b.additional ++ b.delegators, ¬(0 < w.staked ∧ 0 < w.delegated) := by
  obtain ⟨hfollows, _⟩ := Request.plan_ok accepted
  obtain ⟨m, hdrew, hsettle⟩ := Plan.outcome_ok made
  obtain ⟨contract, k, cost, hsettled⟩ := Plan.settled_of_settle hdrew hsettle
  have hprice : price = plan.terms.walletRules.nodePrice :=
    Option.some.inj (priced.symm.trans hfollows.terms.nodePrice)
  have hmin : 0 ≤ plan.terms.minimumBalance := by
    rw [hfollows.terms.minimumBalance]
    exact hfollows.terms.minimumBalance_nonneg
  constructor
  · have hchecker := Checker.ofAmounts?_of_pos price_pos supply_pos
    have hne := hsettled.accounts_ne_nil
    have hsound : ∀ a ∈ b.accounts,
        Checker.Sound ⟨price, r.totalSupply, price_pos, supply_pos⟩ a :=
      hsettled.sound hdrew.stakes hmin hprice
    have htotal := congrArg Totals.supply (Plan.totals_of_settle hfollows hdrew hsettle)
    rw [priced]
    exact ⟨_, hchecker, Checker.check_eq_ok_iff.mpr ⟨hne, hsound, htotal, rfl⟩, hne, hsound,
      htotal⟩
  · rintro w hw ⟨hstaked, hdelegated⟩
    rcases List.mem_append.mp hw with hw | hw
    · rw [(hsettled.stakes hdrew.stakes w hw).delegated] at hdelegated
      exact lt_irrefl 0 hdelegated
    · rw [hsettled.delegators_eq] at hw
      obtain ⟨_, _, _, d, hd, _, heq⟩ := of_mem_giveDelegation hw
      rw [← heq, hdrew.staked_delegator d hd] at hstaked
      exact lt_irrefl 0 hstaked

theorem sample_passes_check : ∃ plan start b checker,
    (Request.sample .mixed .validator).plan = some (.ok (plan, start)) ∧
      plan.outcome start 1 = some (.ok b) ∧
      Checker.ofAmounts? (some 2500) (some 20000) = .ok checker ∧
        checker.check b.accounts = .ok (Totals.ofAccounts b.accounts) := by
  obtain ⟨plan, start, b, hplan, hb⟩ := Request.exists_outcome_sample .mixed 1
  have hsupply : 0 < (Request.sample .mixed .validator).totalSupply := by decide
  have hpriced : (Request.sample .mixed .validator).nodePrice = some 2500 := rfl
  obtain ⟨⟨checker, hchecker, hcheck, _⟩, _⟩ :=
    generate_passes_check hplan hpriced (by decide) hsupply hb
  exact ⟨plan, start, b, checker, hplan, hb, hchecker, hcheck⟩

end Genesis
