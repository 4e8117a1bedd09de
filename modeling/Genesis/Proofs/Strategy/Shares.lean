import Genesis.Proofs.Strategy.Conservation

/-!
How the supply is shared out: what is left of it among wallets, and the stake of delegated
validators among delegators.
-/

namespace Genesis

open Steps

section Led

variable {α : Type} {f : α → Int} {l : List α} {first others : Int}

theorem eq_first_of_ledBy (h : l.map f = ledBy first others l.length) {a : α}
    (ha : l.head? = some a) : f a = first := by
  cases l with
  | nil => cases ha
  | cons b l =>
    cases ha
    exact (List.cons.inj h).1

theorem eq_others_of_ledBy (h : l.map f = ledBy first others l.length) {a : α} (ha : a ∈ l.tail) :
    f a = others := by
  cases l with
  | nil => cases ha
  | cons b l => exact (List.map_eq_replicate_iff.mp (List.cons.inj h).2) a ha

theorem mem_ledBy (h : l.map f = ledBy first others l.length) {a : α} (ha : a ∈ l) :
    f a = first ∨ f a = others := by
  cases l with
  | nil => cases ha
  | cons b l =>
    rcases List.mem_cons.mp ha with rfl | ha
    · exact .inl (eq_first_of_ledBy h rfl)
    · exact .inr (eq_others_of_ledBy h ha)

end Led

structure SharedOut (balance minimum : Int) (richest : Bool) (ws : List WalletKey) : Prop where
  balance_nonneg : 0 ≤ balance
  split : ∃ share rest, splitBalance ws.length balance minimum richest = .ok (share, rest) ∧
    ws.map (·.balance) = ledBy (share + rest) share ws.length
  le_first : ∀ first, ws.head? = some first → ∀ w ∈ ws, w.balance ≤ first.balance
  le_balance : richest → ∀ w ∈ ws, min minimum (balance / ws.length) ≤ w.balance
  eq_minimum : richest → minimum < balance / ws.length → ∀ w ∈ ws.tail, w.balance = minimum

theorem sharedOut_of_split {balance minimum share rest : Int} {richest : Bool}
    {ws : List WalletKey} (hb : 0 ≤ balance) (hm : 0 ≤ minimum)
    (hsplit : splitBalance ws.length balance minimum richest = .ok (share, rest))
    (hws : ws.map (·.balance) = ledBy (share + rest) share ws.length) :
    SharedOut balance minimum richest ws := by
  have hfair := splitBalance_fair hsplit hm
  obtain ⟨_, hrest⟩ := hfair.nonneg hb
  refine ⟨hb, ⟨share, rest, hsplit, hws⟩, fun first hfirst w hw => ?_, fun hr w hw => ?_,
    fun hr hfloor w hw => ?_⟩
  -- the first wallet has what the others have and the rest, which is not below zero
  · rw [eq_first_of_ledBy hws hfirst]
    rcases mem_ledBy hws hw with h | h
    · exact h.le
    · rw [h]
      omega
  · have hle := hfair.le_share hr
    rcases mem_ledBy hws hw with h | h
    · rw [h]
      omega
    · rw [h]
      exact hle
  · rw [eq_others_of_ledBy hws hw]
    exact hfair.share_eq hr hfloor

section Fund

variable {t : Terms} {wallets additional wallets' additional' : List WalletKey} {balance : Int}

theorem Terms.length_fund (h : t.fund wallets additional balance = .ok (wallets', additional')) :
    (wallets' ++ additional').length = wallets.length + additional.length := by
  obtain ⟨share, rest, _, happ⟩ := fund_append h
  rw [happ, length_giveBalance, List.length_append]

theorem Terms.sharedOut_of_fund
    (h : t.fund wallets additional balance = .ok (wallets', additional')) (hb : 0 ≤ balance)
    (hm : 0 ≤ t.minimumBalance) :
    SharedOut balance t.minimumBalance t.richest (wallets' ++ additional') := by
  obtain ⟨share, rest, hsplit, happ⟩ := fund_append h
  have hlength := length_fund h
  rw [← hlength] at hsplit
  refine sharedOut_of_split hb hm hsplit ?_
  rw [hlength, happ, map_balance_giveBalance, List.length_append]

end Fund

namespace Request

variable {ρ : Type}

structure SharesOut (r : Request ρ) (price : Int) (kind : Kind) (b : Bundle) : Prop where
  wallets : SharedOut (r.totalSupply - r.used price kind) r.minimumBalance r.richest
    (b.wallets ++ b.additional)
  length_delegators : b.delegators.length = r.delegatorsOf kind
  delegated : 0 ≤ price →
    let share := r.delegated price kind / b.delegators.length
    let rest := r.delegated price kind % b.delegators.length
    b.delegators.map (·.delegated) = ledBy (share + rest) share b.delegators.length
  gas : ∀ d ∈ b.delegators, d.balance = r.minimumBalance

theorem delegated_nonneg {price : Int} (h : 0 ≤ price) (r : Request ρ) (kind : Kind) :
    0 ≤ r.delegated price kind := by
  cases kind with
  | direct => exact Int.le_refl 0
  | delegated => exact Int.mul_nonneg h (Int.natCast_nonneg r.validators)
  | mixed => exact Int.mul_nonneg h (Int.natCast_nonneg r.delegatedNodes)

end Request

theorem Plan.sharesOut_of_settle {ρ : Type} {r : Request ρ} {plan : Plan} {m : Material}
    {b : Bundle} (hf : plan.Follows r) (hd : plan.Drew m) (h : plan.settle m = .ok b) :
    r.SharesOut plan.terms.walletRules.nodePrice plan.staking.kind b := by
  obtain ⟨contract, hsettled⟩ := exists_settled hf hd h
  have hlength : b.delegators.length = r.delegatorsOf plan.staking.kind := by
    rw [hsettled.delegators_eq, length_giveDelegation, length_delegators hf hd]
  refine ⟨?_, hlength, fun hprice => ?_, fun d hd => ?_⟩
  · have hleft : 0 ≤ plan.terms.totalSupply -
        r.used plan.terms.walletRules.nodePrice plan.staking.kind :=
      Int.sub_nonneg_of_le hsettled.cost_le
    have hminimum : 0 ≤ plan.terms.minimumBalance := by
      rw [hf.terms.minimumBalance]
      exact hf.terms.minimumBalance_nonneg
    have hshared := Terms.sharedOut_of_fund hsettled.fund hleft hminimum
    rwa [hf.terms.totalSupply, hf.terms.minimumBalance, hf.terms.richest] at hshared
  · have hnonneg := r.delegated_nonneg hprice plan.staking.kind
    dsimp only
    rw [hlength, hsettled.delegators_eq, map_delegated_giveDelegation, length_delegators hf hd,
      Int.tdiv_eq_ediv_of_nonneg hnonneg, Int.tmod_eq_emod_of_nonneg hnonneg]
  · rw [hsettled.delegators_eq] at hd
    exact (of_mem_giveDelegation hd).2.1

/-- Splitting a balance is fair for amounts of any sign, and what generations share out among
wallets and delegators is split in this way. -/
theorem supply_shared_out {ρ : Type} [Randomizer ρ] {r : Request ρ} {plan : Plan}
    {start : Progress ρ} (accepted : r.plan = some (.ok (plan, start))) {n : Nat} {b : Bundle}
    (made : plan.outcome start n = some (.ok b)) :
    (∀ (count : Nat) (balance minimum : Int) (richest : Bool), 1 ≤ count → 0 ≤ minimum →
      ∃ share rest, splitBalance count balance minimum richest = .ok (share, rest) ∧
        FairSplit count balance minimum richest share rest) ∧
      ∃ price kind, r.nodePrice = some price ∧ Kind.ofName? r.strategy = .ok kind ∧
        r.SharesOut price kind b := by
  obtain ⟨hfollows, _⟩ := Request.plan_ok accepted
  obtain ⟨m, hdrew, hsettle⟩ := Plan.outcome_ok made
  refine ⟨fun count balance minimum richest hcount hminimum => ?_, _, _, hfollows.terms.nodePrice,
    hfollows.kind, Plan.sharesOut_of_settle hfollows hdrew hsettle⟩
  obtain ⟨share, rest, hsplit⟩ :=
    exists_splitBalance (Nat.ne_of_gt hcount) balance minimum richest
  exact ⟨share, rest, hsplit, splitBalance_fair hsplit hminimum⟩

namespace Request

def richSample : Request Script := { sample .mixed .validator with richest := true }

theorem drawable_richSample : richSample.Drawable .validator :=
  drawable_of_numbered rfl rfl rfl rfl rfl

theorem exists_outcome_richSample (n : Nat) :
    ∃ plan start b, richSample.plan = some (.ok (plan, start)) ∧
      plan.outcome start n = some (.ok b) := by
  obtain ⟨pool, hpool⟩ := exists_pool_sample .mixed .validator
  have hasked : ∃ asked, richSample.delegatedTerms (some .greatest) = some (.ok asked) :=
    ⟨_, bind_eq_some_ok.mpr ⟨_, rfl, bind_eq_some_ok.mpr ⟨pool, hpool, rfl⟩⟩⟩
  obtain ⟨asked, hasked⟩ := hasked
  have hplan : ∃ plan start, richSample.plan = some (.ok (plan, start)) :=
    ⟨_, _, bind_eq_some_ok.mpr ⟨_, rfl, bind_eq_some_ok.mpr ⟨asked, hasked, rfl⟩⟩⟩
  obtain ⟨plan, start, hplan⟩ := hplan
  obtain ⟨b, hb⟩ := drawable_richSample.exists_outcome hplan (fun price kind hprice hkind => by
    obtain rfl : 2500 = price := Option.some.inj hprice
    obtain rfl : Kind.mixed = kind := Except.ok.inj hkind
    decide) n
  exact ⟨plan, start, b, hplan, hb⟩

end Request

/-- The one rich wallet of the sample, and its two delegators. -/
theorem rich_supply_shared_out : ∃ plan start b,
    Request.richSample.plan = some (.ok (plan, start)) ∧ plan.outcome start 1 = some (.ok b) ∧
      Request.richSample.SharesOut 2500 .mixed b ∧ b.delegators.map (·.delegated) = [1250, 1250] ∧
      ∀ w ∈ (b.wallets ++ b.additional).tail, w.balance = 100 := by
  obtain ⟨plan, start, b, hplan, hb⟩ := Request.exists_outcome_richSample 1
  obtain ⟨_, price, kind, hprice, hkind, hshared⟩ := supply_shared_out hplan hb
  obtain rfl : 2500 = price := Option.some.inj hprice
  obtain rfl : Kind.mixed = kind := Except.ok.inj hkind
  have hdelegated := hshared.delegated (by decide)
  rw [hshared.length_delegators] at hdelegated
  refine ⟨plan, start, b, hplan, hb, hshared, hdelegated, fun w hw => ?_⟩
  obtain ⟨hfollows, _⟩ := Request.plan_ok hplan
  obtain ⟨m, hdrew, hsettle⟩ := Plan.outcome_ok hb
  obtain ⟨contract, hsettled⟩ := Plan.exists_settled hfollows hdrew hsettle
  have hpos := List.length_pos_of_mem (List.mem_of_mem_tail hw)
  have hle : (b.wallets ++ b.additional).length ≤ 4 := by
    have hwallets : m.wallets.length ≤ 3 :=
      hdrew.length_wallets_le.trans hfollows.terms.validators.le
    have hadditional : m.additional.length = 1 :=
      hdrew.additional.length_eq.trans hfollows.terms.additional
    rw [Terms.length_fund hsettled.fund]
    omega
  have hfloor : 100 < 12300 / ((b.wallets ++ b.additional).length : Int) := by
    refine Int.le_ediv_of_mul_le (by omega) ?_
    omega
  exact hshared.wallets.eq_minimum rfl hfloor w hw

end Genesis
