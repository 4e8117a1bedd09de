import Genesis.Proofs.Contract
import Genesis.Proofs.Steps
import Genesis.Proofs.Strategy.Material

/-! What is known of a plan because it was made from a request. -/

namespace Genesis

open Steps

variable {ρ : Type}

/-- The terms are those that were asked for, and pass all checks. -/
structure Terms.Follows (t : Terms) (r : Request ρ) : Prop where
  validatorKeys : r.validatorKeys = some t.validatorKeys
  walletKeys : r.walletKeys = some t.walletRules.keys
  walletFormat : r.walletFormat = some t.walletFormat
  validatorFormat : r.validatorFormat = some t.validatorFormat
  nodePrice : r.nodePrice = some t.walletRules.nodePrice
  shards : t.walletRules.shards = r.shards
  shards_pos : 0 < r.shards
  everyShard : t.walletRules.everyShard = r.everyShard
  shards_le : r.everyShard = true → r.shards ≤ WalletRules.maxShards
  validators : t.validators = r.validators
  observers : t.observers = r.observers
  additional : t.additional = r.additional
  richest : t.richest = r.richest
  totalSupply : t.totalSupply = r.totalSupply
  minimumBalance : t.minimumBalance = r.minimumBalance
  minimumBalance_nonneg : 0 ≤ r.minimumBalance

/-- The contract has the address that is derived for its owner, and delegators. -/
structure Pool.Follows (pool : Pool) (t : Terms) (r : Request ρ) : Prop where
  delegators : pool.delegators = r.delegators
  delegators_pos : 0 < r.delegators
  derived : Contract.deriveText t.walletFormat r.addressLength r.owner r.ownerNonce
    r.machineType = some (.ok pool.address)
  read : t.walletFormat.decode pool.address = .ok pool.bytes

def Staking.Follows (t : Terms) (r : Request ρ) : Staking → Prop
  | .direct limit => limit = r.maxPerOwner ∧ 0 < limit
  | .delegated pool => pool.Follows t r
  | .mixed pool k limit =>
    pool.Follows t r ∧ k = r.delegatedNodes ∧ 0 < k ∧ k ≤ r.validators ∧ limit = r.maxPerOwner ∧
      0 < limit

structure Plan.Follows (plan : Plan) (r : Request ρ) : Prop where
  terms : plan.terms.Follows r
  kind : Kind.ofName? r.strategy = .ok plan.staking.kind
  staking : plan.staking.Follows plan.terms r

theorem Pool.Follows.ne_nil {r : Request ρ} {pool : Pool} {t : Terms} {ws : List WalletKey}
    (h : pool.Follows t r) (hws : t.walletRules.Wallets pool.delegators ws) : ws ≠ [] := by
  rw [← List.length_pos_iff, hws.length_eq, h.delegators]
  exact h.delegators_pos

theorem Pool.Follows.encode_bytes {r : Request ρ} {pool : Pool} {t : Terms}
    (h : pool.Follows t r) : t.walletFormat.encode pool.bytes = .ok pool.address := by
  obtain ⟨bytes, hwritten⟩ := Contract.encode_of_deriveText h.derived
  rw [KeyFormat.eq_of_decode_encode hwritten h.read]
  exact hwritten

namespace Plan.Follows

variable {r : Request ρ} {plan : Plan} {m : Material}

theorem groups (h : plan.Follows r) : plan.staking.Groups := by
  obtain ⟨t, staking⟩ := plan
  cases staking with
  | direct limit => exact h.staking.2
  | delegated pool => trivial
  | mixed pool k limit => exact h.staking.2.2.2.2.2

theorem length_validators (h : plan.Follows r) (hd : plan.Drew m) :
    m.validators.length = r.validators :=
  hd.validators.length_eq.trans h.terms.validators

end Plan.Follows

namespace Request

variable {r : Request ρ} {randomizer : Option ρ} {t : Terms} {c : WalletCursor (Option ρ)}
  {plan : Plan} {start : Progress ρ} {pool : Pool}

theorem start?_ok {σ : Type} {keys : Option KeySource} {randomizer : Option σ}
    {nodePrice : Option Int} {shards : Nat} {everyShard : Bool} {rules : WalletRules}
    {c : WalletCursor σ}
    (h : WalletRules.start? keys randomizer nodePrice shards everyShard = .ok (rules, c)) :
    keys = some rules.keys ∧ nodePrice = some rules.nodePrice ∧ rules.shards = shards ∧
      0 < shards ∧ rules.everyShard = everyShard ∧
      (everyShard = true → shards ≤ WalletRules.maxShards) ∧ c.shard = 0 := by
  unfold WalletRules.start? at h
  cases keys with
  | none => cases h
  | some keys =>
  cases randomizer with
  | none => cases h
  | some randomizer =>
  cases nodePrice with
  | none => cases h
  | some nodePrice =>
    dsimp only at h
    split at h
    · cases h
    · rename_i hshards
      split at h
      · cases h
      · rename_i hfew
        cases h
        refine ⟨rfl, rfl, rfl, Nat.pos_of_ne_zero hshards, rfl, fun hevery => ?_, rfl⟩
        rw [hevery, Bool.true_and] at hfew
        exact Nat.not_lt.mp (mt decide_eq_true hfew)

theorem terms_ok (h : r.terms randomizer = .ok (t, c)) :
    t.Follows r ∧ c.shard < t.walletRules.shards := by
  unfold terms at h
  split at h
  · rename_i walletFormat hwf
    split at h
    · rename_i validatorFormat hvf
      dsimp only at h
      split at h
      · cases h
      · rename_i hmin
        split at h
        · rename_i validatorKeys hvk
          obtain ⟨⟨rules, c'⟩, hstart, h⟩ := bind_eq_ok.mp h
          obtain ⟨hkeys, hprice, hshards, hpos, hevery, hfew, hc⟩ := start?_ok hstart
          cases h
          refine ⟨⟨hvk, hkeys, hwf, hvf, hprice, hshards, hpos, hevery, hfew, rfl, rfl, rfl, rfl,
            rfl, rfl, Int.not_lt.mp hmin⟩, ?_⟩
          rw [hc, hshards]
          exact hpos
        · cases h
    · cases h
  · cases h

theorem pool_ok {walletFormat : KeyFormat} (h : r.pool walletFormat = some (.ok pool)) :
    pool.delegators = r.delegators ∧
      Contract.deriveText walletFormat r.addressLength r.owner r.ownerNonce r.machineType =
        some (.ok pool.address) ∧
      walletFormat.decode pool.address = .ok pool.bytes := by
  unfold Request.pool at h
  obtain ⟨address, hderive, h⟩ := bind_eq_some_ok.mp h
  obtain ⟨bytes, hread, h⟩ := bind_eq_some_ok.mp h
  cases h
  exact ⟨rfl, hderive, lift_eq_some_iff.mp hread⟩

theorem pool_eq_ok {walletFormat : KeyFormat} {address : String} {bytes : Bytes}
    (hd : Contract.deriveText walletFormat r.addressLength r.owner r.ownerNonce r.machineType =
      some (.ok address)) (hr : walletFormat.decode address = .ok bytes) :
    r.pool walletFormat = some (.ok { address, bytes, delegators := r.delegators }) :=
  bind_eq_some_ok.mpr ⟨address, hd, bind_eq_some_ok.mpr ⟨bytes, lift_eq_some_iff.mpr hr, rfl⟩⟩

theorem delegatedTerms_ok (h : r.delegatedTerms randomizer = some (.ok (t, c, pool))) :
    t.Follows r ∧ c.shard < t.walletRules.shards ∧ pool.Follows t r := by
  unfold delegatedTerms at h
  dsimp only at h
  split at h
  · cases h
  split at h
  · cases h
  split at h
  · cases h
  rename_i hdelegators
  obtain ⟨⟨t', c'⟩, hterms, h⟩ := bind_eq_some_ok.mp h
  obtain ⟨pool', hpool, h⟩ := bind_eq_some_ok.mp h
  cases h
  obtain ⟨hfollows, hturn⟩ := terms_ok (lift_eq_some_iff.mp hterms)
  obtain ⟨hd, hderived, hread⟩ := pool_ok hpool
  exact ⟨hfollows, hturn, hd, Nat.pos_of_ne_zero hdelegators, hderived, hread⟩

theorem plan_ok (h : r.plan = some (.ok (plan, start))) :
    plan.Follows r ∧ start.InTurn plan.terms := by
  unfold Request.plan at h
  obtain ⟨kind, hkind, h⟩ := bind_eq_some_ok.mp h
  rw [lift_eq_some_iff] at hkind
  cases kind with
  | direct =>
    dsimp only at h
    rw [lift_eq_some_iff] at h
    unfold directPlan at h
    dsimp only at h
    split at h
    · cases h
    rename_i hlimit
    split at h
    · obtain ⟨⟨t, c⟩, hterms, h⟩ := bind_eq_ok.mp h
      cases h
      obtain ⟨hfollows, hturn⟩ := terms_ok hterms
      exact ⟨⟨hfollows, hkind, rfl, Nat.pos_of_ne_zero hlimit⟩, hturn⟩
    · cases h
  | delegated =>
    dsimp only at h
    unfold delegatedPlan at h
    obtain ⟨⟨t, c, pool⟩, hterms, h⟩ := bind_eq_some_ok.mp h
    cases h
    obtain ⟨hfollows, hturn, hpool⟩ := delegatedTerms_ok hterms
    exact ⟨⟨hfollows, hkind, hpool⟩, hturn⟩
  | mixed =>
    dsimp only at h
    unfold mixedPlan at h
    dsimp only at h
    split at h
    · cases h
    rename_i hnodes
    split at h
    · cases h
    rename_i hlimit
    split at h
    · obtain ⟨⟨t, c, pool⟩, hterms, h⟩ := bind_eq_some_ok.mp h
      cases h
      obtain ⟨hfollows, hturn, hpool⟩ := delegatedTerms_ok hterms
      exact ⟨⟨hfollows, hkind, hpool, rfl, by omega, by omega, rfl, Nat.pos_of_ne_zero hlimit⟩,
        hturn⟩
    · cases h

section Ends

variable (h : Contract.sharedLength ≤ r.addressLength)
include h

theorem pool_ne_none (walletFormat : KeyFormat) : r.pool walletFormat ≠ none := by
  intro hnone
  unfold Request.pool at hnone
  obtain hderive | ⟨address, _, hnone⟩ := bind_eq_none.mp hnone
  · exact Contract.deriveText_ne_none h hderive
  obtain hread | ⟨bytes, _, hnone⟩ := bind_eq_none.mp hnone
  · cases hread
  · cases hnone

theorem delegatedTerms_ne_none (randomizer : Option ρ) : r.delegatedTerms randomizer ≠ none := by
  intro hnone
  unfold delegatedTerms at hnone
  dsimp only at hnone
  split at hnone
  · cases hnone
  split at hnone
  · cases hnone
  split at hnone
  · cases hnone
  obtain hterms | ⟨terms, _, hnone⟩ := bind_eq_none.mp hnone
  · cases hterms
  obtain hpool | ⟨pool, _, hnone⟩ := bind_eq_none.mp hnone
  · exact pool_ne_none h _ hpool
  · cases hnone

theorem plan_ne_none : r.plan ≠ none := by
  intro hnone
  unfold Request.plan at hnone
  obtain hkind | ⟨kind, _, hnone⟩ := bind_eq_none.mp hnone
  · cases hkind
  cases kind with
  | direct => cases hnone
  | delegated =>
    dsimp only at hnone
    unfold delegatedPlan at hnone
    obtain hterms | ⟨terms, _, hnone⟩ := bind_eq_none.mp hnone
    · exact delegatedTerms_ne_none h none hterms
    · cases hnone
  | mixed =>
    dsimp only at hnone
    unfold mixedPlan at hnone
    dsimp only at hnone
    split at hnone
    · cases hnone
    split at hnone
    · cases hnone
    split at hnone
    · obtain hterms | ⟨terms, _, hnone⟩ := bind_eq_none.mp hnone
      · exact delegatedTerms_ne_none h _ hterms
      · cases hnone
    · cases hnone

end Ends

end Request

end Genesis
