import Genesis.Proofs.Strategy.Accepted
import Genesis.Proofs.Strategy.Nodes
import Genesis.Proofs.Strategy.Runs
import Genesis.Proofs.Strategy.Settling

/-!
Whether a generation succeeds, and with which error it fails otherwise, is a matter of counts and
amounts alone, as long as keys can be drawn and written.
-/

namespace Genesis

namespace WalletRules

variable {rules : WalletRules} {ws : List WalletKey}

theorem Owners.eq_nil_iff {pool : List BlsKey} (h : rules.Owners pool ws) :
    ws = [] ↔ pool.length = 0 := by
  rw [List.length_eq_zero_iff, ← h.flatMap_blsKeys]
  constructor
  · rintro rfl
    rfl
  · intro hnil
    by_contra hne
    obtain ⟨w, ws, rfl⟩ := List.exists_cons_of_ne_nil hne
    exact (h.owner w List.mem_cons_self).blsKeys_ne
      (List.flatMap_eq_nil_iff.mp hnil w List.mem_cons_self)

theorem Wallets.eq_nil_iff {n : Nat} (h : rules.Wallets n ws) : ws = [] ↔ n = 0 := by
  rw [← h.length_eq, List.length_eq_zero_iff]

end WalletRules

variable {ρ : Type}

/-- How generations end that are asked for in this way, validators being staked at `price`. The two
things that can go wrong are looked for in the other order where only some are delegated. -/
def Request.verdict (r : Request ρ) (price : Int) : Kind → Except Error Unit
  | .direct =>
    let used := price * r.validators
    if r.validators = 0 ∧ r.additional = 0 then .error .noWallets
    else if r.totalSupply < used then .error (.supplyTooSmall r.totalSupply used)
    else .ok ()
  | .delegated =>
    let used := price * r.validators + r.minimumBalance * r.delegators
    if r.validators = 0 then .error .noWallets
    else if r.totalSupply < used then .error (.supplyTooSmall r.totalSupply used)
    else .ok ()
  | .mixed =>
    let used := price * r.validators + r.minimumBalance * r.delegators
    if r.totalSupply < used then .error (.supplyTooSmall r.totalSupply used)
    else if r.delegatedNodes = r.validators ∧ r.additional = 0 then .error .noWallets
    else .ok ()

namespace Plan

variable {r : Request ρ} {plan : Plan} {m : Material}

theorem map_settle_direct {t : Terms} {limit : Nat} (hf : Plan.Follows ⟨t, .direct limit⟩ r)
    (hd : Plan.Drew ⟨t, .direct limit⟩ m) (h : t.Writable) (hm : t.Fits m) :
    (t.settleDirect m).map (fun _ => ()) = r.verdict t.walletRules.nodePrice .direct := by
  obtain ⟨howners, _⟩ := hd.staking
  have hv : m.validators.length = r.validators := hf.length_validators hd
  have hused : totalStaked m.wallets = t.walletRules.nodePrice * r.validators := by
    rw [howners.totalStaked_eq, hv]
  have hsupply : t.totalSupply = r.totalSupply := hf.terms.totalSupply
  have hnil : m.wallets ++ m.additional = [] ↔ r.validators = 0 ∧ r.additional = 0 := by
    rw [List.append_eq_nil_iff, howners.eq_nil_iff, hd.additional.eq_nil_iff, hv,
      ← hf.terms.additional]
  unfold Request.verdict
  dsimp only
  rw [← hused, ← hsupply]
  split_ifs with hnone hlt
  · obtain ⟨hw, ha⟩ := List.append_eq_nil_iff.mp (hnil.mpr hnone)
    unfold Terms.settleDirect
    rw [hw, ha]
    rfl
  · rw [Terms.settleDirect_of_lt (mt hnil.mp hnone) hlt]
    rfl
  · obtain ⟨b, hb⟩ := Terms.exists_settleDirect h hm (mt hnil.mp hnone) (Int.not_lt.mp hlt)
    rw [hb]
    rfl

theorem map_settle_delegated {t : Terms} {pool : Pool}
    (hf : Plan.Follows ⟨t, .delegated pool⟩ r) (hd : Plan.Drew ⟨t, .delegated pool⟩ m)
    (h : t.Writable) (hm : t.Fits m) :
    (t.settleDelegated pool m).map (fun _ => ()) =
      r.verdict t.walletRules.nodePrice .delegated := by
  obtain ⟨hwallets, hdelegators⟩ := hd.staking
  have hv : m.validators.length = r.validators := hf.length_validators hd
  have hused : delegationCost (t.stake m.validators.length) t.minimumBalance m.delegators.length =
      t.walletRules.nodePrice * r.validators + r.minimumBalance * r.delegators := by
    rw [delegationCost_eq (hf.staking.ne_nil hdelegators), hdelegators.length_eq,
      hf.staking.delegators, hf.terms.minimumBalance, Terms.stake, hv]
  have hsupply : t.totalSupply = r.totalSupply := hf.terms.totalSupply
  have hnil : m.wallets = [] ↔ r.validators = 0 := by
    rw [hwallets.eq_nil_iff]
    exact hv ▸ Iff.rfl
  unfold Request.verdict
  dsimp only
  rw [← hused, ← hsupply]
  split_ifs with hnone hlt
  · unfold Terms.settleDelegated
    rw [hnil.mpr hnone]
    rfl
  · rw [Terms.settleDelegated_of_lt (mt hnil.mp hnone) hlt]
    rfl
  · obtain ⟨b, hb⟩ := Terms.exists_settleDelegated h hm
      (KeyFormat.length_of_decode hf.staking.read) (mt hnil.mp hnone) (Int.not_lt.mp hlt)
    rw [hb]
    rfl

theorem map_settle_mixed {t : Terms} {pool : Pool} {k limit : Nat}
    (hf : Plan.Follows ⟨t, .mixed pool k limit⟩ r) (hd : Plan.Drew ⟨t, .mixed pool k limit⟩ m)
    (h : t.Writable) (hm : t.Fits m) :
    (t.settleMixed pool k m).map (fun _ => ()) = r.verdict t.walletRules.nodePrice .mixed := by
  obtain ⟨howners, hdelegators⟩ := hd.staking
  obtain ⟨hpool, rfl, hkpos, hkle, _⟩ := hf.staking
  have hv : m.validators.length = r.validators := hf.length_validators hd
  -- the delegated part and the owned part of the stake make up the price of all validators
  have hused : delegationCost (t.stake (m.validators.take r.delegatedNodes).length)
      t.minimumBalance m.delegators.length + totalStaked m.wallets =
        t.walletRules.nodePrice * r.validators + r.minimumBalance * r.delegators := by
    have hsplit : ((m.validators.take r.delegatedNodes).length : Int) +
        (m.validators.drop r.delegatedNodes).length = r.validators := by
      rw [List.length_take, List.length_drop]
      omega
    rw [delegationCost_eq (hpool.ne_nil hdelegators), hdelegators.length_eq, hpool.delegators,
      hf.terms.minimumBalance, howners.totalStaked_eq, Terms.stake, ← hsplit]
    ring
  have hsupply : t.totalSupply = r.totalSupply := hf.terms.totalSupply
  have hnil : m.wallets ++ m.additional = [] ↔
      r.delegatedNodes = r.validators ∧ r.additional = 0 := by
    rw [List.append_eq_nil_iff, howners.eq_nil_iff, hd.additional.eq_nil_iff, List.length_drop, hv,
      ← hf.terms.additional]
    omega
  unfold Request.verdict
  dsimp only
  rw [← hused, ← hsupply]
  split_ifs with hlt hnone
  · rw [Terms.settleMixed_of_lt hlt]
    rfl
  · obtain ⟨hw, ha⟩ := List.append_eq_nil_iff.mp (hnil.mpr hnone)
    rw [Terms.settleMixed_of_nil hw ha (Int.not_lt.mp hlt)]
    rfl
  · obtain ⟨b, hb⟩ := Terms.exists_settleMixed h hm
      (KeyFormat.length_of_decode hpool.read) (mt hnil.mp hnone) (Int.not_lt.mp hlt)
    rw [hb]
    rfl

theorem map_settle (hf : plan.Follows r) (hd : plan.Drew m) (h : plan.terms.Writable)
    (hm : plan.terms.Fits m) :
    (plan.settle m).map (fun _ => ()) =
      r.verdict plan.terms.walletRules.nodePrice plan.staking.kind := by
  obtain ⟨t, staking⟩ := plan
  cases staking with
  | direct limit => exact map_settle_direct hf hd h hm
  | delegated pool => exact map_settle_delegated hf hd h hm
  | mixed pool k limit => exact map_settle_mixed hf hd h hm

section Runs

variable [Randomizer ρ] {p start : Progress ρ}

theorem inTurn_generate (h : plan.terms.Plentiful) (hg : plan.staking.Groups)
    (hp : p.InTurn plan.terms) :
    ∃ result p', plan.generate p = some (result, p') ∧ p'.InTurn plan.terms := by
  obtain ⟨m, p', hdraw, hp'⟩ := succeeds_draw h hg p hp
  unfold generate
  rw [hdraw]
  dsimp only
  cases plan.settle m with
  | error e => exact ⟨_, _, rfl, hp'⟩
  | ok b => exact ⟨_, _, rfl, hp'⟩

theorem inTurn_after (h : plan.terms.Plentiful) (hg : plan.staking.Groups)
    (hp : p.InTurn plan.terms) (n : Nat) :
    ∃ q, plan.after n p = some q ∧ q.InTurn plan.terms := by
  induction n generalizing p with
  | zero => exact ⟨p, rfl, hp⟩
  | succ n ih =>
    obtain ⟨result, p', hgenerate, hp'⟩ := inTurn_generate h hg hp
    obtain ⟨q, hafter, hq⟩ := ih hp'
    exact ⟨q, after_succ_eq_some.mpr ⟨result, p', hgenerate, hafter⟩, hq⟩

/-- However often it is repeated, the outcome is the one that counts and amounts decide. -/
theorem exists_outcome_of_verdict (hf : plan.Follows r) (hs : start.InTurn plan.terms)
    (h : plan.terms.Plentiful) (hw : plan.terms.Writable) (n : Nat) :
    ∃ result, plan.outcome start n = some result ∧
      result.map (fun _ => ()) = r.verdict plan.terms.walletRules.nodePrice plan.staking.kind := by
  have hg := hf.groups
  obtain ⟨p, hafter, hp⟩ := inTurn_after h hg hs n
  obtain ⟨m, p', hdraw, _⟩ := succeeds_draw h hg p hp
  obtain ⟨q, hgenerate⟩ := generate_of_draw hdraw
  have hdrew := draw_ok hdraw
  exact ⟨_, outcome_eq_some.mpr ⟨p, q, hafter, hgenerate⟩, map_settle hf hdrew hw (hdrew.fits h)⟩

theorem exists_outcome (hf : plan.Follows r) (hs : start.InTurn plan.terms)
    (h : plan.terms.Plentiful) (hw : plan.terms.Writable)
    (hverdict : r.verdict plan.terms.walletRules.nodePrice plan.staking.kind = .ok ()) (n : Nat) :
    ∃ b, plan.outcome start n = some (.ok b) := by
  obtain ⟨result, hresult, hmap⟩ := exists_outcome_of_verdict hf hs h hw n
  rw [hverdict] at hmap
  cases result with
  | error e => cases hmap
  | ok b => exact ⟨b, hresult⟩

end Runs

end Plan

/-- As long as keys can be drawn and written, every generation ends as counts and amounts alone
decide: neither the answers of the randomizer nor what was drawn before make a difference. -/
theorem generate_verdict [Randomizer ρ] {r : Request ρ} {plan : Plan} {start : Progress ρ}
    (accepted : r.plan = some (.ok (plan, start))) (plentiful : plan.terms.Plentiful)
    (writable : plan.terms.Writable) (n : Nat) :
    ∃ price kind result, r.nodePrice = some price ∧ Kind.ofName? r.strategy = .ok kind ∧
      plan.outcome start n = some result ∧ result.map (fun _ => ()) = r.verdict price kind := by
  obtain ⟨hfollows, hstart⟩ := Request.plan_ok accepted
  obtain ⟨result, houtcome, hverdict⟩ :=
    Plan.exists_outcome_of_verdict hfollows hstart plentiful writable n
  exact ⟨plan.terms.walletRules.nodePrice, plan.staking.kind, result, hfollows.terms.nodePrice,
    hfollows.kind, houtcome, hverdict⟩

namespace Request

open Steps

/-- Three validators, for one of which two delegators stake in the mixed strategy. -/
def sample (kind : Kind) (validatorFormat : KeyFormat) : Request Script where
  strategy := kind.name
  validatorKeys := some (.numbered validatorFormat.size 32)
  walletKeys := some (.numbered KeyFormat.walletSize 64)
  walletFormat := some (.hex KeyFormat.walletSize KeyFormat.walletSize_pos)
  validatorFormat := some validatorFormat
  validators := 3
  additional := 1
  nodePrice := some 2500
  totalSupply := 20000
  minimumBalance := 100
  maxPerOwner := 3
  randomizer := some .greatest
  owner := Hex.encode (List.replicate KeyFormat.walletSize 0)
  delegators := 2
  delegatedNodes := 1

variable {kind : Kind} {format : KeyFormat}

theorem exists_pool_sample (kind : Kind) (format : KeyFormat) :
    ∃ pool, (sample kind format).pool (.hex KeyFormat.walletSize KeyFormat.walletSize_pos) =
      some (.ok pool) := by
  have hcreator : (List.replicate KeyFormat.walletSize (0 : UInt8)).length = KeyFormat.walletSize :=
    List.length_replicate
  have hmachine : Hex.decode Contract.defaultMachineType = .ok [5, 0] := by decide
  obtain ⟨address, haddress⟩ : ∃ address, Contract.derive KeyFormat.walletSize
      (List.replicate KeyFormat.walletSize 0) 0 [5, 0] = some (.ok address) :=
    Contract.exists_derive 0 hcreator rfl (by decide)
  have hlength := Contract.length_derive haddress
  exact ⟨_, pool_eq_ok (Contract.deriveText_eq_ok (KeyFormat.decode_hex hcreator) hmachine haddress
    (KeyFormat.encode_hex hlength)) (KeyFormat.decode_hex hlength)⟩

theorem exists_delegatedTerms_sample (kind : Kind) (format : KeyFormat) (chosen : Option Script) :
    ∃ asked, (sample kind format).delegatedTerms chosen = some (.ok asked) := by
  obtain ⟨pool, hpool⟩ := exists_pool_sample kind format
  exact ⟨_, bind_eq_some_ok.mpr ⟨_, rfl, bind_eq_some_ok.mpr ⟨pool, hpool, rfl⟩⟩⟩

theorem exists_plan_sample (kind : Kind) (format : KeyFormat) :
    ∃ plan start, (sample kind format).plan = some (.ok (plan, start)) := by
  cases kind with
  | direct => exact ⟨_, _, rfl⟩
  | delegated =>
    obtain ⟨asked, hasked⟩ := exists_delegatedTerms_sample .delegated format none
    exact ⟨_, _, bind_eq_some_ok.mpr ⟨_, rfl, bind_eq_some_ok.mpr ⟨asked, hasked, rfl⟩⟩⟩
  | mixed =>
    obtain ⟨asked, hasked⟩ := exists_delegatedTerms_sample .mixed format (some .greatest)
    exact ⟨_, _, bind_eq_some_ok.mpr ⟨_, rfl, bind_eq_some_ok.mpr ⟨asked, hasked, rfl⟩⟩⟩

/-- All keys can be written, and wallets may fall into any shard. -/
structure Drawable (r : Request Script) (format : KeyFormat) : Prop where
  walletKeys : ∃ keys, r.walletKeys = some keys ∧ keys.Writes KeyFormat.walletSize
  validatorKeys : ∃ keys, r.validatorKeys = some keys ∧ keys.Writes format.size
  walletFormat : r.walletFormat = some (.hex KeyFormat.walletSize KeyFormat.walletSize_pos)
  validatorFormat : r.validatorFormat = some format
  everyShard : r.everyShard = false

theorem drawable_of_numbered {r : Request Script}
    (hw : r.walletKeys = some (.numbered KeyFormat.walletSize 64))
    (hv : r.validatorKeys = some (.numbered format.size 32))
    (hwf : r.walletFormat = some (.hex KeyFormat.walletSize KeyFormat.walletSize_pos))
    (hvf : r.validatorFormat = some format) (hany : r.everyShard = false) : r.Drawable format :=
  ⟨⟨_, hw, KeySource.writes_numbered _ _⟩, ⟨_, hv, KeySource.writes_numbered _ _⟩, hwf, hvf, hany⟩

theorem drawable_sample (kind : Kind) (format : KeyFormat) : (sample kind format).Drawable format :=
  drawable_of_numbered rfl rfl rfl rfl rfl

section Plan

variable {r : Request Script} {plan : Plan} {start : Progress Script}

theorem Drawable.plentiful (hr : r.Drawable format) (h : r.plan = some (.ok (plan, start))) :
    plan.terms.Plentiful := by
  obtain ⟨hfollows, _⟩ := plan_ok h
  obtain ⟨validators, hvalidators, hvalidatorsWrite⟩ := hr.validatorKeys
  obtain ⟨wallets, hwallets, hwalletsWrite⟩ := hr.walletKeys
  have hvalidatorFormat := hr.validatorFormat.symm.trans hfollows.terms.validatorFormat
  have hwalletFormat := hr.walletFormat.symm.trans hfollows.terms.walletFormat
  have hany : plan.terms.walletRules.everyShard = false :=
    hfollows.terms.everyShard.trans hr.everyShard
  have hwrites : plan.terms.walletRules.keys.Writes plan.terms.walletFormat.size := by
    rw [← Option.some.inj (hwallets.symm.trans hfollows.terms.walletKeys),
      ← Option.some.inj hwalletFormat]
    exact hwalletsWrite
  refine ⟨?_, hwrites, WalletRules.ends_of_any hwrites hany⟩
  rw [← Option.some.inj (hvalidators.symm.trans hfollows.terms.validatorKeys),
    ← Option.some.inj hvalidatorFormat]
  exact hvalidatorsWrite

theorem Drawable.encodes_wallets (hr : r.Drawable format)
    (h : r.plan = some (.ok (plan, start))) (key : Bytes)
    (hl : key.length = plan.terms.walletFormat.size) :
    ∃ text, plan.terms.walletFormat.encode key = .ok text := by
  obtain ⟨hfollows, _⟩ := plan_ok h
  rw [← Option.some.inj (hr.walletFormat.symm.trans hfollows.terms.walletFormat)] at hl ⊢
  exact ⟨_, KeyFormat.encode_hex hl⟩

theorem Drawable.writable (hr : r.Drawable .validator) (h : r.plan = some (.ok (plan, start))) :
    plan.terms.Writable := by
  obtain ⟨hfollows, _⟩ := plan_ok h
  refine ⟨hr.encodes_wallets h, fun key hl => ?_⟩
  rw [← Option.some.inj (hr.validatorFormat.symm.trans hfollows.terms.validatorFormat)] at hl ⊢
  exact ⟨_, KeyFormat.encode_hex hl⟩

theorem Drawable.exists_outcome (hr : r.Drawable .validator) (h : r.plan = some (.ok (plan, start)))
    (hverdict : ∀ price kind, r.nodePrice = some price → Kind.ofName? r.strategy = .ok kind →
      r.verdict price kind = .ok ()) (n : Nat) : ∃ b, plan.outcome start n = some (.ok b) := by
  obtain ⟨hfollows, hstart⟩ := plan_ok h
  have hgranted := hverdict _ _ hfollows.terms.nodePrice hfollows.kind
  exact Plan.exists_outcome hfollows hstart (hr.plentiful h) (hr.writable h) hgranted n

theorem plentiful_sample (h : (sample kind format).plan = some (.ok (plan, start))) :
    plan.terms.Plentiful :=
  (drawable_sample kind format).plentiful h

theorem encodes_wallets_sample (h : (sample kind format).plan = some (.ok (plan, start)))
    (key : Bytes)
    (hl : key.length = plan.terms.walletFormat.size) :
    ∃ text, plan.terms.walletFormat.encode key = .ok text :=
  (drawable_sample kind format).encodes_wallets h key hl

theorem writable_sample (h : (sample kind .validator).plan = some (.ok (plan, start))) :
    plan.terms.Writable :=
  (drawable_sample kind .validator).writable h

end Plan

theorem exists_outcome_sample (kind : Kind) (n : Nat) :
    ∃ plan start b, (sample kind .validator).plan = some (.ok (plan, start)) ∧
      plan.outcome start n = some (.ok b) := by
  obtain ⟨plan, start, hplan⟩ := exists_plan_sample kind .validator
  obtain ⟨b, hb⟩ := (drawable_sample kind .validator).exists_outcome hplan
    (fun price kind' hprice hkind => by
      obtain rfl : 2500 = price := Option.some.inj hprice
      cases kind <;> cases hkind <;> decide) n
  exact ⟨plan, start, b, hplan, hb⟩

end Request

/-- The second generation of the sample succeeds as the first one does. -/
theorem sample_verdict : ∃ plan start,
    (Request.sample .mixed .validator).plan = some (.ok (plan, start)) ∧ plan.terms.Plentiful ∧
      plan.terms.Writable ∧ ∃ b, plan.outcome start 1 = some (.ok b) := by
  obtain ⟨plan, start, hplan⟩ := Request.exists_plan_sample .mixed .validator
  have hplentiful := Request.plentiful_sample hplan
  have hwritable := Request.writable_sample hplan
  obtain ⟨price, kind, result, hprice, hkind, houtcome, hverdict⟩ :=
    generate_verdict hplan hplentiful hwritable 1
  obtain rfl : 2500 = price := Option.some.inj hprice
  obtain rfl : Kind.mixed = kind := Except.ok.inj hkind
  have hgranted := hverdict.trans (by decide : _ = Except.ok ())
  cases result with
  | error e => cases hgranted
  | ok b => exact ⟨plan, start, hplan, hplentiful, hwritable, b, houtcome⟩

/-- A format for validator keys with a prefix that no text can have, in which none can be
written. -/
def blankPrefix : KeyFormat := .bech32 KeyFormat.validatorSize " " KeyFormat.validatorSize_pos

theorem blankPrefix_encode_ne (key : Bytes) (text : String) :
    blankPrefix.encode key ≠ .ok text := by
  intro h
  obtain ⟨_, _, h⟩ := Steps.bind_eq_ok.mp h
  have hblank : Bech32.encode .bech32 " ".toList (Bech32.ofBytes key) =
      .error (.badCharacter ' ') := rfl
  dsimp only [blankPrefix] at h
  rw [hblank] at h
  cases h

/-- It is not enough that wallet keys can be written: where counts and amounts allow for it,
nothing is generated if validator keys cannot be. -/
theorem sample_unwritable : ∃ plan start,
    (Request.sample .direct blankPrefix).plan = some (.ok (plan, start)) ∧ plan.terms.Plentiful ∧
      (∀ key : Bytes, key.length = plan.terms.walletFormat.size →
        ∃ text, plan.terms.walletFormat.encode key = .ok text) ∧
      (Request.sample .direct blankPrefix).verdict 2500 .direct = .ok () ∧
      ∀ b, plan.outcome start 0 ≠ some (.ok b) := by
  obtain ⟨plan, start, hplan⟩ := Request.exists_plan_sample .direct blankPrefix
  refine ⟨plan, start, hplan, Request.plentiful_sample hplan,
    Request.encodes_wallets_sample hplan, by decide, ?_⟩
  intro b hb
  obtain ⟨hfollows, _⟩ := Request.plan_ok hplan
  obtain ⟨m, hdrew, hsettle⟩ := Plan.outcome_ok hb
  have hvalidators : m.validators ≠ [] := by
    rw [← List.length_pos_iff, hfollows.length_validators hdrew]
    decide
  have hwritten := Plan.written_of_settle hdrew hsettle
  obtain ⟨key, keys, hkeys⟩ := List.exists_cons_of_ne_nil hvalidators
  rw [hkeys] at hwritten
  obtain ⟨node, _, hnode, _, _⟩ := List.forall₂_cons_left_iff.mp hwritten
  refine blankPrefix_encode_ne key.publicKey node.pubKey ?_
  rw [← hnode, ← Option.some.inj hfollows.terms.validatorFormat]

end Genesis
