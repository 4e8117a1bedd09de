import Genesis.Proofs.Cli.Write
import Genesis.Proofs.Strategy.Verdict

/-! The defaults go together: with any keys of the usual lengths a generation is made and passes. -/

namespace Genesis.Cli

theorem Sources.length_of_ofEntropy {entropy : Bytes} (i : Nat) (key : Bytes)
    (h : (ofEntropy entropy).validatorKeys.publicKey i = .ok key) :
    key.length = KeyFormat.validatorSize :=
  (KeySource.writes_validators entropy KeyFormat.validatorSize).length_eq h

namespace Options

variable {s : Sources}

theorem exists_plan_default (s : Sources) :
    ∃ plan start, (request {} s ⟨16, 4⟩ .wallet Amount.defaultTotalSupply Amount.defaultNodePrice
      Amount.defaultMinimumBalance).plan = some (.ok (plan, start)) ∧
        plan.terms.validatorKeys = s.validatorKeys ∧ plan.terms.walletRules.keys = s.walletKeys ∧
          plan.terms.validatorFormat = .validator ∧ plan.terms.walletFormat = .wallet ∧
            plan.terms.walletRules.everyShard = false ∧
              plan.terms.walletRules.nodePrice = Amount.defaultNodePrice ∧
                plan.staking.kind = .direct :=
  ⟨_, _, rfl, rfl, rfl, rfl, rfl, rfl, rfl, rfl⟩

theorem nonempty_preparation_default (hvalidators : s.validatorKeys.Writes KeyFormat.validatorSize)
    (hwallets : s.walletKeys.Writes KeyFormat.walletSize) : Nonempty (Preparation {} s) := by
  obtain ⟨plan, start, hplan, hv, hw, hvf, hwf, hany, hprice, hkind⟩ := exists_plan_default s
  have hwrites : plan.terms.walletRules.keys.Writes plan.terms.walletFormat.size := by
    rw [hw, hwf]
    exact hwallets
  have hplentiful : plan.terms.Plentiful := by
    refine ⟨?_, hwrites, WalletRules.ends_of_any hwrites hany⟩
    rw [hv, hvf]
    exact hvalidators
  have hwritable : plan.terms.Writable := by
    constructor
    · rw [hwf]
      exact fun key hl => KeyFormat.exists_encode_bech32 ⟨_, rfl⟩ hl
    · rw [hvf]
      exact fun key hl => ⟨_, KeyFormat.encode_hex hl⟩
  obtain ⟨hfollows, hstart⟩ := Request.plan_ok hplan
  obtain ⟨b, hb⟩ : ∃ b, plan.outcome start 0 = some (.ok b) := by
    refine Plan.exists_outcome hfollows hstart hplentiful hwritable ?_ 0
    rw [hprice, hkind]
    rfl
  obtain ⟨m, hdrew, hsettle⟩ := Plan.outcome_ok hb
  have hprice_pos : 0 < Amount.defaultNodePrice := by decide
  have hsupply_pos : 0 < Amount.defaultTotalSupply := by decide
  let checker : Checker :=
    ⟨Amount.defaultNodePrice, Amount.defaultTotalSupply, hprice_pos, hsupply_pos⟩
  have hchecked : checker.check b.accounts = .ok (Totals.ofAccounts b.accounts) :=
    Plan.check_of_settle hfollows hdrew hsettle hprice.symm rfl
  exact ⟨{
    counts := ⟨16, 4⟩, totalSupply := Amount.defaultTotalSupply
    nodePrice := Amount.defaultNodePrice, minimumBalance := Amount.defaultMinimumBalance
    walletFormat := .wallet, plan, start, bundle := b, accounts := b.accounts, checker, totals := _
    counted := rfl, supplied := by decide, priced := by decide, floored := by decide
    formatted := rfl, planned := hplan, generated := hb, named := rfl
    checkable := Checker.ofAmounts?_of_pos hprice_pos hsupply_pos, checked := hchecked }⟩

theorem unhindered_default : Unhindered {} {} := ⟨_, _, _, rfl, rfl⟩

theorem exists_run_default (entropy : Bytes) :
    ∃ t, run {} (.ofEntropy entropy) {} = some (.ok (), t) := by
  obtain ⟨q⟩ := nonempty_preparation_default (s := .ofEntropy entropy)
    (KeySource.writes_validators _ _) (KeySource.writes_wallets _ _)
  obtain ⟨coordinator, hcoordinator, hchunks⟩ := exists_chunks q Sources.length_of_ofEntropy
  obtain ⟨t, hwrite, _⟩ := write_complete hcoordinator hchunks unhindered_default
  exact ⟨t, (run_of_preparation q {}).trans (congrArg some hwrite)⟩

end Options

end Genesis.Cli
