import Genesis.Proofs.Key.Turns
import Genesis.Proofs.Strategy.Verdict
import Genesis.Proofs.Strategy.Gate

/-!
The wallets of a generation are spread over the shards as evenly as can be, if they are drawn for
every shard in turn.
-/

namespace Genesis

namespace Drawing

variable {ρ α β : Type} [Randomizer ρ] {rules : WalletRules} {x : Drawing ρ α} {f : α → Drawing ρ β}

/-- All that a draw asks of its source of wallets are some calls, and what is drawn stands in the
relation `Q` to the public keys that they complete. -/
def Collects (rules : WalletRules) (Q : α → List Bytes → Prop) (x : Drawing ρ α) : Prop :=
  ∀ p, ∃ calls, rules.performAll p.wallets calls = (x.run p).map (·.2.wallets) ∧
    ∀ a q, x.run p = some (.ok a, q) → Q a ((rules.completedAll p.wallets calls).map (·.publicKey))

theorem collects_pure {Q : α → List Bytes → Prop} {a : α} (h : Q a []) :
    Collects (ρ := ρ) rules Q (pure a) := by
  refine fun p => ⟨[], rfl, fun b q hb => ?_⟩
  cases hb
  exact h

theorem collects_bind {Q : β → List Bytes → Prop}
    (hx : ∀ p, ∃ result q, x.run p = some (result, q) ∧ q.wallets = p.wallets)
    (hf : ∀ a, Collects rules Q (f a)) : Collects rules Q (x >>= f) := by
  intro p
  obtain ⟨result, q, hrun, hwallets⟩ := hx p
  rw [run_bind, hrun]
  cases result with
  | error e =>
    refine ⟨[], congrArg some hwallets.symm, fun a q h => ?_⟩
    cases h
  | ok a =>
    obtain ⟨calls, hcalls, hQ⟩ := hf a q
    rw [hwallets] at hcalls hQ
    exact ⟨calls, hcalls, hQ⟩

theorem collects_call {Q : β → List Bytes → Prop} {x : Drawing ρ (List WalletKey)}
    {f : List WalletKey → Drawing ρ β} {call : WalletRules.Call}
    (hx : ∀ p, rules.perform p.wallets call = (x.run p).map fun last => (last.1, last.2.wallets))
    (hf : ∀ ws, Collects rules (fun b keys => Q b (ws.map (·.publicKey) ++ keys)) (f ws)) :
    Collects rules Q (x >>= f) := by
  intro p
  have hperform := hx p
  rw [run_bind]
  rcases hrun : x.run p with _ | ⟨e | ws, q⟩
  · rw [hrun, Option.map_none] at hperform
    refine ⟨[call], by rw [WalletRules.performAll, hperform]; rfl, fun a q h => ?_⟩
    cases h
  · rw [hrun, Option.map_some] at hperform
    refine ⟨[call], by rw [WalletRules.performAll, hperform]; rfl, fun a q h => ?_⟩
    cases h
  · rw [hrun, Option.map_some] at hperform
    obtain ⟨calls, hcalls, hQ⟩ := hf ws q
    refine ⟨call :: calls, by rw [WalletRules.performAll, hperform]; exact hcalls, ?_⟩
    intro b q' hb
    rw [WalletRules.completedAll, hperform, List.map_append,
      ← (WalletRules.gives_perform hperform).keys ws rfl]
    exact hQ b q' hb

end Drawing

namespace Terms

variable {ρ : Type} (t : Terms) (n : Nat) (p : Progress ρ)

theorem wallets_drawValidators :
    ∃ result q, (t.drawValidators n).run p = some (result, q) ∧ q.wallets = p.wallets :=
  ⟨_, _, rfl, rfl⟩

variable [Randomizer ρ]

theorem perform_drawWallets :
    t.walletRules.perform p.wallets (.wallets n) =
      ((t.drawWallets n).run p).map fun last => (last.1, last.2.wallets) := by
  rw [run_drawWallets, Option.map_map]
  exact Option.map_id'.symm

theorem perform_drawOwners (pool : List BlsKey) (limit : Nat) :
    t.walletRules.perform p.wallets (.owners pool limit) =
      ((t.drawOwners pool limit).run p).map fun last => (last.1, last.2.wallets) := by
  unfold drawOwners WalletRules.perform
  dsimp only [ExceptT.run]
  rcases t.walletRules.owners pool limit p.wallets with _ | ⟨e | ws, c⟩
  · rfl
  · rfl
  · rfl

end Terms

namespace Plan

open Drawing

/-- The public keys of all wallets that were drawn, each as often as it was. -/
def Carries (m : Material) (keys : List Bytes) : Prop :=
  ((m.wallets ++ m.delegators ++ m.additional).map (·.publicKey)).Perm keys

variable {ρ : Type} [Randomizer ρ] {plan : Plan} {p : Progress ρ}

theorem collects_draw (plan : Plan) :
    Collects (ρ := ρ) plan.terms.walletRules Carries plan.draw := by
  obtain ⟨t, staking⟩ := plan
  unfold draw
  refine collects_bind (t.wallets_drawValidators _) fun validators => ?_
  refine collects_bind (t.wallets_drawValidators _) fun observers => ?_
  cases staking with
  | direct limit =>
    refine collects_call (fun p => t.perform_drawOwners p _ _) fun wallets => ?_
    refine collects_call (fun p => t.perform_drawWallets _ p) fun additional => ?_
    refine collects_pure ?_
    simp [Carries]
  | delegated pool =>
    refine collects_call (fun p => t.perform_drawWallets _ p) fun wallets => ?_
    refine collects_call (fun p => t.perform_drawWallets _ p) fun delegators => ?_
    refine collects_call (fun p => t.perform_drawWallets _ p) fun additional => ?_
    refine collects_pure ?_
    simp [Carries]
  | mixed pool k limit =>
    refine collects_call (fun p => t.perform_drawWallets _ p) fun delegators => ?_
    refine collects_call (fun p => t.perform_drawWallets _ p) fun additional => ?_
    refine collects_call (fun p => t.perform_drawOwners p _ _) fun wallets => ?_
    refine collects_pure ?_
    -- the owners are drawn last, but come first among the wallets
    have hlast : ((wallets ++ (delegators ++ additional)).map (·.publicKey)).Perm
        ((delegators ++ additional ++ wallets).map (·.publicKey)) :=
      List.perm_append_comm.map _
    simpa [Carries] using hlast

theorem wallets_generate (plan : Plan) (p : Progress ρ) :
    (plan.generate p).map (·.2.wallets) = (plan.draw.run p).map (·.2.wallets) := by
  unfold generate
  rcases plan.draw.run p with _ | ⟨e | m, q⟩
  · rfl
  · rfl
  · dsimp only
    cases plan.settle m with
    | error e => rfl
    | ok b => rfl

theorem publicKeys_of_settle {m : Material} {b : Bundle} (hd : plan.Drew m)
    (h : plan.settle m = .ok b) :
    (b.wallets ++ b.delegators ++ b.additional).map (·.publicKey) =
      (m.wallets ++ m.delegators ++ m.additional).map (·.publicKey) := by
  obtain ⟨contract, n, cost, hsettled⟩ := settled_of_settle hd h
  obtain ⟨hwallets, hadditional⟩ :=
    Terms.fund_map (f := fun w : WalletKey => w.publicKey) (fun _ _ => rfl) hsettled.fund
  have hdelegators : b.delegators.map (·.publicKey) = m.delegators.map (·.publicKey) := by
    rw [hsettled.delegators_eq, map_publicKey_giveDelegation]
  simp only [List.map_append, hwallets, hadditional, hdelegators]

/-- The calls for wallets in one generation, and the wallets that came of them. -/
structure Calls (plan : Plan) (p : Progress ρ) (calls : List WalletRules.Call) : Prop where
  wallets : plan.terms.walletRules.performAll p.wallets calls =
    (plan.generate p).map (·.2.wallets)
  publicKeys : ∀ b q, plan.generate p = some (.ok b, q) →
    ((b.wallets ++ b.delegators ++ b.additional).map (·.publicKey)).Perm
      ((plan.terms.walletRules.completedAll p.wallets calls).map (·.publicKey))

theorem exists_calls (plan : Plan) (p : Progress ρ) : ∃ calls, plan.Calls p calls := by
  obtain ⟨calls, hwallets, hcarries⟩ := plan.collects_draw p
  refine ⟨calls, hwallets.trans (plan.wallets_generate p).symm, fun b q hb => ?_⟩
  obtain ⟨m, q, hdraw, hsettle⟩ := run_draw_of_generate hb
  rw [publicKeys_of_settle (draw_ok hdraw) hsettle]
  exact hcarries m q hdraw

theorem shard_lt_generate {result : Except Error Bundle} {q : Progress ρ}
    (h : p.InTurn plan.terms) (hp : plan.generate p = some (result, q)) :
    q.InTurn plan.terms := by
  obtain ⟨calls, hcalls⟩ := plan.exists_calls p
  have hlast := hcalls.wallets
  rw [hp, Option.map_some] at hlast
  exact (WalletRules.draws_performAll hlast).shard_lt h

end Plan

/-- Wallets that are drawn for every shard end in the numbers of the shards in turn, over all calls
and whether these succeed, and so every generation spreads its wallets over the shards evenly. -/
theorem wallets_take_turns {ρ : Type} [Randomizer ρ] (n : UInt32) :
    (∀ (keys : KeySource) (randomizer : ρ) (price : Int),
      ((∃ made, WalletRules.start? (some keys) (some randomizer) (some price) n.toNat true =
        .ok made) ↔ 1 ≤ n.toNat ∧ n.toNat ≤ 256) ∧
      ∀ rules start, WalletRules.start? (some keys) (some randomizer) (some price) n.toNat true =
          .ok (rules, start) →
        ∃ coordinator, Coordinator.ofCount? n = .ok coordinator ∧
          ∀ calls, rules.Rotates n.toNat coordinator start calls) ∧
    ∀ (r : Request ρ) plan start, r.everyShard = true → r.shards = n.toNat →
      r.plan = some (.ok (plan, start)) →
        ∃ coordinator, Coordinator.ofCount? n = .ok coordinator ∧
          ∀ m p, plan.after m start = some p → ∃ calls, plan.Calls p calls ∧
            coordinator.Even (plan.terms.walletRules.completedAll p.wallets calls) ∧
            ∀ b, plan.outcome start m = some (.ok b) →
              coordinator.Even (b.wallets ++ b.delegators ++ b.additional) := by
  refine ⟨fun keys randomizer price => ⟨?_, fun rules start h => ?_⟩, fun r plan start every asked
    h => ?_⟩
  · simp only [Prod.exists, WalletRules.start?_everyShard_eq_ok_iff]
    exact ⟨fun ⟨_, _, hn, _⟩ => hn, fun hn => ⟨_, _, hn, rfl, rfl⟩⟩
  · obtain ⟨⟨hpos, hfew⟩, rfl, rfl⟩ := WalletRules.start?_everyShard_eq_ok_iff.mp h
    exact ⟨⟨n.toNat, hpos, n.toNat_lt⟩, dif_pos hpos, WalletRules.rotates rfl rfl rfl hfew rfl⟩
  · obtain ⟨hfollows, hstart⟩ := Request.plan_ok h
    have hpos : 0 < n.toNat := asked ▸ hfollows.terms.shards_pos
    have hfew : n.toNat ≤ 256 := asked ▸ hfollows.terms.shards_le every
    have hshards : plan.terms.walletRules.shards = n.toNat := hfollows.terms.shards.trans asked
    refine ⟨⟨n.toNat, hpos, n.toNat_lt⟩, dif_pos hpos, fun m p hp => ?_⟩
    have hturn := Plan.after_of_keeps (fun _ h _ _ => Plan.shard_lt_generate h) hstart hp
    obtain ⟨calls, hcalls⟩ := plan.exists_calls p
    obtain ⟨last, hdraws, _⟩ :=
      plan.terms.walletRules.exists_draws_completedAll p.wallets calls
    have hround := hdraws.inTurn (hfollows.terms.everyShard.trans every) hturn
    rw [hshards] at hround
    have heven := Coordinator.even_of_inTurn (c := ⟨n.toNat, hpos, n.toNat_lt⟩) hfew hround
    refine ⟨calls, hcalls, heven, fun b hb => ?_⟩
    obtain ⟨p', q, hp', hgenerate⟩ := Plan.outcome_eq_some.mp hb
    obtain rfl : p = p' := Option.some.inj (hp.symm.trans hp')
    exact heven.of_perm (hcalls.publicKeys b q hgenerate)

namespace Request

def countingKeys : KeySource where
  publicKey i := .ok (List.replicate 31 0 ++ [UInt8.ofNat i])
  privateKey _ := .ok []

def spreadSample (validators additional : Nat) : Request Script :=
  { sample .direct .validator with
    walletKeys := some countingKeys
    validators
    additional
    shards := 3
    everyShard := true }

theorem writes_countingKeys : countingKeys.Writes KeyFormat.walletSize where
  publicKey i := ⟨List.replicate 31 0 ++ [UInt8.ofNat i], rfl, rfl⟩
  privateKey _ := ⟨[], rfl⟩

theorem ends_countingKeys {rules : WalletRules} (hkeys : rules.keys = countingKeys)
    (hfew : rules.shards ≤ 256) : rules.Ends := by
  intro shard hshard i
  rw [hkeys]
  refine ⟨(shard + 256 - i % 256) % 256, _, rfl, ?_⟩
  have hbyte : (UInt8.ofNat (i + (shard + 256 - i % 256) % 256)).toNat = shard := by
    rw [UInt8.toNat_ofNat']
    omega
  unfold WalletRules.accepts
  rw [Bool.or_eq_true, List.getLast?_concat, Option.any_some, decide_eq_true_eq]
  exact .inr hbyte

theorem exists_outcome_spreadSample {validators additional : Nat} {plan : Plan}
    {start : Progress Script}
    (hplan : (spreadSample validators additional).plan = some (.ok (plan, start)))
    (hverdict : (spreadSample validators additional).verdict 2500 .direct = .ok ()) (m : Nat) :
    ∃ b, plan.outcome start m = some (.ok b) := by
  obtain ⟨hfollows, hstart⟩ := plan_ok hplan
  have hwalletKeys : countingKeys = plan.terms.walletRules.keys :=
    Option.some.inj hfollows.terms.walletKeys
  have hvalidatorKeys : KeySource.numbered KeyFormat.validator.size 32 = plan.terms.validatorKeys :=
    Option.some.inj hfollows.terms.validatorKeys
  have hwalletFormat : KeyFormat.hex KeyFormat.walletSize KeyFormat.walletSize_pos =
      plan.terms.walletFormat := Option.some.inj hfollows.terms.walletFormat
  have hvalidatorFormat : KeyFormat.validator = plan.terms.validatorFormat :=
    Option.some.inj hfollows.terms.validatorFormat
  have hshards : plan.terms.walletRules.shards = 3 := hfollows.terms.shards
  have hends := ends_countingKeys hwalletKeys.symm (by omega)
  have hplentiful : plan.terms.Plentiful := by
    refine ⟨?_, ?_, hends⟩
    · rw [← hvalidatorKeys, ← hvalidatorFormat]
      exact KeySource.writes_numbered _ _
    · rw [← hwalletKeys, ← hwalletFormat]
      exact writes_countingKeys
  have hwritable : plan.terms.Writable := by
    refine ⟨fun key hl => ?_, fun key hl => ?_⟩
    · rw [← hwalletFormat] at hl ⊢
      exact ⟨_, KeyFormat.encode_hex hl⟩
    · rw [← hvalidatorFormat] at hl ⊢
      exact ⟨_, KeyFormat.encode_hex hl⟩
  have hkind : Kind.direct = plan.staking.kind := Except.ok.inj hfollows.kind
  have hprice : (2500 : Int) = plan.terms.walletRules.nodePrice :=
    Option.some.inj hfollows.terms.nodePrice
  rw [hkind, hprice] at hverdict
  exact Plan.exists_outcome hfollows hstart hplentiful hwritable hverdict m

end Request

/-- The second generation of a sample, and two calls on a source of the same keys. -/
theorem sample_takes_turns : ∃ plan start b coordinator,
    (Request.spreadSample 3 4).plan = some (.ok (plan, start)) ∧
      plan.outcome start 1 = some (.ok b) ∧ Coordinator.ofCount? 3 = .ok coordinator ∧
      coordinator.Even (b.wallets ++ b.delegators ++ b.additional) ∧
      ∃ rules source,
        WalletRules.start? (some Request.countingKeys) (some Script.greatest) (some 2500) 3 true =
          .ok (rules, source) ∧
        rules.Rotates 3 coordinator source [.wallets 4, .owners [] 0] := by
  obtain ⟨plan, start, hplan⟩ :
      ∃ plan start, (Request.spreadSample 3 4).plan = some (.ok (plan, start)) := ⟨_, _, rfl⟩
  obtain ⟨b, hb⟩ := Request.exists_outcome_spreadSample hplan (by decide) 1
  obtain ⟨hlifetime, hgenerations⟩ := wallets_take_turns (ρ := Script) 3
  obtain ⟨coordinator, hcount, hspread⟩ :=
    hgenerations (Request.spreadSample 3 4) plan start rfl rfl hplan
  obtain ⟨p, q, hp, hgenerate⟩ := Plan.outcome_eq_some.mp hb
  obtain ⟨calls, _, _, heven⟩ := hspread 1 p hp
  obtain ⟨hmade, hrotates⟩ := hlifetime Request.countingKeys Script.greatest 2500
  obtain ⟨⟨rules, source⟩, hstart⟩ := hmade.mpr (by decide)
  obtain ⟨coordinator', hcount', hcalls⟩ := hrotates rules source hstart
  obtain rfl : coordinator' = coordinator := Except.ok.inj (hcount'.symm.trans hcount)
  exact ⟨plan, start, b, coordinator', hplan, hb, hcount, heven b hb, rules, source, hstart,
    hcalls _⟩

end Genesis
