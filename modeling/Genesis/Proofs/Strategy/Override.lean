import Genesis.Proofs.Demo
import Genesis.Proofs.Key.Text
import Genesis.Proofs.Strategy.Attribution
import Genesis.Proofs.Strategy.Made
import Genesis.Proofs.Strategy.Spread

/-!
When the last four accounts of a genesis are given other addresses, nodes may lose the account that
they answer to, but only those of the last owners.
-/

namespace Genesis

open Steps

def Bundle.lastOwners (b : Bundle) : List WalletKey :=
  b.wallets.drop (b.wallets.length - (4 - b.additional.length))

theorem Bundle.lastOwners_eq_nil {b : Bundle} (h : 4 ≤ b.additional.length) :
    b.lastOwners = [] := by
  rw [lastOwners, Nat.sub_eq_zero_of_le h, Nat.sub_zero, List.drop_length]

namespace Plan

variable {ρ : Type} {r : Request ρ} {plan : Plan} {m : Material} {b : Bundle}

theorem Made.mem_lastOwners_or (h : plan.Made b) {w : WalletKey} (hw : w ∈ b.wallets) :
    w ∈ b.lastOwners ∨ ∃ a ∈ b.accounts.take (b.accounts.length - 4),
      plan.terms.walletFormat.encode w.publicKey = .ok a.address := by
  rw [← List.take_append_drop (b.wallets.length - (4 - b.additional.length)) b.wallets] at hw
  rcases List.mem_append.mp hw with hw | hw
  swap
  · exact .inl hw
  have hkept := List.forall₂_take (b.accounts.length - 4) h.forall₂_accounts
  have hlength := h.forall₂_accounts.length_eq
  rw [List.length_append, List.length_append] at hlength
  have hle : b.wallets.length - (4 - b.additional.length) ≤
      b.accounts.length - 4 - b.delegators.length := by omega
  have hmem : w ∈ (b.delegators ++ (b.wallets ++ b.additional)).take (b.accounts.length - 4) := by
    rw [List.take_append, List.take_append]
    rw [← Nat.min_eq_left hle, ← List.take_take] at hw
    exact List.mem_append_right _ (List.mem_append_left _ (List.mem_of_mem_take hw))
  obtain ⟨a, ha, hbelongs⟩ := exists_mem_of_forall₂ hkept.flip hmem
  exact .inr ⟨a, ha, hbelongs.address⟩

theorem owners_of_settleDirect {t : Terms} {limit : Nat} (hd : Plan.Drew ⟨t, .direct limit⟩ m)
    (h : t.settleDirect m = .ok b) :
    t.walletRules.Owners m.validators b.wallets ∧ b.delegators = [] := by
  obtain ⟨howners, _⟩ := hd.staking
  obtain ⟨hsettled, _⟩ := Terms.settleDirect_ok h
  obtain ⟨hfunded, _⟩ := Terms.fund_forall (P := t.walletRules.Owner)
    (fun _ _ hw => ⟨hw.blsKeys_ne, hw.staked, hw.delegated, hw.fromStream⟩) hsettled.fund
  exact ⟨⟨hsettled.flatMap_blsKeys howners, hfunded howners.owner⟩, hsettled.delegators_eq⟩

theorem length_additional (hf : plan.Follows r) (hd : plan.Drew m) (h : plan.settle m = .ok b) :
    b.additional.length = r.additional := by
  obtain ⟨contract, n, cost, hsettled⟩ := settled_of_settle hd h
  obtain ⟨_, hadditional⟩ := Terms.fund_map (f := fun _ => ()) (fun _ _ => rfl) hsettled.fund
  have hlength := congrArg List.length hadditional
  rw [List.length_map, List.length_map] at hlength
  rw [hlength, hd.additional.length_eq, hf.terms.additional]

end Plan

namespace Request

variable {ρ : Type} {r : Request ρ} {t : Terms} {b : Bundle} {kind : Kind}

theorem Attributed.address_cases (h : r.Attributed t b kind) {node : Node} (hn : node ∈ b.nodes) :
    kind ≠ .direct ∧ r.contract t = some (.ok node.address) ∨
      kind ≠ .delegated ∧
        ∃ w ∈ b.wallets, t.walletFormat.encode w.publicKey = .ok node.address := by
  cases kind with
  | direct => exact .inr ⟨nofun, h.exists_owner hn⟩
  | delegated =>
    obtain ⟨contract, hcontract, hpooled⟩ := h
    exact .inl ⟨nofun, hpooled.address node hn ▸ hcontract⟩
  | mixed =>
    obtain ⟨contract, hcontract, _, hpooled, hblocks, _⟩ := h
    rw [← List.take_append_drop r.delegatedNodes b.nodes] at hn
    rcases List.mem_append.mp hn with hn | hn
    · exact .inl ⟨nofun, hpooled.address node hn ▸ hcontract⟩
    · exact .inr ⟨nofun, hblocks.exists_owner hn⟩

def Answers (r : Request ρ) (t : Terms) (kind : Kind) (accounts : List Account) (node : Node) :
    Prop :=
  kind ≠ .direct ∧ r.contract t = some (.ok node.address) ∨ ∃ a ∈ accounts, a.address = node.address

end Request

/-- After the override every node still answers to the contract or to an account, unless its owner
is one of the last; and none is if there are enough additional wallets or no owners. -/
theorem override_keeps_nodes {ρ : Type} [Randomizer ρ] {r : Request ρ} {plan : Plan}
    {start : Progress ρ} (accepted : r.plan = some (.ok (plan, start))) {n : Nat} {b : Bundle}
    (made : plan.outcome start n = some (.ok b)) {d : DemoAddresses} {format : KeyFormat}
    {accounts : List Account} (applied : d.apply format b.accounts = .ok accounts) :
    ∃ kind, Kind.ofName? r.strategy = .ok kind ∧
      (∀ node ∈ b.nodes, r.Answers plan.terms kind accounts node ∨
        kind ≠ .delegated ∧ ∃ w ∈ b.lastOwners,
          plan.terms.walletFormat.encode w.publicKey = .ok node.address) ∧
      (4 ≤ r.additional ∨ kind = .delegated →
        ∀ node ∈ b.nodes, r.Answers plan.terms kind accounts node) := by
  obtain ⟨hfollows, _⟩ := Request.plan_ok accepted
  obtain ⟨m, hdrew, hsettle⟩ := Plan.outcome_ok made
  have hmade := Plan.made_of_settle hdrew hsettle
  have hattributed := Plan.attributed_of_settle hfollows hdrew hsettle
  have hanswers : ∀ node ∈ b.nodes, r.Answers plan.terms plan.staking.kind accounts node ∨
      plan.staking.kind ≠ .delegated ∧ ∃ w ∈ b.lastOwners,
        plan.terms.walletFormat.encode w.publicKey = .ok node.address := by
    intro node hnode
    rcases hattributed.address_cases hnode with hcontract | ⟨hkind, w, hw, hwritten⟩
    · exact .inl (.inl hcontract)
    rcases hmade.mem_lastOwners_or hw with hlast | ⟨a, ha, haddress⟩
    · exact .inr ⟨hkind, w, hlast, hwritten⟩
    · have hsame : a.address = node.address := Except.ok.inj (haddress.symm.trans hwritten)
      exact .inl (.inr ⟨a, DemoAddresses.mem_of_apply applied ha, hsame⟩)
  refine ⟨plan.staking.kind, hfollows.kind, hanswers, fun hnone node hnode => ?_⟩
  rcases hanswers node hnode with hanswer | ⟨hkind, w, hw, _⟩
  · exact hanswer
  · rcases hnone with hmany | hdelegated
    · rw [← Plan.length_additional hfollows hdrew hsettle] at hmany
      rw [Bundle.lastOwners_eq_nil hmany] at hw
      cases hw
    · exact absurd hdelegated hkind

namespace Request

def demoSample : DemoAddresses where
  faucet := Hex.encode (List.replicate KeyFormat.walletSize 1)
  web := Hex.encode (List.replicate KeyFormat.walletSize 2)
  controller := Hex.encode (List.replicate KeyFormat.walletSize 3)
  sponsor := Hex.encode (List.replicate KeyFormat.walletSize 4)

theorem mem_demoSample {address : String} (h : address ∈ demoSample.toList) :
    ∃ byte : UInt8, byte ≠ 0 ∧
      address = Hex.encode (List.replicate KeyFormat.walletSize byte) := by
  rcases List.mem_cons.mp h with rfl | h
  · exact ⟨1, by decide, rfl⟩
  rcases List.mem_cons.mp h with rfl | h
  · exact ⟨2, by decide, rfl⟩
  rcases List.mem_cons.mp h with rfl | h
  · exact ⟨3, by decide, rfl⟩
  · rw [List.mem_singleton.mp h]
    exact ⟨4, by decide, rfl⟩

section Samples

variable {validators additional : Nat} {plan : Plan} {start : Progress Script} {n : Nat}
  {b : Bundle}

theorem exists_apply_demoSample
    (hplan : (spreadSample validators additional).plan = some (.ok (plan, start)))
    (hfour : 4 ≤ b.accounts.length) :
    ∃ accounts, demoSample.apply plan.terms.walletFormat b.accounts = .ok accounts := by
  obtain ⟨hfollows, _⟩ := plan_ok hplan
  have hformat : KeyFormat.hex KeyFormat.walletSize KeyFormat.walletSize_pos =
      plan.terms.walletFormat := Option.some.inj hfollows.terms.walletFormat
  refine ⟨_, DemoAddresses.apply_eq_ok_iff.mpr ⟨hfour, fun address haddress => ?_, rfl⟩⟩
  obtain ⟨byte, _, rfl⟩ := mem_demoSample haddress
  rw [← hformat]
  exact ⟨_, KeyFormat.decode_hex List.length_replicate⟩

theorem not_mem_demoSample
    (hplan : (spreadSample validators additional).plan = some (.ok (plan, start))) {i : Nat}
    {key : Bytes} {text : String} (hkey : plan.terms.walletRules.keys.publicKey i = .ok key)
    (hwritten : plan.terms.walletFormat.encode key = .ok text) : text ∉ demoSample.toList := by
  intro hmem
  obtain ⟨hfollows, _⟩ := plan_ok hplan
  have hformat : KeyFormat.hex KeyFormat.walletSize KeyFormat.walletSize_pos =
      plan.terms.walletFormat := Option.some.inj hfollows.terms.walletFormat
  have hkeys : countingKeys = plan.terms.walletRules.keys :=
    Option.some.inj hfollows.terms.walletKeys
  rw [← hkeys] at hkey
  cases hkey
  obtain ⟨byte, hbyte, rfl⟩ := mem_demoSample hmem
  rw [← hformat] at hwritten
  have hsame := KeyFormat.encode_injective hwritten (KeyFormat.encode_hex List.length_replicate)
  exact hbyte (List.cons.inj hsame).1.symm

end Samples

end Request

theorem sample_override_keeps_nodes : ∃ plan start b accounts,
    (Request.spreadSample 3 4).plan = some (.ok (plan, start)) ∧
      plan.outcome start 0 = some (.ok b) ∧
      Request.demoSample.apply plan.terms.walletFormat b.accounts = .ok accounts ∧
      ∀ node ∈ b.nodes,
        (Request.spreadSample 3 4).Answers plan.terms .direct accounts node := by
  obtain ⟨plan, start, hplan⟩ :
      ∃ plan start, (Request.spreadSample 3 4).plan = some (.ok (plan, start)) := ⟨_, _, rfl⟩
  obtain ⟨b, hb⟩ := Request.exists_outcome_spreadSample hplan (by decide) 0
  obtain ⟨hfollows, _⟩ := Request.plan_ok hplan
  obtain ⟨m, hdrew, hsettle⟩ := Plan.outcome_ok hb
  have hadditional : b.additional.length = 4 := Plan.length_additional hfollows hdrew hsettle
  have hlength := (Plan.made_of_settle hdrew hsettle).forall₂_accounts.length_eq
  rw [List.length_append, List.length_append] at hlength
  have hfour : 4 ≤ b.accounts.length := by omega
  obtain ⟨accounts, haccounts⟩ := Request.exists_apply_demoSample hplan hfour
  obtain ⟨kind, hkind, _, hkept⟩ := override_keeps_nodes hplan hb haccounts
  obtain rfl : Kind.direct = kind := Except.ok.inj hkind
  exact ⟨plan, start, b, accounts, hplan, hb, haccounts, hkept (.inl le_rfl)⟩

/-- With three additional wallets it is the only owner's account, too, that is given another
address: the node answers to nobody who has an account. -/
theorem sample_override_loses_account : ∃ plan start b accounts,
    (Request.spreadSample 1 3).plan = some (.ok (plan, start)) ∧
      plan.outcome start 0 = some (.ok b) ∧
      Request.demoSample.apply plan.terms.walletFormat b.accounts = .ok accounts ∧
      ∃ node ∈ b.nodes, ¬ (Request.spreadSample 1 3).Answers plan.terms .direct accounts node := by
  obtain ⟨plan, start, hplan⟩ :
      ∃ plan start, (Request.spreadSample 1 3).plan = some (.ok (plan, start)) := ⟨_, _, rfl⟩
  obtain ⟨b, hb⟩ := Request.exists_outcome_spreadSample hplan (by decide) 0
  obtain ⟨hfollows, _⟩ := Request.plan_ok hplan
  obtain ⟨m, hdrew, hsettle⟩ := Plan.outcome_ok hb
  have hmade := Plan.made_of_settle hdrew hsettle
  have hkind : plan.staking.kind = .direct := (Except.ok.inj hfollows.kind).symm
  have hattributed := Plan.attributed_of_settle hfollows hdrew hsettle
  rw [hkind] at hattributed
  have hvalidators : m.validators.length = 1 := hfollows.length_validators hdrew
  have hadditional : b.additional.length = 3 := Plan.length_additional hfollows hdrew hsettle
  obtain ⟨howners, hdelegators⟩ :
      plan.terms.walletRules.Owners m.validators b.wallets ∧ b.delegators = [] := by
    obtain ⟨t, staking⟩ := plan
    cases staking with
    | direct limit => exact Plan.owners_of_settleDirect hdrew hsettle
    | delegated pool => cases hkind
    | mixed pool k limit => cases hkind
  obtain ⟨node, hnode⟩ : ∃ node, node ∈ b.nodes := by
    have hnodes := (Plan.written_of_settle hdrew hsettle).length_eq
    exact List.exists_mem_of_length_pos (by omega)
  obtain ⟨hpooled, _⟩ | ⟨_, w, hw, hwritten⟩ := hattributed.address_cases hnode
  · exact absurd rfl hpooled
  -- one owner and three additional wallets: all four accounts are given other addresses
  have hone : b.wallets.length = 1 :=
    Nat.le_antisymm (hvalidators ▸ howners.length_le) (List.length_pos_of_mem hw)
  have hfour : b.accounts.length = 4 := by
    rw [← hmade.forall₂_accounts.length_eq, hdelegators, List.nil_append, List.length_append, hone,
      hadditional]
  obtain ⟨accounts, haccounts⟩ := Request.exists_apply_demoSample hplan hfour.ge
  refine ⟨plan, start, b, accounts, hplan, hb, haccounts, node, hnode, ?_⟩
  rintro (⟨hcontract, _⟩ | ⟨a, ha, haddress⟩)
  · exact hcontract rfl
  · obtain ⟨i, hkey⟩ := (howners.owner w hw).fromStream
    exact Request.not_mem_demoSample hplan hkey hwritten
      (haddress ▸ DemoAddresses.address_of_apply haccounts hfour ha)

end Genesis
