import Genesis.Proofs.Strategy.Conservation

/-!
The nodes and the accounts of a generation tell of the same stake: each node answers to the account
or the contract that paid for it.
-/

namespace Genesis

open Steps

namespace Terms

variable {t : Terms}

/-- The nodes of one owner, whose account stakes the price of each of them. -/
structure Block (t : Terms) (w : WalletKey) (a : Account) (block : List Node) : Prop where
  block_ne : block ≠ []
  written : List.Forall₂ t.Written w.blsKeys block
  account : t.walletFormat.encode w.publicKey = .ok a.address
  address : ∀ node ∈ block, node.address = a.address
  stake : a.stakingValue = t.walletRules.nodePrice * block.length

/-- The nodes are those of the owners, block by block in order, and the accounts begin with those
of the owners in the same order. -/
inductive Blocks (t : Terms) : List WalletKey → List Account → List Node → Prop
  | nil (others : List Account) : Blocks t [] others []
  | cons {w : WalletKey} {a : Account} {block : List Node} {wallets : List WalletKey}
      {accounts : List Account} {nodes : List Node} (own : t.Block w a block)
      (rest : Blocks t wallets accounts nodes) :
      Blocks t (w :: wallets) (a :: accounts) (block ++ nodes)

theorem block_of_owner {w : WalletKey} {a : Account} {block : List Node}
    (hw : t.walletRules.Owner w) (ha : t.walletAccount w = .ok a)
    (hb : t.ownedNodes w = .ok block) : t.Block w a block := by
  obtain ⟨haddress, heq⟩ := walletAccount_ok ha
  obtain ⟨address, haddress', hnodes⟩ := ownedNodes_ok hb
  obtain rfl : a.address = address := Except.ok.inj (haddress.symm.trans haddress')
  have hwritten := written_nodesAt hnodes
  have hlength := hwritten.length_eq
  refine ⟨?_, hwritten, haddress, fun node hnode => ?_, ?_⟩
  · rw [← List.length_pos_iff, ← hlength, List.length_pos_iff]
    exact hw.blsKeys_ne
  · obtain ⟨_, _, _, hat⟩ := exists_mem_of_forall₂ (nodesAt_ok hnodes) hnode
    exact hat
  · rw [heq, ← hlength]
    exact hw.staked

theorem blocks_of_owners {wallets additional : List WalletKey} {accounts : List Account}
    {blocks : List (List Node)} (hw : ∀ w ∈ wallets, t.walletRules.Owner w)
    (ha : List.Forall₂ (fun w a => t.walletAccount w = .ok a) (wallets ++ additional) accounts)
    (hb : List.Forall₂ (fun w block => t.ownedNodes w = .ok block) wallets blocks) :
    t.Blocks wallets accounts blocks.flatten := by
  induction hb generalizing accounts with
  -- what is left are the accounts of the additional wallets
  | nil => exact .nil accounts
  | cons hblock _ ih =>
    obtain ⟨a, others, hfirst, hothers, rfl⟩ := List.forall₂_cons_left_iff.mp ha
    obtain ⟨howner, howners⟩ := List.forall_mem_cons.mp hw
    exact .cons (block_of_owner howner hfirst hblock) (ih howners hothers)

theorem Blocks.exists_owner {wallets : List WalletKey} {accounts : List Account}
    {nodes : List Node} (h : t.Blocks wallets accounts nodes) {node : Node} (hn : node ∈ nodes) :
    ∃ w ∈ wallets, t.walletFormat.encode w.publicKey = .ok node.address := by
  induction h with
  | nil => cases hn
  | cons own _ ih =>
    rcases List.mem_append.mp hn with hn | hn
    · exact ⟨_, List.mem_cons_self, own.address node hn ▸ own.account⟩
    · obtain ⟨w, hw, haddress⟩ := ih hn
      exact ⟨w, List.mem_cons_of_mem _ hw, haddress⟩

/-- The nodes that the first `d` accounts stake for together, by way of a contract. -/
structure Pooled (t : Terms) (contract : String) (d : Nat) (b : Bundle) (pooled : List Node) :
    Prop where
  address : ∀ node ∈ pooled, node.address = contract
  length_delegators : b.delegators.length = d
  delegators : List.Forall₂ (fun delegator a =>
    t.walletFormat.encode delegator.publicKey = .ok a.address ∧ a.delegation.address = contract)
    b.delegators (b.accounts.take d)
  stake : t.walletRules.nodePrice * pooled.length = (Totals.ofAccounts b.accounts).delegated

theorem Blocks.filter_address {wallets : List WalletKey} {accounts : List Account}
    {pooled nodes : List Node} {contract : String} (h : t.Blocks wallets accounts nodes)
    (hp : ∀ node ∈ pooled, node.address = contract)
    (hw : ∀ w ∈ wallets, t.walletFormat.encode w.publicKey ≠ .ok contract) :
    (pooled ++ nodes).filter (·.address = contract) = pooled := by
  have hpooled : pooled.filter (·.address = contract) = pooled :=
    List.filter_eq_self.mpr fun node hnode => decide_eq_true (hp node hnode)
  have hnone : nodes.filter (·.address = contract) = [] := by
    refine List.filter_eq_nil_iff.mpr fun node hnode => ?_
    obtain ⟨w, hmem, haddress⟩ := h.exists_owner hnode
    intro heq
    rw [of_decide_eq_true heq] at haddress
    exact hw w hmem haddress
  rw [List.filter_append, hpooled, hnone, List.append_nil]

theorem Settled.delegators_at {m : Material} {bytes : Bytes} {stake cost : Int} {b : Bundle}
    {contract : String}
    (h : t.Settled m (giveDelegation bytes stake t.minimumBalance m.delegators) cost b)
    (hc : t.walletFormat.encode bytes = .ok contract) :
    List.Forall₂ (fun delegator a =>
      t.walletFormat.encode delegator.publicKey = .ok a.address ∧ a.delegation.address = contract)
      b.delegators (b.accounts.take m.delegators.length) := by
  obtain ⟨hfirst, _⟩ := h.accounts.take_drop
  rw [length_giveDelegation] at hfirst
  rw [h.delegators_eq]
  have hgiven : ∀ d ∈ giveDelegation bytes stake t.minimumBalance m.delegators,
      d.contract = bytes := fun d hd => (of_mem_giveDelegation hd).1
  refine ((List.forall₂_and_left _ _).mpr ⟨hgiven, hfirst⟩).imp fun d a hda => ?_
  obtain ⟨rfl, haccount⟩ := hda
  obtain ⟨haddress, hcontract, _⟩ := delegatorAccount_ok haccount
  exact ⟨haddress, Except.ok.inj (hcontract.symm.trans hc)⟩

theorem Settled.owner_blocks {m : Material} {delegators : List WalletKey} {cost : Int}
    {b : Bundle} {pool : List BlsKey} {blocks : List (List Node)}
    (h : t.Settled m delegators cost b) (howners : t.walletRules.Owners pool m.wallets)
    (hb : List.Forall₂ (fun w block => t.ownedNodes w = .ok block) b.wallets blocks) :
    t.Blocks b.wallets (b.accounts.drop delegators.length) blocks.flatten := by
  obtain ⟨_, hothers⟩ := h.accounts.take_drop
  obtain ⟨hfunded, _⟩ := fund_forall (P := t.walletRules.Owner)
    (fun _ _ hw => ⟨hw.blsKeys_ne, hw.staked, hw.delegated, hw.fromStream⟩) h.fund
  exact blocks_of_owners (hfunded howners.owner) hothers hb

end Terms

namespace Request

variable {ρ : Type}

def contract (r : Request ρ) (t : Terms) : Attempt String :=
  Contract.deriveText t.walletFormat r.addressLength r.owner r.ownerNonce r.machineType

/-- Who answers for the nodes: owners with their accounts, the contract, or the contract for the
first ones and owners for the others. -/
def Attributed (r : Request ρ) (t : Terms) (b : Bundle) : Kind → Prop
  | .direct => t.Blocks b.wallets b.accounts b.nodes
  | .delegated =>
    ∃ contract, r.contract t = some (.ok contract) ∧ t.Pooled contract r.delegators b b.nodes
  | .mixed =>
    let k := r.delegatedNodes
    ∃ contract, r.contract t = some (.ok contract) ∧ k ≤ b.nodes.length ∧
      t.Pooled contract r.delegators b (b.nodes.take k) ∧
      t.Blocks b.wallets (b.accounts.drop r.delegators) (b.nodes.drop k) ∧
      -- an owner's key may happen to be the contract's bytes
      ((∀ w ∈ b.wallets, t.walletFormat.encode w.publicKey ≠ .ok contract) →
        b.nodes.filter (·.address = contract) = b.nodes.take k)

end Request

namespace Plan

variable {ρ : Type} {r : Request ρ} {plan : Plan} {m : Material} {b : Bundle}

theorem attributed_of_settle (hf : plan.Follows r) (hd : plan.Drew m) (h : plan.settle m = .ok b) :
    r.Attributed plan.terms b plan.staking.kind := by
  have hlength := (written_of_settle hd h).length_eq
  have hdelegated := congrArg Totals.delegated (totals_of_settle hf hd h)
  have hvalidators := hf.length_validators hd
  obtain ⟨t, staking⟩ := plan
  cases staking with
  | direct limit =>
    obtain ⟨howners, _⟩ := hd.staking
    obtain ⟨hsettled, blocks, hblocks, hnodes⟩ := Terms.settleDirect_ok h
    have hown := hsettled.owner_blocks howners hblocks
    rw [← hnodes] at hown
    exact hown
  | delegated pool =>
    obtain ⟨hwallets, hdelegators⟩ := hd.staking
    obtain ⟨hsettled, hnodes⟩ := Terms.settleDelegated_ok h
    have hcount : m.delegators.length = r.delegators :=
      hdelegators.length_eq.trans hf.staking.delegators
    have hat := hsettled.delegators_at hf.staking.encode_bytes
    rw [hcount] at hat
    refine ⟨pool.address, hf.staking.derived, fun node hnode => ?_, ?_, hat, ?_⟩
    · obtain ⟨_, _, _, haddress⟩ := exists_mem_of_forall₂ (Terms.nodesAt_ok hnodes) hnode
      exact haddress
    · rw [hsettled.delegators_eq, length_giveDelegation, hcount]
    · rw [← hlength, hvalidators]
      exact hdelegated.symm
  | mixed pool k limit =>
    obtain ⟨howners, hdelegators⟩ := hd.staking
    obtain ⟨hpool, rfl, _, hkle, _⟩ := hf.staking
    obtain ⟨hsettled, pooled, blocks, hpooled, hblocks, hnodes⟩ := Terms.settleMixed_ok h
    have hcount : m.delegators.length = r.delegators :=
      hdelegators.length_eq.trans hpool.delegators
    have hat := hsettled.delegators_at hpool.encode_bytes
    have hown := hsettled.owner_blocks howners hblocks
    rw [hcount] at hat
    rw [length_giveDelegation, hcount] at hown
    have hk : pooled.length = r.delegatedNodes := by
      rw [← (Terms.nodesAt_ok hpooled).length_eq, List.length_take, hvalidators]
      exact Nat.min_eq_left hkle
    have htake : b.nodes.take r.delegatedNodes = pooled := by
      rw [hnodes, ← hk, List.take_left]
    have hdrop : b.nodes.drop r.delegatedNodes = blocks.flatten := by
      rw [hnodes, ← hk, List.drop_left]
    have haddress : ∀ node ∈ pooled, node.address = pool.address := by
      intro node hnode
      obtain ⟨_, _, _, haddress⟩ := exists_mem_of_forall₂ (Terms.nodesAt_ok hpooled) hnode
      exact haddress
    have hkle' : r.delegatedNodes ≤ b.nodes.length := by
      rw [← hlength, hvalidators]
      exact hkle
    refine ⟨pool.address, hpool.derived, hkle', ?_, ?_, fun hapart => ?_⟩
    · rw [htake]
      refine ⟨haddress, ?_, hat, ?_⟩
      · rw [hsettled.delegators_eq, length_giveDelegation, hcount]
      · rw [hk]
        exact hdelegated.symm
    · rw [hdrop]
      exact hown
    · rw [htake, hnodes]
      exact hown.filter_address haddress hapart

end Plan

/-- Of every generation that succeeds, the nodes are the validators' in order and nobody else's, and
each belongs to the account or to the contract that its price was paid through. -/
theorem generate_attributes_nodes {ρ : Type} [Randomizer ρ] {r : Request ρ} {plan : Plan}
    {start : Progress ρ} (accepted : r.plan = some (.ok (plan, start))) {n : Nat} {b : Bundle}
    (made : plan.outcome start n = some (.ok b)) :
    b.validators.length = r.validators ∧
      b.validators.mapM (fun key => plan.terms.validatorFormat.encode key.publicKey) =
        .ok (b.nodes.map (·.pubKey)) ∧
      ∃ kind, Kind.ofName? r.strategy = .ok kind ∧ r.Attributed plan.terms b kind := by
  obtain ⟨hfollows, _⟩ := Request.plan_ok accepted
  obtain ⟨m, hdrew, hsettle⟩ := Plan.outcome_ok made
  rw [Plan.validators_of_settle hsettle]
  refine ⟨hfollows.length_validators hdrew, ?_, plan.staking.kind, hfollows.kind,
    Plan.attributed_of_settle hfollows hdrew hsettle⟩
  exact mapM_eq_ok.mpr (List.forall₂_map_right_iff.mpr (Plan.written_of_settle hdrew hsettle))

theorem sample_attributes_nodes : ∃ plan start b contract,
    (Request.sample .mixed .validator).plan = some (.ok (plan, start)) ∧
      plan.outcome start 1 = some (.ok b) ∧
      b.validators.length = 3 ∧ plan.terms.Pooled contract 2 b (b.nodes.take 1) ∧
        plan.terms.Blocks b.wallets (b.accounts.drop 2) (b.nodes.drop 1) := by
  obtain ⟨plan, start, b, hplan, hb⟩ := Request.exists_outcome_sample .mixed 1
  obtain ⟨hlength, _, kind, hkind, hattributed⟩ := generate_attributes_nodes hplan hb
  obtain rfl : Kind.mixed = kind := Except.ok.inj hkind
  obtain ⟨contract, _, _, hpooled, hblocks, _⟩ := hattributed
  exact ⟨plan, start, b, contract, hplan, hb, hlength, hpooled, hblocks⟩

end Genesis
