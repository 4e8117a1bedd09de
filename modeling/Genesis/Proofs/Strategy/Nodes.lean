import Genesis.Proofs.Strategy.Material
import Genesis.Proofs.Strategy.Settled

/-! A generation has one node for each of its validators, in order, whoever the nodes belong to. -/

namespace Genesis

open Steps

def Terms.Written (t : Terms) (key : BlsKey) (node : Node) : Prop :=
  t.validatorFormat.encode key.publicKey = .ok node.pubKey

namespace Terms

variable {t : Terms}

theorem written_nodesAt {address : String} {keys : List BlsKey} {nodes : List Node}
    (h : t.nodesAt address keys = .ok nodes) : List.Forall₂ t.Written keys nodes :=
  (nodesAt_ok h).imp fun _ _ hnode => hnode.1

theorem written_flatten {wallets : List WalletKey} {blocks : List (List Node)}
    (h : List.Forall₂ (fun w block => t.ownedNodes w = .ok block) wallets blocks) :
    List.Forall₂ t.Written (wallets.flatMap (·.blsKeys)) blocks.flatten := by
  induction h with
  | nil => exact .nil
  | cons hw _ ih =>
    obtain ⟨address, _, hnodes⟩ := ownedNodes_ok hw
    rw [List.flatMap_cons, List.flatten_cons]
    exact List.rel_append (written_nodesAt hnodes) ih

theorem Settled.flatMap_blsKeys {m : Material} {delegators : List WalletKey} {cost : Int}
    {b : Bundle} (h : t.Settled m delegators cost b) {pool : List BlsKey}
    (howners : t.walletRules.Owners pool m.wallets) : b.wallets.flatMap (·.blsKeys) = pool := by
  obtain ⟨hwallets, _⟩ := fund_map (f := (·.blsKeys)) (fun _ _ => rfl) h.fund
  rw [List.flatMap_def, hwallets, ← List.flatMap_def]
  exact howners.flatMap_blsKeys

end Terms

namespace Plan

variable {plan : Plan} {m : Material} {b : Bundle}

theorem validators_of_settle (h : plan.settle m = .ok b) : b.validators = m.validators := by
  obtain ⟨t, staking⟩ := plan
  cases staking with
  | direct limit => exact (Terms.settleDirect_ok h).1.validators_eq
  | delegated pool => exact (Terms.settleDelegated_ok h).1.validators_eq
  | mixed pool k limit => exact (Terms.settleMixed_ok h).1.validators_eq

theorem written_of_settle (hd : plan.Drew m) (h : plan.settle m = .ok b) :
    List.Forall₂ plan.terms.Written m.validators b.nodes := by
  obtain ⟨t, staking⟩ := plan
  cases staking with
  | direct limit =>
    obtain ⟨howners, _⟩ := hd.staking
    obtain ⟨hsettled, blocks, hblocks, hnodes⟩ := Terms.settleDirect_ok h
    rw [hnodes, ← hsettled.flatMap_blsKeys howners]
    exact Terms.written_flatten hblocks
  | delegated pool => exact Terms.written_nodesAt (Terms.settleDelegated_ok h).2
  | mixed pool k limit =>
    obtain ⟨howners, _⟩ := hd.staking
    obtain ⟨hsettled, pooled, blocks, hpooled, hblocks, hnodes⟩ := Terms.settleMixed_ok h
    rw [hnodes, ← List.take_append_drop k m.validators]
    refine List.rel_append (Terms.written_nodesAt hpooled) ?_
    rw [← hsettled.flatMap_blsKeys howners]
    exact Terms.written_flatten hblocks

end Plan

end Genesis
