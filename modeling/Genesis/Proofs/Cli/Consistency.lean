import Genesis.Proofs.Cli.Defaults

/-! The files of a run that succeeds, read back, agree with each other and with what was asked. -/

namespace Genesis.Cli

open Steps

structure Readback where
  accounts : List Account
  nodes : List Node
  consensusSize : UInt32
  minNodes : UInt32
  metaConsensusSize : UInt32
  metaMinNodes : UInt32
  blocks : List (String × Bytes)

namespace Readback

structure From (r : Readback) (t : FileTree) (folder : Path) : Prop where
  accounts : t.Holds folder .genesis (Json.read? (.list .account)) r.accounts
  nodes : t.Holds folder .setup (Json.read? (.member "initialNodes" (.list .node))) r.nodes
  consensusSize : t.Holds folder .setup
    (Json.read? (.member "consensusGroupSize" .word32)) r.consensusSize
  minNodes : t.Holds folder .setup (Json.read? (.member "minNodesPerShard" .word32)) r.minNodes
  metaConsensusSize : t.Holds folder .setup
    (Json.read? (.member "metaChainConsensusGroupSize" .word32)) r.metaConsensusSize
  metaMinNodes : t.Holds folder .setup
    (Json.read? (.member "metaChainMinNodes" .word32)) r.metaMinNodes
  blocks : t.Holds folder .validators Pem.read r.blocks

structure Passes (r : Readback) (o : Options) (price supply : Int) (checker : Checker) : Prop where
  priced : Amount.parseNonNegative o.nodePrice = .ok price
  supplied : Amount.parseNonNegative o.totalSupply = .ok supply
  checkable : Checker.ofAmounts? (some price) (some supply) = .ok checker
  accepted : ∃ totals, checker.check r.accounts = .ok totals
  sum_supply : (r.accounts.map (·.supply)).sum = supply

structure Counts (r : Readback) (o : Options) : Prop where
  nodes : r.nodes.length =
    o.shards.toNat * o.validatorsPerShard.toNat + o.metaValidators.toNat
  minNodes : r.nodes.length = o.shards.toNat * r.minNodes.toNat + r.metaMinNodes.toNat
  consensus : 1 ≤ r.consensusSize.toNat ∧ r.consensusSize.toNat ≤ r.minNodes.toNat
  metaConsensus : 1 ≤ r.metaConsensusSize.toNat ∧
    r.metaConsensusSize.toNat ≤ r.metaMinNodes.toNat
  blocks : ∃ validators observers, r.blocks = validators ++ observers ∧
    validators.map (·.1) = r.nodes.map (·.pubKey) ∧
      observers.length = o.shards.toNat * o.observersPerShard.toNat + o.metaObservers.toNat

end Readback

variable {o : Options} {s : Sources} {p : Prepared} {t t' : FileTree} {coordinator : Coordinator}

namespace Options

def readback (o : Options) (p : Prepared) (blocks : List (String × Bytes)) : Readback where
  accounts := p.bundle.accounts
  nodes := p.bundle.nodes
  consensusSize := o.consensusSize
  minNodes := o.validatorsPerShard
  metaConsensusSize := o.metaConsensusSize
  metaMinNodes := o.metaValidators
  blocks := blocks

theorem exists_readback (h : o.Restored p coordinator t) :
    ∃ blocks, List.Forall₂ KeyFormat.validator.Names
      (Writing.blsPairs (p.bundle.validators ++ p.bundle.observers)) blocks ∧
        (o.readback p blocks).From t o.folder := by
  have hrole := OutputParts.mem_roles_of_required o.traffic o.delegatorsFile
  obtain ⟨genesis, hgenesis, haccounts⟩ := h .genesis (hrole .genesis (by decide))
  obtain ⟨setup, hsetup, hmembers⟩ := h .setup (hrole .setup (by decide))
  obtain ⟨keys, hkeys, blocks, hblocks, hread⟩ := h .validators (hrole .validators (by decide))
  exact ⟨blocks, hblocks,
    { accounts := ⟨genesis, hgenesis, haccounts⟩
      nodes := ⟨setup, hsetup, hmembers.initialNodes⟩
      consensusSize := ⟨setup, hsetup, hmembers.consensusGroupSize⟩
      minNodes := ⟨setup, hsetup, hmembers.minNodesPerShard⟩
      metaConsensusSize := ⟨setup, hsetup, hmembers.metaConsensusGroupSize⟩
      metaMinNodes := ⟨setup, hsetup, hmembers.metaMinNodes⟩
      blocks := ⟨keys, hkeys, hread⟩ }⟩

theorem passes_readback (q : Preparation o s) (blocks : List (String × Bytes)) :
    (o.readback q.prepared blocks).Passes o q.nodePrice q.totalSupply q.checker where
  priced := q.priced
  supplied := q.supplied
  checkable := q.checkable
  accepted := ⟨q.totals, q.checked⟩
  sum_supply := by
    obtain ⟨_, _, htotal, _⟩ := Checker.check_eq_ok_iff.mp q.checked
    exact htotal.trans (Checker.totalSupply_of_ofAmounts? q.checkable)

theorem counts_readback (q : Preparation o s) {blocks : List (String × Bytes)}
    (hblocks : List.Forall₂ KeyFormat.validator.Names
      (Writing.blsPairs (q.bundle.validators ++ q.bundle.observers)) blocks) :
    (o.readback q.prepared blocks).Counts o := by
  have hfits := counts?_ok q.counted
  have hnodes : q.bundle.nodes.length =
      o.shards.toNat * o.validatorsPerShard.toNat + o.metaValidators.toNat := by
    rw [← q.forall₂_nodes.length_eq, q.length_validators, hfits.validators]
  obtain ⟨validators, observers, rfl, hvalidators, hobservers⟩ :=
    exists_append_of_forall₂ (List.forall₂_map_left_iff.mp hblocks)
  refine ⟨hnodes, hnodes, hfits.consensus, hfits.metaConsensus, validators, observers, rfl, ?_, ?_⟩
  · exact map_eq_map_of_ok (hvalidators.imp fun _ _ h => h.identifier) q.forall₂_nodes
  · rw [← hobservers.length_eq, q.length_observers, hfits.observers]

end Options

/-- Whatever a run finds in its folder, if it succeeds then what is read back from there is accepted
by the gate at the amounts that were asked for, and all counts agree. -/
theorem run_consistent (h : o.run s t = some (.ok (), t')) :
    ∃ r : Readback, r.From t' o.folder ∧ (∃ price supply checker, r.Passes o price supply checker) ∧
      r.Counts o := by
  obtain ⟨q, coordinator, hcomplete⟩ := Options.run_ok h
  obtain ⟨blocks, hblocks, hfrom⟩ := Options.exists_readback hcomplete.restored
  exact ⟨o.readback q.prepared blocks, hfrom, ⟨_, _, _, Options.passes_readback q blocks⟩,
    Options.counts_readback q hblocks⟩

theorem default_consistent : ∃ (t' : FileTree) (r : Readback),
    Options.run {} (.ofEntropy []) {} = some (.ok (), t') ∧ r.From t' ["output"] ∧
      (∃ price supply checker, r.Passes {} price supply checker) ∧ r.Counts {} := by
  obtain ⟨t', h⟩ := Options.exists_run_default []
  obtain ⟨r, hr⟩ := run_consistent h
  exact ⟨t', r, h, hr⟩

end Genesis.Cli
