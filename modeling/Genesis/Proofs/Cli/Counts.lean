import Genesis.Cli.Options
import Genesis.Proofs.Steps

/-! What is known of wishes that go together. -/

namespace Genesis.Cli

open Steps

theorem nodeCount?_eq_some {shards perShard inMeta : UInt32} {n : Nat}
    (h : nodeCount? shards perShard inMeta = some n) :
    n = shards.toNat * perShard.toNat + inMeta.toNat := by
  unfold nodeCount? at h
  dsimp only at h
  split at h
  · exact (Option.some.inj h).symm
  · cases h

theorem toNat_pos {n : UInt32} (h : n ≠ 0) : 0 < n.toNat :=
  Nat.pos_of_ne_zero fun hzero => h (UInt32.toNat_inj.mp hzero)

structure Options.Fits (o : Options) (counts : NodeCounts) : Prop where
  shards : 0 < o.shards.toNat
  validators : counts.validators =
    o.shards.toNat * o.validatorsPerShard.toNat + o.metaValidators.toNat
  observers : counts.observers =
    o.shards.toNat * o.observersPerShard.toNat + o.metaObservers.toNat
  consensus : 1 ≤ o.consensusSize.toNat ∧ o.consensusSize.toNat ≤ o.validatorsPerShard.toNat
  metaConsensus : 1 ≤ o.metaConsensusSize.toNat ∧
    o.metaConsensusSize.toNat ≤ o.metaValidators.toNat

theorem Options.counts?_ok {o : Options} {counts : NodeCounts} (h : o.counts? = .ok counts) :
    o.Fits counts := by
  unfold counts? at h
  extract_lets join at h
  obtain ⟨hshards, h⟩ := of_guard h
  obtain ⟨_, h⟩ := of_guard h
  obtain ⟨_, h⟩ := of_guard h
  obtain ⟨hconsensus, h⟩ := of_guard h
  obtain ⟨hmetaConsensus, h⟩ := of_guard h
  obtain ⟨_, h⟩ := of_guard h
  unfold join at h
  split at h
  case h_2 => cases h
  rename_i validators hvalidators
  split at h
  case h_2 => cases h
  rename_i observers hobservers
  cases h
  obtain ⟨hsize, hsizes⟩ := not_or.mp hconsensus
  obtain ⟨hmetaSize, hmetaSizes⟩ := not_or.mp hmetaConsensus
  exact ⟨toNat_pos hshards, nodeCount?_eq_some hvalidators, nodeCount?_eq_some hobservers,
    ⟨toNat_pos hsize, Nat.not_lt.mp hsizes⟩, ⟨toNat_pos hmetaSize, Nat.not_lt.mp hmetaSizes⟩⟩

end Genesis.Cli
