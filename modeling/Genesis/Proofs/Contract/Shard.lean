import Genesis.Proofs.Contract
import Genesis.Proofs.Key.Canonical
import Genesis.Proofs.Shard

/-!
A contract falls into the shard of its creator for as long as shards are told apart by the bytes
that the two share. With more shards than that there are contracts that do not.
-/

namespace Genesis

open Steps

namespace Coordinator

variable {c : Coordinator}

/-- The bytes that a contract shares with its creator tell this many shards apart. -/
def sharedShards : Nat := 65536

def KeepsContracts (c : Coordinator) : Prop :=
  ∀ (creator : Bytes) (nonce : UInt64) (machineType : Bytes),
    creator.length = KeyFormat.walletSize → machineType.length = Contract.machineTypeLength →
    ∃ address,
      Contract.derive KeyFormat.walletSize creator nonce.toNat machineType = some (.ok address) ∧
        c.shardOf address = c.shardOf creator

def KeepsWrittenContracts (c : Coordinator) : Prop :=
  ∀ (format : KeyFormat) (addressLength : Nat) (owner : String) (nonce : UInt64)
    (machineText text : String), format.MadeFor KeyFormat.walletSize →
    Contract.deriveText format addressLength owner nonce.toNat machineText = some (.ok text) →
    ∃ creator address, format.decode owner = .ok creator ∧ format.decode text = .ok address ∧
      c.shardOf address = c.shardOf creator

/-- More bytes than the shared ones count just when these do not tell all shards apart. -/
theorem bytesNeeded_le_iff : c.bytesNeeded ≤ Contract.sharedLength ↔ c.count ≤ sharedShards := by
  unfold bytesNeeded Contract.sharedLength sharedShards
  split_ifs <;> omega

theorem bytesNeeded_le_four (c : Coordinator) : c.bytesNeeded ≤ 4 := by
  unfold bytesNeeded
  split_ifs <;> decide

theorem shardOf_derive (hc : c.count ≤ sharedShards) {addressLength nonce : Nat}
    {creator machineType address : Bytes}
    (h : Contract.derive addressLength creator nonce machineType = some (.ok address)) :
    c.shardOf address = c.shardOf creator :=
  shardOf_congr (Contract.drop_derive h (bytesNeeded_le_iff.mpr hc))

end Coordinator

namespace Contract

def firstCreator : Bytes := List.replicate KeyFormat.walletSize 0

def strayContract : Bytes :=
  [0, 0, 0, 0, 0, 0, 0, 0, 5, 0, 237, 57, 190, 112, 36, 235, 35, 114, 69, 186, 24, 201, 125, 150,
   160, 201, 228, 101, 254, 97, 0, 0]

theorem derive_firstCreator :
    derive KeyFormat.walletSize firstCreator 1 [5, 0] = some (.ok strayContract) := by
  have hrun :
      (derive KeyFormat.walletSize firstCreator 1 [5, 0]).run = some (.ok strayContract) := by
    decide +kernel
  exact hrun

theorem deriveText_firstCreator {size_pos : 0 < KeyFormat.walletSize} :
    deriveText (.hex KeyFormat.walletSize size_pos) KeyFormat.walletSize
      (Hex.encode firstCreator) 1 defaultMachineType = some (.ok (Hex.encode strayContract)) := by
  have hmachine : Hex.decode defaultMachineType = .ok [5, 0] := by decide
  exact deriveText_eq_ok (KeyFormat.decode_hex List.length_replicate) hmachine derive_firstCreator
    (KeyFormat.encode_hex rfl)

theorem shardOf_firstCreator (c : Coordinator) : c.shardOf firstCreator = 0 := by
  have hvalue : ∀ n : Fin 5, bigEndian (firstCreator.drop (firstCreator.length - n)) = 0 := by
    decide
  rw [Coordinator.shardOf_eq (hvalue ⟨c.bytesNeeded, Nat.lt_succ_of_le c.bytesNeeded_le_four⟩),
    Nat.zero_mod, Nat.zero_mod, ite_self]

theorem shardOf_strayContract {c : Coordinator} (hc : Coordinator.sharedShards < c.count) :
    c.shardOf strayContract ≠ 0 := by
  have hvalue : ∀ n : Fin 5, sharedLength < n.val →
      bigEndian (strayContract.drop (strayContract.length - n)) % 2 ^ 17 = 2 ^ 16 := by
    decide
  have hmore : sharedLength < c.bytesNeeded :=
    Nat.lt_of_not_le fun hle => Nat.not_lt_of_le (Coordinator.bytesNeeded_le_iff.mp hle) hc
  exact Coordinator.shardOf_ne_zero hc
    (hvalue ⟨c.bytesNeeded, Nat.lt_succ_of_le c.bytesNeeded_le_four⟩ hmore)

theorem le_of_stray_stays {c : Coordinator}
    (h : c.shardOf strayContract = c.shardOf firstCreator) :
    c.count ≤ Coordinator.sharedShards := by
  rw [shardOf_firstCreator] at h
  by_contra hmore
  exact shardOf_strayContract (Nat.lt_of_not_le hmore) h

end Contract

namespace Coordinator

variable {c : Coordinator}

theorem keepsContracts_iff : c.KeepsContracts ↔ c.count ≤ sharedShards := by
  refine ⟨fun hkeeps => ?_, fun hfew creator nonce machineType hcreator hmachine => ?_⟩
  · obtain ⟨address, haddress, hsame⟩ :=
      hkeeps Contract.firstCreator 1 [5, 0] List.length_replicate rfl
    cases haddress.symm.trans Contract.derive_firstCreator
    exact Contract.le_of_stray_stays hsame
  · obtain ⟨address, haddress⟩ :=
      Contract.exists_derive nonce.toNat hcreator hmachine (by rw [hcreator]; decide)
    exact ⟨address, haddress, shardOf_derive hfew haddress⟩

theorem keepsWrittenContracts_iff : c.KeepsWrittenContracts ↔ c.count ≤ sharedShards := by
  refine ⟨fun hkeeps => ?_,
    fun hfew format addressLength owner nonce machineText text hmade htext => ?_⟩
  · obtain ⟨creator, address, hcreator, haddress, hsame⟩ := hkeeps _ _ _ 1 _ _
      (.inr (KeyFormat.hex?_eq_ok_iff.mpr ⟨KeyFormat.walletSize_pos, rfl⟩))
      Contract.deriveText_firstCreator
    cases hcreator.symm.trans (KeyFormat.decode_hex List.length_replicate)
    cases haddress.symm.trans (KeyFormat.decode_hex rfl)
    exact Contract.le_of_stray_stays hsame
  · obtain ⟨creator, machineType, address, hcreator, haddress, hencode⟩ :=
      Contract.deriveText_ok htext
    exact ⟨creator, address, hcreator, KeyFormat.decode_of_encode hmade.lowered hencode,
      shardOf_derive hfew haddress⟩

end Coordinator

/-- What is derived from a written owner can be read again, and contracts are in the shards of
their creators exactly up to as many shards as the bytes tell apart that they share. -/
theorem contract_joins_creator (c : Coordinator) :
    (c.KeepsContracts ↔ c.count ≤ Coordinator.sharedShards) ∧
    (c.KeepsWrittenContracts ↔ c.count ≤ Coordinator.sharedShards) ∧
    ∀ (format : KeyFormat) (addressLength : Nat) (owner : String) (nonce : UInt64)
      (machineText text : String), format.MadeFor KeyFormat.walletSize →
      Contract.deriveText format addressLength owner nonce.toNat machineText = some (.ok text) →
      ∃ address, format.decode text = .ok address := by
  refine ⟨Coordinator.keepsContracts_iff, Coordinator.keepsWrittenContracts_iff, ?_⟩
  intro format addressLength owner nonce machineText text hmade htext
  obtain ⟨address, hencode⟩ := Contract.encode_of_deriveText htext
  exact ⟨address, KeyFormat.decode_of_encode hmade.lowered hencode⟩

/-- With one shard more the creator stays in the first one and its contract is in the last. -/
theorem contract_strays : ∃ c, Coordinator.ofCount? 65537 = .ok c ∧
    Contract.derive KeyFormat.walletSize Contract.firstCreator 1 [5, 0] =
      some (.ok Contract.strayContract) ∧
    c.shardOf Contract.firstCreator = 0 ∧ c.shardOf Contract.strayContract = 65536 ∧
    ¬c.KeepsContracts := by
  refine ⟨⟨65537, by decide, by decide⟩, rfl, Contract.derive_firstCreator,
    Contract.shardOf_firstCreator _, by decide, fun hkeeps => ?_⟩
  exact absurd (Coordinator.keepsContracts_iff.mp hkeeps) (by decide)

end Genesis
