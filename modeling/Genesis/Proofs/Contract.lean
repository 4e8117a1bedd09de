import Genesis.Contract
import Genesis.Proofs.Key.Format

/-!
The address of a contract can be derived for any creator, has the length of a digest, and ends as
its creator's does.
-/

namespace Genesis.Contract

open Steps

variable {addressLength nonce : Nat} {creator machineType address : Bytes}

theorem derive_ok (h : derive addressLength creator nonce machineType = some (.ok address)) :
    sharedLength ≤ creator.length ∧ ∃ own, own.length = Keccak.digestLength - sharedLength ∧
      address = own ++ creator.drop (creator.length - sharedLength) := by
  unfold derive at h
  split at h
  · cases h
  split at h
  · cases h
  rename_i hmachine
  split at h
  · cases h
  rename_i hshared
  cases h
  refine ⟨Nat.not_lt.mp hshared, _, ?_, rfl⟩
  simp only [List.length_append, List.length_replicate, List.length_take, List.length_drop,
    Keccak.length_digest, not_not.mp hmachine]
  rfl

theorem length_derive (h : derive addressLength creator nonce machineType = some (.ok address)) :
    address.length = Keccak.digestLength := by
  obtain ⟨hshared, own, hown, rfl⟩ := derive_ok h
  rw [List.length_append, hown, List.length_drop, Nat.sub_sub_self hshared]
  rfl

theorem drop_derive (h : derive addressLength creator nonce machineType = some (.ok address))
    {n : Nat} (hn : n ≤ sharedLength) :
    address.drop (address.length - n) = creator.drop (creator.length - n) := by
  obtain ⟨hshared, own, _, rfl⟩ := derive_ok h
  have hlast : (creator.drop (creator.length - sharedLength)).length = sharedLength := by
    rw [List.length_drop, Nat.sub_sub_self hshared]
  rw [List.length_append, hlast, Nat.add_sub_assoc hn, List.drop_length_add_append, List.drop_drop]
  congr 1
  omega

theorem exists_derive (nonce : Nat) (hc : creator.length = addressLength)
    (hm : machineType.length = machineTypeLength) (hs : sharedLength ≤ creator.length) :
    ∃ address, derive addressLength creator nonce machineType = some (.ok address) := by
  unfold derive
  rw [if_neg (not_not.mpr hc), if_neg (not_not.mpr hm), if_neg (Nat.not_lt.mpr hs)]
  exact ⟨_, rfl⟩

/-- It breaks off where creators are too short for the bytes to be shared, and nowhere else. -/
theorem derive_eq_none_iff : derive addressLength creator nonce machineType = none ↔
    creator.length = addressLength ∧ machineType.length = machineTypeLength ∧
      addressLength < sharedLength := by
  unfold derive
  split_ifs with hcreator hmachine hshared
  · exact iff_of_false (by simp) fun h => hcreator h.1
  · exact iff_of_false (by simp) fun h => hmachine h.2.1
  · exact iff_of_true rfl ⟨not_not.mp hcreator, not_not.mp hmachine, not_not.mp hcreator ▸ hshared⟩
  · exact iff_of_false (by simp) fun h => hshared (h.1.symm ▸ h.2.2)

theorem deriveText_eq_ok {format : KeyFormat} {owner machineText text : String}
    (hc : format.decode owner = .ok creator) (hm : Hex.decode machineText = .ok machineType)
    (ha : derive addressLength creator nonce machineType = some (.ok address))
    (ht : format.encode address = .ok text) :
    deriveText format addressLength owner nonce machineText = some (.ok text) := by
  unfold deriveText
  rw [hm]
  exact bind_eq_some_ok.mpr ⟨creator, lift_eq_some_iff.mpr hc, bind_eq_some_ok.mpr
    ⟨machineType, rfl, bind_eq_some_ok.mpr ⟨address, ha, lift_eq_some_iff.mpr ht⟩⟩⟩

theorem deriveText_ok {format : KeyFormat} {owner machineText text : String}
    (h : deriveText format addressLength owner nonce machineText = some (.ok text)) :
    ∃ creator machineType address, format.decode owner = .ok creator ∧
      derive addressLength creator nonce machineType = some (.ok address) ∧
      format.encode address = .ok text := by
  unfold deriveText at h
  obtain ⟨creator, hcreator, h⟩ := bind_eq_some_ok.mp h
  dsimp only at h
  split at h
  · obtain ⟨machineType, _, h⟩ := bind_eq_some_ok.mp h
    obtain ⟨address, haddress, hencode⟩ := bind_eq_some_ok.mp h
    exact ⟨creator, machineType, address, lift_eq_some_iff.mp hcreator, haddress,
      lift_eq_some_iff.mp hencode⟩
  · cases h

theorem deriveText_ne_none {format : KeyFormat} {owner machineText : String}
    (h : sharedLength ≤ addressLength) :
    deriveText format addressLength owner nonce machineText ≠ none := by
  intro hnone
  unfold deriveText at hnone
  obtain hread | ⟨creator, _, hnone⟩ := bind_eq_none.mp hnone
  · cases hread
  dsimp only at hnone
  split at hnone
  · obtain hpure | ⟨machineType, _, hnone⟩ := bind_eq_none.mp hnone
    · cases hpure
    obtain hderive | ⟨address, _, hencode⟩ := bind_eq_none.mp hnone
    · exact Nat.not_lt.mpr h (derive_eq_none_iff.mp hderive).2.2
    · cases hencode
  · cases hnone

theorem encode_of_deriveText {format : KeyFormat} {owner machineText text : String}
    (h : deriveText format addressLength owner nonce machineText = some (.ok text)) :
    ∃ address, format.encode address = .ok text := by
  obtain ⟨_, _, address, _, _, hencode⟩ := deriveText_ok h
  exact ⟨address, hencode⟩

end Genesis.Contract
