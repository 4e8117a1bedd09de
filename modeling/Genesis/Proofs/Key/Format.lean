import Genesis.Key.Format
import Genesis.Proofs.Codec.Bech32
import Genesis.Proofs.Codec.Hex

/-! A key that can be written has the length of its format, and its text is read back as the key. -/

namespace Genesis.KeyFormat

open Steps

variable {format : KeyFormat} {key key' : Bytes} {text : String}

theorem size_pos (format : KeyFormat) : 0 < format.size := by
  cases format with
  | bech32 size hrp h => exact h
  | hex size h => exact h

theorem walletSize_pos : 0 < walletSize := by decide

theorem validatorSize_pos : 0 < validatorSize := by decide

theorem checkSize_ok {expected got : Nat} {u : Unit} (h : checkSize expected got = .ok u) :
    expected = got := by
  unfold checkSize at h
  split at h
  · assumption
  · cases h

theorem length_of_encode (h : format.encode key = .ok text) : key.length = format.size := by
  obtain ⟨_, hsize, _⟩ := bind_eq_ok.mp h
  exact (checkSize_ok hsize).symm

theorem length_of_decode (h : format.decode text = .ok key) : key.length = format.size := by
  obtain ⟨key', _, h⟩ := bind_eq_ok.mp h
  obtain ⟨_, hsize, h⟩ := bind_eq_ok.mp h
  cases h
  exact (checkSize_ok hsize).symm

theorem decodeAny_of_decode (h : format.decode text = .ok key) :
    format.decodeAny text = .ok key := by
  obtain ⟨key', hany, h⟩ := bind_eq_ok.mp h
  obtain ⟨_, _, h⟩ := bind_eq_ok.mp h
  cases h
  exact hany

theorem isEmpty_of_encode (h : format.encode key = .ok text) : text.isEmpty = false := by
  have hkey : key ≠ [] := by
    rw [← List.length_pos_iff, length_of_encode h]
    exact format.size_pos
  suffices hne : text ≠ "" by simpa using hne
  intro hempty
  obtain ⟨_, _, h⟩ := bind_eq_ok.mp h
  cases format with
  | bech32 size hrp hp =>
    dsimp only at h
    split at h
    · rename_i chars hchars
      cases h
      obtain ⟨_, _, hchars⟩ := bind_eq_ok.mp hchars
      cases hchars
      simp at hempty
    · cases h
  | hex size hp =>
    cases h
    obtain ⟨b, bytes, rfl⟩ := List.exists_cons_of_ne_nil hkey
    simp [Hex.encode, Hex.encodeByte] at hempty

theorem eq_of_decode_encode (he : format.encode key = .ok text)
    (hd : format.decode text = .ok key') : key' = key := by
  obtain ⟨_, _, he⟩ := bind_eq_ok.mp he
  have hd := decodeAny_of_decode hd
  cases format with
  | bech32 size hrp h =>
    dsimp only at he
    split at he
    · rename_i chars hchars
      cases he
      unfold decodeAny at hd
      dsimp only at hd
      rw [String.toList_ofList] at hd
      split at hd
      · cases hd
      -- the data of a text that was written, whatever the prefix and the variant found in it
      · rename_i found data variant hdecode
        split at hd
        · cases hd
        split at hd
        · cases hd
        rw [Bech32.data_of_decode_encode hchars hdecode, Bech32.toBytes?_ofBytes] at hd
        cases hd
        rfl
    · cases he
  | hex size h =>
    cases he
    unfold decodeAny at hd
    dsimp only at hd
    rw [Hex.decode_encode] at hd
    cases hd
    rfl

section Hex

variable {size : Nat} {hp : 0 < size}

theorem encode_hex (hl : key.length = size) : (hex size hp).encode key = .ok (Hex.encode key) := by
  refine bind_eq_ok.mpr ⟨(), ?_, rfl⟩
  exact if_pos hl.symm

theorem decode_hex (hl : key.length = size) : (hex size hp).decode (Hex.encode key) = .ok key := by
  have hany : (hex size hp).decodeAny (Hex.encode key) = .ok key := by
    unfold decodeAny
    dsimp only
    rw [Hex.decode_encode]
  refine bind_eq_ok.mpr ⟨key, hany, bind_eq_ok.mpr ⟨(), ?_, rfl⟩⟩
  exact if_pos hl.symm

end Hex

end Genesis.KeyFormat
