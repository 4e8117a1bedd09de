import Genesis.Key.Source
import Genesis.Proofs.Codec.Bits

/-! Streams whose pairs can all be written out. -/

namespace Genesis.KeySource

/-- Both halves of every pair can be written out, and public keys have `size` bytes. -/
structure Writes (source : KeySource) (size : Nat) : Prop where
  publicKey : ∀ i, ∃ key, source.publicKey i = .ok key ∧ key.length = size
  privateKey : ∀ i, ∃ key, source.privateKey i = .ok key

theorem Writes.length_eq {source : KeySource} {size i : Nat} {key : Bytes}
    (h : source.Writes size) (hk : source.publicKey i = .ok key) : key.length = size := by
  obtain ⟨key', hk', hl⟩ := h.publicKey i
  rw [hk'] at hk
  cases hk
  exact hl

theorem length_expand (label : Bytes) (index length : Nat) :
    (expand label index length).length = length := by
  unfold expand
  dsimp only
  rw [List.length_take, length_flatMap_of_length fun _ => Keccak.length_digest _,
    List.length_range]
  unfold Keccak.digestLength
  omega

theorem writes_numbered (publicLength privateLength : Nat) :
    (numbered publicLength privateLength).Writes publicLength where
  publicKey i := ⟨expand [1] i publicLength, rfl, length_expand _ _ _⟩
  privateKey i := ⟨expand [0] i privateLength, rfl⟩

theorem writes_wallets (entropy : Bytes) (publicLength : Nat) :
    (wallets entropy publicLength).Writes publicLength where
  publicKey _ := ⟨_, rfl, length_expand _ _ _⟩
  privateKey _ := ⟨_, rfl⟩

theorem writes_validators (entropy : Bytes) (publicLength : Nat) :
    (validators entropy publicLength).Writes publicLength where
  publicKey _ := ⟨_, rfl, length_expand _ _ _⟩
  privateKey _ := ⟨_, rfl⟩

end Genesis.KeySource
