import Genesis.Codec.Bech32.Basic
import Genesis.Proofs.Codec.Bits
import Genesis.Proofs.Steps

/-! Bytes are read back from their symbols, and symbols from the text that is written of them. -/

namespace Genesis.Bech32

open Steps

theorem charSymbol_symbolChar : ∀ v : Symbol, charSymbol (symbolChar v) = some v := by decide

theorem symbolChar_ne_separator : ∀ v : Symbol, symbolChar v ≠ '1' := by decide

theorem flatMap_ofBytes (bytes : Bytes) :
    (ofBytes bytes).flatMap (fun v => Bits.ofNat 5 v.toNat) =
      Bits.padTo 5 (bytes.flatMap fun b => Bits.ofNat 8 b.toNat) := by
  unfold ofBytes
  dsimp only
  generalize hpad : Bits.padTo 5 (bytes.flatMap fun b => Bits.ofNat 8 b.toNat) = bits
  have hd : 5 ∣ bits.length := by
    rw [← hpad, Bits.padTo, List.length_append, List.length_replicate]
    omega
  rw [List.flatMap_map]
  simp only [BitVec.toNat_ofNat, Bits.ofNat_mod le_rfl]
  exact Bits.flatMap_chunksOf (by decide) hd

theorem toBytes?_ofBytes (bytes : Bytes) : toBytes? (ofBytes bytes) = some bytes := by
  unfold toBytes?
  dsimp only
  rw [flatMap_ofBytes]
  have hlen := length_flatMap_of_length (fun b : UInt8 => Bits.length_ofNat 8 b.toNat) bytes
  unfold Bits.padTo
  generalize hbits : bytes.flatMap (fun b => Bits.ofNat 8 b.toNat) = bits at hlen ⊢
  generalize hpad : (5 - bits.length % 5) % 5 = pad
  have hwhole : (bits ++ List.replicate pad false).length / 8 * 8 = bits.length := by
    rw [List.length_append, List.length_replicate]
    omega
  rw [hwhole, List.drop_left, List.take_left, List.length_replicate, if_pos]
  · rw [← hbits, chunksOf_flatMap (by decide) fun b : UInt8 => Bits.length_ofNat 8 b.toNat,
      List.map_map]
    refine congrArg some ((List.map_congr_left fun b _ => ?_).trans (List.map_id bytes))
    rw [Function.comp_apply, Bits.toNat_ofNat, Nat.mod_eq_of_lt b.toNat_lt]
    exact UInt8.ofNat_toNat
  · exact ⟨by omega, by simp⟩

theorem readSymbols_map {vs vs' : List Symbol} {seen : LetterCase}
    (h : readSymbols seen (vs.map symbolChar) = .ok vs') : vs' = vs := by
  induction vs generalizing seen vs' with
  | nil => cases h; rfl
  | cons v vs ih =>
    rw [List.map_cons, readSymbols] at h
    split at h
    · cases h
    · obtain ⟨seen', _, h⟩ := bind_eq_ok.mp h
      rw [charSymbol_symbolChar] at h
      obtain ⟨rest, hrest, h⟩ := bind_eq_ok.mp h
      cases h
      rw [ih hrest]

theorem splitLast_append {hrp data : List Char} (h : ∀ c ∈ data, c ≠ '1') :
    splitLast (hrp ++ '1' :: data) = some (hrp, data) := by
  have hbehind : ∀ c ∈ data.reverse, decide (c ≠ '1') = true := fun c hc => by
    simpa using h c (List.mem_reverse.mp hc)
  have hrev : (hrp ++ '1' :: data).reverse = data.reverse ++ '1' :: hrp.reverse := by simp
  unfold splitLast
  rw [hrev, List.takeWhile_append_of_pos hbehind, List.dropWhile_append_of_pos hbehind]
  simp

theorem data_of_decode_encode {variant v : Variant} {hrp found text : List Char}
    {data data' : List Symbol} (he : encode variant hrp data = .ok text)
    (hd : decode text = .ok (found, data', v)) : data' = data := by
  unfold encode at he
  obtain ⟨_, _, he⟩ := bind_eq_ok.mp he
  cases he
  have hsplit : splitLast (hrp ++ '1' :: (data ++ checksum variant hrp data).map symbolChar) =
      some (hrp, (data ++ checksum variant hrp data).map symbolChar) :=
    splitLast_append fun c hc => by
      obtain ⟨v, _, rfl⟩ := List.mem_map.mp hc
      exact symbolChar_ne_separator v
  unfold decode at hd
  rw [hsplit] at hd
  dsimp only at hd
  obtain ⟨seen, _, hd⟩ := bind_eq_ok.mp hd
  obtain ⟨symbols, hsymbols, hd⟩ := bind_eq_ok.mp hd
  rw [readSymbols_map hsymbols] at hd
  split at hd
  · cases hd
  · split at hd
    · cases hd
      have hlen : (checksum variant hrp data).length = checksumLength := rfl
      rw [List.length_append, hlen, Nat.add_sub_cancel, List.take_left]
    · cases hd

end Genesis.Bech32
