import Genesis.Proofs.Key.Format

/-! The characters that keys are written with: visible ASCII, whatever the format. -/

namespace Genesis

def Visible (c : Char) : Prop := 33 ≤ c.toNat ∧ c.toNat ≤ 126

instance (c : Char) : Decidable (Visible c) :=
  inferInstanceAs (Decidable (33 ≤ c.toNat ∧ c.toNat ≤ 126))

namespace Bech32

open Steps

theorem visible_symbolChar : ∀ v : Symbol, Visible (symbolChar v) := by decide

theorem visible_of_prefixCase {seen seen' : LetterCase} {hrp : List Char}
    (h : prefixCase seen hrp = .ok seen') : ∀ c ∈ hrp, Visible c := by
  induction hrp generalizing seen with
  | nil => exact List.forall_mem_nil _
  | cons c cs ih =>
    rw [prefixCase] at h
    split at h
    · rename_i hc
      obtain ⟨met, _, h⟩ := bind_eq_ok.mp h
      exact List.forall_mem_cons.mpr ⟨hc, ih h⟩
    · cases h

theorem visible_of_encode {variant : Variant} {hrp text : List Char} {data : List Symbol}
    (h : encode variant hrp data = .ok text) : ∀ c ∈ text, Visible c := by
  obtain ⟨seen, hallowed, h⟩ := bind_eq_ok.mp h
  cases h
  intro c hc
  rcases List.mem_append.mp hc with hc | hc
  · unfold checkPrefix at hallowed
    split at hallowed
    · cases hallowed
    · exact visible_of_prefixCase hallowed c hc
  rcases List.mem_cons.mp hc with rfl | hc
  · decide
  · obtain ⟨v, _, rfl⟩ := List.mem_map.mp hc
    exact visible_symbolChar v

theorem symbolChar_injective : Function.Injective symbolChar := by
  intro v v' h
  have hsymbol := charSymbol_symbolChar v
  rw [h, charSymbol_symbolChar] at hsymbol
  exact (Option.some.inj hsymbol).symm

theorem ofBytes_injective : Function.Injective ofBytes := by
  intro bytes bytes' h
  have hbytes := toBytes?_ofBytes bytes
  rw [h, toBytes?_ofBytes] at hbytes
  exact (Option.some.inj hbytes).symm

/-- A text has room for one sequence of data, since all checksums are equally long. -/
theorem data_eq_of_encode {variant : Variant} {hrp text : List Char} {data data' : List Symbol}
    (h : encode variant hrp data = .ok text) (h' : encode variant hrp data' = .ok text) :
    data = data' := by
  obtain ⟨_, _, h⟩ := bind_eq_ok.mp h
  obtain ⟨_, _, h'⟩ := bind_eq_ok.mp h'
  cases h
  have hmap := List.append_cancel_left (Except.ok.inj h')
  have hsymbols := List.map_injective_iff.mpr symbolChar_injective (List.cons.inj hmap).2
  have hlength : ∀ d, (checksum variant hrp d).length = checksumLength := fun _ => rfl
  exact (List.append_inj_left' hsymbols ((hlength data').trans (hlength data).symm)).symm

end Bech32

namespace Hex

theorem visible_digit : ∀ n : Fin 16, Visible (digit n) := by decide

theorem visible_encode (bytes : Bytes) : ∀ c ∈ (encode bytes).toList, Visible c := by
  intro c hc
  rw [encode, String.toList_ofList, List.mem_flatMap] at hc
  obtain ⟨b, _, hc⟩ := hc
  have hb : b.toNat < 256 := b.toNat_lt
  rw [encodeByte, List.mem_cons, List.mem_singleton] at hc
  rcases hc with rfl | rfl
  · exact visible_digit ⟨b.toNat / 16, by omega⟩
  · exact visible_digit ⟨b.toNat % 16, by omega⟩

end Hex

namespace KeyFormat

open Steps

variable {format : KeyFormat} {key : Bytes} {text : String}

theorem visible_of_encode (h : format.encode key = .ok text) : ∀ c ∈ text.toList, Visible c := by
  obtain ⟨_, _, h⟩ := bind_eq_ok.mp h
  cases format with
  | bech32 size hrp hp =>
    dsimp only at h
    split at h
    · rename_i chars hchars
      cases h
      rw [String.toList_ofList]
      exact Bech32.visible_of_encode hchars
    · cases h
  | hex size hp =>
    cases h
    exact Hex.visible_encode key

theorem newline_not_mem_of_encode (h : format.encode key = .ok text) : '\n' ∉ text.toList :=
  fun hmem => absurd (visible_of_encode h _ hmem) (by decide)

theorem exists_encode_bech32 {size : Nat} {hrp : String} {hp : 0 < size}
    (hallowed : ∃ seen, Bech32.checkPrefix hrp.toList = .ok seen) (hl : key.length = size) :
    ∃ text, (bech32 size hrp hp).encode key = .ok text := by
  obtain ⟨seen, hseen⟩ := hallowed
  have hsize : checkSize (bech32 size hrp hp).size key.length = .ok () := if_pos hl.symm
  have hwritten : ∃ chars, Bech32.encode .bech32 hrp.toList (Bech32.ofBytes key) = .ok chars :=
    exists_bind hseen ⟨_, rfl⟩
  obtain ⟨chars, hchars⟩ := hwritten
  refine ⟨String.ofList chars, bind_eq_ok.mpr ⟨(), hsize, ?_⟩⟩
  dsimp only
  rw [hchars]
  rfl

theorem encode_injective {key' : Bytes} (h : format.encode key = .ok text)
    (h' : format.encode key' = .ok text) : key = key' := by
  obtain ⟨_, _, h⟩ := bind_eq_ok.mp h
  obtain ⟨_, _, h'⟩ := bind_eq_ok.mp h'
  cases format with
  | bech32 size hrp hp =>
    dsimp only at h h'
    split at h
    · rename_i chars hchars
      split at h'
      · rename_i chars' hchars'
        cases h
        obtain rfl : chars' = chars := String.ofList_injective (Except.ok.inj h')
        exact Bech32.ofBytes_injective (Bech32.data_eq_of_encode hchars hchars')
      · cases h'
    · cases h
  | hex size hp =>
    cases h
    have hdecode := Hex.decode_encode key'
    rw [Except.ok.inj h', Hex.decode_encode] at hdecode
    exact Except.ok.inj hdecode

end KeyFormat

end Genesis
