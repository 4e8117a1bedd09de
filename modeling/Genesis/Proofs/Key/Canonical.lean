import Genesis.Proofs.Codec.Bech32.Reading

/-!
A key that can be written has one text in lower case, and can be read from that text alone but for
the case of its letters.
-/

namespace Genesis.KeyFormat

open Steps Text

variable {format : KeyFormat} {size : Nat} {key : Bytes} {text hrp : String}

def Cased : KeyFormat → String → Prop
  | .bech32 _ _ _, text => Bech32.OneCase text.toList
  | .hex _ _, _ => True

theorem checkSize_bind_eq_ok_iff {β : Type} {expected got : Nat} {f : Unit → Except Error β}
    {b : β} : checkSize expected got >>= f = .ok b ↔ got = expected ∧ f () = .ok b := by
  unfold checkSize
  split_ifs with h
  · exact (and_iff_right h.symm).symm
  · exact ⟨nofun, fun hboth => absurd hboth.1.symm h⟩

theorem encode_bech32_eq_ok_iff {hp : 0 < size} :
    (bech32 size hrp hp).encode key = .ok text ↔
      key.length = size ∧
        Bech32.encode .bech32 hrp.toList (Bech32.ofBytes key) = .ok text.toList := by
  unfold encode
  rw [checkSize_bind_eq_ok_iff]
  refine and_congr_right fun _ => ?_
  dsimp only
  cases Bech32.encode .bech32 hrp.toList (Bech32.ofBytes key) with
  | error fault => exact ⟨nofun, nofun⟩
  | ok chars =>
    rw [pure_eq_ok, Except.ok.injEq]
    exact ⟨fun h => h ▸ String.toList_ofList.symm, fun h => h ▸ String.ofList_toList⟩

theorem encode_hex_eq_ok_iff {hp : 0 < size} :
    (hex size hp).encode key = .ok text ↔ key.length = size ∧ Hex.encode key = text := by
  unfold encode
  rw [checkSize_bind_eq_ok_iff]
  exact and_congr_right fun _ => pure_eq_ok

theorem decode_eq_ok_iff_decodeAny :
    format.decode text = .ok key ↔ key.length = format.size ∧ format.decodeAny text = .ok key := by
  refine ⟨fun h => ⟨length_of_decode h, decodeAny_of_decode h⟩, fun ⟨hlength, hany⟩ => ?_⟩
  exact bind_eq_ok.mpr ⟨key, hany, checkSize_bind_eq_ok_iff.mpr ⟨hlength, rfl⟩⟩

theorem decodeAny_bech32_eq_ok_iff {hp : 0 < size} :
    (bech32 size hrp hp).decodeAny text = .ok key ↔
      Bech32.decode text.toList = .ok (hrp.toList, Bech32.ofBytes key, .bech32) := by
  unfold decodeAny
  dsimp only
  rcases Bech32.decode text.toList with fault | ⟨found, data, variant⟩
  · exact ⟨nofun, nofun⟩
  dsimp only
  rw [Except.ok.injEq, Prod.mk.injEq, Prod.mk.injEq]
  split_ifs with hfound hvariant
  · refine ⟨nofun, fun h => absurd ?_ hfound⟩
    rw [h.1, String.ofList_toList]
  · exact ⟨nofun, fun h => absurd h.2.2 hvariant⟩
  · have hsame : found = hrp.toList := by rw [← not_not.mp hfound, String.toList_ofList]
    have hvariant := not_not.mp hvariant
    rw [← Bech32.toBytes?_eq_some_iff]
    cases Bech32.toBytes? data with
    | none => exact ⟨nofun, nofun⟩
    | some found => simp [hsame, hvariant]

theorem decodeAny_hex_eq_ok_iff {hp : 0 < size} :
    (hex size hp).decodeAny text = .ok key ↔ lowerAscii text = Hex.encode key := by
  rw [← Hex.decode_eq_ok_iff]
  unfold decodeAny
  dsimp only
  cases Hex.decode text with
  | error fault => exact ⟨nofun, nofun⟩
  | ok found => rw [Except.ok.injEq, Except.ok.injEq]

/-- A key is read from the texts that lowering turns into the one that is written for it. -/
theorem decode_eq_ok_iff :
    format.decode text = .ok key ↔
      format.Cased text ∧ format.encode key = .ok (lowerAscii text) := by
  rw [decode_eq_ok_iff_decodeAny]
  cases format with
  | bech32 size hrp hp =>
    rw [decodeAny_bech32_eq_ok_iff, Bech32.decode_eq_ok_iff, encode_bech32_eq_ok_iff, lowerAscii,
      String.toList_ofList]
    exact and_left_comm
  | hex size hp =>
    rw [decodeAny_hex_eq_ok_iff, encode_hex_eq_ok_iff, eq_comm (a := lowerAscii text)]
    exact (and_iff_right trivial).symm

def Lowered : KeyFormat → Prop
  | .bech32 _ hrp _ => ∀ c ∈ hrp.toList, c.isUpper = false
  | .hex _ _ => True

def Allowed : KeyFormat → Prop
  | .bech32 _ hrp _ => Bech32.Allowed hrp.toList
  | .hex _ _ => True

theorem bech32?_eq_ok_iff :
    bech32? size hrp = .ok format ↔
      hrp ≠ "" ∧ ∃ hp : 0 < size, format = bech32 size (lowerCase hrp) hp := by
  unfold bech32?
  split_ifs with hp hempty
  · exact ⟨nofun, fun h => absurd (String.isEmpty_iff.mp hempty) h.1⟩
  · rw [Except.ok.injEq, eq_comm]
    have hne : hrp ≠ "" := fun h => hempty (String.isEmpty_iff.mpr h)
    exact ⟨fun h => ⟨hne, hp, h⟩, fun ⟨_, _, h⟩ => h⟩
  · exact ⟨nofun, fun ⟨_, hpos, _⟩ => absurd hpos hp⟩

theorem hex?_eq_ok_iff : hex? size = .ok format ↔ ∃ hp : 0 < size, format = hex size hp := by
  unfold hex?
  split_ifs with hp
  · rw [Except.ok.injEq, eq_comm]
    exact ⟨fun h => ⟨hp, h⟩, fun ⟨_, h⟩ => h⟩
  · exact ⟨nofun, fun ⟨hpos, _⟩ => absurd hpos hp⟩

def MadeFor (size : Nat) (format : KeyFormat) : Prop :=
  (∃ hrp, bech32? size hrp = .ok format) ∨ hex? size = .ok format

theorem MadeFor.lowered (h : format.MadeFor size) : format.Lowered := by
  rcases h with ⟨hrp, h⟩ | h
  · obtain ⟨_, _, rfl⟩ := bech32?_eq_ok_iff.mp h
    exact isUpper_lowerCase hrp
  · obtain ⟨_, rfl⟩ := hex?_eq_ok_iff.mp h
    trivial

theorem isUpper_of_encode (hl : format.Lowered) (h : format.encode key = .ok text) :
    ∀ c ∈ text.toList, c.isUpper = false := by
  cases format with
  | bech32 size hrp hp =>
    have hsymbol : ∀ v : Bech32.Symbol, (Bech32.symbolChar v).isUpper = false := fun v => by
      rw [← Bech32.toLower_symbolChar]
      exact isUpper_toLower _
    obtain ⟨_, hchars⟩ := encode_bech32_eq_ok_iff.mp h
    obtain ⟨_, _, htext⟩ := Bech32.encode_eq_ok_iff.mp hchars
    rw [htext]
    intro c hc
    rcases List.mem_append.mp hc with hc | hc
    · exact hl c hc
    rcases List.mem_cons.mp hc with rfl | hc
    · rfl
    · obtain ⟨v, _, rfl⟩ := List.mem_map.mp hc
      exact hsymbol v
  | hex size hp =>
    have hdigit : ∀ n : Fin 16, (Hex.digit n).isUpper = false := by decide
    obtain ⟨_, rfl⟩ := encode_hex_eq_ok_iff.mp h
    rw [Hex.encode, String.toList_ofList]
    intro c hc
    obtain ⟨b, _, hc⟩ := List.mem_flatMap.mp hc
    have hb : b.toNat < 256 := b.toNat_lt
    rw [Hex.encodeByte, List.mem_cons, List.mem_singleton] at hc
    rcases hc with rfl | rfl
    · exact hdigit ⟨b.toNat / 16, by omega⟩
    · exact hdigit ⟨b.toNat % 16, by omega⟩

theorem lowerAscii_of_encode (hl : format.Lowered) (h : format.encode key = .ok text) :
    lowerAscii text = text := by
  have hself : text.toList.map Char.toLower = text.toList.map id :=
    List.map_congr_left fun c hc => toLower_eq_self (isUpper_of_encode hl h c hc)
  rw [lowerAscii, hself, List.map_id, String.ofList_toList]

theorem cased_of_lowered (h : ∀ c ∈ text.toList, c.isUpper = false) : format.Cased text := by
  cases format with
  | bech32 size hrp hp => exact .of_lower h
  | hex size hp => exact trivial

theorem exists_encode_iff (hl : format.Lowered) :
    (∃ text, format.encode key = .ok text) ↔ key.length = format.size ∧ format.Allowed := by
  cases format with
  | bech32 size hrp hp =>
    have hone : Bech32.OneCase hrp.toList := .of_lower hl
    simp only [encode_bech32_eq_ok_iff, exists_and_left]
    refine and_congr_right fun _ => ⟨fun ⟨_, h⟩ => (Bech32.encode_eq_ok_iff.mp h).1, fun h => ?_⟩
    refine ⟨String.ofList _, Bech32.encode_eq_ok_iff.mpr ⟨h, hone, String.toList_ofList⟩⟩
  | hex size hp =>
    simp only [encode_hex_eq_ok_iff, exists_and_left]
    exact and_congr_right fun _ => ⟨fun _ => trivial, fun _ => ⟨_, rfl⟩⟩

theorem decode_of_encode (hl : format.Lowered) (h : format.encode key = .ok text) :
    format.decode text = .ok key :=
  decode_eq_ok_iff.mpr ⟨cased_of_lowered (isUpper_of_encode hl h),
    (lowerAscii_of_encode hl h).symm ▸ h⟩

/-- Writing and reading keys of `size` bytes, where `allowed` tells whether there are texts of any:
every key has one text in lower case. -/
structure Canonical (format : KeyFormat) (size : Nat) (allowed : Prop) : Prop where
  exists_encode_iff : ∀ key, (∃ text, format.encode key = .ok text) ↔ key.length = size ∧ allowed
  decode_encode : ∀ key text, format.encode key = .ok text → format.decode text = .ok key
  encode_decode : ∀ text key, format.decode text = .ok key →
    key.length = size ∧ format.encode key = .ok (lowerAscii text)
  injective : ∀ key key' text, format.encode key = .ok text → format.encode key' = .ok text →
    key = key'
  unique : ∀ key text, format.encode key = .ok text →
    ∃! lower, format.decode lower = .ok key ∧ lowerAscii lower = lower

theorem canonical_of_lowered (hl : format.Lowered) :
    format.Canonical format.size format.Allowed where
  exists_encode_iff _ := exists_encode_iff hl
  decode_encode key text := decode_of_encode hl
  encode_decode text key h := ⟨length_of_decode h, (decode_eq_ok_iff.mp h).2⟩
  injective key key' text := encode_injective
  unique key text h := by
    refine ⟨text, ⟨decode_of_encode hl h, lowerAscii_of_encode hl h⟩, ?_⟩
    rintro other ⟨hread, hother⟩
    have hencode := (decode_eq_ok_iff.mp hread).2
    rw [hother, h] at hencode
    exact (Except.ok.inj hencode).symm

/-- What else a text might carry that is read as a key: the prefix is that of the format, the
checksum is not that of bech32m, and the bits left over are fewer than five and all zero. -/
theorem carried_of_decode {hp : 0 < size} {variant : Bech32.Variant} {found : List Char}
    {data : List Bech32.Symbol} (h : (bech32 size hrp hp).decode text = .ok key)
    (hw : Bech32.encode variant found data = .ok (text.toList.map Char.toLower)) :
    found = hrp.toList ∧ variant = .bech32 ∧ (Bech32.spare data).length < 5 ∧
      ∀ bit ∈ Bech32.spare data, bit = false := by
  have hone : Bech32.OneCase text.toList := (decode_eq_ok_iff.mp h).1
  have hcarried := decodeAny_bech32_eq_ok_iff.mp (decodeAny_of_decode h)
  rw [Bech32.decode_eq_ok_iff.mpr ⟨hone, hw⟩] at hcarried
  cases hcarried
  refine ⟨rfl, rfl, Bech32.isSome_toBytes?.mp ?_⟩
  rw [Bech32.toBytes?_ofBytes]
  rfl

/-- In every format that can be made, a key has one text in lower case. -/
theorem texts_canonical (size : Nat) :
    (∀ hrp, ((∃ format, bech32? size hrp = .ok format) ↔ 0 < size ∧ hrp ≠ "") ∧
      ∀ format, bech32? size hrp = .ok format →
        format.Canonical size (Bech32.Allowed (lowerCase hrp).toList) ∧
        ∀ text key, format.decode text = .ok key →
          Bech32.OneCase text.toList ∧
          ∀ variant found data,
            Bech32.encode variant found data = .ok (text.toList.map Char.toLower) →
            found = (lowerCase hrp).toList ∧ variant = .bech32 ∧
              (Bech32.spare data).length < 5 ∧ ∀ bit ∈ Bech32.spare data, bit = false) ∧
    ((∃ format, hex? size = .ok format) ↔ 0 < size) ∧
      ∀ format, hex? size = .ok format → format.Canonical size True := by
  refine ⟨fun hrp => ⟨?_, fun format h => ?_⟩, ?_, fun format h => ?_⟩
  · simp only [bech32?_eq_ok_iff]
    exact ⟨fun ⟨_, hne, hp, _⟩ => ⟨hp, hne⟩, fun ⟨hp, hne⟩ => ⟨_, hne, hp, rfl⟩⟩
  · obtain ⟨_, hp, rfl⟩ := bech32?_eq_ok_iff.mp h
    have hl : (bech32 size (lowerCase hrp) hp).Lowered := isUpper_lowerCase hrp
    exact ⟨canonical_of_lowered hl, fun text key hdecode =>
      ⟨(decode_eq_ok_iff.mp hdecode).1, fun variant found data => carried_of_decode hdecode⟩⟩
  · simp only [hex?_eq_ok_iff]
    exact ⟨fun ⟨_, hp, _⟩ => hp, fun hp => ⟨_, hp, rfl⟩⟩
  · obtain ⟨hp, rfl⟩ := hex?_eq_ok_iff.mp h
    exact canonical_of_lowered trivial

theorem short_texts_canonical :
    bech32? 1 "A" = .ok (bech32 1 "a" Nat.one_pos) ∧
      (bech32 1 "a" Nat.one_pos).encode [0xff] = .ok "a1lu9cgf6y" ∧
      (bech32 1 "a" Nat.one_pos).decode "A1LU9CGF6Y" = .ok [0xff] ∧
      (∃! lower, (bech32 1 "a" Nat.one_pos).decode lower = .ok [0xff] ∧
        lowerAscii lower = lower) ∧
      hex? 1 = .ok (hex 1 Nat.one_pos) ∧
      (hex 1 Nat.one_pos).decode "FF" = .ok [0xff] ∧
      (hex 1 Nat.one_pos).encode [0xff] = .ok (lowerAscii "FF") := by
  have hbech32 : bech32? 1 "A" = .ok (bech32 1 "a" Nat.one_pos) := rfl
  have hencode : (bech32 1 "a" Nat.one_pos).encode [0xff] = .ok "a1lu9cgf6y" := by decide
  have hcapitals : (bech32 1 "a" Nat.one_pos).decode "A1LU9CGF6Y" = .ok [0xff] := by decide
  have hhex : hex? 1 = .ok (hex 1 Nat.one_pos) := rfl
  have hdecode : (hex 1 Nat.one_pos).decode "FF" = .ok [0xff] := by decide
  obtain ⟨hletters, -, hdigits⟩ := texts_canonical 1
  exact ⟨hbech32, hencode, hcapitals, ((hletters "A").2 _ hbech32).1.unique _ _ hencode, hhex,
    hdecode, ((hdigits _ hhex).encode_decode _ _ hdecode).2⟩

/-- Digits in base 16 may be of either case within one text. -/
theorem hex_reads_mixed_case :
    hex? 1 = .ok (hex 1 Nat.one_pos) ∧ (hex 1 Nat.one_pos).decode "aB" = .ok [0xab] ∧
      ¬ Bech32.OneCase "aB".toList :=
  ⟨rfl, by decide, by decide⟩

end Genesis.KeyFormat
