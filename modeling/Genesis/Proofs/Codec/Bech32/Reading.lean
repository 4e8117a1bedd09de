import Genesis.Proofs.Codec.Bech32.Checksum
import Genesis.Proofs.Key.Text
import Genesis.Proofs.Text.Ascii
import Mathlib.Data.List.TakeWhile

/-!
What can be read is what can be written, but for the case of the whole text: prefix, data, variant
and checksum are found just where lowering leads to the text that is written of them.
-/

namespace Genesis.Bech32

open Steps Text

def OneCase (text : List Char) : Prop :=
  text.any Char.isLower = false ∨ text.any Char.isUpper = false

instance (text : List Char) : Decidable (OneCase text) :=
  inferInstanceAs (Decidable (_ ∨ _))

/-- The case that the letters of a text have shown, if they are of one. -/
def LetterCase.of (text : List Char) : LetterCase :=
  if text.any Char.isLower then .lower
  else if text.any Char.isUpper then .upper
  else .unknown

section Case

variable {before behind cs : List Char} {c : Char} {seen : LetterCase}

theorem OneCase.of_append (h : OneCase (before ++ behind)) : OneCase before := by
  unfold OneCase at h ⊢
  rw [List.any_append, List.any_append, Bool.or_eq_false_iff, Bool.or_eq_false_iff] at h
  exact h.imp And.left And.left

theorem OneCase.of_lower (h : ∀ c ∈ cs, c.isUpper = false) : OneCase cs :=
  .inr (List.any_eq_false.mpr fun c hc => by rw [h c hc]; decide)

theorem meet_of (h : OneCase before) :
    (LetterCase.of before).meet c = .ok seen ↔
      OneCase (before ++ [c]) ∧ seen = .of (before ++ [c]) := by
  have hboth : c.isLower = true → c.isUpper = false := not_isUpper_of_isLower
  unfold LetterCase.meet LetterCase.of
  unfold OneCase at h ⊢
  rw [List.any_append, List.any_append, List.any_cons, List.any_cons, List.any_nil, List.any_nil,
    Bool.or_false, Bool.or_false]
  revert h hboth
  generalize before.any Char.isLower = lower
  generalize before.any Char.isUpper = upper
  generalize c.isLower = low
  generalize c.isUpper = up
  intro h hboth
  cases lower <;> cases upper <;> cases low <;> cases up <;> simp_all [eq_comm]

theorem prefixCase_eq_ok_iff (h : OneCase before) :
    prefixCase (.of before) cs = .ok seen ↔
      (∀ c ∈ cs, Visible c) ∧ OneCase (before ++ cs) ∧ seen = .of (before ++ cs) := by
  induction cs generalizing before with
  | nil =>
    rw [prefixCase, List.append_nil]
    simp [h, eq_comm]
  | cons c cs ih =>
    have hsplit : before ++ c :: cs = before ++ [c] ++ cs := by simp
    rw [prefixCase, List.forall_mem_cons, hsplit]
    split_ifs with hc
    · rw [bind_eq_ok]
      constructor
      · rintro ⟨met, hmet, hrest⟩
        obtain ⟨hone, rfl⟩ := (meet_of h).mp hmet
        obtain ⟨hvisible, hall⟩ := (ih hone).mp hrest
        exact ⟨⟨hc, hvisible⟩, hall⟩
      · rintro ⟨⟨_, hvisible⟩, hall⟩
        have hone := hall.1.of_append
        exact ⟨_, (meet_of h).mpr ⟨hone, rfl⟩, (ih hone).mpr ⟨hvisible, hall⟩⟩
    · refine ⟨fun herror => ?_, fun hvisible => absurd hvisible.1.1 hc⟩
      cases herror

end Case

/-- A prefix may be up to 83 bytes long, all of them visible ASCII. -/
structure Allowed (hrp : List Char) : Prop where
  pos : 0 < (Hex.utf8 hrp).length
  le : (Hex.utf8 hrp).length ≤ maxPrefixLength
  visible : ∀ b ∈ Hex.utf8 hrp, 33 ≤ b.toNat ∧ b.toNat ≤ 126

section Prefix

variable {hrp cs : List Char} {seen : LetterCase}

theorem ascii_of_visible (h : ∀ c ∈ cs, Visible c) : ∀ c ∈ cs, c.toNat < 128 :=
  fun c hc => Nat.lt_of_le_of_lt (h c hc).2 (by decide)

theorem forall_mem_utf8_iff :
    (∀ b ∈ Hex.utf8 cs, 33 ≤ b.toNat ∧ b.toNat ≤ 126) ↔ ∀ c ∈ cs, Visible c := by
  constructor
  · intro h
    have hascii := Hex.ascii_of_utf8 fun b hb => Nat.lt_of_le_of_lt (h b hb).2 (by decide)
    intro c hc
    rw [Hex.utf8_of_ascii hascii] at h
    have hbyte := h _ (List.mem_map_of_mem hc)
    rwa [UInt8.toNat_ofNat_of_lt' (Nat.lt_trans (hascii c hc) (by decide))] at hbyte
  · intro h b hb
    rw [Hex.utf8_of_ascii (ascii_of_visible h)] at hb
    obtain ⟨c, hc, rfl⟩ := List.mem_map.mp hb
    rw [UInt8.toNat_ofNat_of_lt' (Nat.lt_trans (ascii_of_visible h c hc) (by decide))]
    exact h c hc

theorem utf8_pos_iff : 0 < (Hex.utf8 cs).length ↔ cs ≠ [] := by
  cases cs with
  | nil => simp [Hex.utf8]
  | cons c cs =>
    have hbytes := Char.utf8Size_pos c
    simp [Hex.utf8, hbytes]

theorem checkPrefix_eq_ok_iff :
    checkPrefix hrp = .ok seen ↔ Allowed hrp ∧ OneCase hrp ∧ seen = .of hrp := by
  have hnone : OneCase [] := .inl rfl
  have hbegin : prefixCase .unknown hrp = .ok seen ↔
      (∀ c ∈ hrp, Visible c) ∧ OneCase hrp ∧ seen = .of hrp := prefixCase_eq_ok_iff hnone
  have hbytes : hrp.flatMap String.utf8EncodeChar = Hex.utf8 hrp := rfl
  unfold checkPrefix
  rw [hbytes]
  split
  · rename_i hlength
    refine ⟨nofun, fun ⟨hallowed, _⟩ => ?_⟩
    have hne := utf8_pos_iff.mp hallowed.pos
    have hle := hallowed.le
    simp only [Bool.or_eq_true, List.isEmpty_iff, decide_eq_true_eq] at hlength
    rcases hlength with h | h
    · exact absurd h hne
    · exact absurd h (Nat.not_lt.mpr hle)
  · rename_i hlength
    simp only [Bool.or_eq_true, List.isEmpty_iff, decide_eq_true_eq, not_or, Nat.not_lt] at hlength
    rw [hbegin, ← forall_mem_utf8_iff]
    exact ⟨fun ⟨hvisible, hcase⟩ => ⟨⟨utf8_pos_iff.mpr hlength.1, hlength.2, hvisible⟩, hcase⟩,
      fun ⟨hallowed, hcase⟩ => ⟨hallowed.visible, hcase⟩⟩

end Prefix

section Symbols

variable {before cs : List Char} {vs : List Symbol} {c : Char} {v : Symbol}

theorem toLower_symbolChar : ∀ v : Symbol, (symbolChar v).toLower = symbolChar v := by decide

theorem charSymbol_eq_some_iff : charSymbol c = some v ↔ c.toLower = symbolChar v := by
  constructor
  · intro h
    obtain ⟨i, hi, rfl⟩ := Option.map_eq_some_iff.mp h
    obtain ⟨hlt, hfound, _⟩ := List.findIdx?_eq_some_iff_getElem.mp hi
    have hsmall : i < 32 := hlt
    rw [symbolChar, BitVec.toNat_ofNat, Nat.mod_eq_of_lt hsmall, ← List.getElem_eq_getD 'q']
    exact (of_decide_eq_true hfound).symm
  · intro h
    have hlower : c.toLower = (symbolChar v).toLower := h.trans (toLower_symbolChar v).symm
    rw [charSymbol, hlower]
    exact charSymbol_symbolChar v

theorem visible_of_toLower (h : Visible c.toLower) : Visible c := by
  cases hc : c.isUpper with
  | false => rwa [toLower_eq_self hc] at h
  | true =>
    rw [isUpper_iff] at hc
    exact ⟨by omega, by omega⟩

theorem readSymbols_eq_ok_iff (h : OneCase before) :
    readSymbols (.of before) cs = .ok vs ↔
      OneCase (before ++ cs) ∧ cs.map Char.toLower = vs.map symbolChar := by
  induction cs generalizing before vs with
  | nil =>
    rw [readSymbols, List.append_nil, List.map_nil]
    constructor
    · intro hnil
      cases hnil
      exact ⟨h, rfl⟩
    · rintro ⟨_, hnil⟩
      rw [List.map_eq_nil_iff.mp hnil.symm]
  | cons c cs ih =>
    have hsplit : before ++ c :: cs = before ++ [c] ++ cs := by simp
    rw [readSymbols, hsplit]
    constructor
    · intro hread
      split at hread
      · cases hread
      obtain ⟨met, hmet, hread⟩ := bind_eq_ok.mp hread
      obtain ⟨hone, rfl⟩ := (meet_of h).mp hmet
      split at hread
      · cases hread
      rename_i v hv
      obtain ⟨rest, hrest, hread⟩ := bind_eq_ok.mp hread
      cases hread
      obtain ⟨hall, hmap⟩ := (ih hone).mp hrest
      rw [List.map_cons, List.map_cons, charSymbol_eq_some_iff.mp hv, hmap]
      exact ⟨hall, rfl⟩
    · rintro ⟨hall, hmap⟩
      obtain ⟨v, vs, rfl, hv, hrest⟩ := List.map_eq_cons_iff.mp hmap.symm
      have hone := hall.of_append
      have hvisible : Visible c := visible_of_toLower (hv ▸ visible_symbolChar v)
      have hascii : ¬ 128 ≤ c.toNat := Nat.not_le.mpr (hvisible.2.trans_lt (by decide))
      rw [if_neg hascii]
      refine bind_eq_ok.mpr ⟨_, (meet_of h).mpr ⟨hone, rfl⟩, ?_⟩
      rw [charSymbol_eq_some_iff.mpr hv.symm]
      exact bind_eq_ok.mpr ⟨vs, (ih hone).mpr ⟨hall, hrest.symm⟩, rfl⟩

end Symbols

theorem splitLast_eq_some_iff {text before behind : List Char} :
    splitLast text = some (before, behind) ↔
      text = before ++ '1' :: behind ∧ ∀ c ∈ behind, c ≠ '1' := by
  constructor
  · intro h
    have hwhole := List.takeWhile_append_dropWhile (p := (· ≠ '1')) (l := text.reverse)
    unfold splitLast at h
    dsimp only at h
    split at h
    · cases h
    · rename_i c rest hdrop
      cases h
      have hhead := List.head_dropWhile_not (· ≠ '1') (l := text.reverse)
      simp only [hdrop] at hhead
      have hc : c = '1' := not_not.mp (of_decide_eq_false (hhead (List.cons_ne_nil _ _)))
      rw [hdrop, hc] at hwhole
      refine ⟨?_, fun c hc => ?_⟩
      · calc text
            = text.reverse.reverse := (List.reverse_reverse text).symm
          _ = (text.reverse.takeWhile (· ≠ '1') ++ '1' :: rest).reverse := by rw [hwhole]
          _ = _ := by simp
      · have hne := List.mem_takeWhile_imp (List.mem_reverse.mp hc)
        exact of_decide_eq_true hne
  · rintro ⟨rfl, hbehind⟩
    exact splitLast_append hbehind

section Texts

variable {text hrp before behind : List Char} {data : List Symbol} {variant : Variant}

theorem visible_toLower {c : Char} (h : Visible c) : Visible c.toLower := by
  unfold Visible at h ⊢
  cases hc : c.isUpper with
  | false => rwa [toLower_eq_self hc]
  | true =>
    rw [toNat_toLower hc]
    rw [isUpper_iff] at hc
    omega

theorem allowed_iff :
    Allowed hrp ↔ hrp ≠ [] ∧ hrp.length ≤ maxPrefixLength ∧ ∀ c ∈ hrp, Visible c := by
  have hlength : (∀ c ∈ hrp, Visible c) → (Hex.utf8 hrp).length = hrp.length := fun h => by
    rw [Hex.utf8_of_ascii (ascii_of_visible h), List.length_map]
  constructor
  · rintro ⟨hpos, hle, hbytes⟩
    have hvisible := forall_mem_utf8_iff.mp hbytes
    exact ⟨utf8_pos_iff.mp hpos, hlength hvisible ▸ hle, hvisible⟩
  · rintro ⟨hne, hle, hvisible⟩
    exact ⟨utf8_pos_iff.mpr hne, (hlength hvisible).trans_le hle, forall_mem_utf8_iff.mpr hvisible⟩

theorem allowed_map_toLower : Allowed (hrp.map Char.toLower) ↔ Allowed hrp := by
  have hvisible : (∀ c ∈ hrp.map Char.toLower, Visible c) ↔ ∀ c ∈ hrp, Visible c := by
    rw [List.forall_mem_map]
    exact ⟨fun h c hc => visible_of_toLower (h c hc), fun h c hc => visible_toLower (h c hc)⟩
  rw [allowed_iff, allowed_iff, List.length_map, hvisible, ne_eq, List.map_eq_nil_iff]

theorem oneCase_map_toLower (text : List Char) : OneCase (text.map Char.toLower) :=
  .of_lower (List.forall_mem_map.mpr fun c _ => isUpper_toLower c)

theorem oneCase_separator : OneCase (before ++ '1' :: behind) ↔ OneCase (before ++ behind) := by
  have hlow : '1'.isLower = false := rfl
  have hup : '1'.isUpper = false := rfl
  unfold OneCase
  rw [List.any_append, List.any_append, List.any_append, List.any_append, List.any_cons,
    List.any_cons, hlow, hup, Bool.false_or, Bool.false_or]

theorem encode_eq_ok_iff :
    encode variant hrp data = .ok text ↔
      Allowed hrp ∧ OneCase hrp ∧
        text = hrp ++ '1' :: (data ++ checksum variant hrp data).map symbolChar := by
  unfold encode
  rw [bind_eq_ok]
  constructor
  · rintro ⟨seen, hprefix, h⟩
    cases h
    obtain ⟨hallowed, hone, _⟩ := checkPrefix_eq_ok_iff.mp hprefix
    exact ⟨hallowed, hone, rfl⟩
  · rintro ⟨hallowed, hone, rfl⟩
    exact ⟨_, checkPrefix_eq_ok_iff.mpr ⟨hallowed, hone, rfl⟩, rfl⟩

theorem decode_eq_ok_iff_exists :
    decode text = .ok (hrp, data, variant) ↔
      ∃ before behind symbols, text = before ++ '1' :: behind ∧ (∀ c ∈ behind, c ≠ '1') ∧
        Allowed before ∧ OneCase (before ++ behind) ∧ hrp = before.map Char.toLower ∧
        behind.map Char.toLower = symbols.map symbolChar ∧ checksumLength ≤ symbols.length ∧
        verify hrp symbols = some variant ∧
        data = symbols.take (symbols.length - checksumLength) := by
  unfold decode
  constructor
  · intro h
    split at h
    swap
    · cases h
    rename_i before behind hsplit
    obtain ⟨rfl, hbehind⟩ := splitLast_eq_some_iff.mp hsplit
    obtain ⟨seen, hprefix, h⟩ := bind_eq_ok.mp h
    obtain ⟨hallowed, hone, rfl⟩ := checkPrefix_eq_ok_iff.mp hprefix
    obtain ⟨symbols, hsymbols, h⟩ := bind_eq_ok.mp h
    obtain ⟨hone, hmap⟩ := (readSymbols_eq_ok_iff hone).mp hsymbols
    obtain ⟨hlength, h⟩ := of_guard h
    split at h
    swap
    · cases h
    rename_i hverify
    cases h
    exact ⟨before, behind, symbols, rfl, hbehind, hallowed, hone, rfl, hmap, Nat.not_lt.mp hlength,
      hverify, rfl⟩
  · rintro ⟨before, behind, symbols, rfl, hbehind, hallowed, hone, rfl, hmap, hlength, hverify, rfl⟩
    rw [splitLast_append hbehind]
    refine bind_eq_ok.mpr ⟨_, checkPrefix_eq_ok_iff.mpr ⟨hallowed, hone.of_append, rfl⟩, ?_⟩
    refine bind_eq_ok.mpr ⟨symbols, (readSymbols_eq_ok_iff hone.of_append).mpr ⟨hone, hmap⟩, ?_⟩
    dsimp only
    rw [if_neg (Nat.not_lt.mpr hlength), hverify]
    rfl

/-- A text can be read if it is of one case, and written in lower case; it carries what that text
is written of. -/
theorem decode_eq_ok_iff :
    decode text = .ok (hrp, data, variant) ↔
      OneCase text ∧ encode variant hrp data = .ok (text.map Char.toLower) := by
  rw [decode_eq_ok_iff_exists, encode_eq_ok_iff]
  constructor
  · rintro ⟨before, behind, symbols, rfl, -, hallowed, hone, rfl, hmap, hlength, hverify, rfl⟩
    generalize hcut : symbols.length - checksumLength = cut at *
    have hsix : (symbols.drop cut).length = 6 := by
      rw [List.length_drop]
      unfold checksumLength at hlength hcut
      omega
    rw [← List.take_append_drop cut symbols, verify_append_iff hsix] at hverify
    refine ⟨oneCase_separator.mpr hone, allowed_map_toLower.mpr hallowed, oneCase_map_toLower _, ?_⟩
    rw [← hverify, List.take_append_drop, ← hmap, List.map_append, List.map_cons]
    rfl
  · rintro ⟨hone, hallowed, -, htext⟩
    obtain ⟨before, rest, rfl, rfl, hrest⟩ := List.map_eq_append_iff.mp htext
    obtain ⟨c, behind, rfl, hc, hmap⟩ := List.map_eq_cons_iff.mp hrest
    obtain rfl := eq_of_toLower_eq rfl hc
    have hbehind : ∀ c ∈ behind, c ≠ '1' := by
      rintro c hc rfl
      have hmem : '1'.toLower ∈ behind.map Char.toLower := List.mem_map_of_mem hc
      rw [hmap] at hmem
      obtain ⟨v, _, hv⟩ := List.mem_map.mp hmem
      exact symbolChar_ne_separator v hv
    have hlength := length_checksum variant (before.map Char.toLower) data
    refine ⟨before, behind, _, rfl, hbehind, allowed_map_toLower.mp hallowed,
      oneCase_separator.mp hone, rfl, hmap, ?_, (verify_append_iff hlength).mpr rfl, ?_⟩
    · rw [List.length_append, hlength]
      exact Nat.le_add_left _ _
    · rw [List.length_append, hlength]
      exact (List.take_left' (Nat.add_sub_cancel _ _).symm).symm

end Texts

/-- The bits of symbols that are too few for one more byte. -/
def spare (symbols : List Symbol) : List Bool :=
  let bits := symbols.flatMap fun v => Bits.ofNat 5 v.toNat
  bits.drop (bits.length / 8 * 8)

section Padding

variable {symbols : List Symbol} {key : Bytes}

theorem isSome_toBytes? :
    (toBytes? symbols).isSome ↔
      (spare symbols).length < 5 ∧ ∀ bit ∈ spare symbols, bit = false := by
  unfold toBytes? spare
  dsimp only
  split_ifs with h
  · simpa using h
  · simpa using h

theorem padTo_take_eq {bits : List Bool} {whole : Nat} (hd : 5 ∣ bits.length)
    (hle : whole ≤ bits.length) (hspare : (bits.drop whole).length < 5)
    (hzero : ∀ bit ∈ bits.drop whole, bit = false) :
    Bits.padTo 5 (bits.take whole) = bits := by
  have hrest : bits.drop whole = List.replicate (bits.drop whole).length false :=
    List.eq_replicate_iff.mpr ⟨rfl, hzero⟩
  rw [List.length_drop] at hspare hrest
  have hcount : (5 - (bits.take whole).length % 5) % 5 = bits.length - whole := by
    rw [List.length_take]
    omega
  rw [Bits.padTo, hcount, ← hrest, List.take_append_drop]

theorem ofBytes_of_toBytes? (h : toBytes? symbols = some key) : ofBytes key = symbols := by
  unfold toBytes? at h
  dsimp only at h
  have hlength := length_flatMap_of_length (fun v : Symbol => Bits.length_ofNat 5 v.toNat) symbols
  have hchunks := chunksOf_flatMap (by decide) (fun v : Symbol => Bits.length_ofNat 5 v.toNat)
    symbols
  generalize symbols.flatMap (fun v => Bits.ofNat 5 v.toNat) = bits at h hlength hchunks
  generalize hwhole : bits.length / 8 * 8 = whole at h
  split at h
  swap
  · cases h
  rename_i hspare
  cases h
  have hle : whole ≤ bits.length := by omega
  have hbytes : 8 ∣ (bits.take whole).length := by
    rw [List.length_take, Nat.min_eq_left hle, ← hwhole]
    exact Nat.dvd_mul_left 8 _
  have hzero : ∀ bit ∈ bits.drop whole, bit = false := fun bit hbit =>
    of_decide_eq_true (List.all_eq_true.mp hspare.2 bit hbit)
  unfold ofBytes
  dsimp only
  rw [List.flatMap_map]
  simp only [UInt8.toNat_ofNat', Bits.ofNat_mod le_rfl]
  rw [Bits.flatMap_chunksOf (by decide) hbytes,
    padTo_take_eq (hlength ▸ Nat.dvd_mul_right 5 _) hle hspare.1 hzero, hchunks, List.map_map]
  refine (List.map_congr_left fun v _ => ?_).trans (List.map_id symbols)
  rw [Function.comp_apply, Bits.toNat_ofNat, Nat.mod_eq_of_lt v.isLt]
  exact BitVec.ofNat_toNat 5 v

theorem toBytes?_eq_some_iff : toBytes? symbols = some key ↔ symbols = ofBytes key := by
  constructor
  · exact fun h => (ofBytes_of_toBytes? h).symm
  · rintro rfl
    exact toBytes?_ofBytes key

end Padding

end Genesis.Bech32
