import Genesis.Codec.Hex
import Genesis.Proofs.Steps
import Genesis.Proofs.Text.Ascii

/-! Byte strings are read back from their digits, and from no other text but for the case. -/

namespace Genesis.Hex

theorem utf8_digit : ∀ n : Fin 16, ∃ b, String.utf8EncodeChar (digit n) = [b] ∧
    digitValue b = some n.val := by
  intro n
  refine ⟨(String.utf8EncodeChar (digit n)).headD 0, ?_⟩
  revert n
  decide

theorem utf8_encodeByte (b : UInt8) : ∃ high low, utf8 (encodeByte b) = [high, low] ∧
    digitValue high = some (b.toNat / 16) ∧ digitValue low = some (b.toNat % 16) := by
  have hb : b.toNat < 256 := b.toNat_lt
  obtain ⟨high, hhigh, hvhigh⟩ := utf8_digit ⟨b.toNat / 16, by omega⟩
  obtain ⟨low, hlow, hvlow⟩ := utf8_digit ⟨b.toNat % 16, by omega⟩
  refine ⟨high, low, ?_, hvhigh, hvlow⟩
  simp only [utf8, encodeByte, List.flatMap_cons, List.flatMap_nil, hhigh, hlow,
    List.append_nil, List.singleton_append]

theorem decodePairs_utf8_flatMap (index : Nat) (bytes : Bytes) :
    decodePairs index (utf8 (bytes.flatMap encodeByte)) = .ok bytes := by
  induction bytes generalizing index with
  | nil => rfl
  | cons b bytes ih =>
    obtain ⟨high, low, hutf8, hhigh, hlow⟩ := utf8_encodeByte b
    have hsplit : utf8 ((b :: bytes).flatMap encodeByte) =
        high :: low :: utf8 (bytes.flatMap encodeByte) := by
      unfold utf8 at hutf8 ⊢
      rw [List.flatMap_cons, List.flatMap_append, hutf8]
      rfl
    have hbyte : UInt8.ofNat (16 * (b.toNat / 16) + b.toNat % 16) = b := by
      rw [Nat.div_add_mod, UInt8.ofNat_toNat]
    rw [hsplit, decodePairs, hhigh, hlow]
    simp only [ih, bind, Except.bind, pure, Except.pure, hbyte]

theorem length_utf8_flatMap (bytes : Bytes) :
    (utf8 (bytes.flatMap encodeByte)).length = 2 * bytes.length := by
  induction bytes with
  | nil => rfl
  | cons b bytes ih =>
    obtain ⟨high, low, hutf8, _⟩ := utf8_encodeByte b
    unfold utf8 at hutf8 ih ⊢
    rw [List.flatMap_cons, List.flatMap_append, hutf8, List.length_append, ih]
    simp only [List.length_cons, List.length_nil]
    omega

theorem decode_encode (bytes : Bytes) : decode (encode bytes) = .ok bytes := by
  unfold decode encode
  dsimp only
  rw [String.toList_ofList, length_utf8_flatMap, if_neg (by omega), decodePairs_utf8_flatMap]

section Reading

open Steps Text

variable {index n : Nat} {b : UInt8} {bytes key : Bytes} {c : Char} {cs : List Char}

theorem digitValue_bounds (h : digitValue b = some n) : n < 16 ∧ b.toNat < 128 := by
  unfold digitValue at h
  dsimp only at h
  split_ifs at h <;> cases h <;> omega

theorem digitValue_eq_some_iff (hc : c.toNat < 128) (n : Fin 16) :
    digitValue (UInt8.ofNat c.toNat) = some n.val ↔ c.toLower = digit n := by
  revert n
  refine ascii_forall (P := fun c => ∀ n : Fin 16,
    digitValue (UInt8.ofNat c.toNat) = some n.val ↔ c.toLower = digit n) ?_ hc
  decide +kernel

theorem lt_of_toLower_eq_digit {n : Fin 16} (h : c.toLower = digit n) : c.toNat < 128 := by
  have hdigit : ∀ n : Fin 16, (digit n).toNat < 128 := by decide
  cases hc : c.isUpper with
  | false =>
    rw [toLower_eq_self hc] at h
    rw [h]
    exact hdigit n
  | true =>
    rw [isUpper_iff] at hc
    omega

/-- A character that lowering turns into a digit is one byte, which has that digit's value. -/
theorem utf8_of_toLower_eq_digit (h : c.toLower = digit n) (hn : n < 16) :
    String.utf8EncodeChar c = [UInt8.ofNat c.toNat] ∧
      digitValue (UInt8.ofNat c.toNat) = some n := by
  have hc : c.toNat < 128 := lt_of_toLower_eq_digit (n := ⟨n, hn⟩) h
  exact ⟨utf8EncodeChar_of_lt hc, (digitValue_eq_some_iff hc ⟨n, hn⟩).mpr h⟩

theorem encodeByte_ofNat {high low : Nat} (hhigh : high < 16) (hlow : low < 16) :
    encodeByte (UInt8.ofNat (16 * high + low)) = [digit high, digit low] := by
  have hvalue : (UInt8.ofNat (16 * high + low)).toNat = 16 * high + low := by
    rw [UInt8.toNat_ofNat']
    omega
  have hdiv : (16 * high + low) / 16 = high := by omega
  have hmod : (16 * high + low) % 16 = low := by omega
  rw [encodeByte, hvalue, hdiv, hmod]

inductive Pairs : Bytes → Bytes → Prop
  | nil : Pairs [] []
  | cons {a b : UInt8} {high low : Nat} {bytes key : Bytes} (hhigh : digitValue a = some high)
      (hlow : digitValue b = some low) (rest : Pairs bytes key) :
      Pairs (a :: b :: bytes) (UInt8.ofNat (16 * high + low) :: key)

theorem decodePairs_eq_ok_iff : decodePairs index bytes = .ok key ↔ Pairs bytes key := by
  constructor
  · intro h
    fun_induction decodePairs index bytes generalizing key with
    | case1 =>
      cases h
      exact .nil
    | case2 => cases h
    | case3 => cases h
    | case4 => cases h
    | case5 index a b bytes high hhigh low hlow ih =>
      obtain ⟨rest, hrest, h⟩ := bind_eq_ok.mp h
      cases h
      exact .cons hhigh hlow (ih hrest)
  · intro h
    induction h generalizing index with
    | nil => rfl
    | cons hhigh hlow _ ih =>
      rw [decodePairs, hhigh, hlow]
      exact bind_eq_ok.mpr ⟨_, ih, rfl⟩

namespace Pairs

theorem length_eq (h : Pairs bytes key) : bytes.length = 2 * key.length := by
  induction h with
  | nil => rfl
  | cons _ _ _ ih =>
    simp only [List.length_cons]
    omega

theorem lt (h : Pairs bytes key) : ∀ b ∈ bytes, b.toNat < 128 := by
  induction h with
  | nil => exact List.forall_mem_nil _
  | cons hhigh hlow _ ih =>
    exact List.forall_mem_cons.mpr ⟨(digitValue_bounds hhigh).2,
      List.forall_mem_cons.mpr ⟨(digitValue_bounds hlow).2, ih⟩⟩

theorem lower_eq (h : Pairs (cs.map fun c => UInt8.ofNat c.toNat) key)
    (hcs : ∀ c ∈ cs, c.toNat < 128) : cs.map Char.toLower = key.flatMap encodeByte := by
  generalize hbytes : cs.map (fun c => UInt8.ofNat c.toNat) = bytes at h
  induction h generalizing cs with
  | nil => rw [List.map_eq_nil_iff.mp hbytes, List.map_nil, List.flatMap_nil]
  | @cons a b high low bytes key hhigh hlow _ ih =>
    obtain ⟨x, _, rfl, rfl, hothers⟩ := List.map_eq_cons_iff.mp hbytes
    obtain ⟨y, cs, rfl, rfl, hrest⟩ := List.map_eq_cons_iff.mp hothers
    obtain ⟨hx, hcs⟩ := List.forall_mem_cons.mp hcs
    obtain ⟨hy, hcs⟩ := List.forall_mem_cons.mp hcs
    have hhigh' := (digitValue_bounds hhigh).1
    have hlow' := (digitValue_bounds hlow).1
    have hfirst : x.toLower = digit high := (digitValue_eq_some_iff hx ⟨high, hhigh'⟩).mp hhigh
    have hsecond : y.toLower = digit low := (digitValue_eq_some_iff hy ⟨low, hlow'⟩).mp hlow
    rw [List.flatMap_cons, encodeByte_ofNat hhigh' hlow', ← hfirst, ← hsecond, ← ih hcs hrest]
    rfl

theorem of_lower (h : cs.map Char.toLower = key.flatMap encodeByte) : Pairs (utf8 cs) key := by
  induction key generalizing cs with
  | nil =>
    rw [List.map_eq_nil_iff.mp h]
    exact .nil
  | cons k key ih =>
    have hk : k.toNat < 256 := k.toNat_lt
    rw [List.flatMap_cons, encodeByte] at h
    obtain ⟨x, _, rfl, hx, hothers⟩ := List.map_eq_cons_iff.mp h
    obtain ⟨y, cs, rfl, hy, hrest⟩ := List.map_eq_cons_iff.mp hothers
    obtain ⟨hxbyte, hhigh⟩ := utf8_of_toLower_eq_digit hx (by omega)
    obtain ⟨hybyte, hlow⟩ := utf8_of_toLower_eq_digit hy (by omega)
    have hbyte : UInt8.ofNat (16 * (k.toNat / 16) + k.toNat % 16) = k := by
      rw [Nat.div_add_mod, UInt8.ofNat_toNat]
    have hpairs := Pairs.cons hhigh hlow (ih hrest)
    rw [hbyte] at hpairs
    unfold utf8 at hpairs ⊢
    rw [List.flatMap_cons, List.flatMap_cons, hxbyte, hybyte]
    exact hpairs

end Pairs

theorem utf8_of_ascii (hcs : ∀ c ∈ cs, c.toNat < 128) :
    utf8 cs = cs.map fun c => UInt8.ofNat c.toNat := by
  induction cs with
  | nil => rfl
  | cons c cs ih =>
    obtain ⟨hc, hcs⟩ := List.forall_mem_cons.mp hcs
    have hrest := ih hcs
    unfold utf8 at hrest ⊢
    rw [List.flatMap_cons, utf8EncodeChar_of_lt hc, hrest]
    rfl

theorem ascii_of_utf8 (h : ∀ b ∈ utf8 cs, b.toNat < 128) : ∀ c ∈ cs, c.toNat < 128 := by
  intro c hc
  by_contra hlt
  obtain ⟨b, hb⟩ := List.exists_mem_of_ne_nil _ (String.utf8EncodeChar_ne_nil (c := c))
  have hge := le_of_mem_utf8EncodeChar (Nat.not_lt.mp hlt) b hb
  exact absurd (h b (List.mem_flatMap.mpr ⟨c, hc, hb⟩)) (Nat.not_lt.mpr hge)

theorem decode_eq_ok_iff {text : String} :
    decode text = .ok key ↔ lowerAscii text = encode key := by
  rw [lowerAscii, encode, String.ofList_inj]
  unfold decode
  dsimp only
  constructor
  · intro h
    split at h
    · cases h
    rw [decodePairs_eq_ok_iff] at h
    have hascii := ascii_of_utf8 h.lt
    rw [utf8_of_ascii hascii] at h
    exact h.lower_eq hascii
  · intro h
    have hpairs := Pairs.of_lower h
    rw [if_neg, decodePairs_eq_ok_iff]
    · exact hpairs
    · rw [hpairs.length_eq]
      omega

end Reading

end Genesis.Hex
