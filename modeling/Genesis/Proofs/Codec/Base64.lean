import Genesis.Codec.Base64

/-! Byte strings are read back from their text in base 64. -/

namespace Genesis.Base64

variable {a b c : UInt8}

theorem digitValue_digit : ∀ n : Fin 64, digitValue (digit n) = some n.val := by decide

theorem digit_mem_alphabet (n : Nat) : digit n ∈ alphabet := by
  unfold digit
  rw [List.getD_eq_getElem?_getD]
  rcases h : alphabet[n]? with _ | c
  · decide
  · exact List.mem_of_getElem? h

theorem digit_ne_padding (n : Nat) : digit n ≠ '=' := by
  have hpadding : '=' ∉ alphabet := by decide
  exact fun heq => hpadding (heq ▸ digit_mem_alphabet n)

theorem digitValue_digit_of_lt {n : Nat} (h : n < 64) : digitValue (digit n) = some n :=
  digitValue_digit ⟨n, h⟩

section Groups

variable {a b c : UInt8}

theorem firstByte_eq {n : Nat} (h : n < 16) :
    firstByte (a.toNat / 4) (a.toNat % 4 * 16 + n) = a := by
  have hvalue : a.toNat / 4 * 4 + (a.toNat % 4 * 16 + n) / 16 = a.toNat := by omega
  rw [firstByte, hvalue, UInt8.ofNat_toNat]

theorem secondByte_eq {n : Nat} (h : n < 4) :
    secondByte (a.toNat % 4 * 16 + b.toNat / 16) (b.toNat % 16 * 4 + n) = b := by
  have hb : b.toNat < 256 := b.toNat_lt
  have hvalue : (a.toNat % 4 * 16 + b.toNat / 16) % 16 * 16 + (b.toNat % 16 * 4 + n) / 4 =
      b.toNat := by omega
  rw [secondByte, hvalue, UInt8.ofNat_toNat]

theorem thirdByte_eq : thirdByte (b.toNat % 16 * 4 + c.toNat / 64) (c.toNat % 64) = c := by
  have hc : c.toNat < 256 := c.toNat_lt
  have hvalue : (b.toNat % 16 * 4 + c.toNat / 64) % 4 * 64 + c.toNat % 64 = c.toNat := by omega
  rw [thirdByte, hvalue, UInt8.ofNat_toNat]

end Groups

theorem decode_group {p q r s : Nat} (hp : p < 64) (hq : q < 64) (hr : r < 64) (hs : s < 64)
    (rest : List Char) :
    decode (digit p :: digit q :: digit r :: digit s :: rest) = (decode rest).map fun bytes =>
      firstByte p q :: secondByte q r :: thirdByte r s :: bytes := by
  rw [decode.eq_4 _ _ _ _ _ (fun _ h _ => digit_ne_padding s h)
    (fun h _ => digit_ne_padding s h)]
  simp only [digitValue_digit_of_lt hp, digitValue_digit_of_lt hq, digitValue_digit_of_lt hr,
    digitValue_digit_of_lt hs]
  cases decode rest <;> rfl

theorem decode_encode (bytes : Bytes) : decode (encode bytes) = some bytes := by
  -- three bytes at a time; the group that ends early is padded
  induction bytes using encode.induct with
  | case1 => rfl
  | case2 a =>
    have ha : a.toNat < 256 := a.toNat_lt
    have hfirst : firstByte (a.toNat / 4) (a.toNat % 4 * 16) = a :=
      firstByte_eq (n := 0) (by decide)
    rw [encode, decode.eq_2, digitValue_digit_of_lt (by omega), digitValue_digit_of_lt (by omega)]
    simp [hfirst]
  | case3 a b =>
    have ha : a.toNat < 256 := a.toNat_lt
    have hb : b.toNat < 256 := b.toNat_lt
    have hfirst : firstByte (a.toNat / 4) (a.toNat % 4 * 16 + b.toNat / 16) = a :=
      firstByte_eq (by omega)
    have hsecond : secondByte (a.toNat % 4 * 16 + b.toNat / 16) (b.toNat % 16 * 4) = b :=
      secondByte_eq (n := 0) (by decide)
    rw [encode, decode.eq_3 _ _ _ (digit_ne_padding _), digitValue_digit_of_lt (by omega),
      digitValue_digit_of_lt (by omega), digitValue_digit_of_lt (by omega)]
    simp [hfirst, hsecond]
  | case4 a b c rest ih =>
    have ha : a.toNat < 256 := a.toNat_lt
    have hb : b.toNat < 256 := b.toNat_lt
    have hc : c.toNat < 256 := c.toNat_lt
    rw [encode, decode_group (by omega) (by omega) (by omega) (by omega), ih, Option.map_some,
      firstByte_eq (by omega), secondByte_eq (by omega), thirdByte_eq]

theorem forall_mem_encode (bytes : Bytes) : ∀ c ∈ encode bytes, c ∈ alphabet ∨ c = '=' := by
  induction bytes using encode.induct with
  | case1 => exact List.forall_mem_nil _
  | case2 a => simp [encode, digit_mem_alphabet]
  | case3 a b => simp [encode, digit_mem_alphabet]
  | case4 a b c rest ih =>
    simp only [encode, List.forall_mem_cons, digit_mem_alphabet, true_or, true_and]
    exact ih

end Genesis.Base64
