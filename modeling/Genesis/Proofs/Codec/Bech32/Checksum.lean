import Genesis.Codec.Bech32.Checksum
import Genesis.Proofs.Codec.Bits

/-!
Behind a prefix and data there is one checksum for each variant: reading six symbols moves the
remainder by those symbols side by side, and no two sixes are the same number.
-/

namespace Genesis.Bech32

def shiftIn (x : Remainder) (v : Symbol) : Remainder := (x <<< 5) ^^^ v.zeroExtend 30

def pack (symbols : List Symbol) : Remainder := symbols.foldl shiftIn 0

theorem two_pow_mul_xor {width a b : Nat} (h : b < 2 ^ width) :
    2 ^ width * a ^^^ b = 2 ^ width * a + b := by
  apply Nat.eq_of_testBit_eq
  intro i
  rw [Nat.testBit_xor, Nat.testBit_two_pow_mul, Nat.testBit_two_pow_mul_add a h]
  by_cases hi : i < width
  · simp [hi, Nat.not_le.mpr hi]
  · have hle : width ≤ i := Nat.le_of_not_lt hi
    have hb : b < 2 ^ i := h.trans_le (Nat.pow_le_pow_right (by decide) hle)
    simp [hi, hle, Nat.testBit_lt_two_pow hb]

section ShiftIn

variable {r x x' : Remainder} {v v' : Symbol} {k : Nat}

theorem toNat_shiftIn (x : Remainder) (v : Symbol) :
    (shiftIn x v).toNat = 2 ^ 5 * (x.toNat % 2 ^ 25) + v.toNat := by
  have hv : v.toNat < 2 ^ 5 := v.isLt
  have hx : x.toNat <<< 5 % 2 ^ 30 = 2 ^ 5 * (x.toNat % 2 ^ 25) := by
    rw [Nat.shiftLeft_eq]
    omega
  have hsmall : v.toNat % 2 ^ 30 = v.toNat := Nat.mod_eq_of_lt (by omega)
  unfold shiftIn
  rw [BitVec.toNat_xor, BitVec.toNat_shiftLeft, BitVec.toNat_setWidth, hx, hsmall,
    two_pow_mul_xor hv]

theorem toNat_shiftIn_lt (h : x.toNat < 2 ^ (5 * k)) (v : Symbol) :
    (shiftIn x v).toNat < 2 ^ (5 * (k + 1)) := by
  have hv : v.toNat < 2 ^ 5 := v.isLt
  have hle : x.toNat % 2 ^ 25 ≤ x.toNat := Nat.mod_le _ _
  rw [toNat_shiftIn, Nat.mul_succ, Nat.pow_add]
  omega

theorem lt_of_le_five (h : x.toNat < 2 ^ (5 * k)) (hk : k ≤ 5) : x.toNat < 2 ^ 25 :=
  h.trans_le (Nat.pow_le_pow_right (by decide) (Nat.mul_le_mul_left 5 hk))

theorem shiftIn_inj (hx : x.toNat < 2 ^ 25) (hx' : x'.toNat < 2 ^ 25)
    (h : shiftIn x v = shiftIn x' v') : x = x' ∧ v = v' := by
  have hv : v.toNat < 2 ^ 5 := v.isLt
  have hv' : v'.toNat < 2 ^ 5 := v'.isLt
  have hnat := congrArg BitVec.toNat h
  rw [toNat_shiftIn, toNat_shiftIn, Nat.mod_eq_of_lt hx, Nat.mod_eq_of_lt hx'] at hnat
  exact ⟨BitVec.eq_of_toNat_eq (by omega), BitVec.eq_of_toNat_eq (by omega)⟩

theorem shiftIn_shiftRight (r : Remainder) : shiftIn (r >>> 5) (r.truncate 5) = r := by
  have hr : r.toNat < 2 ^ 30 := r.isLt
  apply BitVec.eq_of_toNat_eq
  rw [toNat_shiftIn, BitVec.toNat_ushiftRight, BitVec.toNat_setWidth, Nat.shiftRight_eq_div_pow]
  omega

theorem shiftIn_xor (r x : Remainder) (v : Symbol) :
    shiftIn (r ^^^ x) v = shiftIn r 0 ^^^ shiftIn x v := by
  unfold shiftIn
  rw [BitVec.shiftLeft_xor_distrib]
  simp [BitVec.xor_assoc]

end ShiftIn

section Absorb

variable {r x x' : Remainder}

theorem shiftRight_xor (h : x.toNat < 2 ^ 25) : (r ^^^ x) >>> 25 = r >>> 25 := by
  have hx : x >>> 25 = 0#30 := by
    apply BitVec.eq_of_toNat_eq
    rw [BitVec.toNat_ushiftRight, Nat.shiftRight_eq_div_pow, Nat.div_eq_of_lt h]
    rfl
  rw [BitVec.ushiftRight_xor_distrib, hx, BitVec.xor_zero]

/-- What does not reach the highest symbol is only moved along. -/
theorem absorb_xor (h : x.toNat < 2 ^ 25) (v : Symbol) :
    absorb (r ^^^ x) v = absorb r 0 ^^^ shiftIn x v := by
  have habsorb : ∀ r v, absorb r v = shiftIn r v ^^^ carried ((r >>> 25).truncate 5) :=
    fun _ _ => rfl
  rw [habsorb, habsorb, shiftRight_xor h, shiftIn_xor, BitVec.xor_assoc, BitVec.xor_assoc,
    BitVec.xor_comm (shiftIn x v)]

theorem foldl_absorb_xor {k : Nat} {vs : List Symbol} (hk : k + vs.length ≤ 6)
    (h : x.toNat < 2 ^ (5 * k)) :
    vs.foldl absorb (r ^^^ x) =
      (List.replicate vs.length 0).foldl absorb r ^^^ vs.foldl shiftIn x := by
  induction vs generalizing k r x with
  | nil => rfl
  | cons v vs ih =>
    rw [List.length_cons] at hk
    rw [List.foldl_cons, absorb_xor (lt_of_le_five h (by omega)),
      ih (k := k + 1) (by omega) (toNat_shiftIn_lt h v), List.length_cons, List.replicate_succ,
      List.foldl_cons, List.foldl_cons]

theorem foldl_shiftIn_inj {k : Nat} {vs vs' : List Symbol} (hlength : vs.length = vs'.length)
    (hk : k + vs.length ≤ 6) (hx : x.toNat < 2 ^ (5 * k)) (hx' : x'.toNat < 2 ^ (5 * k))
    (h : vs.foldl shiftIn x = vs'.foldl shiftIn x') : x = x' ∧ vs = vs' := by
  induction vs generalizing k x x' vs' with
  | nil =>
    obtain rfl := List.length_eq_zero_iff.mp hlength.symm
    exact ⟨h, rfl⟩
  | cons v vs ih =>
    obtain ⟨v', vs', rfl⟩ := List.exists_cons_of_length_eq_add_one hlength.symm
    rw [List.length_cons] at hk
    obtain ⟨hshift, rfl⟩ := ih (k := k + 1) (Nat.succ.inj hlength) (by omega)
      (toNat_shiftIn_lt hx v) (toNat_shiftIn_lt hx' v') h
    obtain ⟨rfl, rfl⟩ := shiftIn_inj (lt_of_le_five hx (by omega)) (lt_of_le_five hx' (by omega))
      hshift
    exact ⟨rfl, rfl⟩

end Absorb

variable {before six six' data : List Symbol} {variant : Variant} {hrp : List Char}

theorem remainder_append (h : six.length = 6) :
    remainder (before ++ six) = remainder (before ++ List.replicate 6 0) ^^^ pack six := by
  have hzero : remainder before ^^^ 0 = remainder before := BitVec.xor_zero
  have hfold : six.foldl absorb (remainder before ^^^ 0) =
      (List.replicate six.length 0).foldl absorb (remainder before) ^^^ pack six :=
    foldl_absorb_xor (k := 0) (by omega) (by decide)
  rw [hzero, h] at hfold
  unfold remainder at *
  rw [List.foldl_append, List.foldl_append]
  exact hfold

theorem pack_inj (h : six.length = 6) (h' : six'.length = 6) (heq : pack six = pack six') :
    six = six' :=
  (foldl_shiftIn_inj (k := 0) (h.trans h'.symm) (by omega) (by decide) (by decide) heq).2

theorem pack_remainderSymbols (r : Remainder) : pack (remainderSymbols r) = r := by
  have hnone : r >>> (5 * (5 + 1)) = 0 := by
    apply BitVec.eq_of_toNat_eq
    rw [BitVec.toNat_ushiftRight, Nat.shiftRight_eq_div_pow, Nat.div_eq_of_lt r.isLt]
    rfl
  have hstep : ∀ i, shiftIn (r >>> (5 * (i + 1))) ((r >>> (5 * i)).truncate 5) = r >>> (5 * i) := by
    intro i
    rw [Nat.mul_succ, BitVec.shiftRight_add]
    exact shiftIn_shiftRight _
  calc pack (remainderSymbols r)
      = [5, 4, 3, 2, 1, 0].foldl (fun x i => shiftIn x ((r >>> (5 * i)).truncate 5)) 0 := rfl
    _ = r := by
      simp only [List.foldl_cons, List.foldl_nil]
      rw [← hnone, hstep 5, hstep 4, hstep 3, hstep 2, hstep 1, hstep 0]
      exact BitVec.ushiftRight_zero r

theorem length_checksum (variant : Variant) (hrp : List Char) (data : List Symbol) :
    (checksum variant hrp data).length = 6 := rfl

theorem remainder_checksum (variant : Variant) (hrp : List Char) (data : List Symbol) :
    remainder (expandPrefix hrp ++ data ++ checksum variant hrp data) = variant.target := by
  rw [remainder_append (length_checksum variant hrp data), checksum, pack_remainderSymbols,
    ← BitVec.xor_assoc, BitVec.xor_self, BitVec.zero_xor]

theorem verify_eq_some_iff {symbols : List Symbol} :
    verify hrp symbols = some variant ↔
      remainder (expandPrefix hrp ++ symbols) = variant.target := by
  have hne : Variant.bech32.target ≠ Variant.bech32m.target := by decide
  unfold verify
  dsimp only
  cases variant with
  | bech32 => split_ifs <;> simp_all
  | bech32m => split_ifs <;> simp_all

/-- The checksum is the only one of its variant. -/
theorem verify_append_iff (h : six.length = 6) :
    verify hrp (data ++ six) = some variant ↔ six = checksum variant hrp data := by
  rw [verify_eq_some_iff, ← List.append_assoc]
  constructor
  · intro hsix
    have hsum := remainder_checksum variant hrp data
    rw [remainder_append (length_checksum variant hrp data)] at hsum
    rw [remainder_append h, ← hsum] at hsix
    exact pack_inj h rfl ((BitVec.xor_right_inj _).mp hsix)
  · rintro rfl
    exact remainder_checksum variant hrp data

end Genesis.Bech32
