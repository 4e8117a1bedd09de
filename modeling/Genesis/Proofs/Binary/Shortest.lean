import Genesis.Binary.Text
import Mathlib.Data.Nat.Digits.Defs
import Mathlib.Tactic.Ring

/-! The digits of a number other than zero are never all zero. -/

namespace Genesis.Binary

variable {n d : Nat} {e : Int}

/-- `n / d` is at least ten to the power of `e`. -/
def Reaches (n d : Nat) (e : Int) : Prop :=
  if 0 ≤ e then d * tenTo e.toNat ≤ n else d ≤ n * tenTo (-e).toNat

instance (n d : Nat) (e : Int) : Decidable (Reaches n d e) :=
  inferInstanceAs (Decidable (if 0 ≤ e then d * tenTo e.toNat ≤ n else d ≤ n * tenTo (-e).toNat))

theorem firstPlace_eq (n d : Nat) :
    let guess : Int := ((Nat.toDigits 10 n).length : Int) - (Nat.toDigits 10 d).length
    firstPlace n d = if Reaches n d guess then guess else guess - 1 := rfl

theorem tenTo_succ (k : Nat) : tenTo (k + 1) = tenTo k * 10 := rfl

theorem tenTo_add (j k : Nat) : tenTo (j + k) = tenTo j * tenTo k := Nat.pow_add ..

theorem Reaches.pred (h : Reaches n d e) : Reaches n d (e - 1) := by
  unfold Reaches at h ⊢
  by_cases hpos : 0 < e
  · obtain ⟨k, hk⟩ : ∃ k : Nat, e = k + 1 := ⟨e.toNat - 1, by omega⟩
    subst hk
    rw [if_pos (by omega), show ((k : Int) + 1).toNat = k + 1 by omega, tenTo_succ,
      ← Nat.mul_assoc] at h
    rw [if_pos (by omega), show ((k : Int) + 1 - 1).toNat = k by omega]
    exact (Nat.le_mul_of_pos_right _ (by decide)).trans h
  · obtain ⟨k, hk⟩ : ∃ k : Nat, e = -(k : Int) := ⟨(-e).toNat, by omega⟩
    subst hk
    rw [if_neg (by omega), show (-(-(k : Int) - 1)).toNat = k + 1 by omega, tenTo_succ,
      ← Nat.mul_assoc]
    have hk : d ≤ n * tenTo k := by
      split at h
      · obtain rfl : k = 0 := by omega
        simpa [tenTo] using h
      · simpa using h
    exact hk.trans (Nat.le_mul_of_pos_right _ (by decide))

theorem decimalBelow_pos (hd : 0 < d) (h : Reaches n d e) : 0 < (decimalBelow n d e).1 := by
  unfold Reaches at h
  unfold decimalBelow
  split at h
  · rename_i he
    simp only [he, if_true]
    exact Nat.div_pos h (Nat.mul_pos hd (Nat.pow_pos (by decide)))
  · rename_i he
    simp only [he, if_false]
    exact Nat.div_pos h hd

theorem lt_tenTo_length (n : Nat) : n < tenTo (Nat.toDigits 10 n).length :=
  (Nat.length_toDigits_le_iff (by decide) Nat.length_toDigits_pos).mp le_rfl

theorem tenTo_length_le {k : Nat} (hn : 0 < n) (hk : (Nat.toDigits 10 n).length = k + 1) :
    tenTo k ≤ n := by
  rcases Nat.eq_zero_or_pos k with rfl | hpos
  · exact hn
  · refine Nat.not_lt.mp fun hlt => ?_
    have hle := (Nat.length_toDigits_le_iff (b := 10) (by decide) hpos).mpr hlt
    omega

theorem reaches_firstPlace (hn : 0 < n) (d : Nat) : Reaches n d (firstPlace n d) := by
  rw [firstPlace_eq]
  split
  · assumption
  · obtain ⟨j, hj⟩ : ∃ j, (Nat.toDigits 10 n).length = j + 1 :=
      Nat.exists_eq_succ_of_ne_zero (Nat.length_toDigits_pos).ne'
    have hlow := tenTo_length_le hn hj
    have hhigh := lt_tenTo_length d
    rw [hj]
    -- from here on only the lengths count: n is at least ten to the j, d less than ten to the k
    generalize (Nat.toDigits 10 d).length = k at hhigh ⊢
    unfold Reaches
    split
    · rename_i hle
      obtain ⟨i, rfl⟩ : ∃ i, j = k + i := ⟨j - k, by omega⟩
      rw [show (((k + i + 1 : Nat) : Int) - k - 1).toNat = i by omega]
      rw [tenTo_add] at hlow
      exact (Nat.mul_le_mul_right _ hhigh.le).trans hlow
    · rename_i hlt
      obtain ⟨i, rfl⟩ : ∃ i, k = j + i := ⟨k - j, by omega⟩
      rw [show (-(((j + 1 : Nat) : Int) - ((j + i : Nat) : Int) - 1)).toNat = i by omega]
      rw [tenTo_add] at hhigh
      exact hhigh.le.trans (Nat.mul_le_mul_right _ hlow)

theorem search_pos (f : Format) (m : Nat) (e' : Int) (hd : 0 < d) (fuel : Nat)
    (h : Reaches n d e) : 0 < (shortest.search f m e' n d fuel e).1 := by
  induction fuel generalizing e with
  | zero => exact decimalBelow_pos hd h
  | succ fuel ih =>
    rw [shortest.search]
    dsimp only
    split_ifs
    · exact decimalBelow_pos hd h
    · exact Nat.succ_pos _
    · exact ih h.pred

theorem scale_pos {m : Nat} (hm : 0 < m) (e : Int) : 0 < (scale m 1 e).1 ∧ 0 < (scale m 1 e).2 := by
  unfold scale
  split
  · refine ⟨?_, Nat.one_pos⟩
    rw [Nat.shiftLeft_eq]
    exact Nat.mul_pos hm (Nat.pow_pos (by decide))
  · refine ⟨hm, ?_⟩
    rw [Nat.shiftLeft_eq, Nat.one_mul]
    exact Nat.pow_pos (by decide)

theorem shortest_pos (f : Format) {m : Nat} (hm : 0 < m) (e : Int) : 0 < (shortest f m e).1 := by
  obtain ⟨hn, hd⟩ := scale_pos hm e
  exact search_pos f m e hd f.precision (reaches_firstPlace hn _)

theorem dropZeros_pos (fuel : Nat) {n : Nat} (hn : 0 < n) (e : Int) :
    0 < (dropZeros fuel n e).1 := by
  induction fuel generalizing n e with
  | zero => exact hn
  | succ fuel ih =>
    rw [dropZeros]
    split
    · exact ih (by omega) (e + 1)
    · exact hn

end Genesis.Binary
