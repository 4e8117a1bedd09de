import Genesis.Amount
import Mathlib.Data.Nat.Digits.Defs

/-! Decimal texts: their digits, and that amounts are read back from them. -/

namespace Genesis.Amount

variable {n : Nat} {c : Char}

theorem isDigit_of_mem_digits (h : c ∈ digits n) : c.isDigit = true :=
  Nat.isDigit_of_mem_toDigits (by decide) (by decide) h

theorem digits_ne_nil : digits n ≠ [] := Nat.toDigits_ne_nil

theorem head_digits_ne_zero (hn : 0 < n) : (digits n).head? ≠ some '0' := by
  induction n using Nat.strong_induction_on with
  | _ n ih =>
    unfold digits at ih ⊢
    rw [Nat.toDigits_eq_if (by decide)]
    split
    · rename_i hlt
      have hchar : ∀ k : Fin 10, k.val ≠ 0 → k.val.digitChar ≠ '0' := by decide
      intro hzero
      exact hchar ⟨n, hlt⟩ hn.ne' (Option.some.inj hzero)
    · rename_i hge
      have hsmaller : 0 < n / 10 := Nat.div_pos (Nat.not_lt.mp hge) (by decide)
      rw [List.head?_append, Option.or_of_isSome (List.isSome_head?.mpr Nat.toDigits_ne_nil)]
      exact ih (n / 10) (Nat.div_lt_self hn (by decide)) hsmaller

theorem readDigits_digits (n : Nat) : readDigits (digits n) = some n := by
  have hdigits : ∀ c ∈ digits n, c.isDigit = true := fun c hc => isDigit_of_mem_digits hc
  have hvalue : Nat.ofDigitChars 10 (digits n) 0 = n := Nat.ofDigitChars_ten_toDigits
  obtain ⟨c, cs, hcons⟩ := List.exists_cons_of_ne_nil (digits_ne_nil (n := n))
  rw [hcons] at hdigits hvalue ⊢
  have hall : (c.isDigit && cs.all fun c => c.isDigit || c = '_') = true := by
    rw [hdigits c List.mem_cons_self, Bool.true_and, List.all_eq_true]
    intro d hd
    rw [hdigits d (List.mem_cons_of_mem c hd), Bool.true_or]
  rw [readDigits, if_pos hall, List.filter_eq_self.mpr hdigits, hvalue]

theorem readSigned_of_isDigit {cs : List Char} (h : c.isDigit = true) :
    readSigned (c :: cs) = (readDigits (c :: cs)).map Int.ofNat := by
  unfold readSigned
  split
  · rename_i hcs
    cases hcs
    exact absurd h (by decide)
  · rename_i hcs
    cases hcs
    exact absurd h (by decide)
  · rfl

theorem readSigned_render (n : Int) : readSigned (render n).toList = some n := by
  cases n with
  | ofNat n =>
    obtain ⟨c, cs, hcons⟩ := List.exists_cons_of_ne_nil (digits_ne_nil (n := n))
    have hc : c.isDigit = true := isDigit_of_mem_digits (hcons ▸ List.mem_cons_self)
    have hread := readDigits_digits n
    rw [render, String.toList_ofList, hcons, readSigned_of_isDigit hc, ← hcons, hread]
    rfl
  | negSucc n =>
    rw [render, String.toList_ofList, readSigned, readDigits_digits]
    rfl

theorem parse?_render (n : Int) : parse? (render n) = some n := readSigned_render n

end Genesis.Amount
