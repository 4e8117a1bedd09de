import Genesis.Text.LowerCase
import Mathlib.Tactic.SplitIfs

/-!
ASCII: the case of its letters, none of which is a capital in a lowered text, and its characters as
bytes.
-/

namespace Genesis.Text

variable {c d : Char}

theorem isUpper_iff : c.isUpper = true ↔ 65 ≤ c.toNat ∧ c.toNat ≤ 90 := decide_eq_true_iff

theorem isLower_iff : c.isLower = true ↔ 97 ≤ c.toNat ∧ c.toNat ≤ 122 :=
  (Bool.and_eq_true_iff).trans (and_congr decide_eq_true_iff decide_eq_true_iff)

theorem not_isUpper_of_isLower (h : c.isLower = true) : c.isUpper = false := by
  rw [← Bool.not_eq_true, isUpper_iff]
  rw [isLower_iff] at h
  omega

/-- A property of ASCII, decided value by value. -/
theorem ascii_forall {P : Char → Prop} (h : ∀ n : Fin 128, P (Char.ofNat n)) (hc : c.toNat < 128) :
    P c := by
  have hP := h ⟨c.toNat, hc⟩
  rwa [Char.ofNat_toNat] at hP

theorem toLower_eq_self (h : c.isUpper = false) : c.toLower = c := by
  exact dif_neg (of_decide_eq_false h)

theorem toNat_toLower (h : c.isUpper = true) : c.toLower.toNat = c.toNat + 32 := by
  have hc := isUpper_iff.mp h
  refine ascii_forall (P := fun c => c.isUpper = true → c.toLower.toNat = c.toNat + 32) ?_ ?_ h
  · decide
  · omega

theorem isUpper_toLower (c : Char) : c.toLower.isUpper = false := by
  cases h : c.isUpper with
  | false => rwa [toLower_eq_self h]
  | true =>
    rw [← Bool.not_eq_true, isUpper_iff, toNat_toLower h]
    rw [isUpper_iff] at h
    omega

theorem eq_of_toLower_eq (hd : d.isLower = false) (h : c.toLower = d) : c = d := by
  cases hc : c.isUpper with
  | false => rwa [toLower_eq_self hc] at h
  | true =>
    rw [← Bool.not_eq_true, isLower_iff, ← h, toNat_toLower hc] at hd
    rw [isUpper_iff] at hc
    omega

section Bytes

theorem utf8EncodeChar_of_lt (h : c.toNat < 128) :
    String.utf8EncodeChar c = [UInt8.ofNat c.toNat] :=
  if_pos (Nat.le_of_lt_succ h)

theorem le_of_mem_utf8EncodeChar (h : 128 ≤ c.toNat) :
    ∀ b ∈ String.utf8EncodeChar c, 128 ≤ b.toNat := by
  have hc : ¬ c.val.toNat ≤ 127 := Nat.not_le.mpr h
  have hbyte : ∀ n, 128 ≤ n % 256 → 128 ≤ (UInt8.ofNat n).toNat := fun n hn => by
    rwa [UInt8.toNat_ofNat']
  intro b hb
  simp only [String.utf8EncodeChar, if_neg hc] at hb
  split_ifs at hb
  all_goals
    simp only [List.mem_cons, List.not_mem_nil, or_false] at hb
    rcases hb with rfl | rfl | rfl | rfl <;> exact hbyte _ (by omega)

end Bytes

theorem toNat_ofNat (n : Nat) : (Char.ofNat n).toNat = n ∨ (Char.ofNat n).toNat = 0 := by
  by_cases h : n.isValidChar
  · have hvalid : Char.ofNat n = Char.ofNatAux n h := dif_pos h
    exact .inl (congrArg Char.toNat hvalid)
  · have hnone : Char.ofNat n = ⟨0, by decide⟩ := dif_neg h
    exact .inr (congrArg Char.toNat hnone)

theorem lowerRuns_lead_beyond :
    ∀ run ∈ lowerRuns, (97 : Int) ≤ run.first + run.offset := by decide +kernel

theorem isUpper_lowerChar : ∀ d ∈ lowerChar c, d.isUpper = false := by
  intro d hd
  unfold lowerChar at hd
  split at hd
  · rcases List.mem_cons.mp hd with rfl | hd
    · rfl
    · rw [List.mem_singleton.mp hd]
      rfl
  split at hd
  · rename_i run hrun
    rw [List.mem_singleton.mp hd, ← Bool.not_eq_true, isUpper_iff]
    have hbeyond := lowerRuns_lead_beyond run (List.mem_of_find?_eq_some hrun)
    have hfirst : run.first ≤ c.toNat := by
      have hc := List.find?_some hrun
      simp only [Bool.and_eq_true, decide_eq_true_eq] at hc
      exact hc.1.1
    rcases toNat_ofNat (c.toNat + run.offset).toNat with h | h <;> omega
  · rename_i hnone
    rw [List.mem_singleton.mp hd, ← Bool.not_eq_true, isUpper_iff]
    rw [List.find?_eq_none] at hnone
    have hfirst := hnone ⟨0x41, 0x5A, 1, 32⟩ List.mem_cons_self
    simpa [Nat.mod_one] using hfirst

theorem isUpper_lowerAfter {before cs : List Char} :
    ∀ d ∈ lowerAfter before cs, d.isUpper = false := by
  induction cs generalizing before with
  | nil => exact List.forall_mem_nil _
  | cons c cs ih =>
    intro d hd
    rw [lowerAfter] at hd
    rcases List.mem_append.mp hd with hd | hd
    · split_ifs at hd
      · rw [List.mem_singleton.mp hd]
        rfl
      · rw [List.mem_singleton.mp hd]
        rfl
      · exact isUpper_lowerChar d hd
    · exact ih d hd

theorem isUpper_lowerCase (text : String) : ∀ d ∈ (lowerCase text).toList, d.isUpper = false := by
  rw [lowerCase, String.toList_ofList]
  exact isUpper_lowerAfter

end Genesis.Text
