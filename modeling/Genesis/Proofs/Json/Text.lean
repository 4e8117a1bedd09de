import Genesis.Json.Draft
import Mathlib.Tactic.NormNum

/-! Strings are read back from their quoted form, whatever characters they hold. -/

namespace Genesis.Json

def consUnit (unit : Nat) : Option (List Nat × List Char) → Option (List Nat × List Char) :=
  Option.map fun (units, rest) => (unit :: units, rest)

theorem stringUnits_backslash {c c' : Char} (h : unescape c = some c') (hu : c ≠ 'u')
    (s : List Char) : stringUnits ('\\' :: c :: s) = consUnit c'.toNat (stringUnits s) := by
  rw [stringUnits.eq_4]
  · rw [h]
    cases stringUnits s <;> rfl
  · intros
    contradiction

theorem stringUnits_control {c : Char} (h : c.toNat < 0x20) (s : List Char) :
    stringUnits ('\\' :: 'u' :: '0' :: '0' :: Nat.digitChar (c.toNat / 16) ::
      Nat.digitChar (c.toNat % 16) :: s) = consUnit c.toNat (stringUnits s) := by
  have hdigit : ∀ n : Fin 16, hexValue n.val.digitChar = some n.val := by decide
  have hzero : hexValue '0' = some 0 := by decide
  have hvalue : 4096 * 0 + 256 * 0 + 16 * (c.toNat / 16) + c.toNat % 16 = c.toNat := by omega
  rw [stringUnits.eq_3, hzero, hdigit ⟨c.toNat / 16, by omega⟩, hdigit ⟨c.toNat % 16, by omega⟩]
  cases stringUnits s with
  | none => rfl
  | some read => exact congrArg some (Prod.ext (congrArg (· :: read.1) hvalue) rfl)

theorem stringUnits_plain {c : Char} (hquote : c ≠ '"') (hback : c ≠ '\\') (h : ¬c.toNat < 0x20)
    (s : List Char) : stringUnits (c :: s) = consUnit c.toNat (stringUnits s) := by
  rw [stringUnits.eq_5]
  · rw [if_neg h]
    cases stringUnits s <;> rfl
  · exact fun h => hquote h
  · intros
    contradiction
  · intros
    contradiction

theorem stringUnits_escapeChar (c : Char) (s : List Char) :
    stringUnits (escapeChar c ++ s) = consUnit c.toNat (stringUnits s) := by
  unfold escapeChar
  split_ifs with hquote hback hb hf hn hr ht hcontrol
  · rw [hquote]
    exact stringUnits_backslash rfl (by decide) s
  · rw [hback]
    exact stringUnits_backslash rfl (by decide) s
  · rw [hb]
    exact stringUnits_backslash rfl (by decide) s
  · rw [hf]
    exact stringUnits_backslash rfl (by decide) s
  · rw [hn]
    exact stringUnits_backslash rfl (by decide) s
  · rw [hr]
    exact stringUnits_backslash rfl (by decide) s
  · rw [ht]
    exact stringUnits_backslash rfl (by decide) s
  · exact stringUnits_control hcontrol s
  · exact stringUnits_plain hquote hback hcontrol s

theorem stringUnits_quoted (text rest : List Char) :
    stringUnits (text.flatMap escapeChar ++ '"' :: rest) = some (text.map Char.toNat, rest) := by
  induction text with
  | nil => rfl
  | cons c text ih =>
    rw [List.flatMap_cons, List.append_assoc, stringUnits_escapeChar, ih]
    rfl

theorem not_isHalf (c : Char) : isHighHalf c.toNat = false ∧ isLowHalf c.toNat = false := by
  have hvalid : c.toNat < 0xD800 ∨ 0xDFFF < c.toNat ∧ c.toNat < 0x110000 := c.valid
  unfold isHighHalf isLowHalf
  simp only [Bool.and_eq_false_iff, decide_eq_false_iff_not]
  omega

theorem joinUnits_map_toNat (text : List Char) : joinUnits (text.map Char.toNat) = some text := by
  induction text with
  | nil => rfl
  | cons c text ih =>
    obtain ⟨hhigh, hlow⟩ := not_isHalf c
    cases text with
    | nil => simp [joinUnits, hhigh, hlow]
    | cons d text =>
      rw [List.map_cons, List.map_cons, joinUnits, hhigh, hlow, ← List.map_cons, ih]
      simp

end Genesis.Json
