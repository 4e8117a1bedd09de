import Genesis.Json.Single
import Genesis.Proofs.Amount
import Genesis.Proofs.Binary.Shortest

/-! Numerals are read back from their text, those of whole numbers and those of binary ones. -/

namespace Genesis.Json

/-- Behind a numeral, `rest` cannot be taken for a part of it. -/
def Ends (rest : List Char) : Prop :=
  ∀ c ∈ rest.head?, c.isDigit = false ∧ c ≠ '.' ∧ c ≠ 'e' ∧ c ≠ 'E'

section Digits

variable {digits rest : List Char}

theorem takeWhile_digits (hd : ∀ c ∈ digits, c.isDigit = true)
    (hr : ∀ c ∈ rest.head?, c.isDigit = false) :
    (digits ++ rest).takeWhile Char.isDigit = digits := by
  rw [List.takeWhile_append_of_pos hd]
  cases rest with
  | nil => exact List.append_nil digits
  | cons c rest => rw [List.takeWhile_cons_of_neg (by simp [hr c rfl]), List.append_nil]

theorem dropWhile_digits (hd : ∀ c ∈ digits, c.isDigit = true)
    (hr : ∀ c ∈ rest.head?, c.isDigit = false) :
    (digits ++ rest).dropWhile Char.isDigit = rest := by
  rw [List.dropWhile_append_of_pos hd]
  cases rest with
  | nil => rfl
  | cons c rest => rw [List.dropWhile_cons_of_neg (by simp [hr c rfl])]

end Digits

namespace Numeral

def fractionText (n : Numeral) : List Char :=
  if n.fraction = [] then [] else '.' :: n.fraction

def exponentText (n : Numeral) : List Char :=
  match n.exponent with
  | none => []
  | some (negative, digits) => 'e' :: (if negative then '-' else '+') :: digits

def signText (negative : Bool) : List Char := if negative then ['-'] else []

def text (n : Numeral) : List Char :=
  signText n.negative ++ n.whole ++ n.fractionText ++ n.exponentText

structure Sound (n : Numeral) : Prop where
  whole_digits : ∀ c ∈ n.whole, c.isDigit = true
  whole_ne_nil : n.whole ≠ []
  whole_head : n.whole = ['0'] ∨ n.whole.head? ≠ some '0'
  fraction_digits : ∀ c ∈ n.fraction, c.isDigit = true
  exponent_digits : ∀ e ∈ n.exponent, e.2 ≠ [] ∧ ∀ c ∈ e.2, c.isDigit = true

variable {n : Numeral} {rest : List Char}

theorem readFraction_append (h : n.Sound) (hr : ∀ c ∈ rest.head?, c.isDigit = false ∧ c ≠ '.') :
    readFraction (n.fractionText ++ rest) = some (n.fraction, rest) := by
  have hdigit : ∀ c ∈ rest.head?, c.isDigit = false := fun c hc => (hr c hc).1
  unfold fractionText
  split
  · rename_i hnil
    rw [hnil, List.nil_append]
    unfold readFraction
    split
    · exact absurd rfl (hr '.' rfl).2
    · rfl
  · rename_i hne
    rw [List.cons_append, readFraction, takeWhile_digits h.fraction_digits hdigit,
      dropWhile_digits h.fraction_digits hdigit]
    exact if_neg (by simpa using hne)

theorem readExponent_append (h : n.Sound) (hr : Ends rest) :
    readExponent (n.exponentText ++ rest) = some (n.exponent, rest) := by
  have hdigit : ∀ c ∈ rest.head?, c.isDigit = false := fun c hc => (hr c hc).1
  obtain ⟨negative, whole, fraction, exponent⟩ := n
  cases exponent with
  | none =>
    cases rest with
    | nil => rfl
    | cons c rest =>
      have hc : ¬(c = 'e' ∨ c = 'E') := not_or.mpr (hr c rfl).2.2
      exact if_neg hc
  | some e =>
    obtain ⟨down, digits⟩ := e
    obtain ⟨hne, hdigits⟩ := h.exponent_digits (down, digits) rfl
    have hempty : digits.isEmpty = false := List.isEmpty_eq_false_iff.mpr hne
    have htake := takeWhile_digits hdigits hdigit
    have hdrop := dropWhile_digits hdigits hdigit
    cases down <;> simp [exponentText, readExponent, htake, hdrop, hempty]

theorem head?_behind_whole (hr : Ends rest) :
    ∀ c ∈ (n.fractionText ++ (n.exponentText ++ rest)).head?, c.isDigit = false := by
  obtain ⟨negative, whole, fraction, exponent⟩ := n
  intro c hc
  unfold fractionText at hc
  split at hc
  · cases exponent with
    | none => exact (hr c hc).1
    | some e =>
      obtain rfl : 'e' = c := Option.some.inj hc
      rfl
  · obtain rfl : '.' = c := Option.some.inj hc
    rfl

theorem head?_behind_fraction (hr : Ends rest) :
    ∀ c ∈ (n.exponentText ++ rest).head?, c.isDigit = false ∧ c ≠ '.' := by
  obtain ⟨negative, whole, fraction, exponent⟩ := n
  intro c hc
  cases exponent with
  | none => exact ⟨(hr c hc).1, (hr c hc).2.1⟩
  | some e =>
    obtain rfl : 'e' = c := Option.some.inj hc
    decide

theorem readNumeral_append (h : n.Sound) (hr : Ends rest) :
    readNumeral (n.text ++ rest) = some (n, rest) := by
  have htake := takeWhile_digits h.whole_digits (head?_behind_whole (n := n) hr)
  have hdrop := dropWhile_digits h.whole_digits (head?_behind_whole (n := n) hr)
  have hfraction := readFraction_append h (head?_behind_fraction (n := n) hr)
  have hexponent := readExponent_append h hr
  have hwhole : (n.whole.isEmpty || (n.whole.head? = some '0' && 1 < n.whole.length)) = false := by
    rw [List.isEmpty_eq_false_iff.mpr h.whole_ne_nil]
    rcases h.whole_head with hzero | hhead
    · rw [hzero]
      rfl
    · simp [hhead]
  unfold text
  rw [List.append_assoc, List.append_assoc, List.append_assoc]
  unfold readNumeral
  cases hnegative : n.negative with
  | true =>
    simp [signText, htake, hdrop, hwhole, hfraction, hexponent, ← hnegative]
  | false =>
    rw [signText, if_neg Bool.false_ne_true, List.nil_append]
    split
    rename_i negative s heq
    split at heq
    -- without a sign the text starts with a digit, which is no dash
    · rename_i r hdash
      obtain ⟨c, cs, hcons⟩ := List.exists_cons_of_ne_nil h.whole_ne_nil
      have hc : c = '-' := by
        rw [hcons] at hdash
        exact (List.cons.inj hdash).1
      have hdigit := h.whole_digits c (hcons ▸ List.mem_cons_self)
      rw [hc] at hdigit
      exact absurd hdigit (by decide)
    · cases heq
      simp [htake, hdrop, hwhole, hfraction, hexponent, ← hnegative]

section Whole

def ofInt (n : Int) : Numeral :=
  { negative := n < 0, whole := Amount.digits n.natAbs, fraction := [], exponent := none }

theorem text_ofInt (n : Int) : (ofInt n).text = (Amount.render n).toList := by
  cases n with
  | ofNat n => simp [text, signText, ofInt, fractionText, exponentText, Amount.render]
  | negSucc n =>
    simp [text, signText, ofInt, fractionText, exponentText, Amount.render, Int.negSucc_lt_zero]

theorem whole_head_digits (n : Nat) :
    Amount.digits n = ['0'] ∨ (Amount.digits n).head? ≠ some '0' := by
  rcases Nat.eq_zero_or_pos n with rfl | hn
  · exact .inl (Nat.toDigits_zero 10)
  · exact .inr (Amount.head_digits_ne_zero hn)

theorem sound_ofInt (n : Int) : (ofInt n).Sound where
  whole_digits := fun _ hc => Amount.isDigit_of_mem_digits hc
  whole_ne_nil := Amount.digits_ne_nil
  whole_head := whole_head_digits n.natAbs
  fraction_digits := List.forall_mem_nil _
  exponent_digits := fun _ he => by cases he

theorem wholeValue_ofInt (n : Int) : Reader.wholeValue (ofInt n) = some n := by
  have hvalue : Binary.natOfDigits (ofInt n).whole = n.natAbs := Nat.ofDigitChars_ten_toDigits
  unfold Reader.wholeValue
  rw [hvalue]
  rcases lt_or_ge n 0 with hn | hn
  · have habs : (n.natAbs : Int) = -n := by omega
    have hne : n.natAbs ≠ 0 := by omega
    simp only [ofInt, hn, decide_true, if_true, hne, if_false, habs, neg_neg]
    rfl
  · have habs : (n.natAbs : Int) = n := by omega
    simp only [ofInt, not_lt.mpr hn, decide_false, Bool.false_eq_true, if_false, habs]
    rfl

end Whole

section Binary

open Binary

variable {digits whole fraction : List Char} {negative : Bool}

theorem exists_pointed (hw : ∀ c ∈ whole, c.isDigit = true) (hne : whole ≠ [])
    (hhead : whole = ['0'] ∨ whole.head? ≠ some '0') (hf : ∀ c ∈ fraction, c.isDigit = true)
    (hfne : fraction ≠ []) (negative : Bool) :
    ∃ n : Numeral, n.Sound ∧ n.text = signText negative ++ (whole ++ '.' :: fraction) := by
  refine ⟨⟨negative, whole, fraction, none⟩, ⟨hw, hne, hhead, hf, fun _ he => by cases he⟩, ?_⟩
  simp [text, fractionText, exponentText, hfne]

theorem isDigit_of_mem_zero : ∀ c ∈ ['0'], c.isDigit = true := List.forall_mem_singleton.mpr rfl

theorem isDigit_of_mem_zeros (k : Nat) : ∀ c ∈ List.replicate k '0', c.isDigit = true := by
  intro c hc
  rw [List.eq_of_mem_replicate hc]
  rfl

theorem exists_plainText (hd : ∀ c ∈ digits, c.isDigit = true) (hne : digits ≠ [])
    (hhead : digits.head? ≠ some '0') (point : Int) (negative : Bool) :
    ∃ n : Numeral, n.Sound ∧ n.text = signText negative ++ plainText digits point := by
  unfold plainText
  split
  · rename_i hpoint
    have hfraction : List.replicate (-point).toNat '0' ++ digits ≠ [] :=
      List.append_ne_nil_of_right_ne_nil _ hne
    have hall : ∀ c ∈ List.replicate (-point).toNat '0' ++ digits, c.isDigit = true := by
      intro c hc
      rcases List.mem_append.mp hc with hc | hc
      · exact isDigit_of_mem_zeros _ c hc
      · exact hd c hc
    exact exists_pointed isDigit_of_mem_zero (by decide) (.inl rfl) hall hfraction negative
  · rename_i hpoint
    obtain ⟨c, cs, rfl⟩ := List.exists_cons_of_ne_nil hne
    obtain ⟨k, hk⟩ : ∃ k, point.toNat = k + 1 := ⟨point.toNat - 1, by omega⟩
    have htake : (c :: cs).take point.toNat = c :: cs.take k := by rw [hk, List.take_succ_cons]
    have hwhole : ∀ zeros, ∀ d ∈ c :: cs.take k ++ List.replicate zeros '0', d.isDigit = true := by
      intro zeros d hmem
      rcases List.mem_append.mp hmem with hmem | hmem
      · rw [← htake] at hmem
        exact hd d (List.mem_of_mem_take hmem)
      · exact isDigit_of_mem_zeros _ d hmem
    dsimp only
    rw [htake]
    split
    · exact exists_pointed (hwhole _) (List.cons_ne_nil _ _) (.inr hhead) isDigit_of_mem_zero
        (by decide) negative
    · rename_i hrest
      exact exists_pointed (hwhole _) (List.cons_ne_nil _ _) (.inr hhead)
        (fun d hmem => hd d (List.mem_of_mem_drop hmem)) (by simpa using hrest) negative

theorem exists_scientificText (hd : ∀ c ∈ digits, c.isDigit = true) (hne : digits ≠ [])
    (hhead : digits.head? ≠ some '0') (place : Int) (negative : Bool) :
    ∃ n : Numeral, n.Sound ∧ n.text = signText negative ++ scientificText digits place := by
  obtain ⟨c, cs, rfl⟩ := List.exists_cons_of_ne_nil hne
  obtain ⟨hc, hcs⟩ := List.forall_mem_cons.mp hd
  have hplace : ∀ d ∈ Nat.toDigits 10 place.natAbs, d.isDigit = true :=
    fun _ hmem => Amount.isDigit_of_mem_digits hmem
  refine ⟨⟨negative, [c], cs, some (place < 0, Nat.toDigits 10 place.natAbs)⟩,
    ⟨?_, List.cons_ne_nil _ _, .inr hhead, hcs, ?_⟩, ?_⟩
  · exact List.forall_mem_singleton.mpr hc
  · rintro e he
    cases he
    exact ⟨Nat.toDigits_ne_nil, hplace⟩
  · cases cs <;> simp [text, fractionText, exponentText, scientificText]

theorem exists_text? {x : Number} {written : String} (h : x.text? = some written) :
    ∃ n : Numeral, n.Sound ∧ n.text = written.toList := by
  cases x with
  | infinite negative => cases h
  | notANumber => cases h
  | finite negative m e =>
    have hdigits : ∀ k, ∀ c ∈ Nat.toDigits 10 k, c.isDigit = true :=
      fun _ _ hc => Amount.isDigit_of_mem_digits hc
    cases h
    rw [String.toList_ofList]
    change ∃ n : Numeral, n.Sound ∧ n.text = signText negative ++ _
    split
    · exact exists_pointed isDigit_of_mem_zero (by decide) (.inl rfl) isDigit_of_mem_zero
        (by decide) negative
    · rename_i hm
      have hpos := dropZeros_pos (Nat.toDigits 10 (shortest single m e).1).length
        (shortest_pos single (Nat.pos_of_ne_zero hm) e) (shortest single m e).2
      have hhead := Amount.head_digits_ne_zero hpos
      dsimp only
      split
      · exact exists_plainText (hdigits _) Nat.toDigits_ne_nil hhead _ negative
      · exact exists_scientificText (hdigits _) Nat.toDigits_ne_nil hhead _ negative

end Binary

end Numeral

end Genesis.Json
