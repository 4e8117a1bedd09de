import Genesis.Proofs.Amount
import Genesis.Proofs.Json.Reader
import Genesis.Proofs.Text.Ascii
import Genesis.Proofs.Text.Blank
import Mathlib.Data.List.Induction
import Mathlib.Data.Nat.Digits.Defs

/-!
The texts that spell an amount: what they are, which amount each spells, and that the readers take
these and no others.
-/

namespace Genesis.Amount

variable {cs : List Char} {text : String} {n : Int}

def digitValue (c : Char) : Nat := c.toNat - '0'.toNat

/-- A digit, then digits and underscores. -/
structure Figures (cs : List Char) : Prop where
  head : ∃ c ∈ cs.head?, c.isDigit = true
  all : ∀ c ∈ cs, c.isDigit = true ∨ c = '_'

/-- The value of the digits among `cs`, the last of which counts ones. -/
def value (cs : List Char) : Nat :=
  Nat.ofDigits 10 ((cs.filter Char.isDigit).reverse.map digitValue)

/-- Figures with at most one sign before them spell an amount. -/
inductive Spells : List Char → Int → Prop
  | plain {cs : List Char} (h : Figures cs) : Spells cs (value cs)
  | plus {cs : List Char} (h : Figures cs) : Spells ('+' :: cs) (value cs)
  | minus {cs : List Char} (h : Figures cs) : Spells ('-' :: cs) (-(value cs))

section Reading

theorem figures_cons {c : Char} :
    Figures (c :: cs) ↔ c.isDigit = true ∧ ∀ d ∈ cs, d.isDigit = true ∨ d = '_' := by
  constructor
  · rintro ⟨⟨d, hd, hdigit⟩, hall⟩
    cases hd
    exact ⟨hdigit, fun d hd => hall d (List.mem_cons_of_mem c hd)⟩
  · rintro ⟨hdigit, hall⟩
    exact ⟨⟨c, rfl, hdigit⟩, List.forall_mem_cons.mpr ⟨.inl hdigit, hall⟩⟩

theorem ofDigitChars_eq_ofDigits (cs : List Char) :
    Nat.ofDigitChars 10 cs 0 = Nat.ofDigits 10 (cs.reverse.map digitValue) := by
  induction cs using List.reverseRecOn with
  | nil => rfl
  | append_singleton cs c ih =>
    rw [Nat.ofDigitChars_append, ih, List.reverse_append, List.reverse_singleton,
      List.singleton_append, List.map_cons, Nat.ofDigits_cons, Nat.ofDigitChars_cons,
      Nat.ofDigitChars_nil, Nat.add_comm]
    rfl

theorem readDigits_eq_some_iff {k : Nat} : readDigits cs = some k ↔ Figures cs ∧ k = value cs := by
  cases cs with
  | nil =>
    refine iff_of_false (fun h => nomatch h) ?_
    rintro ⟨⟨⟨c, hc, -⟩, -⟩, -⟩
    cases hc
  | cons c cs =>
    have hcond :
        (c.isDigit && cs.all fun c => c.isDigit || c = '_') = true ↔ Figures (c :: cs) := by
      rw [figures_cons, Bool.and_eq_true, List.all_eq_true]
      simp only [Bool.or_eq_true, decide_eq_true_eq]
    rw [readDigits, Option.ite_none_right_eq_some, hcond, Option.some.injEq,
      ofDigitChars_eq_ofDigits, eq_comm]
    rfl

theorem Figures.not_sign {c : Char} (h : Figures (c :: cs)) : c ≠ '+' ∧ c ≠ '-' := by
  have hdigit := (figures_cons.mp h).1
  constructor
  · rintro rfl
    cases hdigit
  · rintro rfl
    cases hdigit

theorem map_readDigits_eq_some_iff {f : Nat → Int} :
    (readDigits cs).map f = some n ↔ Figures cs ∧ n = f (value cs) := by
  rw [Option.map_eq_some_iff]
  constructor
  · rintro ⟨k, hk, rfl⟩
    obtain ⟨hcs, rfl⟩ := readDigits_eq_some_iff.mp hk
    exact ⟨hcs, rfl⟩
  · rintro ⟨hcs, rfl⟩
    exact ⟨value cs, readDigits_eq_some_iff.mpr ⟨hcs, rfl⟩, rfl⟩

theorem readSigned_minus (cs : List Char) :
    readSigned ('-' :: cs) = (readDigits cs).map fun k : Nat => -(k : Int) := by
  rw [readSigned]
  cases readDigits cs with
  | none => rfl
  | some k => rfl

theorem readSigned_eq_some_iff : readSigned cs = some n ↔ Spells cs n := by
  unfold readSigned
  -- a text that starts with a sign is not plain, since figures start with a digit
  split
  · rename_i cs
    show readSigned ('-' :: cs) = some n ↔ _
    rw [readSigned_minus, map_readDigits_eq_some_iff]
    constructor
    · rintro ⟨hcs, rfl⟩
      exact .minus hcs
    · intro h
      cases h with
      | plain h => exact absurd rfl h.not_sign.2
      | minus h => exact ⟨h, rfl⟩
  · rename_i cs
    rw [map_readDigits_eq_some_iff]
    constructor
    · rintro ⟨hcs, rfl⟩
      exact .plus hcs
    · intro h
      cases h with
      | plain h => exact absurd rfl h.not_sign.1
      | plus h => exact ⟨h, rfl⟩
  · rename_i hminus hplus
    rw [map_readDigits_eq_some_iff]
    constructor
    · rintro ⟨hcs, rfl⟩
      exact .plain hcs
    · intro h
      cases h with
      | plain h => exact ⟨h, rfl⟩
      | plus h => exact absurd rfl (hplus _)
      | minus h => exact absurd rfl (hminus _)

theorem spells_render (n : Int) : Spells (render n).toList n :=
  readSigned_eq_some_iff.mp (readSigned_render n)

end Reading

section Blanks

/-- `text` spells `n` once the blanks at its ends are gone. -/
def SpelledIn (text : String) (n : Int) : Prop :=
  ∃ core, Text.Strips text.toList core ∧ Spells core n

theorem readSigned_trim_eq_some_iff :
    readSigned (Text.trim text.toList) = some n ↔ SpelledIn text n := by
  rw [readSigned_eq_some_iff, SpelledIn]
  simp only [← Text.trim_eq_iff, exists_eq_left']

theorem SpelledIn.unique {m : Int} (h : SpelledIn text n) (h' : SpelledIn text m) : n = m := by
  rw [← readSigned_trim_eq_some_iff] at h h'
  exact Option.some.inj (h.symm.trans h')

theorem parseNonNegative_of_spelledIn (h : SpelledIn text n) :
    parseNonNegative text = if n < 0 then .error (.negativeNumber text) else .ok n := by
  rw [parseNonNegative, readSigned_trim_eq_some_iff.mpr h]

theorem parseNonNegative_of_not_spelledIn (h : ∀ n, ¬SpelledIn text n) :
    parseNonNegative text = .error (.notANumber text) := by
  have hnone : readSigned (Text.trim text.toList) = none :=
    Option.eq_none_iff_forall_ne_some.mpr fun n hn => h n (readSigned_trim_eq_some_iff.mp hn)
  rw [parseNonNegative, hnone]

theorem parseNonNegative_eq_ok_iff : parseNonNegative text = .ok n ↔ SpelledIn text n ∧ 0 ≤ n := by
  by_cases hspelled : ∃ m, SpelledIn text m
  · obtain ⟨m, hm⟩ := hspelled
    rw [parseNonNegative_of_spelledIn hm]
    split
    · rename_i hneg
      refine iff_of_false (fun h => nomatch h) fun ⟨h, hn⟩ => ?_
      rw [hm.unique h] at hneg
      exact absurd hn (Int.not_le.mpr hneg)
    · rename_i hneg
      rw [Except.ok.injEq]
      constructor
      · rintro rfl
        exact ⟨hm, Int.not_lt.mp hneg⟩
      · exact fun h => hm.unique h.1
  · rw [parseNonNegative_of_not_spelledIn (not_exists.mp hspelled)]
    exact iff_of_false (fun h => nomatch h) fun h => hspelled ⟨n, h.1⟩

theorem parseNonNegative_eq_error_iff {e : Error} :
    parseNonNegative text = .error e ↔
      (e = .negativeNumber text ∧ ∃ n, SpelledIn text n ∧ n < 0) ∨
        (e = .notANumber text ∧ ∀ n, ¬SpelledIn text n) := by
  by_cases hspelled : ∃ m, SpelledIn text m
  · obtain ⟨m, hm⟩ := hspelled
    have hsome : ¬∀ n, ¬SpelledIn text n := fun h => h m hm
    have hneg : (∃ n, SpelledIn text n ∧ n < 0) ↔ m < 0 :=
      ⟨fun ⟨n, hn, hlt⟩ => hm.unique hn ▸ hlt, fun h => ⟨m, hm, h⟩⟩
    rw [parseNonNegative_of_spelledIn hm, hneg]
    simp only [hsome, and_false, or_false]
    split
    · rename_i hlt
      rw [Except.error.injEq, eq_comm, and_iff_left hlt]
    · rename_i hlt
      exact iff_of_false (fun h => nomatch h) fun h => hlt h.2
  · have hnone := not_exists.mp hspelled
    have hneg : ¬∃ n, SpelledIn text n ∧ n < 0 := fun ⟨n, hn, _⟩ => hnone n hn
    rw [parseNonNegative_of_not_spelledIn hnone, Except.error.injEq, eq_comm, and_iff_left hnone]
    simp only [hneg, and_false, false_or]

theorem isBlank_of_isDigit {c : Char} (h : c.isDigit = true) : Text.isBlank c = false := by
  have hlt : c.toNat < 128 := by
    have hle : c.toNat ≤ 57 := (of_decide_eq_true (Bool.and_eq_true_iff.mp h).2 : c.val ≤ 57)
    omega
  refine Text.ascii_forall (P := fun c => c.isDigit = true → Text.isBlank c = false) ?_ hlt h
  decide

theorem Figures.isBlank_of_mem (h : Figures cs) : ∀ c ∈ cs, Text.isBlank c = false := by
  intro c hc
  rcases h.all c hc with hdigit | rfl
  · exact isBlank_of_isDigit hdigit
  · decide

theorem Spells.isBlank_of_mem (h : Spells cs n) : ∀ c ∈ cs, Text.isBlank c = false := by
  cases h with
  | plain h => exact h.isBlank_of_mem
  | plus h => exact List.forall_mem_cons.mpr ⟨by decide, h.isBlank_of_mem⟩
  | minus h => exact List.forall_mem_cons.mpr ⟨by decide, h.isBlank_of_mem⟩

theorem Spells.spelledIn {before after : List Char} (h : Spells cs n) (hbefore : Text.Blank before)
    (hafter : Text.Blank after) : SpelledIn (String.ofList (before ++ cs ++ after)) n := by
  refine ⟨cs, ⟨⟨before, after, String.toList_ofList, hbefore, hafter⟩, ?_, ?_⟩, h⟩
  · exact fun c hc => h.isBlank_of_mem c (List.mem_of_mem_head? hc)
  · exact fun c hc => h.isBlank_of_mem c (List.mem_of_mem_getLast? hc)

end Blanks

/-- A text is read as the amount that it spells between blanks, and refused where it spells one
below zero or none. What is written of an amount is read as that amount. -/
theorem read_exactly_as_spelled :
    (∀ text : String,
      (∀ n, parseNonNegative text = .ok n ↔ SpelledIn text n ∧ 0 ≤ n) ∧
      ∀ e, parseNonNegative text = .error e ↔
        (e = .negativeNumber text ∧ ∃ n, SpelledIn text n ∧ n < 0) ∨
          (e = .notANumber text ∧ ∀ n, ¬SpelledIn text n)) ∧
    ∀ n : Int,
      parse? (render n) = some n ∧
      Json.read Json.Reader.amount (Json.string (render n)).line = .ok n ∧
      Json.read Json.Reader.amount (Json.string (render n)).lines = .ok n ∧
      (0 ≤ n → ∀ before after, Text.Blank before → Text.Blank after →
        parseNonNegative (String.ofList (before ++ (render n).toList ++ after)) = .ok n) := by
  refine ⟨fun text => ⟨fun n => parseNonNegative_eq_ok_iff, fun e => parseNonNegative_eq_error_iff⟩,
    fun n => ⟨parse?_render n, ?_, ?_, ?_⟩⟩
  · exact (Json.Reader.yields_amount n).read_line
  · exact (Json.Reader.yields_amount n).read_lines
  · intro hn before after hbefore hafter
    exact parseNonNegative_eq_ok_iff.mpr ⟨(spells_render n).spelledIn hbefore hafter, hn⟩

/-- Zero may have a minus sign and underscores, and stand between a no-break space and a line
end. -/
theorem signed_zero_is_read :
    parseNonNegative (String.ofList (['\u00a0'] ++ "-0_0".toList ++ ['\n'])) = .ok 0 ∧
      parseNonNegative (String.ofList (['\u2003'] ++ (render 7).toList ++ ['\t'])) = .ok 7 := by
  obtain ⟨hread, hwritten⟩ := read_exactly_as_spelled
  have hfigures : Figures "0_0".toList := by
    refine figures_cons.mpr ⟨rfl, List.forall_mem_cons.mpr ⟨.inr rfl, ?_⟩⟩
    exact List.forall_mem_singleton.mpr (.inl rfl)
  have hblank : ∀ {c}, Text.isBlank c = true → Text.Blank [c] :=
    fun h => List.forall_mem_singleton.mpr h
  constructor
  · exact ((hread _).1 0).mpr
      ⟨(Spells.minus hfigures).spelledIn (hblank rfl) (hblank rfl), le_rfl⟩
  · exact (hwritten 7).2.2.2 (by decide) _ _ (hblank rfl) (hblank rfl)

end Genesis.Amount
