/-! Sources of small numbers, which decide how many validators one owner gets. -/

namespace Genesis

/-- A source that is asked for numbers below a bound, and goes on in a new state. -/
class Randomizer (ρ : Type) where
  below : ρ → Nat → Nat × ρ
  /-- What is below a word is not the greatest word, so that one more is a word as well. -/
  succ_lt : ∀ (r : ρ) {n : Nat}, n < UInt64.size → (below r n).1 + 1 < UInt64.size

/-- An absent source answers zero. -/
instance {ρ : Type} [Randomizer ρ] : Randomizer (Option ρ) where
  below
    | none, _ => (0, none)
    | some r, n =>
      let (answer, r) := Randomizer.below r n
      (answer, some r)
  succ_lt r _ h := by
    cases r with
    | none => exact (by decide : 0 + 1 < UInt64.size)
    | some r => exact Randomizer.succ_lt r h

/-- A source together with the bounds it has been asked for, in order. -/
structure Recorded (ρ : Type) where
  source : ρ
  asked : List Nat := []

instance {ρ : Type} [Randomizer ρ] : Randomizer (Recorded ρ) where
  below r n :=
    let (answer, source) := Randomizer.below r.source n
    (answer, ⟨source, r.asked ++ [n]⟩)
  succ_lt r _ h := Randomizer.succ_lt r.source h

/-- Sources whose answers follow a plain rule. -/
inductive Script where
  | constant (value : Fin (UInt64.size - 1))
  | greatest
  | stepping (step total : Nat)
  deriving DecidableEq, Repr

instance : Randomizer Script where
  below
    | .constant value, _ => (value, .constant value)
    | .greatest, n => (n - 1, .greatest)
    | .stepping step total, n =>
      let total := total + step
      (if n = 0 then 0 else total % n, .stepping step total)
  succ_lt r n h := by
    have hone : 1 < UInt64.size := by decide
    cases r with
    | constant value => exact Nat.add_lt_of_lt_sub value.isLt
    | greatest =>
      change n - 1 + 1 < UInt64.size
      omega
    | stepping step total =>
      change (if n = 0 then 0 else (total + step) % n) + 1 < UInt64.size
      split
      · exact hone
      · rename_i hn
        have hlt : (total + step) % n < n := Nat.mod_lt _ (Nat.pos_of_ne_zero hn)
        omega

end Genesis
