import Genesis.Random.Seeded

/-!
Sources that keep to the bounds they are asked for, and the states that they come to.
-/

namespace Genesis

/-- What a source answers is below the bound, if anything can be. -/
class LawfulRandomizer (ρ : Type) [Randomizer ρ] : Prop where
  below_lt : ∀ (r : ρ) {n : Nat}, 0 < n → (Randomizer.below r n).1 < n

namespace Randomizer

variable {ρ : Type} [Randomizer ρ]

/-- A source after it has been asked for numbers below these bounds, in order. -/
def ask (r : ρ) : List Nat → ρ
  | [] => r
  | n :: bounds => ask (below r n).2 bounds

theorem ask_recorded (r : Recorded ρ) (bounds : List Nat) :
    ask r bounds = ⟨ask r.source bounds, r.asked ++ bounds⟩ := by
  induction bounds generalizing r with
  | nil => rw [ask, ask, List.append_nil]
  | cons n bounds ih =>
    rw [ask, ih, List.append_cons]
    rfl

theorem asked_ask (r : Recorded ρ) (bounds : List Nat) :
    (ask r bounds).asked = r.asked ++ bounds := by
  rw [ask_recorded]

section Alike

variable {σ : Type} [Randomizer σ] {a : ρ} {b : σ}

/-- Two sources that cannot be told apart: asked for the same numbers they give the same answers. -/
def Alike (a : ρ) (b : σ) : Prop :=
  ∀ bounds n, (below (ask a bounds) n).1 = (below (ask b bounds) n).1

theorem alike_refl (a : ρ) : Alike a a := fun _ _ => rfl

theorem Alike.answer (h : Alike a b) (n : Nat) : (below a n).1 = (below b n).1 := h [] n

theorem Alike.next (h : Alike a b) (n : Nat) : Alike (below a n).2 (below b n).2 :=
  fun bounds => h (n :: bounds)

theorem alike_recorded (a : ρ) : Alike a ({ source := a } : Recorded ρ) := by
  intro bounds n
  rw [ask_recorded]
  rfl

end Alike

end Randomizer

section Lawful

variable {ρ : Type} [Randomizer ρ] [LawfulRandomizer ρ]

instance : LawfulRandomizer (Option ρ) where
  below_lt r _ h := by
    cases r with
    | none => exact h
    | some r => exact LawfulRandomizer.below_lt r h

instance : LawfulRandomizer (Recorded ρ) where
  below_lt r _ h := LawfulRandomizer.below_lt r.source h

end Lawful

namespace Seeded

instance : LawfulRandomizer Seeded where
  below_lt r _ h := r.below_lt h

/-- The state of a source after `i` draws. -/
def redraw (r : Seeded) : Nat → Seeded
  | 0 => r
  | i + 1 => redraw r.nextLong.2 i

def Meets (n : Nat) (r : Seeded) : Prop := r.nextLong.1 * n % UInt64.size ≤ zone n

theorem scaled_of_meets {n : Nat} {r : Seeded} (h : Meets n r) :
    scaled n r = some (r.nextLong.1 * n / UInt64.size, r.nextLong.2) := by
  rw [scaled]
  exact if_pos h

theorem scaled_of_not_meets {n : Nat} {r : Seeded} (h : ¬Meets n r) :
    scaled n r = scaled n r.nextLong.2 := by
  rw [scaled]
  exact if_neg h

/-- A source comes to an answer just when one of its draws is in the zone. -/
theorem scaled_eq_none_iff {n : Nat} {r : Seeded} :
    scaled n r = none ↔ ∀ i, ¬Meets n (r.redraw i) := by
  constructor
  · intro h i
    induction i generalizing r with
    | zero => exact fun hmeets => Option.some_ne_none _ ((scaled_of_meets hmeets).symm.trans h)
    | succ i ih =>
      refine ih ?_
      by_cases hmeets : Meets n r
      · rw [scaled_of_meets hmeets] at h
        cases h
      · rwa [scaled_of_not_meets hmeets] at h
  · intro h
    refine Option.eq_none_iff_forall_ne_some.mpr fun answer hanswer => ?_
    -- an answer is the product of a draw in the zone, at this place or behind it
    refine scaled.partial_correctness n (fun r _ => ¬∀ i, ¬Meets n (r.redraw i)) ?_ r answer
      hanswer h
    intro scaled ih r answer hr hall
    dsimp only at hr
    split at hr
    · exact hall 0 ‹_›
    · exact ih _ _ hr fun i => hall (i + 1)

end Seeded

end Genesis
