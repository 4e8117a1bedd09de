import Genesis.Proofs.Strategy.Material
import Genesis.Strategy.Settle

/-! Generations by one plan, each going on where the one before it stopped. -/

namespace Genesis.Plan

variable {ρ : Type} [Randomizer ρ] {plan : Plan} {p p' q start : Progress ρ} {n : Nat}
  {result : Except Error Bundle} {b : Bundle}

/-- How far the plan has come after `n` generations, whatever became of them, if all of them end. -/
def after (plan : Plan) : Nat → Progress ρ → Option (Progress ρ)
  | 0, p => some p
  | n + 1, p => (plan.generate p).bind fun last => plan.after n last.2

def outcome (plan : Plan) (start : Progress ρ) (n : Nat) : Option (Except Error Bundle) :=
  (plan.after n start).bind fun p => (plan.generate p).map (·.1)

theorem after_succ_eq_some :
    plan.after (n + 1) p = some q ↔
      ∃ result p', plan.generate p = some (result, p') ∧ plan.after n p' = some q := by
  rw [after, Option.bind_eq_some_iff, Prod.exists]

theorem outcome_eq_some :
    plan.outcome start n = some result ↔
      ∃ p p', plan.after n start = some p ∧ plan.generate p = some (result, p') := by
  unfold outcome
  simp only [Option.bind_eq_some_iff, Option.map_eq_some_iff, Prod.exists]
  constructor
  · rintro ⟨p, hafter, r, p', hgenerate, rfl⟩
    exact ⟨p, p', hafter, hgenerate⟩
  · rintro ⟨p, p', hafter, hgenerate⟩
    exact ⟨p, hafter, result, p', hgenerate, rfl⟩

theorem after_of_keeps {P : Progress ρ → Prop}
    (hP : ∀ p, P p → ∀ result p', plan.generate p = some (result, p') → P p') (h : P p)
    (hn : plan.after n p = some q) : P q := by
  induction n generalizing p with
  | zero => exact Option.some.inj hn ▸ h
  | succ n ih =>
    obtain ⟨result, p', hfirst, hrest⟩ := after_succ_eq_some.mp hn
    exact ih (hP p h result p' hfirst) hrest

theorem after_add_one_eq_some :
    plan.after (n + 1) start = some q ↔
      ∃ p result, plan.after n start = some p ∧ plan.generate p = some (result, q) := by
  induction n generalizing start with
  | zero =>
    rw [after_succ_eq_some]
    constructor
    · rintro ⟨result, p', hgenerate, hnone⟩
      obtain rfl : p' = q := Option.some.inj hnone
      exact ⟨start, result, rfl, hgenerate⟩
    · rintro ⟨p, result, hnone, hgenerate⟩
      obtain rfl : start = p := Option.some.inj hnone
      exact ⟨result, q, hgenerate, rfl⟩
  | succ n ih =>
    rw [after_succ_eq_some]
    constructor
    · rintro ⟨first, p', hfirst, hrest⟩
      obtain ⟨p, result, hp, hgenerate⟩ := ih.mp hrest
      exact ⟨p, result, after_succ_eq_some.mpr ⟨first, p', hfirst, hp⟩, hgenerate⟩
    · rintro ⟨p, result, hp, hgenerate⟩
      obtain ⟨first, p', hfirst, hrest⟩ := after_succ_eq_some.mp hp
      exact ⟨first, p', hfirst, ih.mpr ⟨p, result, hrest, hgenerate⟩⟩

theorem generate_of_draw {m : Material} (h : plan.draw.run p = some (.ok m, p')) :
    ∃ q, plan.generate p = some (plan.settle m, q) := by
  unfold generate
  rw [h]
  dsimp only
  cases plan.settle m with
  | error e => exact ⟨p', rfl⟩
  | ok b => exact ⟨_, rfl⟩

theorem run_draw_of_generate (h : plan.generate p = some (.ok b, q)) :
    ∃ m p', plan.draw.run p = some (.ok m, p') ∧ plan.settle m = .ok b := by
  rcases hdraw : plan.draw.run p with _ | ⟨e | m, p'⟩
  · unfold generate at h
    rw [hdraw] at h
    cases h
  · unfold generate at h
    rw [hdraw] at h
    cases h
  · obtain ⟨q', hq⟩ := generate_of_draw hdraw
    rw [hq] at h
    exact ⟨m, p', rfl, (Prod.mk.inj (Option.some.inj h)).1⟩

theorem generate_ok (h : plan.generate p = some (.ok b, q)) :
    ∃ m, plan.Drew m ∧ plan.settle m = .ok b := by
  obtain ⟨m, p', hdraw, hsettle⟩ := run_draw_of_generate h
  exact ⟨m, draw_ok hdraw, hsettle⟩

theorem outcome_ok (h : plan.outcome start n = some (.ok b)) :
    ∃ m, plan.Drew m ∧ plan.settle m = .ok b := by
  obtain ⟨p, p', _, hgenerate⟩ := outcome_eq_some.mp h
  exact generate_ok hgenerate

end Genesis.Plan
