import Genesis.Proofs.Key.InStep
import Genesis.Proofs.Strategy.Runs

/-!
Two runs of one plan whose randomizers may differ. As long as these lead to the same batches of
validators, the runs have the same results and reports, however long they are.
-/

namespace Genesis

variable {ρ σ : Type} {R : Option ρ → Option σ → Prop}

/-- Two runs are in step: they have drawn the same keys and reported the same, while their
randomizers are as `R` says. -/
structure Progress.InStep (R : Option ρ → Option σ → Prop) (p : Progress ρ) (q : Progress σ) :
    Prop where
  validatorsTaken : p.validatorsTaken = q.validatorsTaken
  wallets : p.wallets.InStep R q.wallets
  journal : p.journal = q.journal

namespace Drawing

variable {α β : Type} {x : Drawing ρ α} {y : Drawing σ α} {f : α → Drawing ρ β}
  {g : α → Drawing σ β}

/-- Two runs that are in step come to the same end in these draws, and are in step again. -/
def KeepInStep (R : Option ρ → Option σ → Prop) (x : Drawing ρ α) (y : Drawing σ α) : Prop :=
  ∀ p q, Progress.InStep R p q → SameEnd (Progress.InStep R) (x.run p) (y.run q)

theorem keepInStep_pure (a : α) :
    KeepInStep R (pure a : Drawing ρ α) (pure a : Drawing σ α) :=
  fun p q h => .inr ⟨.ok a, p, q, rfl, rfl, h⟩

theorem keepInStep_bind (hx : KeepInStep R x y) (hf : ∀ a, KeepInStep R (f a) (g a)) :
    KeepInStep R (x >>= f) (y >>= g) := by
  intro p q h
  rw [run_bind, run_bind]
  rcases hx p q h with ⟨hp, hq⟩ | ⟨result, p', q', hp, hq, hafter⟩
  · rw [hp, hq]
    exact .inl ⟨rfl, rfl⟩
  rw [hp, hq]
  cases result with
  | error e => exact .inr ⟨.error e, p', q', rfl, rfl, hafter⟩
  | ok a => exact hf a p' q' hafter

end Drawing

namespace Terms

open Drawing

variable (t : Terms) (n : Nat)

theorem keepInStep_drawValidators :
    KeepInStep R (t.drawValidators (ρ := ρ) n) (t.drawValidators (ρ := σ) n) := by
  intro p q h
  rw [run_drawValidators, run_drawValidators, h.validatorsTaken]
  exact .inr ⟨_, _, _, rfl, rfl, rfl, h.wallets, h.journal⟩

theorem keepInStep_drawWallets :
    KeepInStep R (t.drawWallets (ρ := ρ) n) (t.drawWallets (ρ := σ) n) := by
  intro p q h
  rw [run_drawWallets, run_drawWallets]
  rcases t.walletRules.inStep_walletsFrom 0 n h.wallets with
    ⟨hc, hd⟩ | ⟨result, c, d, hc, hd, hafter⟩
  · rw [hc, hd]
    exact .inl ⟨rfl, rfl⟩
  · rw [hc, hd]
    exact .inr ⟨result, _, _, rfl, rfl, h.validatorsTaken, hafter, h.journal⟩

theorem keepInStep_drawOwners [Randomizer ρ] [Randomizer σ] {limit : Nat}
    (hR : WalletRules.SameBatches limit R) (pool : List BlsKey) :
    KeepInStep R (t.drawOwners pool limit) (t.drawOwners pool limit) := by
  intro p q h
  unfold drawOwners
  dsimp only [ExceptT.run]
  rcases t.walletRules.inStep_owners hR pool h.wallets with
    ⟨hc, hd⟩ | ⟨result, c, d, hc, hd, hafter⟩
  · rw [hc, hd]
    exact .inl ⟨rfl, rfl⟩
  rw [hc, hd]
  cases result with
  | error e => exact .inr ⟨.error e, _, _, rfl, rfl, h.validatorsTaken, hafter, h.journal⟩
  | ok owners =>
    exact .inr ⟨.ok owners, _, _, rfl, rfl, h.validatorsTaken, hafter,
      congrArg (· ++ [.ownersGrouped owners.length pool.length]) h.journal⟩

end Terms

section Runs

variable [Randomizer ρ] [Randomizer σ]

/-- Randomizers that are as `R` says lead a strategy to the same batches of validators, if it groups
any. -/
def Staking.SameBatches (R : Option ρ → Option σ → Prop) : Staking → Prop
  | .direct limit | .mixed _ _ limit => WalletRules.SameBatches limit R
  | .delegated _ => True

namespace Plan

open Drawing

variable {plan : Plan} {p : Progress ρ} {q : Progress σ}

theorem keepInStep_draw (hR : plan.staking.SameBatches R) :
    KeepInStep R (plan.draw (ρ := ρ)) (plan.draw (ρ := σ)) := by
  obtain ⟨t, staking⟩ := plan
  unfold draw
  refine keepInStep_bind (t.keepInStep_drawValidators _) fun validators => ?_
  refine keepInStep_bind (t.keepInStep_drawValidators _) fun observers => ?_
  cases staking with
  | direct limit =>
    refine keepInStep_bind (t.keepInStep_drawOwners hR _) fun wallets => ?_
    refine keepInStep_bind (t.keepInStep_drawWallets _) fun additional => ?_
    exact keepInStep_pure _
  | delegated pool =>
    refine keepInStep_bind (t.keepInStep_drawWallets _) fun wallets => ?_
    refine keepInStep_bind (t.keepInStep_drawWallets _) fun delegators => ?_
    refine keepInStep_bind (t.keepInStep_drawWallets _) fun additional => ?_
    exact keepInStep_pure _
  | mixed pool k limit =>
    refine keepInStep_bind (t.keepInStep_drawWallets _) fun delegators => ?_
    refine keepInStep_bind (t.keepInStep_drawWallets _) fun additional => ?_
    refine keepInStep_bind (t.keepInStep_drawOwners hR _) fun wallets => ?_
    exact keepInStep_pure _

theorem inStep_generate (hR : plan.staking.SameBatches R) (h : p.InStep R q) :
    SameEnd (Progress.InStep R) (plan.generate p) (plan.generate q) := by
  unfold generate
  rcases keepInStep_draw hR p q h with ⟨hp, hq⟩ | ⟨result, p', q', hp, hq, hafter⟩
  · rw [hp, hq]
    exact .inl ⟨rfl, rfl⟩
  rw [hp, hq]
  cases result with
  | error e => exact .inr ⟨.error e, p', q', rfl, rfl, hafter⟩
  | ok m =>
    dsimp only
    cases plan.settle m with
    | error e => exact .inr ⟨.error e, p', q', rfl, rfl, hafter⟩
    | ok b =>
      exact .inr ⟨.ok b, _, _, rfl, rfl, hafter.validatorsTaken, hafter.wallets,
        congrArg (· ++ [plan.event b]) hafter.journal⟩

theorem inStep_after (hR : plan.staking.SameBatches R) (h : p.InStep R q) (n : Nat) :
    Option.Rel (Progress.InStep R) (plan.after n p) (plan.after n q) := by
  induction n generalizing p q with
  | zero => exact .some h
  | succ n ih =>
    rw [after, after]
    rcases inStep_generate hR h with ⟨hp, hq⟩ | ⟨result, p', q', hp, hq, hafter⟩
    · rw [hp, hq]
      exact .none
    · rw [hp, hq]
      exact ih hafter

theorem journal_of_inStep (hR : plan.staking.SameBatches R) (h : p.InStep R q) (n : Nat) :
    (plan.after n p).map (·.journal) = (plan.after n q).map (·.journal) := by
  have hsame := inStep_after hR h n
  generalize plan.after n p = x at hsame ⊢
  generalize plan.after n q = y at hsame ⊢
  cases hsame with
  | none => rfl
  | some hin => rw [Option.map_some, Option.map_some, hin.journal]

theorem outcome_of_inStep (hR : plan.staking.SameBatches R) (h : p.InStep R q) (n : Nat) :
    plan.outcome p n = plan.outcome q n := by
  have hsame := inStep_after hR h n
  unfold outcome
  generalize plan.after n p = x at hsame ⊢
  generalize plan.after n q = y at hsame ⊢
  cases hsame with
  | none => rfl
  | some hin =>
    rw [Option.bind_some, Option.bind_some]
    rcases inStep_generate hR hin with ⟨hp, hq⟩ | ⟨result, p', q', hp, hq, _⟩
    · rw [hp, hq, Option.map_none, Option.map_none]
    · rw [hp, hq, Option.map_some, Option.map_some]

end Plan

end Runs

end Genesis
