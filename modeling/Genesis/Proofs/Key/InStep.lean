import Genesis.Proofs.Key.Search
import Genesis.Proofs.Random
import Genesis.Proofs.Steps

/-!
Two draws from the same stream whose randomizers may differ. As long as the batches of validators
have the same sizes, they find the same keys at the same places.
-/

namespace Genesis

variable {ρ σ : Type}

/-- Neither of two calls ever ends, or they have the same result and leave states behind that are as
`S` says. -/
def SameEnd {α κ τ : Type} (S : κ → τ → Prop) (x : Option (Except Error α × κ))
    (y : Option (Except Error α × τ)) : Prop :=
  (x = none ∧ y = none) ∨ ∃ result c d, x = some (result, c) ∧ y = some (result, d) ∧ S c d

/-- Two draws are in step: the same pairs of the stream lie behind them and it is the turn of the
same shard, while their randomizers are as `R` says. -/
structure WalletCursor.InStep (R : ρ → σ → Prop) (c : WalletCursor ρ) (d : WalletCursor σ) :
    Prop where
  taken : c.taken = d.taken
  shard : c.shard = d.shard
  randomizer : R c.randomizer d.randomizer

namespace WalletRules

variable {R : ρ → σ → Prop} {c : WalletCursor ρ} {d : WalletCursor σ}

theorem inStep_next (rules : WalletRules) (h : c.InStep R d) :
    SameEnd (WalletCursor.InStep R) (rules.next c) (rules.next d) := by
  obtain ⟨taken, shard, a⟩ := c
  obtain ⟨taken', shard', b⟩ := d
  obtain ⟨rfl, rfl, hR⟩ := h
  unfold next
  dsimp only
  rcases rules.search shard taken with _ | ⟨e | w, j⟩
  · exact .inl ⟨rfl, rfl⟩
  · exact .inr ⟨_, _, _, rfl, rfl, rfl, rfl, hR⟩
  · exact .inr ⟨_, _, _, rfl, rfl, rfl, rfl, hR⟩

theorem inStep_walletsFrom (rules : WalletRules) (index n : Nat) (h : c.InStep R d) :
    SameEnd (WalletCursor.InStep R) (rules.walletsFrom index n c)
      (rules.walletsFrom index n d) := by
  induction n generalizing index c d with
  | zero => exact .inr ⟨_, _, _, rfl, rfl, h⟩
  | succ n ih =>
    unfold walletsFrom
    rcases rules.inStep_next h with ⟨hc, hd⟩ | ⟨result, c₁, d₁, hc, hd, hafter⟩
    · rw [hc, hd]
      exact .inl ⟨rfl, rfl⟩
    rw [hc, hd]
    cases result with
    | error e => exact .inr ⟨_, _, _, rfl, rfl, hafter⟩
    | ok w =>
      dsimp only
      rcases ih (index + 1) hafter with ⟨hc, hd⟩ | ⟨others, c₂, d₂, hc, hd, hend⟩
      · rw [hc, hd]
        exact .inl ⟨rfl, rfl⟩
      rw [hc, hd]
      cases others with
      | error e => exact .inr ⟨_, _, _, rfl, rfl, hend⟩
      | ok ws => exact .inr ⟨_, _, _, rfl, rfl, hend⟩

section Batches

variable [Randomizer ρ] [Randomizer σ] {limit : Nat}

theorem batch_of_ne (h : limit ≠ 1) (a : ρ) :
    batch limit a =
      ((Randomizer.below a (limit - 1)).1 + 1, (Randomizer.below a (limit - 1)).2) :=
  if_neg h

/-- Randomizers that are as `R` says make batches of one size, and are so again afterwards. -/
def SameBatches (limit : Nat) (R : ρ → σ → Prop) : Prop :=
  ∀ a b, R a b → (batch limit a).1 = (batch limit b).1 ∧ R (batch limit a).2 (batch limit b).2

theorem sameBatches_one (R : ρ → σ → Prop) : SameBatches 1 R := fun _ _ h => ⟨rfl, h⟩

theorem sameBatches_alike (limit : Nat) :
    SameBatches limit (Randomizer.Alike (ρ := ρ) (σ := σ)) := by
  rcases eq_or_ne limit 1 with rfl | hne
  · exact sameBatches_one _
  · intro a b h
    rw [batch_of_ne hne, batch_of_ne hne]
    exact ⟨congrArg (· + 1) (h.answer _), h.next _⟩

theorem SameBatches.option (h : SameBatches limit R) : SameBatches limit (Option.Rel R) := by
  rcases eq_or_ne limit 1 with rfl | hne
  · exact sameBatches_one _
  · intro a b hab
    rw [batch_of_ne hne, batch_of_ne hne]
    cases hab with
    | none => exact ⟨rfl, .none⟩
    | some hab =>
      have hsame := h _ _ hab
      rw [batch_of_ne hne, batch_of_ne hne] at hsame
      exact ⟨hsame.1, .some hsame.2⟩

theorem inStep_ownersFrom (rules : WalletRules) (hR : SameBatches limit R) (index : Nat)
    (pool : List BlsKey) (h : c.InStep R d) :
    SameEnd (WalletCursor.InStep R) (rules.ownersFrom limit index pool c)
      (rules.ownersFrom limit index pool d) := by
  induction hn : pool.length using Nat.strongRecOn generalizing index pool c d with
  | ind n ih =>
    cases pool with
    | nil =>
      rw [ownersFrom, ownersFrom]
      exact .inr ⟨_, _, _, rfl, rfl, h⟩
    | cons first others =>
      obtain ⟨hsize, hbatch⟩ := hR _ _ h.randomizer
      have hdrawn : WalletCursor.InStep R { c with randomizer := (batch limit c.randomizer).2 }
          { d with randomizer := (batch limit d.randomizer).2 } := ⟨h.taken, h.shard, hbatch⟩
      rw [ownersFrom, ownersFrom, ← hsize]
      rcases rules.inStep_next hdrawn with ⟨hc, hd⟩ | ⟨result, c₁, d₁, hc, hd, hafter⟩
      · rw [hc, hd]
        exact .inl ⟨rfl, rfl⟩
      rw [hc, hd]
      cases result with
      | error e => exact .inr ⟨_, _, _, rfl, rfl, hafter⟩
      | ok w =>
        -- a batch takes at least one validator, so that fewer are left
        have hless : ((first :: others).drop (batch limit c.randomizer).1).length < n := by
          have hpos := batch_pos limit c.randomizer
          rw [← hn, List.length_drop, List.length_cons]
          omega
        dsimp only
        rcases ih _ hless (index + 1) _ hafter rfl with
          ⟨hc, hd⟩ | ⟨owners, c₂, d₂, hc, hd, hend⟩
        · rw [hc, hd]
          exact .inl ⟨rfl, rfl⟩
        rw [hc, hd]
        cases owners with
        | error e => exact .inr ⟨_, _, _, rfl, rfl, hend⟩
        | ok ws => exact .inr ⟨_, _, _, rfl, rfl, hend⟩

theorem inStep_owners (rules : WalletRules) (hR : SameBatches limit R) (pool : List BlsKey)
    (h : c.InStep R d) :
    SameEnd (WalletCursor.InStep R) (rules.owners pool limit c) (rules.owners pool limit d) := by
  unfold owners
  split
  · exact .inr ⟨_, _, _, rfl, rfl, h⟩
  · exact rules.inStep_ownersFrom hR 0 pool h

end Batches

end WalletRules

end Genesis
