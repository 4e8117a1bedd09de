import Genesis.Proofs.Key.Drawn
import Genesis.Proofs.Key.Format
import Genesis.Strategy.Draw

/-!
The keys that one generation draws: how many there are of each kind, and when a draw is sure to
succeed.
-/

namespace Genesis

namespace Drawing

variable {ρ α β : Type} {x : Drawing ρ α} {f : α → Drawing ρ β} {p p' : Progress ρ}

theorem run_bind (x : Drawing ρ α) (f : α → Drawing ρ β) (p : Progress ρ) :
    (x >>= f).run p =
      match x.run p with
      | none => none
      | some (.error e, p') => some (.error e, p')
      | some (.ok a, p') => (f a).run p' := by
  rw [ExceptT.run_bind]
  rcases h : x.run p with _ | ⟨e | a, p'⟩
  · simp only [bind, StateT.bind, h, Option.bind_none]
  · simp only [bind, StateT.bind, h, Option.bind_some]
    rfl
  · simp only [bind, StateT.bind, h, Option.bind_some]

theorem run_bind_ok {b : β} :
    (x >>= f).run p = some (.ok b, p') ↔
      ∃ a q, x.run p = some (.ok a, q) ∧ (f a).run q = some (.ok b, p') := by
  rw [run_bind]
  constructor
  · intro h
    split at h
    · cases h
    · cases h
    · rename_i a q hx
      exact ⟨a, q, hx, h⟩
  · rintro ⟨a, q, hx, hf⟩
    rw [hx]
    exact hf

theorem run_pure_ok {a b : α} :
    (pure a : Drawing ρ α).run p = some (.ok b, p') ↔ a = b ∧ p = p' := by
  constructor
  · intro h
    cases h
    exact ⟨rfl, rfl⟩
  · rintro ⟨rfl, rfl⟩
    rfl

/-- From where `P` holds the draw succeeds, and `P` holds again. -/
def Succeeds (P : Progress ρ → Prop) (x : Drawing ρ α) : Prop :=
  ∀ p, P p → ∃ a p', x.run p = some (.ok a, p') ∧ P p'

theorem succeeds_pure (P : Progress ρ → Prop) (a : α) : Succeeds P (pure a : Drawing ρ α) :=
  fun p hp => ⟨a, p, rfl, hp⟩

theorem succeeds_bind {P : Progress ρ → Prop} (hx : Succeeds P x)
    (hf : ∀ a, Succeeds P (f a)) : Succeeds P (x >>= f) := by
  intro p hp
  obtain ⟨a, q, hxa, hq⟩ := hx p hp
  obtain ⟨b, p', hfb, hp'⟩ := hf a q hq
  exact ⟨b, p', run_bind_ok.mpr ⟨a, q, hxa, hfb⟩, hp'⟩

end Drawing

namespace Terms

variable {ρ : Type} {t : Terms} {p p' : Progress ρ} {n : Nat}

theorem run_drawValidators (t : Terms) (n : Nat) (p : Progress ρ) :
    (t.drawValidators n).run p =
      some ((t.validatorKeys.validatorKeysFrom 0 n p.validatorsTaken).1,
        { p with validatorsTaken :=
                  (t.validatorKeys.validatorKeysFrom 0 n p.validatorsTaken).2 }) := rfl

theorem run_drawWallets (t : Terms) (n : Nat) (p : Progress ρ) :
    (t.drawWallets n).run p = (t.walletRules.walletsFrom 0 n p.wallets).map fun r =>
      (r.1, { p with wallets := r.2 }) := by
  unfold drawWallets WalletRules.wallets
  dsimp only [ExceptT.run]
  cases t.walletRules.walletsFrom 0 n p.wallets with
  | none => rfl
  | some r => rfl

theorem drawValidators_ok {keys : List BlsKey}
    (h : (t.drawValidators n).run p = some (.ok keys, p')) : t.validatorKeys.Keys n keys := by
  rw [run_drawValidators] at h
  obtain ⟨hkeys, _⟩ := Prod.mk.inj (Option.some.inj h)
  exact KeySource.validatorKeysFrom_ok (Prod.ext hkeys rfl)

theorem drawWallets_ok {ws : List WalletKey} (h : (t.drawWallets n).run p = some (.ok ws, p')) :
    t.walletRules.Wallets n ws := by
  rw [run_drawWallets] at h
  obtain ⟨⟨result, c⟩, hdraw, hresult⟩ := Option.map_eq_some_iff.mp h
  cases hresult
  exact WalletRules.walletsFrom_ok hdraw

theorem drawOwners_ok [Randomizer ρ] {pool : List BlsKey} {limit : Nat} {ws : List WalletKey}
    (h : (t.drawOwners pool limit).run p = some (.ok ws, p')) :
    t.walletRules.Owners pool ws := by
  unfold drawOwners at h
  dsimp only [ExceptT.run] at h
  split at h
  · cases h
  · cases h
  · rename_i howners
    cases h
    unfold WalletRules.owners at howners
    split at howners
    · cases howners
    · exact WalletRules.ownersFrom_ok howners

end Terms

def Progress.InTurn {ρ : Type} (t : Terms) (p : Progress ρ) : Prop :=
  p.wallets.shard < t.walletRules.shards

/-- Neither stream of keys ever stops a draw: all keys can be written out and have the length of
their format, and every search for a wallet comes to an end. -/
structure Terms.Plentiful (t : Terms) : Prop where
  validators : t.validatorKeys.Writes t.validatorFormat.size
  wallets : t.walletRules.keys.Writes t.walletFormat.size
  ends : t.walletRules.Ends

namespace Terms.Plentiful

open Drawing

variable {ρ : Type} {t : Terms}

theorem succeeds_drawValidators (h : t.Plentiful) (n : Nat) :
    Succeeds (ρ := ρ) (Progress.InTurn t) (t.drawValidators n) := by
  intro p hp
  obtain ⟨keys, j, hkeys⟩ := h.validators.exists_validatorKeysFrom 0 n p.validatorsTaken
  exact ⟨keys, { p with validatorsTaken := j }, by rw [Terms.run_drawValidators, hkeys], hp⟩

theorem succeeds_drawWallets (h : t.Plentiful) (n : Nat) :
    Succeeds (ρ := ρ) (Progress.InTurn t) (t.drawWallets n) := by
  intro p hp
  obtain ⟨ws, c, hws⟩ :=
    WalletRules.exists_walletsFrom h.wallets t.walletFormat.size_pos h.ends hp 0 n
  have hc : c.shard < t.walletRules.shards := WalletRules.shard_lt_of_walletsFrom hws hp
  exact ⟨ws, { p with wallets := c }, by rw [Terms.run_drawWallets, hws]; rfl, hc⟩

theorem succeeds_drawOwners [Randomizer ρ] (h : t.Plentiful) (pool : List BlsKey) {limit : Nat}
    (hl : 0 < limit) : Succeeds (ρ := ρ) (Progress.InTurn t) (t.drawOwners pool limit) := by
  intro p hp
  obtain ⟨ws, c, hws⟩ :=
    WalletRules.exists_ownersFrom h.wallets t.walletFormat.size_pos h.ends hp limit 0 pool
  have hc : c.shard < t.walletRules.shards := WalletRules.shard_lt_of_ownersFrom hws hp
  have howners : t.walletRules.owners pool limit p.wallets = some (.ok ws, c) := by
    unfold WalletRules.owners
    rw [if_neg (Nat.not_lt.mpr hl), hws]
  refine ⟨ws, { p with wallets := c
                       journal := p.journal ++ [.ownersGrouped ws.length pool.length] }, ?_, hc⟩
  unfold Terms.drawOwners
  dsimp only [ExceptT.run]
  rw [howners]

end Terms.Plentiful

def Staking.Drew (t : Terms) (m : Material) : Staking → Prop
  | .direct _ => t.walletRules.Owners m.validators m.wallets ∧ m.delegators = []
  | .delegated pool =>
    t.walletRules.Wallets m.validators.length m.wallets ∧
      t.walletRules.Wallets pool.delegators m.delegators
  | .mixed pool k _ =>
    t.walletRules.Owners (m.validators.drop k) m.wallets ∧
      t.walletRules.Wallets pool.delegators m.delegators

def Staking.Groups : Staking → Prop
  | .direct limit | .mixed _ _ limit => 0 < limit
  | .delegated _ => True

structure Plan.Drew (plan : Plan) (m : Material) : Prop where
  validators : plan.terms.validatorKeys.Keys plan.terms.validators m.validators
  observers : plan.terms.validatorKeys.Keys plan.terms.observers m.observers
  additional : plan.terms.walletRules.Wallets plan.terms.additional m.additional
  staking : plan.staking.Drew plan.terms m

namespace Plan

open Drawing

variable {ρ : Type} [Randomizer ρ] {plan : Plan} {p p' : Progress ρ} {m : Material}

theorem draw_ok (h : plan.draw.run p = some (.ok m, p')) : plan.Drew m := by
  obtain ⟨t, staking⟩ := plan
  unfold draw at h
  obtain ⟨validators, p₁, hv, h⟩ := run_bind_ok.mp h
  obtain ⟨observers, p₂, ho, h⟩ := run_bind_ok.mp h
  cases staking with
  | direct limit =>
    obtain ⟨wallets, p₃, hw, h⟩ := run_bind_ok.mp h
    obtain ⟨additional, p₄, ha, h⟩ := run_bind_ok.mp h
    obtain ⟨rfl, _⟩ := run_pure_ok.mp h
    exact ⟨Terms.drawValidators_ok hv, Terms.drawValidators_ok ho, Terms.drawWallets_ok ha,
      Terms.drawOwners_ok hw, rfl⟩
  | delegated pool =>
    obtain ⟨wallets, p₃, hw, h⟩ := run_bind_ok.mp h
    obtain ⟨delegators, p₄, hd, h⟩ := run_bind_ok.mp h
    obtain ⟨additional, p₅, ha, h⟩ := run_bind_ok.mp h
    obtain ⟨rfl, _⟩ := run_pure_ok.mp h
    exact ⟨Terms.drawValidators_ok hv, Terms.drawValidators_ok ho, Terms.drawWallets_ok ha,
      Terms.drawWallets_ok hw, Terms.drawWallets_ok hd⟩
  | mixed pool k limit =>
    obtain ⟨delegators, p₃, hd, h⟩ := run_bind_ok.mp h
    obtain ⟨additional, p₄, ha, h⟩ := run_bind_ok.mp h
    obtain ⟨wallets, p₅, hw, h⟩ := run_bind_ok.mp h
    obtain ⟨rfl, _⟩ := run_pure_ok.mp h
    exact ⟨Terms.drawValidators_ok hv, Terms.drawValidators_ok ho, Terms.drawWallets_ok ha,
      Terms.drawOwners_ok hw, Terms.drawWallets_ok hd⟩

theorem succeeds_draw (h : plan.terms.Plentiful) (hg : plan.staking.Groups) :
    Succeeds (ρ := ρ) (Progress.InTurn plan.terms) plan.draw := by
  obtain ⟨t, staking⟩ := plan
  unfold draw
  refine succeeds_bind (h.succeeds_drawValidators _) fun validators => ?_
  refine succeeds_bind (h.succeeds_drawValidators _) fun observers => ?_
  cases staking with
  | direct limit =>
    refine succeeds_bind (h.succeeds_drawOwners _ hg) fun wallets => ?_
    refine succeeds_bind (h.succeeds_drawWallets _) fun additional => ?_
    exact succeeds_pure _ _
  | delegated pool =>
    refine succeeds_bind (h.succeeds_drawWallets _) fun wallets => ?_
    refine succeeds_bind (h.succeeds_drawWallets _) fun delegators => ?_
    refine succeeds_bind (h.succeeds_drawWallets _) fun additional => ?_
    exact succeeds_pure _ _
  | mixed pool k limit =>
    refine succeeds_bind (h.succeeds_drawWallets _) fun delegators => ?_
    refine succeeds_bind (h.succeeds_drawWallets _) fun additional => ?_
    refine succeeds_bind (h.succeeds_drawOwners _ hg) fun wallets => ?_
    exact succeeds_pure _ _

end Plan

end Genesis
