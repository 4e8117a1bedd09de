import Genesis.Proofs.Key.Calls
import Genesis.Proofs.Random
import Genesis.Proofs.Strategy.Verdict

/-!
The owners that a pool of validators is grouped under: how many validators each of them gets, what
the randomizer is asked for on the way, and when there are no owners to be had.
-/

namespace Genesis

open Randomizer

namespace WalletRules

/-- No owner gets more validators than this. -/
def largestBatch (limit : Nat) : Nat := if limit = 1 then 1 else limit - 1

/-- The bounds that a randomizer is asked for before the keys of `n` owners are drawn. -/
def questions (limit n : Nat) : List Nat := if limit = 1 then [] else List.replicate n (limit - 1)

variable {ρ : Type} [Randomizer ρ] {rules : WalletRules} {limit : Nat}

theorem questions_zero (limit : Nat) : questions limit 0 = [] := by
  unfold questions
  split <;> rfl

theorem ask_questions_succ (limit n : Nat) (r : ρ) :
    ask r (questions limit (n + 1)) = ask (batch limit r).2 (questions limit n) := by
  unfold questions batch
  split
  · rfl
  · rw [List.replicate_succ, ask]

theorem batch_le [LawfulRandomizer ρ] (hlimit : 1 ≤ limit) (r : ρ) :
    (batch limit r).1 ≤ largestBatch limit := by
  unfold batch largestBatch
  split
  · exact Nat.le_refl 1
  · have hpos : 0 < limit - 1 := by omega
    exact LawfulRandomizer.below_lt r hpos

/-- Owners of a pool, none of which has more than its batch, nor anything but a stake. -/
structure Grouped (rules : WalletRules) (limit : Nat) (pool : List BlsKey) (ws : List WalletKey) :
    Prop extends rules.Owners pool ws where
  length_le : ws.length ≤ pool.length
  blsKeys_le : ∀ w ∈ ws, w.blsKeys.length ≤ largestBatch limit
  balance_eq : ∀ w ∈ ws, w.balance = 0
  totalStaked_eq : totalStaked ws = rules.nodePrice * pool.length

/-- What comes of grouping a pool: all its validators have owners, or the search for the key of one
more owner fails or never ends. For every owner that was begun with, the randomizer has been asked
once. -/
inductive Groups (rules : WalletRules) (limit : Nat) (pool : List BlsKey) (c : WalletCursor ρ) :
    Option (Except Error (List WalletKey) × WalletCursor ρ) → Prop
  | grouped {ws : List WalletKey} {c' : WalletCursor ρ} (grouped : rules.Grouped limit pool ws)
      (asked : c'.randomizer = ask c.randomizer (questions limit ws.length)) :
      Groups rules limit pool c (some (.ok ws, c'))
  | stopped {e : Error} {found : List WalletKey} {j k : Nat} {c' : WalletCursor ρ}
      (lt : found.length < pool.length) (finds : rules.Finds c.shard c.taken found c'.shard j)
      (first : rules.First c'.shard j k (.error e)) (taken_eq : c'.taken = k + 1)
      (asked : c'.randomizer = ask c.randomizer (questions limit (found.length + 1))) :
      Groups rules limit pool c (some (.error (.atIndex found.length e), c'))
  | endless {found : List WalletKey} {shard j : Nat} (lt : found.length < pool.length)
      (finds : rules.Finds c.shard c.taken found shard j) (passed : rules.Endless shard j) :
      Groups rules limit pool c none

section Draw

variable {c c' : WalletCursor ρ} {index : Nat} {pool : List BlsKey} {ws : List WalletKey}

/-- A batch takes at least one validator, so the owners that follow have a shorter pool. -/
theorem length_cons_lt_of_drop {r : ρ} {w : WalletKey} {found : List WalletKey}
    (h : found.length < (pool.drop (batch limit r).1).length) :
    (w :: found).length < pool.length := by
  have hpos := batch_pos limit r
  rw [List.length_drop] at h
  rw [List.length_cons]
  omega

theorem blsKeys_le_of_ownersFrom [LawfulRandomizer ρ] (hlimit : 1 ≤ limit)
    (h : rules.ownersFrom limit index pool c = some (.ok ws, c')) :
    ∀ w ∈ ws, w.blsKeys.length ≤ largestBatch limit ∧ w.balance = 0 := by
  fun_induction ownersFrom rules limit index pool c generalizing ws with
  | case1 =>
    cases h
    exact List.forall_mem_nil _
  | case2 => cases h
  | case3 => cases h
  | case4 => cases h
  | case5 => cases h
  | case6 =>
    rename_i start first others size owned w c₁ hnext owner owners c₂ hrest ih
    cases h
    refine List.forall_mem_cons.mpr ⟨⟨?_, (next_ok hnext).balance_eq⟩, ih hrest⟩
    have htaken : owned.length ≤ size := List.length_take_le _ _
    exact htaken.trans (batch_le hlimit start.randomizer)

theorem asked_of_ownersFrom (h : rules.ownersFrom limit index pool c = some (.ok ws, c')) :
    c'.randomizer = ask c.randomizer (questions limit ws.length) := by
  fun_induction ownersFrom rules limit index pool c generalizing ws with
  | case1 =>
    cases h
    rw [List.length_nil, questions_zero, ask]
  | case2 => cases h
  | case3 => cases h
  | case4 => cases h
  | case5 => cases h
  | case6 =>
    rename_i hnext _ _ _ hrest ih
    cases h
    rw [ih hrest, randomizer_of_next hnext, List.length_cons, ask_questions_succ]

theorem ownersFrom_error {e : Error}
    (h : rules.ownersFrom limit index pool c = some (.error e, c')) :
    ∃ found cause j k, e = .atIndex (index + found.length) cause ∧ found.length < pool.length ∧
      rules.Finds c.shard c.taken found c'.shard j ∧ rules.First c'.shard j k (.error cause) ∧
      c'.taken = k + 1 ∧ c'.randomizer = ask c.randomizer (questions limit (found.length + 1)) := by
  fun_induction ownersFrom rules limit index pool c with
  | case1 => cases h
  | case2 => cases h
  | case3 index start first others cause c₁ hnext =>
    cases h
    obtain ⟨k, hfirst, rfl⟩ := next_eq_error_iff.mp hnext
    refine ⟨[], cause, start.taken, k, rfl, Nat.zero_lt_succ _, .nothing, hfirst, rfl, ?_⟩
    rw [List.length_nil, ask_questions_succ, questions_zero, ask]
  | case4 => cases h
  | case5 index start first others size w c₁ hnext e' c₂ hrest ih =>
    cases h
    obtain ⟨found, cause, j, k, rfl, hlt, hfinds, hfirst, htaken, hasked⟩ := ih hrest
    have hfound := hfinds.of_next hnext
    refine ⟨w :: found, cause, j, k, ?_, length_cons_lt_of_drop hlt, hfound, hfirst, htaken, ?_⟩
    · rw [List.length_cons, Nat.add_assoc, Nat.add_comm 1]
    · rw [hasked, randomizer_of_next hnext, List.length_cons,
        ask_questions_succ limit (found.length + 1)]
  | case6 => cases h

theorem ownersFrom_none (h : rules.ownersFrom limit index pool c = none) :
    ∃ found shard j, found.length < pool.length ∧ rules.Finds c.shard c.taken found shard j ∧
      rules.Endless shard j := by
  fun_induction ownersFrom rules limit index pool c with
  | case1 => cases h
  | case2 index start first others hnext =>
    have hendless := next_eq_none_iff.mp hnext
    exact ⟨[], start.shard, start.taken, Nat.zero_lt_succ _, .nothing, hendless⟩
  | case3 => cases h
  | case4 index start first others size w c₁ hnext hrest ih =>
    obtain ⟨found, shard, j, hlt, hfinds, hendless⟩ := ih hrest
    have hfound := hfinds.of_next hnext
    exact ⟨w :: found, shard, j, length_cons_lt_of_drop hlt, hfound, hendless⟩
  | case5 => cases h
  | case6 => cases h

theorem groups_owners [LawfulRandomizer ρ] (hlimit : 1 ≤ limit) (pool : List BlsKey)
    (c : WalletCursor ρ) : rules.Groups limit pool c (rules.owners pool limit c) := by
  unfold owners
  rw [if_neg (Nat.not_lt.mpr hlimit)]
  rcases hresult : rules.ownersFrom limit 0 pool c with _ | ⟨e | ws, c'⟩
  · obtain ⟨found, shard, j, hlt, hfinds, hendless⟩ := ownersFrom_none hresult
    exact .endless hlt hfinds hendless
  · obtain ⟨found, cause, j, k, rfl, hlt, hfinds, hfirst, htaken, hasked⟩ :=
      ownersFrom_error hresult
    rw [Nat.zero_add]
    exact .stopped hlt hfinds hfirst htaken hasked
  · have howners := ownersFrom_ok hresult
    have hsize := blsKeys_le_of_ownersFrom hlimit hresult
    exact .grouped ⟨howners, howners.length_le, fun w hw => (hsize w hw).1,
      fun w hw => (hsize w hw).2, howners.totalStaked_eq⟩ (asked_of_ownersFrom hresult)

end Draw

end WalletRules

open WalletRules in
/-- However a source answers that keeps to its bounds, validators are grouped under owners without
loss, each number of them fits in 64 bits, and what the owners of a mixed strategy stake is the
price of all their validators. -/
theorem owners_group_pool {ρ : Type} [Randomizer ρ] [LawfulRandomizer ρ] (rules : WalletRules)
    (pool : List BlsKey) {limit : Nat} (positive : 1 ≤ limit) (fits : limit < UInt64.size)
    (c : WalletCursor ρ) :
    LawfulRandomizer Seeded ∧
      (∀ r : ρ, 0 < (batch limit r).1 ∧ (batch limit r).1 ≤ largestBatch limit ∧
        (batch limit r).1 < UInt64.size) ∧
      rules.Groups limit pool c (rules.owners pool limit c) ∧
      ∀ (t : Terms) (p p' : Progress ρ) (ws : List WalletKey),
        (t.drawOwners pool limit).run p = some (.ok ws, p') →
          totalStaked ws = t.stake pool.length := by
  refine ⟨inferInstance, fun r => ?_, groups_owners positive pool c, fun t p p' ws h => ?_⟩
  · exact ⟨batch_pos limit r, batch_le positive r, batch_lt fits r⟩
  · exact (Terms.drawOwners_ok h).totalStaked_eq

open WalletRules in
/-- Three validators under owners of at most four, by the rules of the sample. -/
theorem seeded_owners_group_pool : ∃ plan start ws ws', ∃ c : WalletCursor (Recorded Seeded),
    ∃ p p' : Progress (Recorded Seeded),
    (Request.sample .mixed .validator).plan = some (.ok (plan, start)) ∧
      plan.terms.walletRules.owners (List.replicate 3 default) 4
        { randomizer := ⟨.ofSeed 7, []⟩ } = some (.ok ws, c) ∧
      plan.terms.walletRules.Grouped 4 (List.replicate 3 default) ws ∧
      c.randomizer.asked = List.replicate ws.length 3 ∧
      (plan.terms.drawOwners (List.replicate 3 default) 4).run p = some (.ok ws', p') ∧
      totalStaked ws' = plan.terms.stake 3 := by
  obtain ⟨plan, start, hplan⟩ := Request.exists_plan_sample .mixed .validator
  obtain ⟨_, hstart⟩ := Request.plan_ok hplan
  have hplentiful := Request.plentiful_sample hplan
  have hpos : 0 < plan.terms.walletRules.shards := Nat.zero_lt_of_lt hstart
  obtain ⟨_, _, hgroups, hdraw⟩ :=
    owners_group_pool plan.terms.walletRules (List.replicate 3 default) (by decide : 1 ≤ 4)
      (by decide) ({ randomizer := ⟨.ofSeed 7, []⟩ } : WalletCursor (Recorded Seeded))
  obtain ⟨ws, c, hws⟩ :
      ∃ ws c, plan.terms.walletRules.owners (List.replicate 3 default) 4
        ({ randomizer := ⟨.ofSeed 7, []⟩ } : WalletCursor (Recorded Seeded)) = some (.ok ws, c) :=
    exists_ownersFrom hplentiful.wallets plan.terms.walletFormat.size_pos hplentiful.ends hpos 4 0 _
  obtain ⟨ws', p', hws', _⟩ := hplentiful.succeeds_drawOwners (List.replicate 3 default)
    (by decide : 0 < 4)
    ({ wallets := { randomizer := some ⟨.ofSeed 7, []⟩ } } : Progress (Recorded Seeded)) hpos
  rw [hws] at hgroups
  cases hgroups with
  | grouped hgrouped hasked =>
    refine ⟨plan, start, ws, ws', c, _, p', hplan, hws, hgrouped, ?_, hws', hdraw _ _ _ _ hws'⟩
    rw [hasked, asked_ask]
    rfl

end Genesis
