import Genesis.Proofs.Key.Places
import Genesis.Proofs.Key.Turns

/-!
Calls for wallets account for every pair of the stream: each call takes the pairs that come behind
those of the call before it, and goes on with the turns from there.
-/

namespace Genesis

namespace WalletRules

variable {ρ : Type} {rules : WalletRules}

section Segments

variable [Randomizer ρ] {c : WalletCursor ρ}

def segments (rules : WalletRules) (c : WalletCursor ρ) : List Call → List (List Nat)
  | [] => []
  | call :: calls =>
    match rules.perform c call with
    | none => []
    | some (_, next) => List.range' c.taken (next.taken - c.taken) :: rules.segments next calls

theorem flatten_segments {calls : List Call} {last : WalletCursor ρ}
    (h : rules.performAll c calls = some last) :
    (rules.segments c calls).flatten = List.range' c.taken (last.taken - c.taken) := by
  induction calls generalizing c with
  | nil =>
    cases h
    simp only [segments, List.flatten_nil, Nat.sub_self, List.range'_zero]
  | cons call calls ih =>
    unfold performAll at h
    unfold segments
    rcases hperform : rules.perform c call with _ | ⟨given, next⟩
    · rw [hperform] at h
      cases h
    · rw [hperform] at h
      have hfirst : c.taken ≤ next.taken := (draws_perform hperform).taken.le
      have hothers : next.taken ≤ last.taken := (draws_performAll h).taken.le
      dsimp only
      rw [List.flatten_cons, ih h]
      -- both stretches are told by their lengths, so that one is seen to follow the other
      obtain ⟨n, hn⟩ := Nat.exists_eq_add_of_le hfirst
      obtain ⟨m, hm⟩ := Nat.exists_eq_add_of_le hothers
      rw [hm, hn, Nat.add_sub_cancel_left, Nat.add_sub_cancel_left, Nat.add_assoc,
        Nat.add_sub_cancel_left]
      exact List.range'_append_1

/-- What some calls leave behind that all come to an end, whatever became of them, and how any other
call is answered after them. -/
structure Accounted (rules : WalletRules) (start : WalletCursor ρ) (calls : List Call)
    (last : WalletCursor ρ) : Prop where
  /-- They take the pairs before the place that they come to, one stretch behind the other. -/
  segments : (rules.segments start calls).flatten = List.range last.taken
  shard_eq : last.shard = (rules.completedAll start calls).length % rules.shards
  answers : ∀ call, rules.Answers last call (rules.completed last call) (rules.perform last call)

theorem accounted {start last : WalletCursor ρ} {calls : List Call} (hpos : 0 < rules.shards)
    (hshard : start.shard = 0) (htaken : start.taken = 0)
    (h : rules.performAll start calls = some last) : rules.Accounted start calls last := by
  refine ⟨?_, ?_, answers_perform _⟩
  · rw [flatten_segments h, htaken, List.range_eq_range', Nat.sub_zero]
  · rw [(draws_performAll h).shard_eq (hshard ▸ hpos), hshard, Nat.zero_add]

end Segments

end WalletRules

namespace KeySource

def faultyPublicKeys : List (Except Error Bytes) :=
  [.ok [1], .ok [0], .ok [1], .ok [0], .ok [], .error (.badKey "public")]

def faultyPrivateKeys : List (Except Error Bytes) :=
  [.error (.badKey "skipped"), .ok [7], .ok [8], .error (.badKey "locked")]

/-- A stream with faults of every kind at its start. -/
def faulty : KeySource where
  publicKey i := faultyPublicKeys.getD i (.ok [0])
  privateKey i := faultyPrivateKeys.getD i (.ok [9])

end KeySource

open WalletRules in
/-- Calls for wallets account for every pair of the stream. -/
theorem calls_accounted {ρ : Type} [Randomizer ρ] {keys : KeySource} {randomizer : ρ} {price : Int}
    {shards : Nat} {everyShard : Bool} {rules : WalletRules} {start : WalletCursor ρ}
    (started : start? (some keys) (some randomizer) (some price) shards everyShard =
      .ok (rules, start)) (calls : List Call) :
    rules = { keys, nodePrice := price, shards, everyShard } ∧ start = { randomizer } ∧
      ∀ last, rules.performAll start calls = some last → rules.Accounted start calls last := by
  obtain ⟨⟨hpos, -⟩, rfl, rfl⟩ := start?_eq_ok_iff.mp started
  exact ⟨rfl, rfl, fun last hlast => accounted hpos rfl rfl hlast⟩

open WalletRules in
/-- The pair at place 0 cannot be written out either, but it is not the turn of its shard. -/
theorem faulty_calls_accounted : ∃ rules, ∃ start : WalletCursor Script,
    start? (some KeySource.faulty) (some .greatest) (some 5) 2 true = .ok (rules, start) ∧
      rules.perform start (.wallets 3) =
        some (.error (.atIndex 2 (.badKey "locked")), { taken := 4, randomizer := .greatest }) ∧
      rules.Accounted start [.wallets 3, .owners [] 0]
        { taken := 4, randomizer := .greatest } := by
  have hstart : start? (some KeySource.faulty) (some Script.greatest) (some 5) 2 true =
      .ok ({ keys := .faulty, nodePrice := 5, shards := 2, everyShard := true },
        { randomizer := .greatest }) := rfl
  have hfirst : perform { keys := .faulty, nodePrice := 5, shards := 2, everyShard := true }
      { randomizer := Script.greatest } (.wallets 3) =
        some (.error (.atIndex 2 (.badKey "locked")), { taken := 4, randomizer := .greatest }) := by
    simp [perform, wallets, walletsFrom, next, search, accepts, KeySource.faulty,
      KeySource.faultyPublicKeys, KeySource.faultyPrivateKeys]
  refine ⟨_, _, hstart, hfirst, (calls_accounted hstart _).2.2 _ ?_⟩
  rw [performAll, hfirst]
  rfl

end Genesis
