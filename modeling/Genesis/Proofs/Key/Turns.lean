import Genesis.Proofs.Key.Calls
import Genesis.Proofs.Shard
import Mathlib.Data.Int.CardIntervalMod

/-!
Where the shards take turns, the wallets that one source completes fall into them in turn, whatever
calls it is asked for and whether they succeed.
-/

namespace Genesis.WalletRules

section Turns

variable {ρ : Type} {rules : WalletRules} {c c' : WalletCursor ρ} {w : WalletKey}
  {ws : List WalletKey} {n start : Nat}

/-- Keys that end in the numbers of the shards in turn, the first one in that of `start`. -/
def InTurn (n start : Nat) (ws : List WalletKey) : Prop :=
  ∀ j w, ws[j]? = some w → ∃ b, w.publicKey.getLast? = some b ∧ b.toNat = (start + j) % n

theorem InTurn.cons {b : UInt8} (hb : w.publicKey.getLast? = some b) (hturn : b.toNat = start % n)
    (h : InTurn n ((start + 1) % n) ws) : InTurn n start (w :: ws) := by
  intro j w' hj
  cases j with
  | zero =>
    cases hj
    exact ⟨b, hb, hturn⟩
  | succ j =>
    obtain ⟨b', hb', hturn'⟩ := h j w' hj
    rw [Nat.mod_add_mod, Nat.add_right_comm] at hturn'
    exact ⟨b', hb', hturn'⟩

theorem turn_of_next (h : rules.next c = some (.ok w, c')) :
    rules.accepts c.shard w.publicKey ∧ c'.shard = (c.shard + 1) % rules.shards := by
  obtain ⟨k, hfirst, rfl⟩ := next_eq_ok_iff.mp h
  cases hfirst.decides with
  | found _ _ haccepts _ => exact ⟨haccepts, rfl⟩

theorem shard_of_failed {e : Error} (h : rules.next c = some (.error e, c')) :
    c'.shard = c.shard := by
  obtain ⟨j, _, rfl⟩ := next_eq_error_iff.mp h
  rfl

theorem getLast?_of_accepts {shard : Nat} {key : Bytes} (every : rules.everyShard = true)
    (h : rules.accepts shard key) : ∃ b, key.getLast? = some b ∧ b.toNat = shard := by
  unfold accepts at h
  rw [every, Bool.not_true, Bool.false_or, Option.any_eq_true] at h
  obtain ⟨b, hb, hshard⟩ := h
  exact ⟨b, hb, of_decide_eq_true hshard⟩

theorem Draws.shard_eq (h : rules.Draws c ws c') (hc : c.shard < rules.shards) :
    c'.shard = (c.shard + ws.length) % rules.shards := by
  induction h with
  | done => exact (Nat.mod_eq_of_lt hc).symm
  | reseeded _ _ ih => exact ih hc
  | failed first _ ih =>
    rw [← shard_of_failed first]
    exact ih (shard_of_failed first ▸ hc)
  | drawn first _ ih =>
    obtain ⟨_, hshard⟩ := turn_of_next first
    rw [ih (shard_lt_of_next first hc), hshard, Nat.mod_add_mod, List.length_cons,
      Nat.add_right_comm, Nat.add_assoc]

theorem Draws.shard_lt (h : rules.Draws c ws c') (hc : c.shard < rules.shards) :
    c'.shard < rules.shards :=
  h.shard_eq hc ▸ Nat.mod_lt _ (Nat.zero_lt_of_lt hc)

theorem Draws.inTurn (h : rules.Draws c ws c') (every : rules.everyShard = true)
    (hc : c.shard < rules.shards) : InTurn rules.shards c.shard ws := by
  induction h with
  | done => exact fun j w hj => by cases hj
  | reseeded _ _ ih => exact ih hc
  | failed first _ ih =>
    have hshard := shard_of_failed first
    rw [← hshard]
    exact ih (hshard ▸ hc)
  | drawn first _ ih =>
    obtain ⟨haccepts, hshard⟩ := turn_of_next first
    obtain ⟨b, hb, hturn⟩ := getLast?_of_accepts every haccepts
    have hrest := ih (shard_lt_of_next first hc)
    rw [hshard] at hrest
    exact .cons hb (hturn.trans (Nat.mod_eq_of_lt hc).symm) hrest

end Turns

end Genesis.WalletRules

namespace Genesis

section Counting

variable {α : Type} {f : α → Nat} {n start : Nat} {l : List α}

theorem countP_add_count (h : ∀ j a, l[j]? = some a → f a = (start + j) % n) (x : Nat) :
    l.countP (f · = x) + Nat.count (· % n = x) start =
      Nat.count (· % n = x) (start + l.length) := by
  induction l generalizing start with
  | nil => simp
  | cons a l ih =>
    have hfirst : f a = start % n := h 0 a rfl
    have hothers : ∀ j b, l[j]? = some b → f b = (start + 1 + j) % n := fun j b hj => by
      rw [h (j + 1) b hj, Nat.add_right_comm, Nat.add_assoc]
    have hrest := ih hothers
    have hlength : start + (a :: l).length = start + 1 + l.length := by
      rw [List.length_cons, Nat.add_right_comm, Nat.add_assoc]
    rw [Nat.count_succ] at hrest
    rw [hlength, ← hrest, List.countP_cons, hfirst]
    simp only [decide_eq_true_eq]
    omega

theorem count_mod_eq {x : Nat} (hx : x < n) (m : Nat) :
    Nat.count (· % n = x) m = m / n + if x < m % n then 1 else 0 := by
  simpa only [Nat.ModEq, Nat.mod_eq_of_lt hx] using
    Nat.count_modEq_card m (Nat.zero_lt_of_lt hx) x

theorem countP_le_succ (h : ∀ j a, l[j]? = some a → f a = (start + j) % n) {x y : Nat}
    (hx : x < n) (hy : y < n) : l.countP (f · = x) ≤ l.countP (f · = y) + 1 := by
  have hfirst := countP_add_count h x
  have hsecond := countP_add_count h y
  rw [count_mod_eq hx, count_mod_eq hx] at hfirst
  rw [count_mod_eq hy, count_mod_eq hy] at hsecond
  split_ifs at hfirst hsecond <;> omega

theorem countP_pos (h : ∀ j a, l[j]? = some a → f a = (start + j) % n) (hl : n ≤ l.length)
    {x : Nat} (hx : x < n) : 0 < l.countP (f · = x) := by
  have hj : (x + (n - start % n)) % n < l.length :=
    (Nat.mod_lt _ (Nat.zero_lt_of_lt hx)).trans_le hl
  have hmet : f l[(x + (n - start % n)) % n] = x := by
    have hstart : start % n < n := Nat.mod_lt _ (Nat.zero_lt_of_lt hx)
    rw [h _ _ (List.getElem?_eq_getElem hj), Nat.add_mod_mod, ← Nat.mod_add_mod]
    have hround : start % n + (x + (n - start % n)) = x + n := by omega
    rw [hround, Nat.add_mod_right, Nat.mod_eq_of_lt hx]
  exact List.countP_pos_iff.mpr ⟨_, List.getElem_mem hj, decide_eq_true hmet⟩

end Counting

namespace Coordinator

variable {c : Coordinator} {ws ws' : List WalletKey} {start : Nat}

def population (c : Coordinator) (ws : List WalletKey) (shard : Nat) : Nat :=
  ws.countP (c.shardOf ·.publicKey = shard)

/-- No shard has two wallets more than another one, and none is left out where there are enough. -/
structure Even (c : Coordinator) (ws : List WalletKey) : Prop where
  le_succ : ∀ x < c.count, ∀ y < c.count, c.population ws x ≤ c.population ws y + 1
  pos : c.count ≤ ws.length → ∀ x < c.count, 0 < c.population ws x

theorem shardOf_of_inTurn (hc : c.count ≤ 256) (h : WalletRules.InTurn c.count start ws) {j : Nat}
    {w : WalletKey} (hj : ws[j]? = some w) : c.shardOf w.publicKey = (start + j) % c.count := by
  obtain ⟨b, hb, hturn⟩ := h j w hj
  rw [← hturn]
  exact shardOf_of_getLast? hc hb (hturn.trans_lt (Nat.mod_lt _ c.count_pos))

theorem even_of_inTurn (hc : c.count ≤ 256) (h : WalletRules.InTurn c.count start ws) :
    c.Even ws :=
  ⟨fun _ hx _ hy => countP_le_succ (fun _ _ => shardOf_of_inTurn hc h) hx hy,
    fun hl _ hx => countP_pos (fun _ _ => shardOf_of_inTurn hc h) hl hx⟩

theorem Even.of_perm (h : c.Even ws) (hperm : (ws'.map (·.publicKey)).Perm (ws.map (·.publicKey))) :
    c.Even ws' := by
  have hpopulation : ∀ x, c.population ws' x = c.population ws x := fun x => by
    have hcount := hperm.countP_eq (c.shardOf · = x)
    rwa [List.countP_map, List.countP_map] at hcount
  have hlength : ws'.length = ws.length := by
    have hlength := hperm.length_eq
    rwa [List.length_map, List.length_map] at hlength
  constructor
  · intro x hx y hy
    rw [hpopulation, hpopulation]
    exact h.le_succ x hx y hy
  · intro hl x hx
    rw [hpopulation]
    exact h.pos (hlength ▸ hl) x hx

end Coordinator

namespace WalletRules

variable {ρ : Type} {rules : WalletRules} {start : WalletCursor ρ}

theorem start?_eq_ok_iff {keys : KeySource} {randomizer : ρ} {price : Int} {shards : Nat}
    {everyShard : Bool} :
    start? (some keys) (some randomizer) (some price) shards everyShard = .ok (rules, start) ↔
      (1 ≤ shards ∧ (everyShard → shards ≤ maxShards)) ∧
        rules = { keys, nodePrice := price, shards, everyShard } ∧ start = { randomizer } := by
  unfold start?
  dsimp only
  constructor
  · intro h
    split at h
    · cases h
    rename_i hnone
    split at h
    · cases h
    rename_i hfew
    cases h
    rw [Bool.and_eq_true, decide_eq_true_eq, not_and, Nat.not_lt] at hfew
    exact ⟨⟨Nat.pos_of_ne_zero hnone, hfew⟩, rfl, rfl⟩
  · rintro ⟨⟨hpos, hfew⟩, rfl, rfl⟩
    have hmany : ¬(everyShard && decide (maxShards < shards)) = true := by
      rw [Bool.and_eq_true, decide_eq_true_eq, not_and, Nat.not_lt]
      exact hfew
    rw [if_neg (Nat.ne_of_gt hpos), if_neg hmany]
    rfl

theorem start?_everyShard_eq_ok_iff {keys : KeySource} {randomizer : ρ} {price : Int}
    {shards : Nat} :
    start? (some keys) (some randomizer) (some price) shards true = .ok (rules, start) ↔
      (1 ≤ shards ∧ shards ≤ maxShards) ∧
        rules = { keys, nodePrice := price, shards, everyShard := true } ∧
        start = { randomizer } := by
  simp only [start?_eq_ok_iff, eq_self, true_imp_iff]

variable [Randomizer ρ]

/-- What some calls leave behind: the turn has gone round `n` shards once for each of the wallets
completed, and each of these ends in the number of the shard that it falls into. -/
structure Rotates (rules : WalletRules) (n : Nat) (coordinator : Coordinator)
    (start : WalletCursor ρ) (calls : List Call) : Prop where
  shard_eq : ∀ last, rules.performAll start calls = some last →
    last.shard = (rules.completedAll start calls).length % n
  shard_lt : ∀ last, rules.performAll start calls = some last → last.shard < n
  lastByte : ∀ j w, (rules.completedAll start calls)[j]? = some w →
    ∃ b, w.publicKey.getLast? = some b ∧ b.toNat = j % n
  shardOf : ∀ j w, (rules.completedAll start calls)[j]? = some w →
    coordinator.shardOf w.publicKey = j % n
  gives : ∀ last call given c', rules.performAll start calls = some last →
    rules.perform last call = some (given, c') → Gives given (rules.completed last call)

theorem rotates {n : Nat} {coordinator : Coordinator} (every : rules.everyShard = true)
    (hshards : rules.shards = n) (hcount : coordinator.count = n) (hfew : n ≤ maxShards)
    (hstart : start.shard = 0) (calls : List Call) : rules.Rotates n coordinator start calls := by
  subst hcount
  have hpos : start.shard < rules.shards := by
    rw [hstart, hshards]
    exact coordinator.count_pos
  obtain ⟨last, hdraws, hlast⟩ := rules.exists_draws_completedAll start calls
  have hturn := hdraws.inTurn every hpos
  have hshard := hdraws.shard_eq hpos
  rw [hstart, hshards] at hturn
  rw [hstart, hshards, Nat.zero_add] at hshard
  refine ⟨fun c hc => hlast c hc ▸ hshard, fun c hc => ?_, fun j w hj => ?_, fun j w hj => ?_,
    fun _ _ _ _ _ hgiven => gives_perform hgiven⟩
  · rw [hlast c hc, hshard]
    exact Nat.mod_lt _ coordinator.count_pos
  · obtain ⟨b, hb, hbyte⟩ := hturn j w hj
    rw [Nat.zero_add] at hbyte
    exact ⟨b, hb, hbyte⟩
  · rw [Coordinator.shardOf_of_inTurn hfew hturn hj, Nat.zero_add]

end WalletRules

end Genesis
