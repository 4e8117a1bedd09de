import Genesis.Proofs.Key.Drawn

/-!
Calls for wallets, one after the other on the same source: which pairs of the stream become wallets,
whether or not the call succeeds, and which pair it fails at.
-/

namespace Genesis

def WalletKey.pair (w : WalletKey) : Bytes × Bytes := (w.publicKey, w.privateKey)

namespace WalletRules

inductive Call where
  | wallets (n : Nat)
  | owners (pool : List BlsKey) (limit : Nat)

section Calls

variable {ρ : Type} [Randomizer ρ]

def perform (rules : WalletRules) (c : WalletCursor ρ) :
    Call → Option (Except Error (List WalletKey) × WalletCursor ρ)
  | .wallets n => rules.wallets n c
  | .owners pool limit => rules.owners pool limit c

/-- Where the source stands after some calls, whatever became of them. If one of them never ends,
there is no such place. -/
def performAll (rules : WalletRules) (c : WalletCursor ρ) : List Call → Option (WalletCursor ρ)
  | [] => some c
  | call :: calls =>
    match rules.perform c call with
    | none => none
    | some (_, c) => rules.performAll c calls

/-- The wallets that are completed on the way to `n` of them: all, or those before a search that
fails or never ends. -/
def completedWallets (rules : WalletRules) : Nat → WalletCursor ρ → List WalletKey
  | 0, _ => []
  | n + 1, c =>
    match rules.next c with
    | some (.ok key, c) => key :: rules.completedWallets n c
    | _ => []

def completedOwners (rules : WalletRules) (limit : Nat) (pool : List BlsKey)
    (start : WalletCursor ρ) : List WalletKey :=
  match pool with
  | [] => []
  | first :: others =>
    let size := (batch limit start.randomizer).1
    match rules.next { start with randomizer := (batch limit start.randomizer).2 } with
    | some (.ok key, c) => key :: rules.completedOwners limit ((first :: others).drop size) c
    | _ => []
termination_by pool.length
decreasing_by
  have := batch_pos limit start.randomizer
  simp only [List.length_drop, List.length_cons]
  omega

/-- The wallets that a call completes, also when it gives none of them away. -/
def completed (rules : WalletRules) (c : WalletCursor ρ) : Call → List WalletKey
  | .wallets n => rules.completedWallets n c
  | .owners pool limit => if limit < 1 then [] else rules.completedOwners limit pool c

def completedAll (rules : WalletRules) (c : WalletCursor ρ) : List Call → List WalletKey
  | [] => []
  | call :: calls =>
    rules.completed c call ++
      match rules.perform c call with
      | none => []
      | some (_, c) => rules.completedAll c calls

end Calls

section Answers

/-- The wallets that are found one after the other from place `i` on, when it is the turn of
`shard` at first. Each search goes on behind the pair that the one before it has found. -/
inductive Finds (rules : WalletRules) :
    (shard i : Nat) → List WalletKey → (lastShard j : Nat) → Prop
  | nothing {shard i : Nat} : Finds rules shard i [] shard i
  | next {shard i k lastShard j : Nat} {w : WalletKey} {ws : List WalletKey}
      (first : rules.First shard i k (.ok w))
      (others : Finds rules ((shard + 1) % rules.shards) (k + 1) ws lastShard j) :
      Finds rules shard i (w :: ws) lastShard j

variable {ρ : Type} {rules : WalletRules}

/-- What comes of asking for wallets from place `i` on, the first of which is the one at `index`:
the completed ones are given away, or the search for one more fails or never ends. -/
inductive Completes (rules : WalletRules) (index shard i : Nat) (completed : List WalletKey) :
    Option (Except Error (List WalletKey) × WalletCursor ρ) → Prop
  | given {ws : List WalletKey} {c : WalletCursor ρ}
      (finds : rules.Finds shard i completed c.shard c.taken)
      (pairs_eq : ws.map (·.pair) = completed.map (·.pair)) :
      Completes rules index shard i completed (some (.ok ws, c))
  | failed {e : Error} {j k : Nat} {c : WalletCursor ρ}
      (finds : rules.Finds shard i completed c.shard j)
      (first : rules.First c.shard j k (.error e)) (taken_eq : c.taken = k + 1) :
      Completes rules index shard i completed
        (some (.error (.atIndex (index + completed.length) e), c))
  | endless {lastShard j : Nat} (finds : rules.Finds shard i completed lastShard j)
      (passed : rules.Endless lastShard j) : Completes rules index shard i completed none

namespace Call

/-- An owner has to be allowed at least one validator. -/
def Allowed : Call → Prop
  | .wallets _ => True
  | .owners _ limit => 1 ≤ limit

def Met : Call → List WalletKey → Prop
  | .wallets n, ws => ws.length = n
  | .owners pool _, ws => ws.flatMap (·.blsKeys) = pool ∧ ∀ w ∈ ws, w.blsKeys ≠ []

end Call

/-- How a call at `c` that completes some wallets is answered, and where it leaves the source. -/
inductive Answers (rules : WalletRules) (c : WalletCursor ρ) :
    Call → List WalletKey → Option (Except Error (List WalletKey) × WalletCursor ρ) → Prop
  /-- Nothing is taken from the stream, nor from the randomizer. -/
  | refused {pool : List BlsKey} :
      Answers rules c (.owners pool 0) [] (some (.error (.invalidValue "maxNumKeysOnOwner"), c))
  | answered {call : Call} {completed : List WalletKey}
      {result : Option (Except Error (List WalletKey) × WalletCursor ρ)} (allowed : call.Allowed)
      (completes : rules.Completes 0 c.shard c.taken completed result)
      (met : ∀ ws c', result = some (.ok ws, c') → call.Met ws) :
      Answers rules c call completed result

variable {c c₁ c' : WalletCursor ρ} {index : Nat} {w : WalletKey} {completed : List WalletKey}
  {e : Error}

theorem completes_of_next_error (h : rules.next c = some (.error e, c')) (index : Nat) :
    rules.Completes index c.shard c.taken [] (some (.error (.atIndex index e), c')) := by
  obtain ⟨k, hfirst, rfl⟩ := next_eq_error_iff.mp h
  exact .failed .nothing hfirst rfl

theorem completes_of_next_none (h : rules.next c = none) (index : Nat) :
    rules.Completes (ρ := ρ) index c.shard c.taken [] none :=
  .endless .nothing (next_eq_none_iff.mp h)

theorem Finds.of_next {lastShard j : Nat} (h : rules.next c = some (.ok w, c₁))
    (hrest : rules.Finds c₁.shard c₁.taken completed lastShard j) :
    rules.Finds c.shard c.taken (w :: completed) lastShard j := by
  obtain ⟨k, hfirst, rfl⟩ := next_eq_ok_iff.mp h
  exact .next hfirst hrest

theorem Completes.cons_ok {ws : List WalletKey} {given : WalletKey}
    (hnext : rules.next c = some (.ok w, c₁)) (hpair : given.pair = w.pair)
    (h : rules.Completes (index + 1) c₁.shard c₁.taken completed (some (.ok ws, c'))) :
    rules.Completes index c.shard c.taken (w :: completed) (some (.ok (given :: ws), c')) := by
  cases h with
  | given hfinds hpairs =>
    refine .given (hfinds.of_next hnext) ?_
    rw [List.map_cons, List.map_cons, hpair, hpairs]

theorem Completes.cons_error (hnext : rules.next c = some (.ok w, c₁))
    (h : rules.Completes (index + 1) c₁.shard c₁.taken completed (some (.error e, c'))) :
    rules.Completes index c.shard c.taken (w :: completed) (some (.error e, c')) := by
  cases h with
  | failed hfinds hfirst htaken =>
    have hindex : index + 1 + completed.length = index + (w :: completed).length := by
      rw [List.length_cons, Nat.add_right_comm, Nat.add_assoc]
    rw [hindex]
    exact .failed (hfinds.of_next hnext) hfirst htaken

theorem Completes.cons_none (hnext : rules.next c = some (.ok w, c₁))
    (h : rules.Completes (ρ := ρ) (index + 1) c₁.shard c₁.taken completed none) :
    rules.Completes (ρ := ρ) index c.shard c.taken (w :: completed) none := by
  cases h with
  | endless hfinds hpassed => exact .endless (hfinds.of_next hnext) hpassed

theorem completes_walletsFrom (index n : Nat) (c : WalletCursor ρ) :
    rules.Completes index c.shard c.taken (rules.completedWallets n c)
      (rules.walletsFrom index n c) := by
  induction n generalizing index c with
  | zero => exact .given .nothing rfl
  | succ n ih =>
    unfold completedWallets walletsFrom
    rcases hnext : rules.next c with _ | ⟨e | w, c₁⟩
    · exact completes_of_next_none hnext index
    · exact completes_of_next_error hnext index
    · have hrest := ih (index + 1) c₁
      dsimp only
      split <;> rename_i heq <;> rw [heq] at hrest
      · exact hrest.cons_none hnext
      · exact hrest.cons_error hnext
      · exact hrest.cons_ok hnext rfl

variable [Randomizer ρ]

theorem completes_ownersFrom (limit index : Nat) (pool : List BlsKey) (c : WalletCursor ρ) :
    rules.Completes index c.shard c.taken (rules.completedOwners limit pool c)
      (rules.ownersFrom limit index pool c) := by
  fun_induction ownersFrom rules limit index pool c with
  | case1 index start =>
    unfold completedOwners
    exact .given .nothing rfl
  | case2 index start first others hnext =>
    unfold completedOwners
    rw [hnext]
    -- the search begins in the same place, whatever the randomizer has answered before it
    have hendless := completes_of_next_none hnext index
    exact hendless
  | case3 index start first others e c₁ hnext =>
    unfold completedOwners
    rw [hnext]
    have hfailed := completes_of_next_error hnext index
    exact hfailed
  | case4 index start first others size w c₁ hnext hrest ih =>
    unfold completedOwners
    dsimp only
    rw [hnext]
    rw [hrest] at ih
    have hendless := ih.cons_none hnext
    exact hendless
  | case5 index start first others size w c₁ hnext e c₂ hrest ih =>
    unfold completedOwners
    dsimp only
    rw [hnext]
    rw [hrest] at ih
    have hfailed := ih.cons_error hnext
    exact hfailed
  | case6 index start first others size owned w c₁ hnext owner owners c₂ hrest ih =>
    unfold completedOwners
    dsimp only
    rw [hnext]
    rw [hrest] at ih
    have hgiven : rules.Completes index _ _ _ (some (.ok (owner :: owners), c₂)) :=
      ih.cons_ok hnext rfl
    exact hgiven

theorem answers_perform (c : WalletCursor ρ) (call : Call) :
    rules.Answers c call (rules.completed c call) (rules.perform c call) := by
  cases call with
  | wallets n =>
    exact .answered trivial (completes_walletsFrom 0 n c)
      fun ws c' h => (walletsFrom_ok h).length_eq
  | owners pool limit =>
    unfold completed perform owners
    dsimp only
    split
    · rename_i hlimit
      obtain rfl := Nat.lt_one_iff.mp hlimit
      exact .refused
    · rename_i hlimit
      refine .answered (Nat.not_lt.mp hlimit) (completes_ownersFrom limit 0 pool c)
        fun ws c' h => ?_
      have howners : rules.Owners pool ws := ownersFrom_ok h
      exact ⟨howners.flatMap_blsKeys, fun w hw => (howners.owner w hw).blsKeys_ne⟩

end Answers

section Draws

variable {ρ : Type} {rules : WalletRules} {c c₁ c₂ : WalletCursor ρ} {ws ws' : List WalletKey}

/-- Wallets that are drawn on the way from one cursor to another, between failures and while the
randomizer goes on as it likes. -/
inductive Draws (rules : WalletRules) : WalletCursor ρ → List WalletKey → WalletCursor ρ → Prop
  | done (c : WalletCursor ρ) : Draws rules c [] c
  | reseeded {c c' : WalletCursor ρ} {ws : List WalletKey} (randomizer : ρ)
      (rest : Draws rules { c with randomizer } ws c') : Draws rules c ws c'
  | failed {c c₁ c' : WalletCursor ρ} {e : Error} {ws : List WalletKey}
      (first : rules.next c = some (.error e, c₁)) (rest : Draws rules c₁ ws c') :
      Draws rules c ws c'
  | drawn {c c₁ c' : WalletCursor ρ} {w : WalletKey} {ws : List WalletKey}
      (first : rules.next c = some (.ok w, c₁)) (rest : Draws rules c₁ ws c') :
      Draws rules c (w :: ws) c'

theorem Draws.append (h : rules.Draws c ws c₁) (h' : rules.Draws c₁ ws' c₂) :
    rules.Draws c (ws ++ ws') c₂ := by
  induction h with
  | done => exact h'
  | reseeded randomizer _ ih => exact .reseeded randomizer (ih h')
  | failed first _ ih => exact .failed first (ih h')
  | drawn first _ ih => exact .drawn first (ih h')

theorem Finds.draws {shard i lastShard j : Nat} (h : rules.Finds shard i ws lastShard j)
    (first last : ρ) : rules.Draws ⟨i, shard, first⟩ ws ⟨j, lastShard, last⟩ := by
  induction h with
  | nothing => exact .reseeded last (.done _)
  | next hfirst _ ih => exact .drawn (next_eq_ok_iff.mpr ⟨_, hfirst, rfl⟩) ih

theorem Completes.exists_draws {index : Nat}
    {result : Option (Except Error (List WalletKey) × WalletCursor ρ)}
    (h : rules.Completes index c.shard c.taken ws result) :
    ∃ last, rules.Draws c ws last ∧ ∀ given c', result = some (given, c') → c' = last := by
  cases h with
  | @given _ c' hfinds _ =>
    exact ⟨c', hfinds.draws c.randomizer c'.randomizer, fun _ _ h => by cases h; rfl⟩
  | @failed _ j _ c' hfinds hfirst htaken =>
    have hdraws := hfinds.draws c.randomizer c'.randomizer
    have hlast : rules.Draws c (ws ++ []) c' :=
      hdraws.append (.failed (next_eq_error_iff.mpr ⟨_, hfirst, htaken ▸ rfl⟩) (.done c'))
    rw [List.append_nil] at hlast
    exact ⟨c', hlast, fun _ _ h => by cases h; rfl⟩
  | endless hfinds _ => exact ⟨_, hfinds.draws c.randomizer c.randomizer, fun _ _ h => by cases h⟩

theorem Answers.exists_draws {call : Call}
    {result : Option (Except Error (List WalletKey) × WalletCursor ρ)}
    (h : rules.Answers c call ws result) :
    ∃ last, rules.Draws c ws last ∧ ∀ given c', result = some (given, c') → c' = last := by
  cases h with
  | refused => exact ⟨c, .done c, fun _ _ h => by cases h; rfl⟩
  | answered _ hcompletes _ => exact hcompletes.exists_draws

variable [Randomizer ρ]

theorem draws_perform {call : Call} {given : Except Error (List WalletKey)}
    (h : rules.perform c call = some (given, c₁)) :
    rules.Draws c (rules.completed c call) c₁ := by
  obtain ⟨last, hdraws, hlast⟩ := (answers_perform c call).exists_draws
  exact hlast given c₁ h ▸ hdraws

/-- However many calls come to an end, the wallets that are completed have been drawn one after the
other. -/
theorem exists_draws_completedAll (rules : WalletRules) (c : WalletCursor ρ) (calls : List Call) :
    ∃ last, rules.Draws c (rules.completedAll c calls) last ∧
      ∀ c', rules.performAll c calls = some c' → c' = last := by
  induction calls generalizing c with
  | nil => exact ⟨c, .done c, fun _ h => (Option.some.inj h).symm⟩
  | cons call calls ih =>
    obtain ⟨c₁, hfirst, hend⟩ := (answers_perform c call : rules.Answers _ _ _ _).exists_draws
    unfold completedAll performAll
    rcases hperform : rules.perform c call with _ | ⟨given, c'⟩
    · rw [List.append_nil]
      exact ⟨c₁, hfirst, fun _ h => by cases h⟩
    · obtain rfl := hend given c' hperform
      obtain ⟨last, hrest, hlast⟩ := ih c'
      exact ⟨last, hfirst.append hrest, hlast⟩

theorem draws_performAll {calls : List Call} (h : rules.performAll c calls = some c₁) :
    rules.Draws c (rules.completedAll c calls) c₁ := by
  obtain ⟨last, hdraws, hlast⟩ := rules.exists_draws_completedAll c calls
  exact hlast c₁ h ▸ hdraws

end Draws

/-- What a call gives away are the wallets that it completes. If it fails, their number is the
place that the error names, unless nothing could be asked for. -/
structure Gives (given : Except Error (List WalletKey)) (completed : List WalletKey) : Prop where
  keys : ∀ ws, given = .ok ws → ws.map (·.publicKey) = completed.map (·.publicKey)
  index : ∀ e, given = .error e →
    (∃ cause, e = .atIndex completed.length cause) ∨
      e = .invalidValue "maxNumKeysOnOwner" ∧ completed = []

theorem Answers.gives {ρ : Type} {rules : WalletRules} {c c' : WalletCursor ρ} {call : Call}
    {completed : List WalletKey} {given : Except Error (List WalletKey)}
    (h : rules.Answers c call completed (some (given, c'))) : Gives given completed := by
  cases h with
  | refused =>
    refine ⟨fun ws h => ?_, fun e h => .inr ⟨(Except.error.inj h).symm, rfl⟩⟩
    cases h
  | answered _ hcompletes _ =>
    cases hcompletes with
    | given _ hpairs =>
      constructor
      · intro ws h
        cases h
        have hkeys := congrArg (List.map Prod.fst) hpairs
        rwa [List.map_map, List.map_map] at hkeys
      · intro e h
        cases h
    | failed =>
      constructor
      · intro ws h
        cases h
      · intro e h
        cases h
        rw [Nat.zero_add]
        exact .inl ⟨_, rfl⟩

theorem gives_perform {ρ : Type} [Randomizer ρ] {rules : WalletRules} {c c' : WalletCursor ρ}
    {call : Call} {given : Except Error (List WalletKey)}
    (h : rules.perform c call = some (given, c')) : Gives given (rules.completed c call) :=
  (h ▸ answers_perform c call).gives

end WalletRules

end Genesis
