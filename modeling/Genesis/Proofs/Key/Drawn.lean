import Genesis.Key.Validator
import Genesis.Key.Wallet
import Genesis.Proofs.Key.Search
import Genesis.Proofs.Key.Source

/-!
What a draw of keys brings forth: wallets to which nothing has been given yet, and owners that
between them hold the validators of a pool, in order and each once.
-/

namespace Genesis

namespace KeySource

structure Keys (source : KeySource) (n : Nat) (keys : List BlsKey) : Prop where
  length_eq : keys.length = n
  fromStream : ∀ key ∈ keys, ∃ i, source.publicKey i = .ok key.publicKey

theorem validatorKey_ok {source : KeySource} {i : Nat} {key : BlsKey}
    (h : source.validatorKey i = .ok key) : source.publicKey i = .ok key.publicKey := by
  unfold validatorKey at h
  cases hp : source.publicKey i with
  | error e => rw [hp] at h; cases h
  | ok publicKey =>
    cases hs : source.privateKey i with
    | error e => rw [hp, hs] at h; cases h
    | ok privateKey => rw [hp, hs] at h; cases h; rfl

theorem validatorKeysFrom_ok {source : KeySource} {index n i j : Nat} {keys : List BlsKey}
    (h : source.validatorKeysFrom index n i = (.ok keys, j)) : source.Keys n keys := by
  induction n generalizing index i keys with
  | zero =>
    cases h
    exact ⟨rfl, fun key hk => by cases hk⟩
  | succ n ih =>
    unfold validatorKeysFrom at h
    split at h
    · cases h
    · rename_i key hkey
      split at h
      · cases h
      · rename_i rest j' hrest
        cases h
        obtain ⟨hlen, hmem⟩ := ih hrest
        refine ⟨congrArg (· + 1) hlen, fun k hk => ?_⟩
        rcases List.mem_cons.mp hk with rfl | hk
        · exact ⟨i, validatorKey_ok hkey⟩
        · exact hmem k hk

theorem Writes.exists_validatorKeysFrom {source : KeySource} {size : Nat} (h : source.Writes size)
    (index n i : Nat) : ∃ keys j, source.validatorKeysFrom index n i = (.ok keys, j) := by
  induction n generalizing index i with
  | zero => exact ⟨[], i, rfl⟩
  | succ n ih =>
    obtain ⟨publicKey, hp, _⟩ := h.publicKey i
    obtain ⟨privateKey, hs⟩ := h.privateKey i
    obtain ⟨keys, j, hrest⟩ := ih (index + 1) (i + 1)
    have hkey : source.validatorKey i = .ok { publicKey, privateKey } := by
      unfold validatorKey
      rw [hp, hs]
      rfl
    refine ⟨{ publicKey, privateKey } :: keys, j, ?_⟩
    rw [validatorKeysFrom, hkey]
    simp only [hrest]

end KeySource

namespace WalletRules

structure Drawn (rules : WalletRules) (w : WalletKey) : Prop where
  /-- Nothing has been given to it. -/
  fresh : w = { publicKey := w.publicKey, privateKey := w.privateKey }
  fromStream : ∃ i, rules.keys.publicKey i = .ok w.publicKey

namespace Drawn

variable {rules : WalletRules} {w : WalletKey}

theorem blsKeys_eq (h : rules.Drawn w) : w.blsKeys = [] := by rw [h.fresh]

theorem balance_eq (h : rules.Drawn w) : w.balance = 0 := by rw [h.fresh]

theorem staked_eq (h : rules.Drawn w) : w.staked = 0 := by rw [h.fresh]

theorem delegated_eq (h : rules.Drawn w) : w.delegated = 0 := by rw [h.fresh]

end Drawn

/-- A wallet that stakes for the validators it owns, of which there is at least one. -/
structure Owner (rules : WalletRules) (w : WalletKey) : Prop where
  blsKeys_ne : w.blsKeys ≠ []
  staked : w.staked = rules.nodePrice * w.blsKeys.length
  delegated : w.delegated = 0
  fromStream : ∃ i, rules.keys.publicKey i = .ok w.publicKey

structure Wallets (rules : WalletRules) (n : Nat) (ws : List WalletKey) : Prop where
  length_eq : ws.length = n
  drawn : ∀ w ∈ ws, rules.Drawn w

/-- Owners that have the validators of `pool` between them, in order and each once. -/
structure Owners (rules : WalletRules) (pool : List BlsKey) (ws : List WalletKey) : Prop where
  flatMap_blsKeys : ws.flatMap (·.blsKeys) = pool
  owner : ∀ w ∈ ws, rules.Owner w

/-- Whichever shard's turn it is, its search comes to an end wherever it begins. -/
def Ends (rules : WalletRules) : Prop :=
  ∀ shard < rules.shards, ∀ i, ∃ n key,
    rules.keys.publicKey (i + n) = .ok key ∧ rules.accepts shard key

variable {rules : WalletRules}

section Search

variable {shard i : Nat}

theorem Decides.drawn {w : WalletKey} (h : rules.Decides shard i (.ok w)) : rules.Drawn w := by
  cases h with
  | found hpublic _ _ _ => exact ⟨rfl, i, hpublic⟩

theorem Decides.exists_ok {size : Nat} {result : Except Error WalletKey}
    (hw : rules.keys.Writes size) (hs : 0 < size) (h : rules.Decides shard i result) :
    ∃ w, result = .ok w := by
  cases h with
  | unwritten herror =>
    obtain ⟨key, hkey, _⟩ := hw.publicKey i
    cases herror.symm.trans hkey
  | empty hempty => exact absurd (hw.length_eq hempty) (Nat.ne_of_lt hs)
  | locked _ _ _ herror =>
    obtain ⟨key, hkey⟩ := hw.privateKey i
    cases herror.symm.trans hkey
  | found => exact ⟨_, rfl⟩

end Search

theorem ends_of_any {size : Nat} (hw : rules.keys.Writes size) (hany : rules.everyShard = false) :
    rules.Ends := by
  intro shard _ i
  obtain ⟨key, hk, _⟩ := hw.publicKey i
  refine ⟨0, key, hk, ?_⟩
  unfold accepts
  rw [hany]
  rfl

section Cursor

variable {ρ : Type} {c c' : WalletCursor ρ}

theorem next_ok {w : WalletKey} (h : rules.next c = some (.ok w, c')) : rules.Drawn w := by
  obtain ⟨k, hfirst, _⟩ := next_eq_ok_iff.mp h
  exact hfirst.decides.drawn

theorem shard_lt_of_next {result : Except Error WalletKey} (hn : rules.next c = some (result, c'))
    (h : c.shard < rules.shards) : c'.shard < rules.shards := by
  cases result with
  | error e =>
    obtain ⟨j, _, rfl⟩ := next_eq_error_iff.mp hn
    exact h
  | ok w =>
    obtain ⟨k, _, rfl⟩ := next_eq_ok_iff.mp hn
    exact Nat.mod_lt _ (Nat.zero_lt_of_lt h)

theorem exists_next {size : Nat} (hw : rules.keys.Writes size) (hs : 0 < size) (he : rules.Ends)
    (hc : c.shard < rules.shards) : ∃ w c', rules.next c = some (.ok w, c') := by
  obtain ⟨n, key, hkey, haccepts⟩ := he c.shard hc c.taken
  obtain ⟨privateKey, hprivate⟩ := hw.privateKey (c.taken + n)
  have hne : key ≠ [] := List.length_pos_iff.mp (hw.length_eq hkey ▸ hs)
  -- a pair that can be taken stands there, if none is taken before
  obtain ⟨k, result, hfirst⟩ :=
    exists_first (Nat.le_add_right _ _) (.found hkey hne haccepts hprivate)
  obtain ⟨w, rfl⟩ := hfirst.decides.exists_ok hw hs
  exact ⟨w, _, next_eq_ok_iff.mpr ⟨k, hfirst, rfl⟩⟩

theorem walletsFrom_ok {index n : Nat} {ws : List WalletKey}
    (h : rules.walletsFrom index n c = some (.ok ws, c')) : rules.Wallets n ws := by
  induction n generalizing index c ws with
  | zero =>
    cases h
    exact ⟨rfl, fun w hw => by cases hw⟩
  | succ n ih =>
    unfold walletsFrom at h
    split at h
    · cases h
    · cases h
    · rename_i hnext
      split at h
      · cases h
      · cases h
      · rename_i hrest
        cases h
        obtain ⟨hlen, hmem⟩ := ih hrest
        refine ⟨congrArg (· + 1) hlen, fun w hw => ?_⟩
        rcases List.mem_cons.mp hw with rfl | hw
        · exact next_ok hnext
        · exact hmem w hw

theorem shard_lt_of_walletsFrom {index n : Nat} {result : Except Error (List WalletKey)}
    (hw : rules.walletsFrom index n c = some (result, c')) (h : c.shard < rules.shards) :
    c'.shard < rules.shards := by
  induction n generalizing index c result with
  | zero =>
    cases hw
    exact h
  | succ n ih =>
    unfold walletsFrom at hw
    split at hw
    · cases hw
    · rename_i hnext
      cases hw
      exact shard_lt_of_next hnext h
    · rename_i hnext
      have hc := shard_lt_of_next hnext h
      split at hw
      · cases hw
      · rename_i hrest
        cases hw
        exact ih hrest hc
      · rename_i hrest
        cases hw
        exact ih hrest hc

theorem exists_walletsFrom {size : Nat} (hw : rules.keys.Writes size) (hs : 0 < size)
    (he : rules.Ends) (hc : c.shard < rules.shards) (index n : Nat) :
    ∃ ws c', rules.walletsFrom index n c = some (.ok ws, c') := by
  induction n generalizing index c with
  | zero => exact ⟨[], c, rfl⟩
  | succ n ih =>
    obtain ⟨w, c₁, hnext⟩ := exists_next hw hs he hc
    obtain ⟨ws, c₂, hrest⟩ := ih (shard_lt_of_next hnext hc) (index + 1)
    refine ⟨w :: ws, c₂, ?_⟩
    rw [walletsFrom, hnext]
    simp only [hrest]

end Cursor

section Owners

variable {ρ : Type} [Randomizer ρ] {c c' : WalletCursor ρ}

/-- However the randomizer answers, the batches of the owners make up the pool. -/
theorem ownersFrom_ok {limit index : Nat} {pool : List BlsKey} {ws : List WalletKey}
    (h : rules.ownersFrom limit index pool c = some (.ok ws, c')) : rules.Owners pool ws := by
  fun_induction ownersFrom rules limit index pool c generalizing ws with
  | case1 => cases h; exact ⟨rfl, fun w hw => by cases hw⟩
  | case2 => cases h
  | case3 => cases h
  | case4 => cases h
  | case5 => cases h
  | case6 =>
    rename_i start first others size owned w c₁ hnext owner owners c₂ hrest ih
    cases h
    obtain ⟨hflat, hmem⟩ := ih hrest
    have hw := next_ok hnext
    refine ⟨?_, fun w' hw' => ?_⟩
    · rw [List.flatMap_cons, hflat]
      exact List.take_append_drop size (first :: others)
    · rcases List.mem_cons.mp hw' with rfl | hw'
      · refine ⟨?_, rfl, hw.delegated_eq, hw.fromStream⟩
        -- a batch takes at least one validator, and there is one to take
        intro hnil
        rcases List.take_eq_nil_iff.mp hnil with h0 | h0
        · exact Nat.ne_of_gt (batch_pos limit start.randomizer) h0
        · cases h0
      · exact hmem w' hw'

theorem shard_lt_of_ownersFrom {limit index : Nat} {pool : List BlsKey}
    {result : Except Error (List WalletKey)}
    (ho : rules.ownersFrom limit index pool c = some (result, c')) (h : c.shard < rules.shards) :
    c'.shard < rules.shards := by
  fun_induction ownersFrom rules limit index pool c generalizing result with
  | case1 =>
    cases ho
    exact h
  | case2 => cases ho
  | case3 =>
    rename_i hnext
    cases ho
    exact shard_lt_of_next hnext h
  | case4 => cases ho
  | case5 =>
    rename_i hnext _ _ hrest ih
    cases ho
    exact ih hrest (shard_lt_of_next hnext h)
  | case6 =>
    rename_i hnext _ _ _ hrest ih
    cases ho
    exact ih hrest (shard_lt_of_next hnext h)

theorem exists_ownersFrom {size : Nat} (hw : rules.keys.Writes size) (hs : 0 < size)
    (he : rules.Ends) (hc : c.shard < rules.shards) (limit index : Nat) (pool : List BlsKey) :
    ∃ ws c', rules.ownersFrom limit index pool c = some (.ok ws, c') := by
  fun_induction ownersFrom rules limit index pool c with
  | case1 index start => exact ⟨[], start, rfl⟩
  | case2 index start first others hnext =>
    obtain ⟨w, c₂, hok⟩ := exists_next hw hs he
      (c := { start with randomizer := (batch limit start.randomizer).2 }) hc
    rw [hnext] at hok
    cases hok
  | case3 index start first others e c₁ hnext =>
    obtain ⟨w, c₂, hok⟩ := exists_next hw hs he
      (c := { start with randomizer := (batch limit start.randomizer).2 }) hc
    rw [hnext] at hok
    cases hok
  | case4 index start first others size w c₁ hnext hrest ih =>
    obtain ⟨ws, c₃, hok⟩ := ih (shard_lt_of_next hnext hc)
    rw [hrest] at hok
    cases hok
  | case5 index start first others size w c₁ hnext e c₂ hrest ih =>
    obtain ⟨ws, c₃, hok⟩ := ih (shard_lt_of_next hnext hc)
    rw [hrest] at hok
    cases hok
  | case6 index start first others size owned w c₁ hnext owner owners c₂ hrest ih =>
    exact ⟨owner :: owners, c₂, rfl⟩

end Owners

end WalletRules

end Genesis
