import Genesis.Proofs.Json.Reader
import Genesis.Proofs.Shard.Placement
import Genesis.Proofs.Traffic

/-!
How accounts are shared out among the shards: each shard has those of the wallets that fall into it,
in their order, and the shards follow one another by number, also in the text that is written.
-/

namespace Genesis.TrafficAccount

open Steps

variable {format : KeyFormat} {coordinator : Coordinator} {wallet : WalletKey} {a : TrafficAccount}
  {groups groups' : TrafficGroups} {before wallets : List WalletKey} {e : Error}

/-- The account of a wallet that has not been used. -/
structure Describes (format : KeyFormat) (wallet : WalletKey) (a : TrafficAccount) : Prop where
  pubKey : format.encode wallet.publicKey = .ok a.pubKey
  privKey : a.privKey = Hex.encode wallet.privateKey
  balance : a.balance = wallet.balance
  tokenBalance : a.tokenBalance = 0
  lastNonce : a.lastNonce = 0
  canReuseNonce : a.canReuseNonce = true

theorem describes_of_ofWallet (h : ofWallet format wallet = .ok a) : Describes format wallet a := by
  obtain ⟨pubKey, hencode, h⟩ := bind_eq_ok.mp h
  cases h
  exact ⟨hencode, rfl, rfl, rfl, rfl, rfl⟩

theorem ofWallet_eq_error_iff :
    ofWallet format wallet = .error e ↔ format.encode wallet.publicKey = .error e := by
  unfold ofWallet
  rw [bind_eq_error]
  simp only [pure, Except.pure, reduceCtorEq, and_false, exists_false, or_false]

/-- Whatever groups there are already, the first wallet that cannot be written ends the grouping. -/
theorem groupInto_eq_error_iff :
    groupInto format coordinator groups wallets = .error e ↔
      FailsFirst (fun w => format.encode w.publicKey) wallets e := by
  induction wallets generalizing groups with
  | nil => exact iff_of_false nofun not_failsFirst_nil
  | cons wallet wallets ih =>
    rw [groupInto, bind_eq_error, ofWallet_eq_error_iff, failsFirst_cons]
    simp only [ih, exists_and_right]
    refine or_congr_right (and_congr_left' ⟨fun ⟨a, ha⟩ => ?_, exists_ofWallet⟩)
    exact ⟨a.pubKey, (describes_of_ofWallet ha).pubKey⟩

/-- The accounts of a shard; if it has no group there are none. -/
def ofShard (groups : TrafficGroups) (shard : Nat) : List TrafficAccount :=
  (groups.lookup shard).getD []

/-- The groups stand in the order of their shards. -/
def Ascending (groups : TrafficGroups) : Prop := (groups.map (·.1)).Pairwise (· < ·)

section Insert

variable {shard : Nat}

theorem mem_insert {g : Nat × List TrafficAccount} (h : g ∈ insert shard a groups) :
    (g.1 = shard ∧ g.2 ≠ []) ∨ g ∈ groups := by
  induction groups with
  | nil =>
    rw [List.mem_singleton.mp h]
    exact .inl ⟨rfl, List.cons_ne_nil _ _⟩
  | cons g' groups ih =>
    obtain ⟨s, group⟩ := g'
    rw [insert] at h
    split_ifs at h with hlt heq
    · rcases List.mem_cons.mp h with rfl | h
      · exact .inl ⟨rfl, List.cons_ne_nil _ _⟩
      · exact .inr h
    · rcases List.mem_cons.mp h with rfl | h
      · exact .inl ⟨heq.symm, List.append_ne_nil_of_right_ne_nil _ (List.cons_ne_nil _ _)⟩
      · exact .inr (List.mem_cons_of_mem _ h)
    · rcases List.mem_cons.mp h with rfl | h
      · exact .inr List.mem_cons_self
      · exact (ih h).imp_right (List.mem_cons_of_mem _)

theorem ascending_cons {s : Nat} {group : List TrafficAccount} :
    Ascending ((s, group) :: groups) ↔ (∀ g ∈ groups, s < g.1) ∧ Ascending groups := by
  unfold Ascending
  rw [List.map_cons, List.pairwise_cons, List.forall_mem_map]

theorem Ascending.insert (h : Ascending groups) : Ascending (insert shard a groups) := by
  induction groups with
  | nil => exact List.pairwise_singleton _ _
  | cons g groups ih =>
    obtain ⟨s, group⟩ := g
    obtain ⟨hbelow, hrest⟩ := ascending_cons.mp h
    rw [TrafficAccount.insert]
    split_ifs with hlt heq
    · refine ascending_cons.mpr ⟨List.forall_mem_cons.mpr ⟨hlt, fun g hg => ?_⟩, h⟩
      exact hlt.trans (hbelow g hg)
    · exact ascending_cons.mpr ⟨hbelow, hrest⟩
    · refine ascending_cons.mpr ⟨fun g hg => ?_, ih hrest⟩
      rcases mem_insert hg with ⟨hg, _⟩ | hg
      · omega
      · exact hbelow g hg

theorem ofShard_cons {s s' : Nat} {group : List TrafficAccount} :
    ofShard ((s, group) :: groups) s' = if s' = s then group else ofShard groups s' := by
  unfold ofShard
  rw [List.lookup_cons]
  split_ifs with h
  · rw [h, beq_self_eq_true]
    rfl
  · rw [beq_eq_false_iff_ne.mpr h]

theorem ofShard_eq_nil (h : ∀ g ∈ groups, shard < g.1) : ofShard groups shard = [] := by
  induction groups with
  | nil => rfl
  | cons g groups ih =>
    obtain ⟨hhere, hrest⟩ := List.forall_mem_cons.mp h
    rw [ofShard_cons, if_neg hhere.ne, ih hrest]

theorem ofShard_insert (h : Ascending groups) (shard' : Nat) :
    ofShard (insert shard a groups) shard' =
      if shard' = shard then ofShard groups shard ++ [a] else ofShard groups shard' := by
  induction groups with
  | nil =>
    rw [insert, ofShard_cons]
    rfl
  | cons g groups ih =>
    obtain ⟨s, group⟩ := g
    obtain ⟨hbelow, hrest⟩ := ascending_cons.mp h
    rw [insert]
    by_cases hlt : shard < s
    · have hnone : ofShard ((s, group) :: groups) shard = [] :=
        ofShard_eq_nil (List.forall_mem_cons.mpr ⟨hlt, fun g hg => hlt.trans (hbelow g hg)⟩)
      rw [if_pos hlt, ofShard_cons, hnone, List.nil_append]
    rw [if_neg hlt]
    by_cases heq : shard = s
    · subst heq
      rw [if_pos rfl, ofShard_cons, ofShard_cons, ofShard_cons, if_pos rfl]
      split_ifs <;> rfl
    · rw [if_neg heq, ofShard_cons, ofShard_cons, ofShard_cons, if_neg heq, ih hrest]
      split_ifs with hs hshard
      · exact absurd (hshard.symm.trans hs) heq
      · rfl
      · rfl
      · rfl

theorem sum_length_insert (shard : Nat) (a : TrafficAccount) (groups : TrafficGroups) :
    ((insert shard a groups).map (·.2.length)).sum = (groups.map (·.2.length)).sum + 1 := by
  have hlength := (perm_all_insert shard a groups).length_eq
  rw [List.length_append, List.length_singleton, all, all, List.length_flatMap,
    List.length_flatMap] at hlength
  exact hlength

end Insert

/-- The groups are a partition of the wallets: each shard has the accounts of just those wallets
that fall into it, one for each and in their order. -/
structure Partitions (format : KeyFormat) (coordinator : Coordinator) (wallets : List WalletKey)
    (groups : TrafficGroups) : Prop where
  ascending : Ascending groups
  ne_nil : ∀ g ∈ groups, g.2 ≠ []
  lt : ∀ g ∈ groups, g.1 < coordinator.count
  ofShard : ∀ shard, List.Forall₂ (Describes format)
    (wallets.filter fun w => coordinator.shardOf w.publicKey = shard) (ofShard groups shard)
  sum_length : (groups.map (·.2.length)).sum = wallets.length

theorem partitions_nil : Partitions format coordinator [] [] where
  ascending := .nil
  ne_nil := List.forall_mem_nil _
  lt := List.forall_mem_nil _
  ofShard := fun _ => .nil
  sum_length := rfl

theorem Partitions.insert (h : Partitions format coordinator before groups)
    (ha : Describes format wallet a) :
    Partitions format coordinator (before ++ [wallet])
      (insert (coordinator.shardOf wallet.publicKey) a groups) where
  ascending := h.ascending.insert
  ne_nil := fun g hg => (mem_insert hg).elim (·.2) (h.ne_nil g)
  lt := fun g hg => by
    rcases mem_insert hg with ⟨hshard, _⟩ | hg
    · rw [hshard]
      exact coordinator.shardOf_lt wallet.publicKey
    · exact h.lt g hg
  ofShard := fun shard => by
    rw [ofShard_insert h.ascending, List.filter_append]
    by_cases hshard : coordinator.shardOf wallet.publicKey = shard
    · have hnew : [wallet].filter (fun w => coordinator.shardOf w.publicKey = shard) = [wallet] :=
        List.filter_cons_of_pos (decide_eq_true hshard)
      rw [hnew, if_pos hshard.symm, hshard]
      exact List.rel_append (h.ofShard shard) (.cons ha .nil)
    · have hnone : [wallet].filter (fun w => coordinator.shardOf w.publicKey = shard) = [] :=
        List.filter_cons_of_neg (by simpa using hshard)
      rw [hnone, List.append_nil, if_neg (Ne.symm hshard)]
      exact h.ofShard shard
  sum_length := by
    rw [sum_length_insert, h.sum_length, List.length_append, List.length_singleton]

theorem partitions_groupInto (hbefore : Partitions format coordinator before groups)
    (h : groupInto format coordinator groups wallets = .ok groups') :
    Partitions format coordinator (before ++ wallets) groups' := by
  induction wallets generalizing before groups with
  | nil =>
    cases h
    rwa [List.append_nil]
  | cons wallet wallets ih =>
    obtain ⟨a, ha, h⟩ := bind_eq_ok.mp h
    rw [List.append_cons]
    exact ih (hbefore.insert (describes_of_ofWallet ha)) h

/-- Wallets are grouped unless one of them cannot be written, and then the first such wallet is to
blame. The groups are a partition of the wallets, and come back from their text in the order of
their shards, the name of each being the number of its shard. -/
theorem wallets_partitioned (format : KeyFormat) (coordinator : Coordinator)
    (wallets : List WalletKey) :
    (∀ e, group format coordinator wallets = .error e ↔
      FailsFirst (fun w => format.encode w.publicKey) wallets e) ∧
    ∀ groups, group format coordinator wallets = .ok groups →
      Partitions format coordinator wallets groups ∧
      ∃ members, Json.read (.members (.list .traffic)) (Json.ofTrafficGroups groups).lines =
          .ok members ∧
        members.map (fun m => (Amount.parse? m.1, m.2)) =
          groups.map fun g => (some (g.1 : Int), g.2) := by
  refine ⟨fun e => groupInto_eq_error_iff, fun groups h => ?_⟩
  refine ⟨partitions_groupInto partitions_nil h, _,
    (Json.Reader.yields_trafficGroups groups).read_lines, ?_⟩
  simp only [List.map_map, Function.comp_def, Amount.parse?_render]

def tenSample : Coordinator := ⟨11, by decide, by decide⟩

def walletSample (byte : UInt8) : WalletKey := { publicKey := [byte], privateKey := [byte, byte] }

theorem ten_follows_nine : ∃ groups,
    group (.hex 1 Nat.one_pos) tenSample ([10, 9, 1, 26, 9].map walletSample) = .ok groups ∧
      groups.map (fun g => (g.1, g.2.map (·.pubKey))) =
        [(1, ["01"]), (9, ["09", "09"]), (10, ["0a", "1a"])] ∧
      ∃ members, Json.read (.members (.list .traffic)) (Json.ofTrafficGroups groups).lines =
          .ok members ∧ members.map (fun m => Amount.parse? m.1) = [some 1, some 9, some 10] := by
  obtain ⟨groups, hgroups⟩ : ∃ groups,
      group (.hex 1 Nat.one_pos) tenSample ([10, 9, 1, 26, 9].map walletSample) = .ok groups :=
    ⟨_, rfl⟩
  obtain ⟨_, members, hread, hmembers⟩ := (wallets_partitioned _ _ _).2 groups hgroups
  have hnames := congrArg (List.map Prod.fst) hmembers
  cases hgroups
  rw [List.map_map, List.map_map] at hnames
  exact ⟨_, rfl, rfl, members, hread, hnames⟩

end Genesis.TrafficAccount
