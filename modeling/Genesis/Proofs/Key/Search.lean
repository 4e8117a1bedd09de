import Genesis.Key.Wallet

/-!
What comes of a search for a wallet: it passes over the pairs of other shards, and the first pair
that it does not pass over decides it.
-/

namespace Genesis.WalletRules

variable {rules : WalletRules} {shard i j : Nat} {result : Except Error WalletKey}

/-- The pair at place `i` is left for another shard, whatever its private half may be. -/
def PassesOver (rules : WalletRules) (shard i : Nat) : Prop :=
  ∃ key, rules.keys.publicKey i = .ok key ∧ key ≠ [] ∧ rules.accepts shard key = false

/-- What a search comes to that ends at the pair at place `i`. -/
inductive Decides (rules : WalletRules) (shard i : Nat) : Except Error WalletKey → Prop
  | unwritten {e : Error} (public_error : rules.keys.publicKey i = .error e) :
      Decides rules shard i (.error e)
  | empty (public_empty : rules.keys.publicKey i = .ok []) :
      Decides rules shard i (.error (.badKey "empty wallet public key"))
  | locked {publicKey : Bytes} {e : Error} (public_ok : rules.keys.publicKey i = .ok publicKey)
      (ne_nil : publicKey ≠ []) (accepted : rules.accepts shard publicKey)
      (private_error : rules.keys.privateKey i = .error e) : Decides rules shard i (.error e)
  | found {publicKey privateKey : Bytes} (public_ok : rules.keys.publicKey i = .ok publicKey)
      (ne_nil : publicKey ≠ []) (accepted : rules.accepts shard publicKey)
      (private_ok : rules.keys.privateKey i = .ok privateKey) :
      Decides rules shard i (.ok { publicKey, privateKey })

theorem passesOver_or_decides (rules : WalletRules) (shard i : Nat) :
    rules.PassesOver shard i ∨ ∃ result, rules.Decides shard i result := by
  cases hpublic : rules.keys.publicKey i with
  | error e => exact .inr ⟨_, .unwritten hpublic⟩
  | ok key =>
    by_cases hnil : key = []
    · exact .inr ⟨_, .empty (hnil ▸ hpublic)⟩
    cases haccepts : rules.accepts shard key with
    | false => exact .inl ⟨key, hpublic, hnil, haccepts⟩
    | true =>
      cases hprivate : rules.keys.privateKey i with
      | error e => exact .inr ⟨_, .locked hpublic hnil haccepts hprivate⟩
      | ok privateKey => exact .inr ⟨_, .found hpublic hnil haccepts hprivate⟩

theorem Decides.not_passesOver (h : rules.Decides shard i result) : ¬rules.PassesOver shard i := by
  rintro ⟨key, hpublic, hnil, haccepts⟩
  cases h with
  | unwritten h => cases hpublic.symm.trans h
  | empty h =>
    cases hpublic.symm.trans h
    exact hnil rfl
  | locked h _ ha _ =>
    cases hpublic.symm.trans h
    cases haccepts.symm.trans ha
  | found h _ ha _ =>
    cases hpublic.symm.trans h
    cases haccepts.symm.trans ha

theorem search_of_passesOver (h : rules.PassesOver shard i) :
    rules.search shard i = rules.search shard (i + 1) := by
  obtain ⟨key, hpublic, hnil, haccepts⟩ := h
  rw [search, hpublic]
  simp only [List.isEmpty_iff, hnil, haccepts, Bool.false_eq_true, if_false]

theorem search_of_decides (h : rules.Decides shard i result) :
    rules.search shard i = some (result, i + 1) := by
  rw [search]
  cases h with
  | unwritten hpublic => rw [hpublic]
  | empty hpublic =>
    rw [hpublic]
    rfl
  | locked hpublic hnil haccepts hprivate =>
    rw [hpublic]
    simp only [List.isEmpty_iff, hnil, haccepts, hprivate, if_false, if_true]
  | found hpublic hnil haccepts hprivate =>
    rw [hpublic]
    simp only [List.isEmpty_iff, hnil, haccepts, hprivate, if_false, if_true]

/-- Of the pairs from place `i` on, the one at place `k` is the first that is not passed over. -/
structure First (rules : WalletRules) (shard i k : Nat) (result : Except Error WalletKey) :
    Prop where
  le : i ≤ k
  passed : ∀ m, i ≤ m → m < k → rules.PassesOver shard m
  decides : rules.Decides shard k result

theorem first_of_decides (h : rules.Decides shard i result) : rules.First shard i i result :=
  ⟨Nat.le_refl i, fun _ hle hlt => absurd (Nat.lt_of_le_of_lt hle hlt) (Nat.lt_irrefl i), h⟩

theorem First.of_succ {k : Nat} (hpass : rules.PassesOver shard i)
    (h : rules.First shard (i + 1) k result) : rules.First shard i k result := by
  refine ⟨Nat.le_of_succ_le h.le, fun m hle hlt => ?_, h.decides⟩
  rcases Nat.eq_or_lt_of_le hle with rfl | hle
  · exact hpass
  · exact h.passed m hle hlt

theorem search_of_first {k : Nat} (h : rules.First shard i k result) :
    rules.search shard i = some (result, k + 1) := by
  obtain ⟨hle, hpassed, hdecides⟩ := h
  obtain ⟨n, rfl⟩ := Nat.exists_eq_add_of_le hle
  induction n generalizing i with
  | zero => exact search_of_decides hdecides
  | succ n ih =>
    have hplace : i + (n + 1) = i + 1 + n := by omega
    rw [hplace] at hpassed hdecides ⊢
    rw [search_of_passesOver (hpassed i (Nat.le_refl i) (by omega))]
    exact ih (Nat.le_add_right _ _) (fun m hm => hpassed m (Nat.le_of_succ_le hm)) hdecides

theorem search_eq_some_iff :
    rules.search shard i = some (result, j) ↔ ∃ k, j = k + 1 ∧ rules.First shard i k result := by
  constructor
  · intro h
    -- the pair that is looked at decides the search, or is passed over and one behind it does
    refine search.partial_correctness rules shard
      (fun i r => ∃ k, r.2 = k + 1 ∧ rules.First shard i k r.1) ?_ i (result, j) h
    intro search ih i r hr
    split at hr
    · rename_i e hpublic
      cases hr
      exact ⟨i, rfl, first_of_decides (.unwritten hpublic)⟩
    · rename_i key hpublic
      split at hr
      · rename_i hempty
        cases hr
        rw [List.isEmpty_iff.mp hempty] at hpublic
        exact ⟨i, rfl, first_of_decides (.empty hpublic)⟩
      · rename_i hnonempty
        have hne : key ≠ [] := fun hnil => hnonempty (List.isEmpty_iff.mpr hnil)
        split at hr
        · rename_i haccepts
          split at hr
          · rename_i e hprivate
            cases hr
            exact ⟨i, rfl, first_of_decides (.locked hpublic hne haccepts hprivate)⟩
          · rename_i privateKey hprivate
            cases hr
            exact ⟨i, rfl, first_of_decides (.found hpublic hne haccepts hprivate)⟩
        · rename_i hrejects
          obtain ⟨k, hk, hfirst⟩ := ih (i + 1) r hr
          exact ⟨k, hk, hfirst.of_succ ⟨key, hpublic, hne, Bool.not_eq_true _ ▸ hrejects⟩⟩
  · rintro ⟨k, rfl, hfirst⟩
    exact search_of_first hfirst

theorem exists_first {k : Nat} (hle : i ≤ k) (h : rules.Decides shard k result) :
    ∃ k result, rules.First shard i k result := by
  obtain ⟨n, rfl⟩ := Nat.exists_eq_add_of_le hle
  induction n generalizing i with
  | zero => exact ⟨i, result, first_of_decides h⟩
  | succ n ih =>
    rcases rules.passesOver_or_decides shard i with hpass | ⟨earlier, hdecides⟩
    · have hplace : i + (n + 1) = i + 1 + n := by omega
      rw [hplace] at h
      obtain ⟨k, result, hfirst⟩ := ih (Nat.le_add_right _ _) h
      exact ⟨k, result, hfirst.of_succ hpass⟩
    · exact ⟨i, earlier, first_of_decides hdecides⟩

/-- The search goes on for ever, as no pair from place `i` on decides it. -/
def Endless (rules : WalletRules) (shard i : Nat) : Prop := ∀ k, i ≤ k → rules.PassesOver shard k

theorem search_eq_none_iff : rules.search shard i = none ↔ rules.Endless shard i := by
  constructor
  · intro h k hle
    refine (rules.passesOver_or_decides shard k).resolve_right ?_
    rintro ⟨result, hdecides⟩
    obtain ⟨k, result, hfirst⟩ := exists_first hle hdecides
    cases h.symm.trans (search_of_first hfirst)
  · intro h
    rcases hsearch : rules.search shard i with _ | ⟨result, j⟩
    · rfl
    · obtain ⟨k, _, hfirst⟩ := search_eq_some_iff.mp hsearch
      exact absurd (h k hfirst.le) hfirst.decides.not_passesOver

section Cursor

variable {ρ : Type} {c c' : WalletCursor ρ}

theorem next_eq_none_iff : rules.next c = none ↔ rules.Endless c.shard c.taken := by
  rw [← search_eq_none_iff]
  unfold next
  rcases rules.search c.shard c.taken with _ | ⟨e | w, j⟩
  · exact iff_of_true rfl rfl
  · exact iff_of_false (Option.some_ne_none _) (Option.some_ne_none _)
  · exact iff_of_false (Option.some_ne_none _) (Option.some_ne_none _)

theorem next_eq_ok_iff {w : WalletKey} :
    rules.next c = some (.ok w, c') ↔ ∃ k, rules.First c.shard c.taken k (.ok w) ∧
      c' = { c with taken := k + 1, shard := (c.shard + 1) % rules.shards } := by
  unfold next
  constructor
  · intro h
    split at h
    · cases h
    · cases h
    · rename_i hsearch
      cases h
      obtain ⟨k, rfl, hfirst⟩ := search_eq_some_iff.mp hsearch
      exact ⟨k, hfirst, rfl⟩
  · rintro ⟨k, hfirst, rfl⟩
    rw [search_of_first hfirst]

theorem next_eq_error_iff {e : Error} :
    rules.next c = some (.error e, c') ↔
      ∃ k, rules.First c.shard c.taken k (.error e) ∧ c' = { c with taken := k + 1 } := by
  unfold next
  constructor
  · intro h
    split at h
    · cases h
    · rename_i hsearch
      cases h
      obtain ⟨k, rfl, hfirst⟩ := search_eq_some_iff.mp hsearch
      exact ⟨k, hfirst, rfl⟩
    · cases h
  · rintro ⟨k, hfirst, rfl⟩
    rw [search_of_first hfirst]

theorem randomizer_of_next {result : Except Error WalletKey}
    (h : rules.next c = some (result, c')) : c'.randomizer = c.randomizer := by
  cases result with
  | error e =>
    obtain ⟨k, _, rfl⟩ := next_eq_error_iff.mp h
    rfl
  | ok w =>
    obtain ⟨k, _, rfl⟩ := next_eq_ok_iff.mp h
    rfl

end Cursor

end Genesis.WalletRules
