import Genesis.Proofs.Key.Calls
import Genesis.Proofs.Steps
import Mathlib.Data.List.Nodup
import Mathlib.Data.List.Perm.Basic

/-!
At which places of their streams keys are found. However keys are drawn, no place is come to twice,
so that keys are as different as those of the stream are.
-/

namespace Genesis

open Steps

namespace KeySource

variable {source : KeySource} {i j m : Nat} {keys keys' : List Bytes}

/-- No public key comes twice before place `n`. -/
def DistinctBelow (source : KeySource) (n : Nat) : Prop :=
  ∀ i < n, ∀ j < n, ∀ key, source.publicKey i = .ok key → source.publicKey j = .ok key → i = j

theorem DistinctBelow.mono {n : Nat} (h : source.DistinctBelow n) (hle : m ≤ n) :
    source.DistinctBelow m :=
  fun i hi j hj => h i (hi.trans_le hle) j (hj.trans_le hle)

/-- The public keys stand at places of their own, from `i` on and before `j`. -/
structure Taken (source : KeySource) (i j : Nat) (keys : List Bytes) : Prop where
  le : i ≤ j
  placed : ∃ places : List Nat, places.Nodup ∧ (∀ k ∈ places, i ≤ k ∧ k < j) ∧
    List.Forall₂ (fun k key => source.publicKey k = .ok key) places keys

theorem taken_nil (h : i ≤ j) : source.Taken i j [] :=
  ⟨h, [], List.nodup_nil, List.forall_mem_nil _, .nil⟩

theorem taken_at {k : Nat} {key : Bytes} (h : i ≤ k) (hkey : source.publicKey k = .ok key) :
    source.Taken i (k + 1) [key] :=
  ⟨h.trans k.le_succ, [k], List.nodup_singleton k,
    List.forall_mem_singleton.mpr ⟨h, k.lt_succ_self⟩, .cons hkey .nil⟩

theorem Taken.append (h : source.Taken i j keys) (h' : source.Taken j m keys') :
    source.Taken i m (keys ++ keys') := by
  obtain ⟨hle, places, hnodup, hbounds, hplaces⟩ := h
  obtain ⟨hle', places', hnodup', hbounds', hplaces'⟩ := h'
  refine ⟨hle.trans hle', places ++ places', List.nodup_append.mpr ⟨hnodup, hnodup', ?_⟩, ?_,
    List.rel_append hplaces hplaces'⟩
  -- what comes later stands behind all that came before
  · intro k hk k' hk'
    exact ((hbounds k hk).2.trans_le (hbounds' k' hk').1).ne
  · refine List.forall_mem_append.mpr ⟨fun k hk => ?_, fun k hk => ?_⟩
    · exact ⟨(hbounds k hk).1, (hbounds k hk).2.trans_le hle'⟩
    · exact ⟨hle.trans (hbounds' k hk).1, (hbounds' k hk).2⟩

theorem Taken.perm (h : source.Taken i j keys) (hperm : keys'.Perm keys) :
    source.Taken i j keys' := by
  obtain ⟨hle, places, hnodup, hbounds, hplaces⟩ := h
  obtain ⟨places', hplaces', hperm'⟩ := List.perm_comp_forall₂ hperm hplaces.flip
  refine ⟨hle, places', hperm'.nodup_iff.mpr hnodup, fun k hk => ?_, hplaces'.flip⟩
  exact hbounds k (hperm'.mem_iff.mp hk)

theorem Taken.nodup (h : source.Taken i j keys) (hd : source.DistinctBelow j) : keys.Nodup := by
  obtain ⟨_, places, hnodup, hbounds, hplaces⟩ := h
  refine nodup_of_forall₂ hplaces (fun k hk k' hk' key hkey hkey' => ?_) hnodup
  exact hd k (hbounds k hk).2 k' (hbounds k' hk').2 key hkey hkey'

theorem taken_validatorKeysFrom (source : KeySource) (index n i : Nat) :
    ∃ taken, source.Taken i (source.validatorKeysFrom index n i).2 taken ∧
      ∀ keys, (source.validatorKeysFrom index n i).1 = .ok keys →
        taken = keys.map (·.publicKey) ∧
          (source.validatorKeysFrom index n i).2 = i + keys.length := by
  induction n generalizing index i with
  | zero => exact ⟨[], taken_nil le_rfl, fun keys hkeys => by cases hkeys; exact ⟨rfl, rfl⟩⟩
  | succ n ih =>
    unfold validatorKeysFrom
    cases hkey : source.validatorKey i with
    | error e => exact ⟨[], taken_nil i.le_succ, fun keys hkeys => by cases hkeys⟩
    | ok key =>
      obtain ⟨taken, htaken, hgiven⟩ := ih (index + 1) (i + 1)
      have hall := (taken_at le_rfl (validatorKey_ok hkey)).append htaken
      dsimp only
      split <;> rename_i hrest <;> rw [hrest] at hall hgiven
      · exact ⟨_, hall, fun keys hkeys => by cases hkeys⟩
      · refine ⟨_, hall, fun keys hkeys => ?_⟩
        cases hkeys
        obtain ⟨hkeys, hcount⟩ := hgiven _ rfl
        dsimp only at hcount
        rw [hkeys, hcount, List.length_cons]
        exact ⟨rfl, by omega⟩

end KeySource

namespace WalletRules

variable {ρ : Type} {rules : WalletRules} {c c' : WalletCursor ρ} {ws : List WalletKey}

theorem taken_of_next {w : WalletKey} (h : rules.next c = some (.ok w, c')) :
    rules.keys.Taken c.taken c'.taken [w.publicKey] := by
  obtain ⟨k, hfirst, rfl⟩ := next_eq_ok_iff.mp h
  cases hfirst.decides with
  | found hpublic _ _ _ => exact KeySource.taken_at hfirst.le hpublic

theorem le_of_next_error {e : Error} (h : rules.next c = some (.error e, c')) :
    c.taken ≤ c'.taken := by
  obtain ⟨k, hfirst, rfl⟩ := next_eq_error_iff.mp h
  exact Nat.le_succ_of_le hfirst.le

theorem Draws.taken (h : rules.Draws c ws c') :
    rules.keys.Taken c.taken c'.taken (ws.map (·.publicKey)) := by
  induction h with
  | done => exact KeySource.taken_nil le_rfl
  | reseeded _ _ ih => exact ih
  | failed first _ ih => exact (KeySource.taken_nil (le_of_next_error first)).append ih
  | drawn first _ ih => exact (taken_of_next first).append ih

/-! Where a wallet may be of any shard, no pair is passed over. -/

section AnyShard

variable {shard i k : Nat} {result : Except Error WalletKey}

theorem not_passesOver_of_any (hany : rules.everyShard = false) : ¬rules.PassesOver shard i := by
  rintro ⟨key, _, _, hrejects⟩
  unfold accepts at hrejects
  rw [hany] at hrejects
  cases hrejects

theorem First.eq_of_any (hany : rules.everyShard = false) (h : rules.First shard i k result) :
    k = i := by
  by_contra hne
  exact not_passesOver_of_any hany (h.passed i (Nat.le_refl i) (h.le.lt_of_ne (Ne.symm hne)))

theorem Finds.eq_add_of_any {lastShard j : Nat} (hany : rules.everyShard = false)
    (h : rules.Finds shard i ws lastShard j) : j = i + ws.length := by
  induction h with
  | nothing => rfl
  | next first _ ih =>
    rw [ih, first.eq_of_any hany, List.length_cons]
    omega

variable [Randomizer ρ] {size : Nat}

theorem taken_perform_of_any {call : Call} {given : Except Error (List WalletKey)}
    (hw : rules.keys.Writes size) (hs : 0 < size) (hany : rules.everyShard = false)
    (h : rules.perform c call = some (given, c')) :
    c'.taken = c.taken + (rules.completed c call).length := by
  have hanswers := rules.answers_perform c call
  rw [h] at hanswers
  cases hanswers with
  | refused => rfl
  | answered _ hcompletes _ =>
    cases hcompletes with
    | given hfinds _ => exact hfinds.eq_add_of_any hany
    | failed _ hfirst _ =>
      obtain ⟨w, hok⟩ := hfirst.decides.exists_ok hw hs
      cases hok

theorem taken_performAll_of_any {calls : List Call} (hw : rules.keys.Writes size) (hs : 0 < size)
    (hany : rules.everyShard = false) (h : rules.performAll c calls = some c') :
    c'.taken = c.taken + (rules.completedAll c calls).length := by
  induction calls generalizing c with
  | nil =>
    cases h
    rfl
  | cons call calls ih =>
    unfold performAll at h
    unfold completedAll
    rcases hfirst : rules.perform c call with _ | ⟨given, c₁⟩
    · rw [hfirst] at h
      cases h
    · rw [hfirst] at h
      rw [ih h, taken_perform_of_any hw hs hany hfirst, List.length_append, Nat.add_assoc]

end AnyShard

end WalletRules

end Genesis
