import Genesis.Proofs.Steps
import Genesis.Traffic
import Mathlib.Data.List.Perm.Basic

/-! No account is lost or made up when accounts are grouped by shard. -/

namespace Genesis.TrafficAccount

open Steps

variable {format : KeyFormat} {coordinator : Coordinator} {wallet : WalletKey} {a : TrafficAccount}
  {groups groups' : TrafficGroups} {wallets : List WalletKey}

theorem ofWallet_ok (h : ofWallet format wallet = .ok a) :
    format.encode wallet.publicKey = .ok a.pubKey ∧ a.privKey = Hex.encode wallet.privateKey ∧
      a.balance = wallet.balance := by
  obtain ⟨pubKey, hencode, h⟩ := bind_eq_ok.mp h
  cases h
  exact ⟨hencode, rfl, rfl⟩

theorem exists_ofWallet (h : ∃ text, format.encode wallet.publicKey = .ok text) :
    ∃ a, ofWallet format wallet = .ok a := by
  obtain ⟨text, htext⟩ := h
  exact exists_bind htext ⟨_, rfl⟩

def all (groups : TrafficGroups) : List TrafficAccount := groups.flatMap (·.2)

theorem perm_all_insert (shard : Nat) (a : TrafficAccount) (groups : TrafficGroups) :
    (all (insert shard a groups)).Perm (all groups ++ [a]) := by
  induction groups with
  | nil => exact .refl _
  | cons g groups ih =>
    obtain ⟨s, group⟩ := g
    unfold all at ih ⊢
    rw [insert]
    split
    · rw [List.flatMap_cons]
      exact List.perm_append_comm
    split
    · rw [List.flatMap_cons, List.flatMap_cons, List.append_assoc, List.append_assoc]
      exact List.perm_append_comm.append_left group
    · rw [List.flatMap_cons, List.flatMap_cons, List.append_assoc]
      exact ih.append_left group

theorem groupInto_ok (h : groupInto format coordinator groups wallets = .ok groups') :
    ∃ as, List.Forall₂ (fun w a => ofWallet format w = .ok a) wallets as ∧
      (all groups').Perm (all groups ++ as) := by
  -- whatever group an account goes to, it is one more behind all the others
  induction wallets generalizing groups with
  | nil =>
    cases h
    exact ⟨[], .nil, by rw [List.append_nil]⟩
  | cons wallet wallets ih =>
    obtain ⟨a, ha, h⟩ := bind_eq_ok.mp h
    obtain ⟨as, has, hperm⟩ := ih h
    refine ⟨a :: as, .cons ha has, hperm.trans ?_⟩
    have hinsert := perm_all_insert (coordinator.shardOf wallet.publicKey) a groups
    rw [List.append_cons]
    exact hinsert.append_right as

theorem group_ok (h : group format coordinator wallets = .ok groups) :
    ∃ as, List.Forall₂ (fun w a => ofWallet format w = .ok a) wallets as ∧
      (all groups).Perm as :=
  groupInto_ok h

theorem exists_groupInto (coordinator : Coordinator) (groups : TrafficGroups)
    (h : ∀ w ∈ wallets, ∃ text, format.encode w.publicKey = .ok text) :
    ∃ groups', groupInto format coordinator groups wallets = .ok groups' := by
  induction wallets generalizing groups with
  | nil => exact ⟨groups, rfl⟩
  | cons wallet wallets ih =>
    obtain ⟨hwallet, hwallets⟩ := List.forall_mem_cons.mp h
    obtain ⟨a, ha⟩ := exists_ofWallet hwallet
    exact exists_bind ha (ih _ hwallets)

theorem exists_group (coordinator : Coordinator)
    (h : ∀ w ∈ wallets, ∃ text, format.encode w.publicKey = .ok text) :
    ∃ groups, group format coordinator wallets = .ok groups :=
  exists_groupInto coordinator [] h

end Genesis.TrafficAccount
