import Genesis.Checker
import Genesis.Proofs.Steps
import Genesis.Proofs.Totals

/-!
What passes the gate: accounts that are sound one by one, at least one of them, and together worth
the total supply.
-/

namespace Genesis.Checker

open Steps

structure Sound (c : Checker) (a : Account) : Prop where
  stakingValue : 0 ≤ a.stakingValue
  balance : 0 ≤ a.balance
  supply : 0 ≤ a.supply
  delegated : 0 ≤ a.delegation.value
  parts : a.supply = a.parts
  dvd : c.nodePrice ∣ a.stakingValue
  contract : 0 < a.delegation.value → a.delegation.address.isEmpty = false

variable {c : Checker} {a : Account} {accounts : List Account} {t t' : Totals}

theorem sound_ofParts {address : String} {balance staked : Int} {d : Delegation}
    (hbalance : 0 ≤ balance) (hstaked : 0 ≤ staked) (hvalue : 0 ≤ d.value)
    (hdvd : c.nodePrice ∣ staked) (hcontract : 0 < d.value → d.address.isEmpty = false) :
    c.Sound (.ofParts address balance staked d) where
  stakingValue := hstaked
  balance := hbalance
  supply := Int.add_nonneg (Int.add_nonneg hbalance hstaked) hvalue
  delegated := hvalue
  parts := rfl
  dvd := hdvd
  contract := hcontract

theorem checkAccount_eq_ok_iff : c.checkAccount a = .ok () ↔ c.Sound a := by
  unfold checkAccount
  constructor
  · intro h
    split_ifs at h with hstaking hbalance hsupply hdelegated hparts heven hcontract
    refine ⟨Int.not_lt.mp hstaking, Int.not_lt.mp hbalance, Int.not_lt.mp hsupply,
      Int.not_lt.mp hdelegated, (not_not.mp hparts).symm,
      Int.dvd_of_tmod_eq_zero (not_not.mp heven), fun hpos => ?_⟩
    exact Bool.eq_false_iff.mpr fun hempty => hcontract ⟨hpos, hempty⟩
  · rintro ⟨hstaking, hbalance, hsupply, hdelegated, hparts, heven, hcontract⟩
    have htmod := Int.tmod_eq_zero_of_dvd heven
    rw [if_neg (Int.not_lt.mpr hstaking), if_neg (Int.not_lt.mpr hbalance),
      if_neg (Int.not_lt.mpr hsupply), if_neg (Int.not_lt.mpr hdelegated),
      if_neg (not_not.mpr hparts.symm), if_neg (not_not.mpr htmod), if_neg]
    rintro ⟨hpos, hempty⟩
    exact Bool.eq_false_iff.mp (hcontract hpos) hempty

theorem addUp_eq_ok_iff :
    c.addUp t accounts = .ok t' ↔
      (∀ a ∈ accounts, c.Sound a) ∧ t' = t + Totals.ofAccounts accounts := by
  induction accounts generalizing t with
  | nil =>
    rw [addUp, Totals.ofAccounts_nil, Totals.add_zero, Except.ok.injEq]
    exact ⟨fun h => ⟨List.forall_mem_nil _, h.symm⟩, fun h => h.2.symm⟩
  | cons a rest ih =>
    rw [addUp, bind_eq_ok, List.forall_mem_cons, Totals.ofAccounts_cons, ← Totals.add_assoc]
    constructor
    · rintro ⟨_, ha, hrest⟩
      have hsound := checkAccount_eq_ok_iff.mp ha
      obtain ⟨hall, rfl⟩ := ih.mp hrest
      rw [hsound.parts]
      exact ⟨⟨hsound, hall⟩, rfl⟩
    · rintro ⟨⟨hsound, hall⟩, rfl⟩
      refine ⟨(), checkAccount_eq_ok_iff.mpr hsound, ih.mpr ⟨hall, ?_⟩⟩
      rw [hsound.parts]
      rfl

theorem check_eq_ok_iff :
    c.check accounts = .ok t ↔
      accounts ≠ [] ∧ (∀ a ∈ accounts, c.Sound a) ∧
        (Totals.ofAccounts accounts).supply = c.totalSupply ∧ t = Totals.ofAccounts accounts := by
  unfold check
  cases accounts with
  | nil =>
    constructor
    · intro h
      cases h
    · rintro ⟨hne, _⟩
      contradiction
  | cons a rest =>
    constructor
    · intro h
      obtain ⟨totals, hadd, h⟩ := bind_eq_ok.mp h
      obtain ⟨hsound, rfl⟩ := addUp_eq_ok_iff.mp hadd
      rw [Totals.zero_add] at h
      dsimp only at h
      split at h
      · cases h
      · rename_i htotal
        cases h
        exact ⟨List.cons_ne_nil a rest, hsound, not_not.mp htotal, rfl⟩
    · rintro ⟨_, hsound, htotal, rfl⟩
      have hadd : c.addUp {} (a :: rest) = .ok (Totals.ofAccounts (a :: rest)) :=
        addUp_eq_ok_iff.mpr ⟨hsound, (Totals.zero_add _).symm⟩
      refine bind_eq_ok.mpr ⟨_, hadd, ?_⟩
      dsimp only
      rw [if_neg (not_not.mpr htotal)]
      rfl

theorem ofAmounts?_of_pos {nodePrice totalSupply : Int} (hp : 0 < nodePrice)
    (hs : 0 < totalSupply) :
    ofAmounts? (some nodePrice) (some totalSupply) = .ok ⟨nodePrice, totalSupply, hp, hs⟩ := by
  unfold ofAmounts?
  dsimp only
  rw [dif_pos hp, dif_pos hs]
  rfl

theorem totalSupply_of_ofAmounts? {nodePrice totalSupply : Int}
    (h : ofAmounts? (some nodePrice) (some totalSupply) = .ok c) : c.totalSupply = totalSupply := by
  unfold ofAmounts? at h
  dsimp only at h
  split at h
  · split at h
    · cases h
      rfl
    · cases h
  · cases h

end Genesis.Checker
