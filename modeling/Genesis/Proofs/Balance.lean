import Genesis.Balance
import Mathlib.Algebra.BigOperators.Group.List.Basic
import Mathlib.Tactic.Linarith
import Mathlib.Tactic.Ring

/-!
Sharing out loses nothing and makes nothing: the shares and the rest add up to what was shared, for
amounts of any sign, and where that is not below zero no share is.
-/

namespace Genesis

/-- Amounts that are all the same, but for the first one. -/
def ledBy (first others : Int) : Nat → List Int
  | 0 => []
  | n + 1 => first :: List.replicate n others

theorem sum_ledBy {n : Nat} (h : n ≠ 0) (share rest : Int) :
    (ledBy (share + rest) share n).sum = n * share + rest := by
  obtain ⟨m, rfl⟩ := Nat.exists_eq_succ_of_ne_zero h
  rw [ledBy, List.sum_cons, List.sum_replicate, nsmul_eq_mul, Nat.cast_succ]
  ring

theorem totalStaked_eq_sum (wallets : List WalletKey) :
    totalStaked wallets = (wallets.map (·.staked)).sum := by
  induction wallets with
  | nil => rfl
  | cons wallet rest ih => rw [totalStaked, List.map_cons, List.sum_cons, ih]

theorem totalStaked_eq_zero {wallets : List WalletKey} (h : ∀ w ∈ wallets, w.staked = 0) :
    totalStaked wallets = 0 := by
  rw [totalStaked_eq_sum]
  exact List.sum_eq_zero fun x hx => by
    obtain ⟨w, hw, rfl⟩ := List.mem_map.mp hx
    exact h w hw

section Split

variable {n : Nat} {balance minimum share rest : Int} {richest : Bool}

theorem exists_splitBalance (hn : n ≠ 0) (balance minimum : Int) (richest : Bool) :
    ∃ share rest, splitBalance n balance minimum richest = .ok (share, rest) := by
  unfold splitBalance
  rw [if_neg hn]
  dsimp only
  split
  · exact ⟨_, _, rfl⟩
  · exact ⟨_, _, rfl⟩

theorem splitBalance_cases (h : splitBalance n balance minimum richest = .ok (share, rest)) :
    n ≠ 0 ∧ (((richest → balance.tdiv n ≤ minimum) ∧ share = balance.tdiv n ∧
        rest = balance.tmod n) ∨
      (richest ∧ minimum < balance.tdiv n ∧ share = minimum ∧ rest = balance - n * minimum)) := by
  unfold splitBalance at h
  split at h
  · cases h
  · rename_i hn
    refine ⟨hn, ?_⟩
    dsimp only at h
    split at h
    · rename_i hr
      rw [Bool.and_eq_true, decide_eq_true_eq] at hr
      cases h
      exact .inr ⟨hr.1, hr.2, rfl, rfl⟩
    · rename_i hr
      rw [Bool.and_eq_true, decide_eq_true_eq, not_and, Int.not_lt] at hr
      cases h
      exact .inl ⟨hr, rfl, rfl⟩

theorem splitBalance_sum (h : splitBalance n balance minimum richest = .ok (share, rest)) :
    n * share + rest = balance := by
  obtain ⟨_, ⟨_, hs, hr⟩ | ⟨_, _, hs, hr⟩⟩ := splitBalance_cases h
  · rw [hs, hr]
    exact Int.mul_tdiv_add_tmod balance n
  · rw [hs, hr]
    exact add_sub_cancel _ _

theorem splitBalance_nonneg (h : splitBalance n balance minimum richest = .ok (share, rest))
    (hb : 0 ≤ balance) (hm : 0 ≤ minimum) : 0 ≤ share ∧ 0 ≤ rest := by
  obtain ⟨_, ⟨_, hs, hr⟩ | ⟨_, hlt, hs, hr⟩⟩ := splitBalance_cases h
  · rw [hs, hr]
    exact ⟨Int.tdiv_nonneg hb (Int.natCast_nonneg n), Int.tmod_nonneg n hb⟩
  · rw [hs, hr]
    refine ⟨hm, ?_⟩
    -- the minimum takes less from each wallet than an even share would
    have hmul : (n : Int) * minimum ≤ n * balance.tdiv n :=
      Int.mul_le_mul_of_nonneg_left hlt.le (Int.natCast_nonneg n)
    have hsum := Int.mul_tdiv_add_tmod balance n
    have hmod := Int.tmod_nonneg (n : Int) hb
    omega

theorem ediv_le_tdiv (balance : Int) (n : Nat) : balance / n ≤ balance.tdiv n := by
  rcases Nat.eq_zero_or_pos n with rfl | hpos
  · rw [Nat.cast_zero, Int.ediv_zero, Int.tdiv_zero]
  · rw [Int.tdiv_eq_ediv, Int.sign_natCast_of_ne_zero hpos.ne']
    split <;> omega

/-- Cutting off instead of rounding down makes no difference to what is above the minimum. -/
theorem tdiv_le_iff (hm : 0 ≤ minimum) : balance.tdiv n ≤ minimum ↔ balance / n ≤ minimum := by
  refine ⟨(ediv_le_tdiv balance n).trans, fun hle => ?_⟩
  rcases Int.le_total 0 balance with hb | hb
  · rwa [Int.tdiv_eq_ediv_of_nonneg hb]
  · have hnonneg := Int.tdiv_nonneg (Int.neg_nonneg_of_nonpos hb) (Int.natCast_nonneg n)
    rw [Int.neg_tdiv] at hnonneg
    omega

/-- What each of `n` wallets gets, and what is left for the first one. -/
structure FairSplit (n : Nat) (balance minimum : Int) (richest : Bool) (share rest : Int) :
    Prop where
  sum : n * share + rest = balance
  nonneg : 0 ≤ balance → 0 ≤ share ∧ 0 ≤ rest
  /-- An even split leaves less than one more for each. -/
  rest_lt : (richest → balance / n ≤ minimum) → rest < n
  share_le : richest → share ≤ minimum
  le_share : richest → min minimum (balance / n) ≤ share
  share_eq : richest → minimum < balance / n → share = minimum

theorem splitBalance_fair (h : splitBalance n balance minimum richest = .ok (share, rest))
    (hm : 0 ≤ minimum) : FairSplit n balance minimum richest share rest := by
  have hsum := splitBalance_sum h
  have hnonneg := fun hb => splitBalance_nonneg h hb hm
  obtain ⟨hn, ⟨hfew, rfl, rfl⟩ | ⟨hrichest, hlt, rfl, rfl⟩⟩ := splitBalance_cases h
  · have hpos : (0 : Int) < n := Int.natCast_pos.mpr (Nat.pos_of_ne_zero hn)
    refine ⟨hsum, hnonneg, fun _ => Int.tmod_lt_of_pos balance hpos, hfew,
      fun _ => (min_le_right _ _).trans (ediv_le_tdiv balance n), fun hr hfloor => ?_⟩
    exact absurd ((tdiv_le_iff hm).mp (hfew hr)) hfloor.not_ge
  · have hfloor : ¬balance / n ≤ share := mt (tdiv_le_iff hm).mpr hlt.not_ge
    exact ⟨hsum, hnonneg, fun heven => absurd (heven hrichest) hfloor, fun _ => le_rfl,
      fun _ => min_le_left _ _, fun _ _ => rfl⟩

/-- What is owed is shared as well, and cut off towards zero. -/
example : splitBalance 3 (-7) 0 false = .ok (-2, -1) := rfl

end Split

section Give

variable {share rest : Int} {wallets : List WalletKey}

@[simp] theorem length_giveBalance (share rest : Int) (wallets : List WalletKey) :
    (giveBalance share rest wallets).length = wallets.length := by
  cases wallets with
  | nil => rfl
  | cons first others => simp [giveBalance]

theorem map_giveBalance {γ : Type} {f : WalletKey → γ}
    (hf : ∀ (w : WalletKey) (x : Int), f { w with balance := x } = f w) :
    (giveBalance share rest wallets).map f = wallets.map f := by
  cases wallets with
  | nil => rfl
  | cons first others =>
    rw [giveBalance, List.map_cons, List.map_cons, hf, List.map_map]
    congr 1
    exact List.map_congr_left fun w _ => hf w share

theorem map_balance_giveBalance (share rest : Int) (wallets : List WalletKey) :
    (giveBalance share rest wallets).map (·.balance) =
      ledBy (share + rest) share wallets.length := by
  cases wallets with
  | nil => rfl
  | cons first others => simp [giveBalance, ledBy, Function.comp_def]

theorem sum_giveBalance (h : wallets ≠ []) :
    ((giveBalance share rest wallets).map (·.balance)).sum = wallets.length * share + rest := by
  rw [map_balance_giveBalance, sum_ledBy (List.length_pos_iff.mpr h).ne']

theorem balance_nonneg_of_mem_giveBalance (hs : 0 ≤ share) (hr : 0 ≤ rest) {w : WalletKey}
    (hw : w ∈ giveBalance share rest wallets) : 0 ≤ w.balance := by
  cases wallets with
  | nil => cases hw
  | cons first others =>
    rcases List.mem_cons.mp hw with rfl | hw
    · exact Int.add_nonneg hs hr
    · obtain ⟨_, _, rfl⟩ := List.mem_map.mp hw
      exact hs

end Give

section Delegate

variable {contract : Bytes} {stake gas : Int} {delegators : List WalletKey}

@[simp] theorem length_giveDelegation (contract : Bytes) (stake gas : Int)
    (delegators : List WalletKey) :
    (giveDelegation contract stake gas delegators).length = delegators.length := by
  cases delegators with
  | nil => rfl
  | cons first others => simp [giveDelegation]

theorem map_publicKey_giveDelegation :
    (giveDelegation contract stake gas delegators).map (·.publicKey) =
      delegators.map (·.publicKey) := by
  cases delegators with
  | nil => rfl
  | cons first others => simp [giveDelegation]

theorem of_mem_giveDelegation {d : WalletKey}
    (hd : d ∈ giveDelegation contract stake gas delegators) :
    d.contract = contract ∧ d.balance = gas ∧ (0 ≤ stake → 0 ≤ d.delegated) ∧
      ∃ d₀ ∈ delegators, d₀.publicKey = d.publicKey ∧ d₀.staked = d.staked := by
  cases delegators with
  | nil => cases hd
  | cons first others =>
    have hshare : 0 ≤ stake → 0 ≤ stake.tdiv ((others.length : Int) + 1) :=
      fun hs => Int.tdiv_nonneg hs (by omega)
    rcases List.mem_cons.mp hd with rfl | hd
    · exact ⟨rfl, rfl, fun hs => Int.add_nonneg (hshare hs) (Int.tmod_nonneg _ hs),
        first, List.mem_cons_self, rfl, rfl⟩
    · obtain ⟨d₀, hd₀, rfl⟩ := List.mem_map.mp hd
      exact ⟨rfl, rfl, hshare, d₀, List.mem_cons_of_mem _ hd₀, rfl, rfl⟩

theorem map_delegated_giveDelegation (contract : Bytes) (stake gas : Int)
    (delegators : List WalletKey) :
    (giveDelegation contract stake gas delegators).map (·.delegated) =
      ledBy (stake.tdiv delegators.length + stake.tmod delegators.length)
        (stake.tdiv delegators.length) delegators.length := by
  cases delegators with
  | nil => rfl
  | cons first others => simp [giveDelegation, ledBy, Function.comp_def]

theorem map_balance_giveDelegation (contract : Bytes) (stake gas : Int)
    (delegators : List WalletKey) :
    (giveDelegation contract stake gas delegators).map (·.balance) =
      List.replicate delegators.length gas := by
  cases delegators with
  | nil => rfl
  | cons first others => simp [giveDelegation, Function.comp_def, List.replicate_succ]

theorem sum_delegated_giveDelegation (h : delegators ≠ []) :
    ((giveDelegation contract stake gas delegators).map (·.delegated)).sum = stake := by
  rw [map_delegated_giveDelegation, sum_ledBy (List.length_pos_iff.mpr h).ne']
  exact Int.mul_tdiv_add_tmod stake delegators.length

theorem sum_balance_giveDelegation :
    ((giveDelegation contract stake gas delegators).map (·.balance)).sum =
      gas * delegators.length := by
  rw [map_balance_giveDelegation, List.sum_replicate, nsmul_eq_mul, mul_comm]

theorem delegationCost_eq (h : delegators ≠ []) :
    delegationCost stake gas delegators.length = stake + gas * delegators.length :=
  if_neg (List.length_pos_iff.mpr h).ne'

end Delegate

end Genesis
