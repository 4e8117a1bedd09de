import Genesis.Proofs.Checker

/-!
Why the gate refuses a list of accounts: for being empty, or for the first thing that is wrong with
the first account that is not sound, or for a total other than the supply.
-/

namespace Genesis

inductive Flaw where
  | negativeStake
  | negativeBalance
  | negativeSupply
  | negativeDelegation
  | brokenSum
  | unevenStake
  | noContract
  deriving DecidableEq, Repr

namespace Flaw

def order : List Flaw :=
  [.negativeStake, .negativeBalance, .negativeSupply, .negativeDelegation, .brokenSum,
   .unevenStake, .noContract]

def Of (price : Int) (a : Account) : Flaw → Prop
  | .negativeStake => a.stakingValue < 0
  | .negativeBalance => a.balance < 0
  | .negativeSupply => a.supply < 0
  | .negativeDelegation => a.delegation.value < 0
  | .brokenSum => a.supply ≠ a.balance + a.stakingValue + a.delegation.value
  | .unevenStake => ¬price ∣ a.stakingValue
  | .noContract => 0 < a.delegation.value ∧ a.delegation.address = ""

instance (price : Int) (a : Account) (flaw : Flaw) : Decidable (flaw.Of price a) :=
  match flaw with
  | .negativeStake => inferInstanceAs (Decidable (a.stakingValue < 0))
  | .negativeBalance => inferInstanceAs (Decidable (a.balance < 0))
  | .negativeSupply => inferInstanceAs (Decidable (a.supply < 0))
  | .negativeDelegation => inferInstanceAs (Decidable (a.delegation.value < 0))
  | .brokenSum =>
    inferInstanceAs (Decidable (a.supply ≠ a.balance + a.stakingValue + a.delegation.value))
  | .unevenStake => inferInstanceAs (Decidable (¬price ∣ a.stakingValue))
  | .noContract =>
    inferInstanceAs (Decidable (0 < a.delegation.value ∧ a.delegation.address = ""))

def error (address : String) : Flaw → Error
  | .negativeStake => .negativeField address "StakingValue"
  | .negativeBalance => .negativeField address "Balance"
  | .negativeSupply => .negativeField address "Supply"
  | .negativeDelegation => .negativeField address "Delegation.Value"
  | .brokenSum => .supplyMismatch address
  | .unevenStake => .unevenStake address
  | .noContract => .delegationNowhere address

def first? (price : Int) (a : Account) : Option Flaw :=
  order.find? fun flaw => decide (flaw.Of price a)

def verdict (address : String) : Option Flaw → Except Error Unit
  | none => .ok ()
  | some flaw => .error (flaw.error address)

theorem verdict_find?_cons (price : Int) (a : Account) (flaw : Flaw) (others : List Flaw) :
    verdict a.address ((flaw :: others).find? fun f => decide (f.Of price a)) =
      if flaw.Of price a then .error (flaw.error a.address)
      else verdict a.address (others.find? fun f => decide (f.Of price a)) := by
  rw [List.find?_cons]
  by_cases h : flaw.Of price a
  · simp only [h, decide_true, if_true, verdict]
  · simp only [h, decide_false, if_false]

theorem first?_eq_none_iff {price : Int} {a : Account} :
    first? price a = none ↔ ∀ flaw : Flaw, ¬flaw.Of price a := by
  have hall : ∀ flaw : Flaw, flaw ∈ order := fun flaw => by cases flaw <;> decide
  simp only [first?, List.find?_eq_none, decide_eq_true_eq]
  exact ⟨fun h flaw => h flaw (hall flaw), fun h flaw _ => h flaw⟩

end Flaw

namespace Checker

open Steps

variable {c : Checker} {a : Account} {accounts : List Account} {t : Totals} {e : Error}

theorem checkAccount_eq (c : Checker) (a : Account) :
    c.checkAccount a = Flaw.verdict a.address (Flaw.first? c.nodePrice a) := by
  have hsum : a.parts ≠ a.supply ↔ Flaw.brokenSum.Of c.nodePrice a := ne_comm
  have heven : a.stakingValue.tmod c.nodePrice ≠ 0 ↔ Flaw.unevenStake.Of c.nodePrice a :=
    not_congr Int.dvd_iff_tmod_eq_zero.symm
  have hcontract : 0 < a.delegation.value ∧ a.delegation.address.isEmpty = true ↔
      Flaw.noContract.Of c.nodePrice a := and_congr_right' String.isEmpty_iff
  unfold Flaw.first? Flaw.order
  simp only [Flaw.verdict_find?_cons, List.find?_nil]
  unfold checkAccount
  refine if_congr Iff.rfl rfl ?_
  refine if_congr Iff.rfl rfl ?_
  refine if_congr Iff.rfl rfl ?_
  refine if_congr Iff.rfl rfl ?_
  refine if_congr hsum rfl ?_
  refine if_congr heven rfl ?_
  exact if_congr hcontract rfl rfl

theorem sound_iff : c.Sound a ↔ ∀ flaw : Flaw, ¬flaw.Of c.nodePrice a := by
  rw [← checkAccount_eq_ok_iff, checkAccount_eq, ← Flaw.first?_eq_none_iff]
  cases Flaw.first? c.nodePrice a with
  | none => simp only [Flaw.verdict]
  | some flaw => simp only [Flaw.verdict, reduceCtorEq]

theorem checkAccount_eq_error_iff :
    c.checkAccount a = .error e ↔
      ∃ flaw, Flaw.first? c.nodePrice a = some flaw ∧ e = flaw.error a.address := by
  rw [checkAccount_eq]
  cases Flaw.first? c.nodePrice a with
  | none => simp only [Flaw.verdict, reduceCtorEq, false_and, exists_false]
  | some flaw => simp only [Flaw.verdict, Except.error.injEq, Option.some.injEq, exists_eq_left',
      eq_comm]

theorem addUp_eq_error_iff :
    c.addUp t accounts = .error e ↔
      ∃ before a after flaw, accounts = before ++ a :: after ∧ (∀ b ∈ before, c.Sound b) ∧
        Flaw.first? c.nodePrice a = some flaw ∧ e = flaw.error a.address := by
  induction accounts generalizing t with
  | nil => simp [addUp]
  | cons a rest ih =>
    rw [addUp]
    constructor
    · intro h
      cases hcheck : c.checkAccount a with
      | error e' =>
        rw [hcheck] at h
        cases h
        obtain ⟨flaw, hfirst, rfl⟩ := checkAccount_eq_error_iff.mp hcheck
        exact ⟨[], a, rest, flaw, rfl, List.forall_mem_nil _, hfirst, rfl⟩
      | ok _ =>
        rw [hcheck] at h
        obtain ⟨before, a', after, flaw, rfl, hbefore, hfirst, rfl⟩ := ih.mp h
        have hsound : c.Sound a := checkAccount_eq_ok_iff.mp hcheck
        exact ⟨a :: before, a', after, flaw, rfl, List.forall_mem_cons.mpr ⟨hsound, hbefore⟩,
          hfirst, rfl⟩
    · rintro ⟨before, a', after, flaw, hsplit, hbefore, hfirst, rfl⟩
      cases before with
      | nil =>
        obtain ⟨rfl, rfl⟩ := List.cons.inj hsplit
        have hcheck : c.checkAccount a = .error (flaw.error a.address) :=
          checkAccount_eq_error_iff.mpr ⟨flaw, hfirst, rfl⟩
        rw [hcheck]
        rfl
      | cons b before =>
        obtain ⟨rfl, rfl⟩ := List.cons.inj hsplit
        obtain ⟨hsound, hbefore⟩ := List.forall_mem_cons.mp hbefore
        have hcheck : c.checkAccount a = .ok () := checkAccount_eq_ok_iff.mpr hsound
        rw [hcheck]
        exact ih.mpr ⟨before, a', after, flaw, rfl, hbefore, hfirst, rfl⟩

theorem check_of_ne_nil (hne : accounts ≠ []) :
    c.check accounts = c.addUp {} accounts >>= fun totals =>
      if totals.supply ≠ c.totalSupply then .error (.totalMismatch totals.supply c.totalSupply)
      else .ok totals := by
  have hempty : accounts.isEmpty = false := List.isEmpty_eq_false_iff.mpr hne
  unfold check
  rw [hempty]
  rfl

theorem check_eq_error_iff :
    c.check accounts = .error e ↔
      (accounts = [] ∧ e = .noAccounts) ∨
      (∃ before a after flaw, accounts = before ++ a :: after ∧ (∀ b ∈ before, c.Sound b) ∧
        Flaw.first? c.nodePrice a = some flaw ∧ e = flaw.error a.address) ∨
      (accounts ≠ [] ∧ (∀ a ∈ accounts, c.Sound a) ∧
        (Totals.ofAccounts accounts).supply ≠ c.totalSupply ∧
        e = .totalMismatch (Totals.ofAccounts accounts).supply c.totalSupply) := by
  rw [← addUp_eq_error_iff (t := {})]
  by_cases hnil : accounts = []
  · subst hnil
    have hcheck : c.check [] = .error .noAccounts := rfl
    have hadd : c.addUp {} [] = .ok {} := rfl
    simp [hcheck, hadd, eq_comm]
  rw [check_of_ne_nil hnil]
  cases hadd : c.addUp {} accounts with
  | error e' =>
    have hunsound : ¬∀ a ∈ accounts, c.Sound a := fun hall => by
      rw [addUp_eq_ok_iff.mpr ⟨hall, rfl⟩] at hadd
      cases hadd
    simp [hnil, hunsound, bind, Except.bind]
  | ok totals =>
    obtain ⟨hall, htotals⟩ := addUp_eq_ok_iff.mp hadd
    rw [Totals.zero_add] at htotals
    rw [← htotals]
    by_cases hsupply : totals.supply = c.totalSupply
    · simp [hnil, hsupply, bind, Except.bind]
    · simpa [hnil, hsupply, bind, Except.bind, eq_comm] using fun _ => hall

/-- Every checker accepts just the lists of sound accounts that make up its supply, and refuses any
other list for its first fault: that of the first account which is not sound, if there is one. -/
theorem check_verdict (c : Checker) (accounts : List Account) :
    let sums := Totals.ofAccounts accounts
    ofAmounts? (some c.nodePrice) (some c.totalSupply) = .ok c ∧
      (∀ t, c.check accounts = .ok t ↔
        accounts ≠ [] ∧ (∀ a ∈ accounts, c.Sound a) ∧ sums.supply = c.totalSupply ∧ t = sums) ∧
      (∀ a, c.Sound a ↔ ∀ flaw : Flaw, ¬flaw.Of c.nodePrice a) ∧
      ∀ e, c.check accounts = .error e ↔
        (accounts = [] ∧ e = .noAccounts) ∨
        (∃ before a after flaw, accounts = before ++ a :: after ∧ (∀ b ∈ before, c.Sound b) ∧
          Flaw.first? c.nodePrice a = some flaw ∧ e = flaw.error a.address) ∨
        (accounts ≠ [] ∧ (∀ a ∈ accounts, c.Sound a) ∧ sums.supply ≠ c.totalSupply ∧
          e = .totalMismatch sums.supply c.totalSupply) := by
  intro sums
  refine ⟨ofAmounts?_of_pos c.nodePrice_pos c.totalSupply_pos, fun t => check_eq_ok_iff,
    fun a => sound_iff, fun e => check_eq_error_iff⟩

end Checker

end Genesis
