import Genesis.Proofs.Demo
import Genesis.Proofs.Refusal

/-!
Giving addresses to the last accounts of a list where it lies. If this fails the list is as it was
before, and if it succeeds no amount has changed, so that the gate says of the list what it would
have said before.
-/

namespace Genesis

def Error.anonymous : Error → Error
  | .negativeField _ field => .negativeField "" field
  | .supplyMismatch _ => .supplyMismatch ""
  | .unevenStake _ => .unevenStake ""
  | .delegationNowhere _ => .delegationNowhere ""
  | e => e

structure Account.SameAmounts (a a' : Account) : Prop where
  supply : a'.supply = a.supply
  balance : a'.balance = a.balance
  stakingValue : a'.stakingValue = a.stakingValue
  delegation : a'.delegation = a.delegation

theorem Account.SameAmounts.refl (a : Account) : a.SameAmounts a := ⟨rfl, rfl, rfl, rfl⟩

theorem Account.sameAmounts_address (a : Account) (address : String) :
    a.SameAmounts { a with address } := ⟨rfl, rfl, rfl, rfl⟩

namespace Checker

open Steps

variable {c : Checker} {a a' : Account} {accounts accounts' : List Account} {t : Totals}

theorem anonymous_error (flaw : Flaw) (address address' : String) :
    (flaw.error address').anonymous = (flaw.error address).anonymous := by
  cases flaw <;> rfl

theorem flaw_iff_of_sameAmounts (h : a.SameAmounts a') (price : Int) (flaw : Flaw) :
    flaw.Of price a' ↔ flaw.Of price a := by
  obtain ⟨hsupply, hbalance, hstaking, hdelegation⟩ := h
  cases flaw <;> simp only [Flaw.Of, hsupply, hbalance, hstaking, hdelegation]

theorem first?_of_sameAmounts (h : a.SameAmounts a') (price : Int) :
    Flaw.first? price a' = Flaw.first? price a := by
  simp only [Flaw.first?, flaw_iff_of_sameAmounts h]

theorem checkAccount_of_sameAmounts (h : a.SameAmounts a') :
    (c.checkAccount a').mapError Error.anonymous =
      (c.checkAccount a).mapError Error.anonymous := by
  rw [checkAccount_eq, checkAccount_eq, first?_of_sameAmounts h]
  cases Flaw.first? c.nodePrice a with
  | none => rfl
  | some flaw => exact congrArg Except.error (anonymous_error flaw a.address a'.address)

theorem addUp_of_sameAmounts (h : List.Forall₂ Account.SameAmounts accounts accounts') :
    (c.addUp t accounts').mapError Error.anonymous =
      (c.addUp t accounts).mapError Error.anonymous := by
  induction h generalizing t with
  | nil => rfl
  | @cons a a' rest rest' ha _ ih =>
    have hcheck := checkAccount_of_sameAmounts (c := c) ha
    obtain ⟨_, hbalance, hstaking, hdelegation⟩ := ha
    have hparts : a'.parts = a.parts := by
      simp only [Account.parts, hbalance, hstaking, hdelegation]
    rw [addUp, addUp, hparts, hbalance, hstaking, hdelegation]
    exact mapError_bind_congr hcheck fun _ => ih

/-- The gate looks at addresses for nothing but naming an account that it refuses. -/
theorem check_of_sameAmounts (c : Checker)
    (h : List.Forall₂ Account.SameAmounts accounts accounts') :
    (c.check accounts').mapError Error.anonymous = (c.check accounts).mapError Error.anonymous := by
  by_cases hnil : accounts = []
  · subst hnil
    rw [List.forall₂_nil_left_iff.mp h]
  have hnil' : accounts' ≠ [] := by
    rintro rfl
    exact hnil (List.forall₂_nil_right_iff.mp h)
  rw [check_of_ne_nil hnil, check_of_ne_nil hnil']
  exact mapError_bind_congr (addUp_of_sameAmounts h) fun _ => rfl

end Checker
namespace DemoAddresses

open Steps

/-- Work on a list of accounts where it lies. What is done before a failure is not undone. -/
abbrev Editing (α : Type) := ExceptT Error (StateM (List Account)) α

def readdress (place : Nat) (address : String) : Editing Unit := modify fun accounts =>
  accounts.modify place fun a => { a with address }

/-- Gives the addresses to one account after the other, from the fourth last one on. -/
def readdressLast (d : DemoAddresses) (format : KeyFormat) : Editing Unit := do
  let accounts ← get
  if accounts.length < d.toList.length then
    throw (.invalidValue "number of accounts for demo addresses")
  d.toList.forM fun address => discard (format.decode address)
  (d.toList.zipIdx (d.firstIndex accounts)).forM fun p => readdress p.2 p.1

variable {d : DemoAddresses} {format : KeyFormat} {accounts accounts' : List Account}

theorem run_readdress (before : List Account) (a : Account) (after : List Account)
    (address : String) :
    (readdress before.length address).run (before ++ a :: after) =
      (.ok (), before ++ { a with address } :: after) := by
  have hmodify : (before ++ a :: after).modify before.length (fun a => { a with address }) =
      before ++ { a with address } :: after := by
    induction before with
    | nil => rfl
    | cons b before ih =>
      rw [List.cons_append, List.length_cons, List.modify_succ_cons, ih, List.cons_append]
  exact congrArg (Prod.mk _) hmodify

theorem run_readdress_forM (before : List Account) {last : List Account}
    {addresses : List String} (h : last.length = addresses.length) :
    ((addresses.zipIdx before.length).forM fun p => readdress p.2 p.1).run
        (before ++ last) =
      (.ok (), before ++ last.zipWith (fun a address => { a with address }) addresses) := by
  induction addresses generalizing before last with
  | nil =>
    obtain rfl := List.length_eq_zero_iff.mp h
    rfl
  | cons address addresses ih =>
    obtain ⟨a, last, rfl⟩ := List.exists_cons_of_length_eq_add_one h
    have hrest := ih (before ++ [{ a with address }]) (Nat.succ.inj h)
    rw [List.length_append, List.length_singleton, ← List.append_cons, ← List.append_cons] at hrest
    rw [List.zipIdx_cons, List.forM, List.zipWith_cons_cons, ExceptT.run_bind]
    simp only [bind, StateT.bind, run_readdress]
    exact hrest

theorem run_forM_decode (format : KeyFormat) (addresses : List String) (accounts : List Account) :
    (addresses.forM fun address => discard (format.decode address) : Editing Unit).run accounts =
      (addresses.forM fun address => discard (format.decode address), accounts) := by
  induction addresses with
  | nil => rfl
  | cons address addresses ih =>
    rw [List.forM, List.forM, ExceptT.run_bind]
    cases format.decode address with
    | error e => rfl
    | ok key => exact ih

theorem run_readdressLast (d : DemoAddresses) (format : KeyFormat) (accounts : List Account) :
    ∃ result after, (d.readdressLast format).run accounts = (result, after) ∧
      d.apply format accounts = result.map (fun _ => after) ∧
      ∀ e, result = .error e → after = accounts := by
  by_cases hfew : accounts.length < 4
  · refine ⟨.error (.invalidValue "number of accounts for demo addresses"), accounts, ?_,
      apply_of_lt hfew, fun _ _ => rfl⟩
    show (ite (accounts.length < 4) _ _ : Editing Unit).run accounts = _
    rw [if_pos hfew]
    rfl
  have hfour : 4 ≤ accounts.length := Nat.not_lt.mp hfew
  have hlast : (accounts.drop (accounts.length - 4)).length = d.toList.length := by
    rw [List.length_drop, Nat.sub_sub_self hfour]
    rfl
  have hgive := run_readdress_forM (accounts.take (accounts.length - 4)) hlast
  rw [List.take_append_drop, List.length_take, Nat.min_eq_left (Nat.sub_le _ _)] at hgive
  have hread := run_forM_decode format d.toList accounts
  have hrun : (d.readdressLast format).run accounts =
      ((d.toList.forM fun address => discard (format.decode address)) >>= fun _ =>
        (d.toList.zipIdx (d.firstIndex accounts)).forM fun p => readdress p.2 p.1 :
          Editing Unit).run accounts := by
    show (ite (accounts.length < 4) _ _ : Editing Unit).run accounts = _
    rw [if_neg hfew]
  rw [apply_of_le hfour]
  cases hforM : d.toList.forM fun address => discard (format.decode address) with
  | error e =>
    rw [hforM] at hread
    refine ⟨.error e, accounts, ?_, rfl, fun _ _ => rfl⟩
    rw [hrun, ExceptT.run_bind]
    simp only [bind, StateT.bind, hread]
    rfl
  | ok u =>
    rw [hforM] at hread
    refine ⟨.ok (), _, ?_, rfl, nofun⟩
    rw [hrun, ExceptT.run_bind]
    simp only [bind, StateT.bind, hread]
    exact hgive

/-- The last four accounts have been given the addresses, and nothing else is different: not for
any account, and not for the gate, which names the accounts that it refuses by other addresses. -/
structure Readdressed (d : DemoAddresses) (format : KeyFormat) (c : Checker)
    (accounts after : List Account) : Prop where
  length_eq : after.length = accounts.length
  kept : after.take (accounts.length - 4) = accounts.take (accounts.length - 4)
  amounts : List.Forall₂ Account.SameAmounts accounts after
  addresses : (after.drop (accounts.length - 4)).map (·.address) =
    [d.faucet, d.web, d.controller, d.sponsor]
  readable : ∀ a ∈ after.drop (accounts.length - 4), ∃ key, format.decode a.address = .ok key
  accepted_iff : ∀ t, c.check after = .ok t ↔ c.check accounts = .ok t
  verdict : (c.check after).mapError Error.anonymous = (c.check accounts).mapError Error.anonymous

section Given

variable {last : List Account} {addresses : List String}

theorem sameAmounts_zipWith (h : last.length = addresses.length) :
    List.Forall₂ Account.SameAmounts last
      (last.zipWith (fun a address => { a with address }) addresses) := by
  induction addresses generalizing last with
  | nil =>
    obtain rfl := List.length_eq_zero_iff.mp h
    exact .nil
  | cons address addresses ih =>
    obtain ⟨a, last, rfl⟩ := List.exists_cons_of_length_eq_add_one h
    exact .cons (a.sameAmounts_address address) (ih (Nat.succ.inj h))

theorem map_address_zipWith (h : last.length = addresses.length) :
    (last.zipWith (fun a address => { a with address }) addresses).map (·.address) =
      addresses := by
  induction addresses generalizing last with
  | nil => rw [List.zipWith_nil_right, List.map_nil]
  | cons address addresses ih =>
    obtain ⟨a, last, rfl⟩ := List.exists_cons_of_length_eq_add_one h
    rw [List.zipWith_cons_cons, List.map_cons, ih (Nat.succ.inj h)]

end Given

theorem readdressed_append (c : Checker) (before : List Account) {last : List Account}
    (hlast : last.length = d.toList.length)
    (hread : ∀ address ∈ d.toList, ∃ key, format.decode address = .ok key) :
    d.Readdressed format c (before ++ last)
      (before ++ last.zipWith (fun a address => { a with address }) d.toList) := by
  have hsame := sameAmounts_zipWith hlast
  have haddresses := map_address_zipWith hlast
  have hamounts : List.Forall₂ Account.SameAmounts (before ++ last) (before ++ _) :=
    List.rel_append (List.forall₂_same.mpr fun a _ => Account.SameAmounts.refl a) hsame
  have hbefore : (before ++ last).length - 4 = before.length := by
    rw [List.length_append, hlast]
    exact Nat.add_sub_cancel _ 4
  have hverdict := c.check_of_sameAmounts hamounts
  refine ⟨hamounts.length_eq.symm, ?_, hamounts, ?_, ?_, fun _ => eq_ok_iff_of_mapError hverdict,
    hverdict⟩
  · rw [hbefore, List.take_left, List.take_left]
  · rw [hbefore, List.drop_left]
    exact haddresses
  · rw [hbefore, List.drop_left]
    intro a ha
    exact hread a.address (haddresses ▸ List.mem_map_of_mem ha)

theorem readdressed_of_apply (c : Checker) (h : d.apply format accounts = .ok accounts') :
    d.Readdressed format c accounts accounts' := by
  obtain ⟨hfour, hread, rfl⟩ := apply_eq_ok_iff.mp h
  have hlast : (accounts.drop (accounts.length - 4)).length = d.toList.length := by
    rw [List.length_drop, Nat.sub_sub_self hfour]
    rfl
  have hreaddressed :=
    readdressed_append c (accounts.take (accounts.length - 4)) hlast hread
  rwa [List.take_append_drop] at hreaddressed

/-- Giving four addresses to the last accounts of a list fails for want of accounts or else for the
first address that cannot be read, and then does nothing to the list. If it succeeds it changes
these four addresses and no amount, and a gate says of the list what it said before. -/
theorem addresses_given_or_untouched (d : DemoAddresses) (format : KeyFormat)
    (accounts : List Account) (c : Checker) :
    ∃ result after, (d.readdressLast format).run accounts = (result, after) ∧
      d.apply format accounts = result.map (fun _ => after) ∧
      (∀ e, result = .error e ↔
        accounts.length < 4 ∧ e = .invalidValue "number of accounts for demo addresses" ∨
        4 ≤ accounts.length ∧
          FailsFirst format.decode [d.faucet, d.web, d.controller, d.sponsor] e) ∧
      (∀ e, result = .error e → after = accounts) ∧
      (result = .ok () → d.Readdressed format c accounts after) := by
  obtain ⟨result, after, hrun, happly, huntouched⟩ := d.run_readdressLast format accounts
  refine ⟨result, after, hrun, happly, fun e => ?_, huntouched, fun hok => ?_⟩
  · refine Iff.trans ?_ (apply_eq_error_iff (d := d))
    rw [happly]
    cases result with
    | error e' => simp only [Except.map, Except.error.injEq]
    | ok _ => simp only [Except.map, reduceCtorEq]
  · rw [hok] at happly
    exact readdressed_of_apply c happly

section Samples

def fourSample : DemoAddresses := ⟨"01", "02", "03", "04"⟩

/-- Five accounts, the last of which stakes what no number of validators costs. -/
def fiveSample : List Account :=
  [.ofParts "a" 10 5 {}, .ofParts "b" 10 0 {}, .ofParts "c" 10 0 {}, .ofParts "d" 10 0 {},
    .ofParts "e" 10 3 {}]

def gateSample : Checker := ⟨5, 58, by decide, by decide⟩

theorem five_readdressed : ∃ after,
    (fourSample.readdressLast (.hex 1 Nat.one_pos)).run fiveSample = (.ok (), after) ∧
      after.map (·.address) = ["a", "01", "02", "03", "04"] ∧
      gateSample.check fiveSample = .error (.unevenStake "e") ∧
      gateSample.check after = .error (.unevenStake "04") ∧
      fourSample.Readdressed (.hex 1 Nat.one_pos) gateSample fiveSample after := by
  obtain ⟨result, after, hrun, -, -, -, hreaddressed⟩ :=
    addresses_given_or_untouched fourSample (.hex 1 Nat.one_pos) fiveSample gateSample
  have hrun' : (fourSample.readdressLast (.hex 1 Nat.one_pos)).run fiveSample = (.ok (), _) := rfl
  cases hrun.symm.trans hrun'
  exact ⟨_, hrun, rfl, rfl, rfl, hreaddressed rfl⟩

end Samples

end DemoAddresses

end Genesis
