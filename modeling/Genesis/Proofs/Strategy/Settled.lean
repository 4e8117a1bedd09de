import Genesis.Proofs.Balance
import Genesis.Proofs.Key.Drawn
import Genesis.Proofs.Steps
import Genesis.Proofs.Totals
import Genesis.Strategy.Settle

/-!
What becomes of the keys of one generation: which amounts the wallets end up with, and how the
accounts and the nodes follow the wallets.
-/

namespace Genesis

namespace WalletRules

variable {rules : WalletRules}

theorem Owners.totalStaked_eq {pool : List BlsKey} {ws : List WalletKey}
    (h : rules.Owners pool ws) : totalStaked ws = rules.nodePrice * pool.length := by
  obtain ⟨rfl, howner⟩ := h
  induction ws with
  | nil => exact (Int.mul_zero _).symm
  | cons w ws ih =>
    rw [totalStaked, ih fun v hv => howner v (List.mem_cons_of_mem w hv),
      (howner w List.mem_cons_self).staked, List.flatMap_cons, List.length_append, Nat.cast_add,
      Int.mul_add]

theorem Owners.length_le {pool : List BlsKey} {ws : List WalletKey} (h : rules.Owners pool ws) :
    ws.length ≤ pool.length := by
  obtain ⟨rfl, howner⟩ := h
  induction ws with
  | nil => exact Nat.zero_le _
  | cons w ws ih =>
    obtain ⟨hw, hws⟩ := List.forall_mem_cons.mp howner
    have hpos := List.length_pos_iff.mpr hw.blsKeys_ne
    have hrest := ih hws
    rw [List.length_cons, List.flatMap_cons, List.length_append]
    omega

theorem Wallets.totalStaked_eq {n : Nat} {ws : List WalletKey} (h : rules.Wallets n ws) :
    totalStaked ws = 0 :=
  totalStaked_eq_zero fun w hw => (h.drawn w hw).staked_eq

end WalletRules

namespace Terms

open Steps

variable {t : Terms}

section Remaining

variable {used balance : Int}

theorem remaining_ok (h : t.remaining used = .ok balance) :
    used ≤ t.totalSupply ∧ balance = t.totalSupply - used := by
  unfold remaining at h
  split at h
  · cases h
  · cases h
    exact ⟨by omega, rfl⟩

theorem remaining_of_le (h : used ≤ t.totalSupply) :
    t.remaining used = .ok (t.totalSupply - used) :=
  if_neg (by omega)

theorem remaining_of_lt (h : t.totalSupply < used) :
    t.remaining used = .error (.supplyTooSmall t.totalSupply used) :=
  if_pos (by omega)

end Remaining

section Fund

variable {wallets additional wallets' additional' : List WalletKey} {balance : Int}

theorem fund_ok (h : t.fund wallets additional balance = .ok (wallets', additional')) :
    ∃ share rest, splitBalance (wallets.length + additional.length) balance t.minimumBalance
        t.richest = .ok (share, rest) ∧
      wallets' = (giveBalance share rest (wallets ++ additional)).take wallets.length ∧
      additional' = (giveBalance share rest (wallets ++ additional)).drop wallets.length := by
  unfold fund at h
  obtain ⟨⟨share, rest⟩, hsplit, h⟩ := bind_eq_ok.mp h
  dsimp only at h
  rw [List.splitAt_eq, pure_eq_ok] at h
  cases h
  exact ⟨share, rest, hsplit, rfl, rfl⟩

theorem exists_fund (h : wallets ++ additional ≠ []) (t : Terms) (balance : Int) :
    ∃ funded, t.fund wallets additional balance = .ok funded := by
  have hn : wallets.length + additional.length ≠ 0 := by
    rw [← List.length_append]
    exact (List.length_pos_iff.mpr h).ne'
  obtain ⟨share, rest, hsplit⟩ := exists_splitBalance hn balance t.minimumBalance t.richest
  exact exists_bind hsplit ⟨_, rfl⟩

theorem fund_append (h : t.fund wallets additional balance = .ok (wallets', additional')) :
    ∃ share rest, splitBalance (wallets.length + additional.length) balance t.minimumBalance
        t.richest = .ok (share, rest) ∧
      wallets' ++ additional' = giveBalance share rest (wallets ++ additional) := by
  obtain ⟨share, rest, hsplit, rfl, rfl⟩ := fund_ok h
  exact ⟨share, rest, hsplit, List.take_append_drop ..⟩

theorem fund_map {γ : Type} {f : WalletKey → γ}
    (hf : ∀ (w : WalletKey) (x : Int), f { w with balance := x } = f w)
    (h : t.fund wallets additional balance = .ok (wallets', additional')) :
    wallets'.map f = wallets.map f ∧ additional'.map f = additional.map f := by
  obtain ⟨share, rest, _, rfl, rfl⟩ := fund_ok h
  constructor
  · rw [List.map_take, map_giveBalance hf, List.map_append, List.take_left' (by simp)]
  · rw [List.map_drop, map_giveBalance hf, List.map_append, List.drop_left' (by simp)]

theorem exists_of_mem_fund
    (h : t.fund wallets additional balance = .ok (wallets', additional')) :
    (∀ w ∈ wallets', ∃ w₀ ∈ wallets, w = { w₀ with balance := w.balance }) ∧
      ∀ w ∈ additional', ∃ w₀ ∈ additional, w = { w₀ with balance := w.balance } := by
  obtain ⟨hwallets, hadditional⟩ := fund_map (f := ({ · with balance := 0 })) (fun _ _ => rfl) h
  -- wallets that agree once their balances are blotted out differ in nothing else
  have key : ∀ {l l' : List WalletKey},
      l'.map ({ · with balance := 0 }) = l.map ({ · with balance := 0 }) →
        ∀ w ∈ l', ∃ w₀ ∈ l, w = { w₀ with balance := w.balance } := by
    intro l l' hmap w hw
    have hmem := List.mem_map_of_mem (f := ({ · with balance := 0 })) hw
    rw [hmap] at hmem
    obtain ⟨w₀, hw₀, heq⟩ := List.mem_map.mp hmem
    exact ⟨w₀, hw₀, congrArg (fun v => { v with balance := w.balance }) heq.symm⟩
  exact ⟨key hwallets, key hadditional⟩

theorem fund_forall {P : WalletKey → Prop} (hP : ∀ (w : WalletKey) (x : Int), P w →
    P { w with balance := x })
    (h : t.fund wallets additional balance = .ok (wallets', additional')) :
    ((∀ w ∈ wallets, P w) → ∀ w ∈ wallets', P w) ∧
      ((∀ w ∈ additional, P w) → ∀ w ∈ additional', P w) := by
  obtain ⟨hwallets, hadditional⟩ := exists_of_mem_fund h
  constructor
  · intro hall w hw
    obtain ⟨w₀, hw₀, heq⟩ := hwallets w hw
    rw [heq]
    exact hP w₀ w.balance (hall w₀ hw₀)
  · intro hall w hw
    obtain ⟨w₀, hw₀, heq⟩ := hadditional w hw
    rw [heq]
    exact hP w₀ w.balance (hall w₀ hw₀)

theorem fund_sum (h : t.fund wallets additional balance = .ok (wallets', additional')) :
    ((wallets' ++ additional').map (·.balance)).sum = balance := by
  obtain ⟨share, rest, hsplit, happ⟩ := fund_append h
  have hne : wallets ++ additional ≠ [] := by
    obtain ⟨hn, _⟩ := splitBalance_cases hsplit
    rw [← List.length_append] at hn
    exact List.length_pos_iff.mp (Nat.pos_of_ne_zero hn)
  rw [happ, sum_giveBalance hne, List.length_append]
  exact splitBalance_sum hsplit

theorem fund_nonneg (h : t.fund wallets additional balance = .ok (wallets', additional'))
    (hb : 0 ≤ balance) (hm : 0 ≤ t.minimumBalance) :
    ∀ w ∈ wallets' ++ additional', 0 ≤ w.balance := by
  obtain ⟨share, rest, hsplit, happ⟩ := fund_append h
  obtain ⟨hshare, hrest⟩ := splitBalance_nonneg hsplit hb hm
  intro w hw
  rw [happ] at hw
  exact balance_nonneg_of_mem_giveBalance hshare hrest hw

theorem fund_ne_nil (h : t.fund wallets additional balance = .ok (wallets', additional')) :
    wallets' ++ additional' ≠ [] := by
  obtain ⟨share, rest, hsplit, happ⟩ := fund_append h
  obtain ⟨hn, _⟩ := splitBalance_cases hsplit
  rw [happ, ← List.length_pos_iff, length_giveBalance, List.length_append]
  exact Nat.pos_of_ne_zero hn

end Fund

section Accounts

variable {w : WalletKey} {a : Account}

theorem walletAccount_ok (h : t.walletAccount w = .ok a) :
    t.walletFormat.encode w.publicKey = .ok a.address ∧
      a = .ofParts a.address w.balance w.staked {} := by
  unfold walletAccount at h
  obtain ⟨address, he, h⟩ := bind_eq_ok.mp h
  cases h
  exact ⟨he, rfl⟩

theorem delegatorAccount_ok (h : t.delegatorAccount w = .ok a) :
    t.walletFormat.encode w.publicKey = .ok a.address ∧
      t.walletFormat.encode w.contract = .ok a.delegation.address ∧
      a = .ofParts a.address w.balance 0 { a.delegation with value := w.delegated } := by
  unfold delegatorAccount at h
  obtain ⟨contract, hc, h⟩ := bind_eq_ok.mp h
  obtain ⟨address, he, h⟩ := bind_eq_ok.mp h
  cases h
  exact ⟨he, hc, rfl⟩

structure Accounts (t : Terms) (delegators wallets : List WalletKey) (accounts : List Account) :
    Prop where
  split : ∃ first others, accounts = first ++ others ∧
    List.Forall₂ (fun d a => t.delegatorAccount d = .ok a) delegators first ∧
    List.Forall₂ (fun w a => t.walletAccount w = .ok a) wallets others

variable {delegators wallets additional : List WalletKey} {accounts : List Account}

theorem accountsOf_ok (h : t.accountsOf delegators wallets additional = .ok accounts) :
    t.Accounts delegators (wallets ++ additional) accounts := by
  unfold accountsOf at h
  obtain ⟨first, hfirst, h⟩ := bind_eq_ok.mp h
  obtain ⟨others, hothers, h⟩ := bind_eq_ok.mp h
  cases h
  exact ⟨first, others, rfl, mapM_eq_ok.mp hfirst, mapM_eq_ok.mp hothers⟩

namespace Accounts

theorem parts_eq (h : t.Accounts delegators wallets accounts) {a : Account} (ha : a ∈ accounts) :
    a.supply = a.balance + a.stakingValue + a.delegation.value := by
  obtain ⟨first, others, rfl, hfirst, hothers⟩ := h.split
  rcases List.mem_append.mp ha with ha | ha
  · obtain ⟨d, _, hd⟩ := exists_mem_of_forall₂ hfirst ha
    rw [(delegatorAccount_ok hd).2.2]
    rfl
  · obtain ⟨w, _, hw⟩ := exists_mem_of_forall₂ hothers ha
    rw [(walletAccount_ok hw).2]
    rfl

theorem take_drop (h : t.Accounts delegators wallets accounts) :
    List.Forall₂ (fun d a => t.delegatorAccount d = .ok a) delegators
        (accounts.take delegators.length) ∧
      List.Forall₂ (fun w a => t.walletAccount w = .ok a) wallets
        (accounts.drop delegators.length) := by
  obtain ⟨first, others, rfl, hfirst, hothers⟩ := h.split
  rw [hfirst.length_eq, List.take_left, List.drop_left]
  exact ⟨hfirst, hothers⟩

theorem sum_map (h : t.Accounts delegators wallets accounts) {f : Account → Int}
    (g₁ g₂ : WalletKey → Int) (h₁ : ∀ d a, t.delegatorAccount d = .ok a → f a = g₁ d)
    (h₂ : ∀ w a, t.walletAccount w = .ok a → f a = g₂ w) :
    (accounts.map f).sum = (delegators.map g₁).sum + (wallets.map g₂).sum := by
  obtain ⟨first, others, rfl, hfirst, hothers⟩ := h.split
  rw [List.map_append, List.sum_append,
    map_eq_map_of_forall₂ hfirst fun d a hd => (h₁ d a hd).symm,
    map_eq_map_of_forall₂ hothers fun w a hw => (h₂ w a hw).symm]

theorem totals_eq (h : t.Accounts delegators wallets accounts) :
    let balance := (delegators.map (·.balance)).sum + (wallets.map (·.balance)).sum
    let delegated := (delegators.map (·.delegated)).sum
    Totals.ofAccounts accounts =
      { supply := balance + totalStaked wallets + delegated, staked := totalStaked wallets, balance
        delegated } := by
  intro balance delegated
  have hbalance : (Totals.ofAccounts accounts).balance = balance := by
    refine h.sum_map (·.balance) (·.balance) (fun d a hd => ?_) (fun w a hw => ?_)
    · rw [(delegatorAccount_ok hd).2.2]
      rfl
    · rw [(walletAccount_ok hw).2]
      rfl
  have hstaked : (Totals.ofAccounts accounts).staked = totalStaked wallets := by
    rw [totalStaked_eq_sum]
    refine (h.sum_map (fun _ => 0) (·.staked) (fun d a hd => ?_) (fun w a hw => ?_)).trans ?_
    · rw [(delegatorAccount_ok hd).2.2]
      rfl
    · rw [(walletAccount_ok hw).2]
      rfl
    · simp
  have hdelegated : (Totals.ofAccounts accounts).delegated = delegated := by
    refine (h.sum_map (·.delegated) (fun _ => 0) (fun d a hd => ?_) (fun w a hw => ?_)).trans ?_
    · rw [(delegatorAccount_ok hd).2.2]
      rfl
    · rw [(walletAccount_ok hw).2]
      rfl
    · simp [delegated]
  have hsupply := Totals.supply_ofAccounts fun a => h.parts_eq
  rw [hbalance, hstaked, hdelegated] at hsupply
  calc Totals.ofAccounts accounts
      = ⟨(Totals.ofAccounts accounts).supply, (Totals.ofAccounts accounts).staked,
          (Totals.ofAccounts accounts).balance, (Totals.ofAccounts accounts).delegated⟩ := rfl
    _ = _ := by rw [hsupply, hstaked, hbalance, hdelegated]

end Accounts

end Accounts

section Nodes

variable {w : WalletKey} {address : String} {keys : List BlsKey} {nodes : List Node}

theorem nodesAt_ok (h : t.nodesAt address keys = .ok nodes) :
    List.Forall₂ (fun key node => t.validatorFormat.encode key.publicKey = .ok node.pubKey ∧
      node.address = address) keys nodes := by
  refine (mapM_eq_ok.mp h).imp fun key node hnode => ?_
  obtain ⟨pubKey, he, hnode⟩ := bind_eq_ok.mp hnode
  cases hnode
  exact ⟨he, rfl⟩

theorem ownedNodes_ok (h : t.ownedNodes w = .ok nodes) :
    ∃ address, t.walletFormat.encode w.publicKey = .ok address ∧
      t.nodesAt address w.blsKeys = .ok nodes :=
  bind_eq_ok.mp h

end Nodes

/-- What every strategy makes of the keys, where the delegators have been given their parts and
`cost` is taken from the supply before the wallets are funded. -/
structure Settled (t : Terms) (m : Material) (delegators : List WalletKey) (cost : Int)
    (b : Bundle) : Prop where
  validators_eq : b.validators = m.validators
  observers_eq : b.observers = m.observers
  delegators_eq : b.delegators = delegators
  cost_le : cost ≤ t.totalSupply
  fund : t.fund m.wallets m.additional (t.totalSupply - cost) = .ok (b.wallets, b.additional)
  accounts : t.Accounts delegators (b.wallets ++ b.additional) b.accounts

section Settle

variable {m : Material} {b : Bundle}

theorem settleDirect_ok (h : t.settleDirect m = .ok b) :
    t.Settled m [] (totalStaked m.wallets) b ∧
      ∃ blocks, List.Forall₂ (fun w block => t.ownedNodes w = .ok block) b.wallets blocks ∧
        b.nodes = blocks.flatten := by
  unfold settleDirect at h
  dsimp only at h
  split at h
  · cases h
  · obtain ⟨balance, hbalance, h⟩ := bind_eq_ok.mp h
    obtain ⟨hle, rfl⟩ := remaining_ok hbalance
    obtain ⟨⟨wallets, additional⟩, hfund, h⟩ := bind_eq_ok.mp h
    obtain ⟨owned, howned, h⟩ := bind_eq_ok.mp h
    obtain ⟨others, hothers, h⟩ := bind_eq_ok.mp h
    cases h
    -- one walk makes both the accounts and the nodes
    have hpairs : List.Forall₂ (fun w (pair : Account × List Node) =>
        t.walletAccount w = .ok pair.1 ∧ t.ownedNodes w = .ok pair.2) wallets owned := by
      refine (mapM_eq_ok.mp howned).imp fun w pair hpair => ?_
      obtain ⟨account, haccount, hpair⟩ := bind_eq_ok.mp hpair
      obtain ⟨nodes, hnodes, hpair⟩ := bind_eq_ok.mp hpair
      cases hpair
      exact ⟨haccount, hnodes⟩
    have haccounts : List.Forall₂ (fun w a => t.walletAccount w = .ok a) wallets
        (owned.map (·.1)) :=
      List.forall₂_map_right_iff.mpr (hpairs.imp fun _ _ hpair => hpair.1)
    refine ⟨⟨rfl, rfl, rfl, hle, hfund, ⟨[], _, rfl, .nil, ?_⟩⟩, owned.map (·.2), ?_, rfl⟩
    · exact List.rel_append haccounts (mapM_eq_ok.mp hothers)
    · exact List.forall₂_map_right_iff.mpr (hpairs.imp fun _ _ hpair => hpair.2)

theorem settleDelegated_ok {pool : Pool} (h : t.settleDelegated pool m = .ok b) :
    t.Settled m
        (giveDelegation pool.bytes (t.stake m.validators.length) t.minimumBalance m.delegators)
        (delegationCost (t.stake m.validators.length) t.minimumBalance m.delegators.length) b ∧
      t.nodesAt pool.address m.validators = .ok b.nodes := by
  unfold settleDelegated at h
  dsimp only at h
  split at h
  · cases h
  · obtain ⟨balance, hbalance, h⟩ := bind_eq_ok.mp h
    obtain ⟨hle, rfl⟩ := remaining_ok hbalance
    obtain ⟨⟨wallets, additional⟩, hfund, h⟩ := bind_eq_ok.mp h
    obtain ⟨accounts, haccounts, h⟩ := bind_eq_ok.mp h
    obtain ⟨nodes, hnodes, h⟩ := bind_eq_ok.mp h
    cases h
    exact ⟨⟨rfl, rfl, rfl, hle, hfund, accountsOf_ok haccounts⟩, hnodes⟩

theorem settleMixed_ok {pool : Pool} {k : Nat} (h : t.settleMixed pool k m = .ok b) :
    t.Settled m
        (giveDelegation pool.bytes (t.stake (m.validators.take k).length) t.minimumBalance
          m.delegators)
        (delegationCost (t.stake (m.validators.take k).length) t.minimumBalance
          m.delegators.length + totalStaked m.wallets) b ∧
      ∃ pooled blocks, t.nodesAt pool.address (m.validators.take k) = .ok pooled ∧
        List.Forall₂ (fun w block => t.ownedNodes w = .ok block) b.wallets blocks ∧
        b.nodes = pooled ++ blocks.flatten := by
  unfold settleMixed at h
  dsimp only at h
  obtain ⟨balance, hbalance, h⟩ := bind_eq_ok.mp h
  obtain ⟨hle, rfl⟩ := remaining_ok hbalance
  obtain ⟨⟨wallets, additional⟩, hfund, h⟩ := bind_eq_ok.mp h
  obtain ⟨accounts, haccounts, h⟩ := bind_eq_ok.mp h
  obtain ⟨pooled, hpooled, h⟩ := bind_eq_ok.mp h
  obtain ⟨blocks, hblocks, h⟩ := bind_eq_ok.mp h
  cases h
  exact ⟨⟨rfl, rfl, rfl, hle, hfund, accountsOf_ok haccounts⟩, pooled, blocks, hpooled,
    mapM_eq_ok.mp hblocks, rfl⟩

end Settle

end Terms

end Genesis
