import Genesis.Proofs.Strategy.Material
import Genesis.Proofs.Strategy.Settled

/-!
What stops keys from being settled when all of them can be written: that nobody is there to hold a
balance, or that the supply is too small.
-/

namespace Genesis

open Steps

/-- Keys of the right length can be written as text. -/
structure Terms.Writable (t : Terms) : Prop where
  wallets : ∀ key : Bytes, key.length = t.walletFormat.size →
    ∃ text, t.walletFormat.encode key = .ok text
  validators : ∀ key : Bytes, key.length = t.validatorFormat.size →
    ∃ text, t.validatorFormat.encode key = .ok text

/-- All keys have the lengths of their formats, and owners own validators of this generation. -/
structure Terms.Fits (t : Terms) (m : Material) : Prop where
  validators : ∀ key ∈ m.validators, key.publicKey.length = t.validatorFormat.size
  owned : ∀ w ∈ m.wallets, ∀ key ∈ w.blsKeys, key ∈ m.validators
  wallets : ∀ w ∈ m.wallets, w.publicKey.length = t.walletFormat.size
  delegators : ∀ d ∈ m.delegators, d.publicKey.length = t.walletFormat.size
  additional : ∀ w ∈ m.additional, w.publicKey.length = t.walletFormat.size

section Lengths

variable {plan : Plan} {t : Terms} {m : Material}

theorem Terms.Plentiful.length_wallet {w : WalletKey} (h : t.Plentiful)
    (hw : ∃ i, t.walletRules.keys.publicKey i = .ok w.publicKey) :
    w.publicKey.length = t.walletFormat.size := by
  obtain ⟨i, hi⟩ := hw
  exact h.wallets.length_eq hi

theorem WalletRules.Owners.mem_pool {rules : WalletRules} {pool : List BlsKey}
    {ws : List WalletKey} (h : rules.Owners pool ws) {w : WalletKey} (hw : w ∈ ws) :
    ∀ key ∈ w.blsKeys, key ∈ pool := by
  intro key hk
  rw [← h.flatMap_blsKeys]
  exact List.mem_flatMap.mpr ⟨w, hw, hk⟩

theorem Plan.Drew.fits (hd : plan.Drew m) (h : plan.terms.Plentiful) : plan.terms.Fits m := by
  obtain ⟨t, staking⟩ := plan
  have hvalidators : ∀ key ∈ m.validators, key.publicKey.length = t.validatorFormat.size := by
    intro key hk
    obtain ⟨i, hi⟩ := hd.validators.fromStream key hk
    exact h.validators.length_eq hi
  have hadditional : ∀ w ∈ m.additional, w.publicKey.length = t.walletFormat.size :=
    fun w hw => h.length_wallet (hd.additional.drawn w hw).fromStream
  cases staking with
  | direct limit =>
    obtain ⟨howners, hnil⟩ := hd.staking
    refine ⟨hvalidators, fun w hw => howners.mem_pool hw,
      fun w hw => h.length_wallet (howners.owner w hw).fromStream, fun d hd => ?_, hadditional⟩
    rw [hnil] at hd
    cases hd
  | delegated pool =>
    obtain ⟨hwallets, hdelegators⟩ := hd.staking
    refine ⟨hvalidators, fun w hw key hk => ?_,
      fun w hw => h.length_wallet (hwallets.drawn w hw).fromStream,
      fun d hd => h.length_wallet (hdelegators.drawn d hd).fromStream, hadditional⟩
    rw [(hwallets.drawn w hw).blsKeys_eq] at hk
    cases hk
  | mixed pool k limit =>
    obtain ⟨howners, hdelegators⟩ := hd.staking
    exact ⟨hvalidators, fun w hw key hk => List.mem_of_mem_drop (howners.mem_pool hw key hk),
      fun w hw => h.length_wallet (howners.owner w hw).fromStream,
      fun d hd => h.length_wallet (hdelegators.drawn d hd).fromStream, hadditional⟩

theorem Terms.Fits.funded (hm : t.Fits m) {balance : Int} {wallets additional : List WalletKey}
    (h : t.fund m.wallets m.additional balance = .ok (wallets, additional)) :
    t.Fits { m with wallets, additional } := by
  obtain ⟨howned, _⟩ := Terms.fund_forall
    (P := fun w => ∀ key ∈ w.blsKeys, key ∈ m.validators) (fun _ _ hw => hw) h
  obtain ⟨hwallets, hadditional⟩ := Terms.fund_forall
    (P := fun w => w.publicKey.length = t.walletFormat.size) (fun _ _ hw => hw) h
  exact ⟨hm.validators, howned hm.owned, hwallets hm.wallets, hm.delegators,
    hadditional hm.additional⟩

end Lengths

namespace Terms

variable {t : Terms} {m : Material}

namespace Writable

theorem exists_walletAccount (h : t.Writable) {w : WalletKey}
    (hl : w.publicKey.length = t.walletFormat.size) : ∃ a, t.walletAccount w = .ok a := by
  obtain ⟨address, haddress⟩ := h.wallets _ hl
  exact exists_bind haddress ⟨_, rfl⟩

theorem exists_delegatorAccount (h : t.Writable) {d : WalletKey}
    (hl : d.publicKey.length = t.walletFormat.size)
    (hc : d.contract.length = t.walletFormat.size) : ∃ a, t.delegatorAccount d = .ok a := by
  obtain ⟨contract, hcontract⟩ := h.wallets _ hc
  obtain ⟨address, haddress⟩ := h.wallets _ hl
  exact exists_bind hcontract (exists_bind haddress ⟨_, rfl⟩)

theorem exists_nodesAt (h : t.Writable) {keys : List BlsKey} (address : String)
    (hl : ∀ key ∈ keys, key.publicKey.length = t.validatorFormat.size) :
    ∃ nodes, t.nodesAt address keys = .ok nodes :=
  exists_mapM_eq_ok fun key hk => by
    obtain ⟨pubKey, hpubKey⟩ := h.validators _ (hl key hk)
    exact exists_bind hpubKey ⟨_, rfl⟩

theorem exists_ownedNodes (h : t.Writable) (hm : t.Fits m) {w : WalletKey} (hw : w ∈ m.wallets) :
    ∃ nodes, t.ownedNodes w = .ok nodes := by
  obtain ⟨address, haddress⟩ := h.wallets _ (hm.wallets w hw)
  obtain ⟨nodes, hnodes⟩ :=
    h.exists_nodesAt address fun key hk => hm.validators key (hm.owned w hw key hk)
  exact exists_bind haddress ⟨nodes, hnodes⟩

theorem exists_accountsOf (h : t.Writable) (hm : t.Fits m) {contract : Bytes} {stake gas : Int}
    (hc : contract.length = t.walletFormat.size) :
    ∃ accounts, t.accountsOf (giveDelegation contract stake gas m.delegators) m.wallets
      m.additional = .ok accounts := by
  obtain ⟨first, hfirst⟩ := exists_mapM_eq_ok (f := t.delegatorAccount)
    (l := giveDelegation contract stake gas m.delegators) fun d hd => by
      obtain ⟨hcontract, _, _, d₀, hd₀, hkey, _⟩ := of_mem_giveDelegation hd
      exact h.exists_delegatorAccount (hkey ▸ hm.delegators d₀ hd₀) (hcontract ▸ hc)
  obtain ⟨others, hothers⟩ := exists_mapM_eq_ok (f := t.walletAccount)
    (l := m.wallets ++ m.additional) fun w hw => by
      rcases List.mem_append.mp hw with hw | hw
      · exact h.exists_walletAccount (hm.wallets w hw)
      · exact h.exists_walletAccount (hm.additional w hw)
  exact exists_bind hfirst (exists_bind hothers ⟨_, rfl⟩)

end Writable

theorem settleDirect_of_lt (hne : m.wallets ++ m.additional ≠ [])
    (hlt : t.totalSupply < totalStaked m.wallets) :
    t.settleDirect m = .error (.supplyTooSmall t.totalSupply (totalStaked m.wallets)) := by
  have hholder : ¬(m.wallets.isEmpty && m.additional.isEmpty) = true := by
    simpa [List.append_eq_nil_iff] using hne
  unfold settleDirect
  dsimp only
  rw [if_neg hholder, remaining_of_lt hlt]
  rfl

theorem exists_settleDirect (h : t.Writable) (hm : t.Fits m)
    (hne : m.wallets ++ m.additional ≠ []) (hle : totalStaked m.wallets ≤ t.totalSupply) :
    ∃ b, t.settleDirect m = .ok b := by
  obtain ⟨⟨wallets, additional⟩, hfund⟩ :=
    exists_fund hne t (t.totalSupply - totalStaked m.wallets)
  have hfits := hm.funded hfund
  have hholder : ¬(m.wallets.isEmpty && m.additional.isEmpty) = true := by
    simpa [List.append_eq_nil_iff] using hne
  unfold settleDirect
  dsimp only
  rw [if_neg hholder]
  refine exists_bind (remaining_of_le hle) ?_
  refine exists_bind hfund ?_
  obtain ⟨owned, howned⟩ := exists_mapM_eq_ok (l := wallets) fun w hw => by
    obtain ⟨account, haccount⟩ := h.exists_walletAccount (hfits.wallets w hw)
    obtain ⟨nodes, hnodes⟩ := h.exists_ownedNodes hfits hw
    exact exists_bind haccount (exists_bind hnodes ⟨(account, nodes), rfl⟩)
  obtain ⟨others, hothers⟩ := exists_mapM_eq_ok fun w hw =>
    h.exists_walletAccount (hfits.additional w hw)
  refine exists_bind howned ?_
  exact exists_bind hothers ⟨_, rfl⟩

section Pooled

variable {pool : Pool}

theorem settleDelegated_of_lt (hne : m.wallets ≠ [])
    (hlt : t.totalSupply <
      delegationCost (t.stake m.validators.length) t.minimumBalance m.delegators.length) :
    t.settleDelegated pool m = .error (.supplyTooSmall t.totalSupply
      (delegationCost (t.stake m.validators.length) t.minimumBalance m.delegators.length)) := by
  unfold settleDelegated
  dsimp only
  rw [if_neg (by simpa using hne), remaining_of_lt hlt]
  rfl

theorem exists_settleDelegated (h : t.Writable) (hm : t.Fits m)
    (hpool : pool.bytes.length = t.walletFormat.size) (hne : m.wallets ≠ [])
    (hle : delegationCost (t.stake m.validators.length) t.minimumBalance m.delegators.length ≤
      t.totalSupply) :
    ∃ b, t.settleDelegated pool m = .ok b := by
  obtain ⟨⟨wallets, additional⟩, hfund⟩ := exists_fund (List.append_ne_nil_of_left_ne_nil hne
    m.additional) t (t.totalSupply -
      delegationCost (t.stake m.validators.length) t.minimumBalance m.delegators.length)
  obtain ⟨accounts, haccounts⟩ := h.exists_accountsOf (hm.funded hfund) hpool
  obtain ⟨nodes, hnodes⟩ := h.exists_nodesAt pool.address hm.validators
  unfold settleDelegated
  dsimp only
  rw [if_neg (by simpa using hne)]
  refine exists_bind (remaining_of_le hle) ?_
  refine exists_bind hfund ?_
  refine exists_bind haccounts ?_
  exact exists_bind hnodes ⟨_, rfl⟩

theorem settleMixed_of_lt {k : Nat}
    (hlt : t.totalSupply < delegationCost (t.stake (m.validators.take k).length) t.minimumBalance
      m.delegators.length + totalStaked m.wallets) :
    t.settleMixed pool k m = .error (.supplyTooSmall t.totalSupply
      (delegationCost (t.stake (m.validators.take k).length) t.minimumBalance
        m.delegators.length + totalStaked m.wallets)) := by
  unfold settleMixed
  dsimp only
  rw [remaining_of_lt hlt]
  rfl

theorem settleMixed_of_nil {k : Nat} (hw : m.wallets = []) (ha : m.additional = [])
    (hle : delegationCost (t.stake (m.validators.take k).length) t.minimumBalance
      m.delegators.length + totalStaked m.wallets ≤ t.totalSupply) :
    t.settleMixed pool k m = .error .noWallets := by
  unfold settleMixed
  dsimp only
  rw [remaining_of_le hle, hw, ha]
  rfl

theorem exists_settleMixed {k : Nat} (h : t.Writable) (hm : t.Fits m)
    (hpool : pool.bytes.length = t.walletFormat.size) (hne : m.wallets ++ m.additional ≠ [])
    (hle : delegationCost (t.stake (m.validators.take k).length) t.minimumBalance
      m.delegators.length + totalStaked m.wallets ≤ t.totalSupply) :
    ∃ b, t.settleMixed pool k m = .ok b := by
  obtain ⟨⟨wallets, additional⟩, hfund⟩ := exists_fund hne t (t.totalSupply -
    (delegationCost (t.stake (m.validators.take k).length) t.minimumBalance m.delegators.length +
      totalStaked m.wallets))
  have hfits := hm.funded hfund
  obtain ⟨accounts, haccounts⟩ := h.exists_accountsOf hfits hpool
  have hdelegated : ∀ key ∈ m.validators.take k, key.publicKey.length = t.validatorFormat.size :=
    fun key hk => hm.validators key (List.mem_of_mem_take hk)
  obtain ⟨pooled, hpooled⟩ := h.exists_nodesAt pool.address hdelegated
  obtain ⟨blocks, hblocks⟩ := exists_mapM_eq_ok fun w hw => h.exists_ownedNodes hfits hw
  unfold settleMixed
  dsimp only
  refine exists_bind (remaining_of_le hle) ?_
  refine exists_bind hfund ?_
  refine exists_bind haccounts ?_
  refine exists_bind hpooled ?_
  exact exists_bind hblocks ⟨_, rfl⟩

end Pooled

end Terms

end Genesis
