import Genesis.Proofs.Output.Reading
import Genesis.Proofs.Strategy.Made
import Genesis.Proofs.Strategy.Verdict

/-!
The private keys of a generation can be recovered from its files: none is missing, and none stands
under an address that is not its own.
-/

namespace Genesis

open Steps

structure Recovery where
  accounts : List Account
  walletBlocks : List (String × Bytes)
  delegatorBlocks : List (String × Bytes)
  /-- The accounts for transactions, by the names of their shards. -/
  groups : List (String × List TrafficAccount)

structure TrafficAccount.Spends (format : KeyFormat) (wallet : WalletKey) (a : TrafficAccount) :
    Prop where
  pubKey : format.encode wallet.publicKey = .ok a.pubKey
  privKey : Hex.decode a.privKey = .ok wallet.privateKey
  balance : a.balance = wallet.balance

namespace Recovery

structure From (r : Recovery) (t : FileTree) (folder : Path) : Prop where
  accounts : t.Holds folder .genesis (Json.read? (.list .account)) r.accounts
  walletBlocks : t.Holds folder .wallets Pem.read r.walletBlocks
  delegatorBlocks : t.Holds folder .delegators Pem.read r.delegatorBlocks
  groups : t.Holds folder .traffic (Json.read? (.members (.list .traffic))) r.groups

def traffic (r : Recovery) : List TrafficAccount := r.groups.flatMap (·.2)

inductive Finds (r : Recovery) : String → Bytes → Prop where
  | wallet {address : String} {key : Bytes} (h : (address, key) ∈ r.walletBlocks) :
    r.Finds address key
  | delegator {address : String} {key : Bytes} (h : (address, key) ∈ r.delegatorBlocks) :
    r.Finds address key
  | traffic {a : TrafficAccount} {key : Bytes} (h : a ∈ r.traffic)
    (hkey : Hex.decode a.privKey = .ok key) : r.Finds a.pubKey key

/-- Every wallet of the generation has an account and, elsewhere, its private key. -/
structure Covers (r : Recovery) (format : KeyFormat) (b : Bundle) : Prop where
  addresses : (r.accounts.map (·.address)).Perm
    (r.walletBlocks.map (·.1) ++ r.delegatorBlocks.map (·.1) ++ r.traffic.map (·.pubKey))
  wallets : List.Forall₂ format.Names (Writing.walletPairs b.wallets) r.walletBlocks
  delegators : List.Forall₂ format.Names (Writing.walletPairs b.delegators) r.delegatorBlocks
  traffic : ∃ entries, r.traffic.Perm entries ∧
    List.Forall₂ (TrafficAccount.Spends format) b.additional entries ∧
      List.Forall₂ (fun a e => e.pubKey = a.address ∧ e.balance = a.balance)
        (r.accounts.drop (b.delegators.length + b.wallets.length)) entries
  accounts : List.Forall₂ (Account.BelongsTo format)
    (b.delegators ++ (b.wallets ++ b.additional)) r.accounts

variable {r : Recovery} {format : KeyFormat} {b : Bundle}

theorem Covers.exists_wallet (h : r.Covers format b) {address : String} {key : Bytes}
    (hfinds : r.Finds address key) :
    ∃ w ∈ b.delegators ++ (b.wallets ++ b.additional), format.encode w.publicKey = .ok address ∧
      w.privateKey = key := by
  have hblock : ∀ {ws : List WalletKey} {blocks : List (String × Bytes)},
      List.Forall₂ format.Names (Writing.walletPairs ws) blocks → (address, key) ∈ blocks →
        ∃ w ∈ ws, format.encode w.publicKey = .ok address ∧ w.privateKey = key := by
    intro ws blocks hblocks hmem
    obtain ⟨w, hw, hnames⟩ := exists_mem_of_forall₂ (List.forall₂_map_left_iff.mp hblocks) hmem
    exact ⟨w, hw, hnames.identifier, hnames.privateKey.symm⟩
  cases hfinds with
  | wallet hmem =>
    obtain ⟨w, hw, hfound⟩ := hblock h.wallets hmem
    exact ⟨w, List.mem_append_right _ (List.mem_append_left _ hw), hfound⟩
  | delegator hmem =>
    obtain ⟨w, hw, hfound⟩ := hblock h.delegators hmem
    exact ⟨w, List.mem_append_left _ hw, hfound⟩
  | traffic hmem hkey =>
    obtain ⟨entries, hperm, hspends, _⟩ := h.traffic
    obtain ⟨w, hw, hspend⟩ := exists_mem_of_forall₂ hspends (hperm.mem_iff.mp hmem)
    have hfound : w.privateKey = key := Except.ok.inj (hspend.privKey.symm.trans hkey)
    exact ⟨w, List.mem_append_right _ (List.mem_append_right _ hw), hspend.pubKey, hfound⟩

theorem Covers.exists_finds (h : r.Covers format b) {a : Account} (ha : a ∈ r.accounts) :
    ∃ key, r.Finds a.address key := by
  have hmem := h.addresses.mem_iff.mp (List.mem_map_of_mem ha)
  rw [List.mem_append, List.mem_append, List.mem_map, List.mem_map, List.mem_map] at hmem
  rcases hmem with (⟨⟨_, key⟩, hblock, rfl⟩ | ⟨⟨_, key⟩, hblock, rfl⟩) | ⟨e, he, haddress⟩
  · exact ⟨key, .wallet hblock⟩
  · exact ⟨key, .delegator hblock⟩
  · obtain ⟨entries, hperm, hspends, _⟩ := h.traffic
    obtain ⟨w, _, hspend⟩ := exists_mem_of_forall₂ hspends (hperm.mem_iff.mp he)
    rw [← haddress]
    exact ⟨w.privateKey, .traffic he hspend.privKey⟩

end Recovery

namespace Plan

variable {plan : Plan} {b : Bundle} {walletBlocks delegatorBlocks : List (String × Bytes)}
  {groups : List (String × List TrafficAccount)} {entries : List TrafficAccount}

theorem Made.covers (h : plan.Made b)
    (hwallets : List.Forall₂ plan.terms.walletFormat.Names (Writing.walletPairs b.wallets)
      walletBlocks)
    (hdelegators : List.Forall₂ plan.terms.walletFormat.Names (Writing.walletPairs b.delegators)
      delegatorBlocks)
    (hentries : List.Forall₂ (fun w e => TrafficAccount.ofWallet plan.terms.walletFormat w = .ok e)
      b.additional entries)
    (hperm : (groups.flatMap (·.2)).Perm entries) :
    (Recovery.mk b.accounts walletBlocks delegatorBlocks groups).Covers plan.terms.walletFormat
      b := by
  have hspends :
      List.Forall₂ (TrafficAccount.Spends plan.terms.walletFormat) b.additional entries :=
    hentries.imp fun w e he => by
      obtain ⟨hpubKey, hprivKey, hbalance⟩ := TrafficAccount.ofWallet_ok he
      exact ⟨hpubKey, hprivKey ▸ Hex.decode_encode w.privateKey, hbalance⟩
  have haccounts := h.forall₂_accounts
  -- the accounts stand in three rows, as the wallets do
  obtain ⟨first, rest, hsplit, hfirst, hrest⟩ := exists_append_of_forall₂ haccounts
  obtain ⟨owners, others, rfl, howners, hothers⟩ := exists_append_of_forall₂ hrest
  have hblocks : ∀ {ws : List WalletKey} {as : List Account} {blocks : List (String × Bytes)},
      List.Forall₂ (Account.BelongsTo plan.terms.walletFormat) ws as →
        List.Forall₂ plan.terms.walletFormat.Names (Writing.walletPairs ws) blocks →
          as.map (·.address) = blocks.map (·.1) := fun hws hblocks =>
    map_eq_map_of_ok (hws.imp fun _ _ ha => ha.address)
      ((List.forall₂_map_left_iff.mp hblocks).imp fun _ _ hnames => hnames.identifier)
  have hpubKeys : others.map (·.address) = entries.map (·.pubKey) :=
    map_eq_map_of_ok (hothers.imp fun _ _ ha => ha.address) (hspends.imp fun _ _ he => he.pubKey)
  have haddresses : b.accounts.map (·.address) = delegatorBlocks.map (·.1) ++
      walletBlocks.map (·.1) ++ entries.map (·.pubKey) := by
    rw [hsplit, List.map_append, List.map_append, hblocks hfirst hdelegators,
      hblocks howners hwallets, hpubKeys, List.append_assoc]
  have hdrop : b.accounts.drop (b.delegators.length + b.wallets.length) = others := by
    rw [hsplit, ← List.append_assoc, hfirst.length_eq, howners.length_eq, ← List.length_append,
      List.drop_left]
  refine ⟨?_, hwallets, hdelegators, ⟨entries, hperm, hspends, ?_⟩, haccounts⟩
  · rw [haddresses]
    exact List.perm_append_comm.append (hperm.symm.map _)
  · rw [hdrop]
    refine (forall₂_of_forall₂ hothers hspends).imp ?_
    rintro a e ⟨w, ha, he⟩
    exact ⟨Except.ok.inj (he.pubKey.symm.trans ha.address), he.balance.trans ha.balance.symm⟩

end Plan

section Theorem

variable {ρ : Type} [Randomizer ρ] {plan : Plan} {start : Progress ρ} {n : Nat} {b : Bundle}
  {way : Path} {validatorFormat : KeyFormat} {coordinator : Coordinator} {network : NetworkConfig}
  {t t' : FileTree} {parts : OutputParts} {writer : Writer} {desk : Desk}

/-- From the files of any generation, written with both optional files there, the private keys of
all accounts are recovered: addresses are found as often as there are accounts for them, every key
that is found is that of the wallet whose address it stands under, and accounts for transactions
have the balances of the genesis. -/
theorem keys_recovered (made : plan.outcome start n = some (.ok b))
    (created : OutputParts.create way validatorFormat plan.terms.walletFormat coordinator true true
      network t = (.ok parts, t'))
    (opened : Writer.ofParts? parts = .ok writer)
    (written : (Writing.putBundle b).run { writer, tree := t' } = (.ok (), desk)) :
    ∃ r : Recovery, r.From desk.tree way.reached ∧ r.Covers plan.terms.walletFormat b ∧
      (∀ a ∈ r.accounts, ∃ key, r.Finds a.address key) ∧
        ∀ address key, r.Finds address key → ∀ w ∈ b.delegators ++ (b.wallets ++ b.additional),
          plan.terms.walletFormat.encode w.publicKey = .ok address →
            ∃ w' ∈ b.delegators ++ (b.wallets ++ b.additional), w'.publicKey = w.publicKey ∧
              w'.privateKey = key := by
  have hcomplete := OutputParts.complete_of_putBundle created opened written
  have hroles : ∀ role : Role, role ∈ OutputParts.roles true true := fun role => by
    cases role <;> decide
  obtain ⟨accounts, haccounts, hread⟩ := hcomplete.restores (hroles .genesis)
  obtain ⟨wallets, hwalletText, walletBlocks, hwallets, hwalletRead⟩ :=
    hcomplete.restores (hroles .wallets)
  obtain ⟨delegators, hdelegatorText, delegatorBlocks, hdelegators, hdelegatorRead⟩ :=
    hcomplete.restores (hroles .delegators)
  obtain ⟨traffic, htraffic, groups, hgroups, htrafficRead⟩ :=
    hcomplete.restores (hroles .traffic)
  obtain ⟨entries, hentries, hperm⟩ := TrafficAccount.group_ok hgroups
  have hflat : ((groups.map fun g => (Amount.render (g.1 : Int), g.2)).flatMap (·.2)).Perm
      entries := by
    rw [List.flatMap_map]
    exact hperm
  have hcovers := (Plan.made_of_outcome made).covers hwallets hdelegators hentries hflat
  refine ⟨.mk _ _ _ _, ⟨⟨accounts, haccounts, hread⟩, ⟨wallets, hwalletText, hwalletRead⟩,
    ⟨delegators, hdelegatorText, hdelegatorRead⟩, ⟨traffic, htraffic, htrafficRead⟩⟩, hcovers,
    fun a ha => hcovers.exists_finds ha, ?_⟩
  intro address key hfinds w hw hencode
  obtain ⟨w', hw', hencode', hkey⟩ := hcovers.exists_wallet hfinds
  exact ⟨w', hw', KeyFormat.encode_injective hencode' hencode, hkey⟩

end Theorem

theorem Request.chunks_ok_sample {kind : Kind} {plan : Plan} {start : Progress Script} {n : Nat}
    {b : Bundle} (hplan : (sample kind .validator).plan = some (.ok (plan, start)))
    (hb : plan.outcome start n = some (.ok b)) (coordinator : Coordinator) (network : NetworkConfig)
    (role : Role) :
    ((Layout.mk plan.terms.validatorFormat plan.terms.walletFormat coordinator network).chunk b
      role).1 = .ok () := by
  have hmade := Plan.made_of_outcome hb
  refine Layout.chunks_ok (fun key hkey => (writable_sample hplan).validators _ ?_)
    (fun w hw => hmade.exists_encode hw) role
  obtain ⟨i, hi⟩ := hmade.exists_publicKey hkey
  exact (plentiful_sample hplan).validators.length_eq hi

theorem sample_keys_recovered : ∃ plan start b t' parts writer desk,
    (Request.sample .mixed .validator).plan = some (.ok (plan, start)) ∧
      plan.outcome start 1 = some (.ok b) ∧
      OutputParts.create [] plan.terms.validatorFormat plan.terms.walletFormat
        ⟨3, by decide, by decide⟩ true true {} {} = (.ok parts, t') ∧
      Writer.ofParts? parts = .ok writer ∧
        (Writing.putBundle b).run { writer, tree := t' } = (.ok (), desk) ∧
          ∃ r : Recovery, r.From desk.tree [] ∧ r.Covers plan.terms.walletFormat b := by
  obtain ⟨plan, start, b, hplan, hb⟩ := Request.exists_outcome_sample .mixed 1
  obtain ⟨parts, t', hparts⟩ : ∃ parts t', OutputParts.create [] plan.terms.validatorFormat
      plan.terms.walletFormat ⟨3, by decide, by decide⟩ true true {} {} = (.ok parts, t') :=
    ⟨_, _, rfl⟩
  obtain ⟨writer, desk, hwriter, hrun, _⟩ := OutputParts.exists_run_putBundle b hparts
  rw [Layout.addAll_order fun role _ => Request.chunks_ok_sample hplan hb _ _ role] at hrun
  obtain ⟨r, hfrom, hcovers, _⟩ := keys_recovered hb hparts hwriter hrun
  exact ⟨plan, start, b, t', parts, writer, desk, hplan, hb, hparts, hwriter, hrun, r, hfrom,
    hcovers⟩

end Genesis
