import Genesis.Proofs.Key.Places
import Genesis.Proofs.Key.Text
import Genesis.Proofs.Strategy.Made
import Genesis.Proofs.Strategy.Spread

/-!
No key is handed out twice, however many generations there are and whichever of them fail. Texts of
keys that have been handed out are as different as the keys are.
-/

namespace Genesis

open Steps

namespace Drawing

variable {ρ α β : Type} {source : KeySource} {x : Drawing ρ α} {f : α → Drawing ρ β}

/-- A draw takes validator keys from its source one after the other, and what is drawn stands in
the relation `Q` to their public halves. If it succeeds, no pair goes by untaken. -/
def Takes (source : KeySource) (Q : α → List Bytes → Prop) (x : Drawing ρ α) : Prop :=
  ∀ p result q, x.run p = some (result, q) →
    ∃ keys, source.Taken p.validatorsTaken q.validatorsTaken keys ∧
      ∀ a, result = .ok a → Q a keys ∧ q.validatorsTaken = p.validatorsTaken + keys.length

theorem takes_pure {Q : α → List Bytes → Prop} {a : α} (h : Q a []) :
    Takes (ρ := ρ) source Q (pure a) := by
  intro p result q hrun
  cases hrun
  refine ⟨[], KeySource.taken_nil le_rfl, fun b hb => ?_⟩
  cases hb
  exact ⟨h, rfl⟩

theorem takes_bind {P : α → List Bytes → Prop} {Q : β → List Bytes → Prop}
    (hx : Takes source P x)
    (hf : ∀ a keys, P a keys → Takes source (fun b more => Q b (keys ++ more)) (f a)) :
    Takes source Q (x >>= f) := by
  intro p result q hrun
  rw [run_bind] at hrun
  rcases hfirst : x.run p with _ | ⟨e | a, p'⟩
  · rw [hfirst] at hrun
    cases hrun
  · rw [hfirst] at hrun
    cases hrun
    obtain ⟨keys, htaken, _⟩ := hx p _ _ hfirst
    exact ⟨keys, htaken, fun b hb => by cases hb⟩
  · rw [hfirst] at hrun
    obtain ⟨keys, htaken, hkeys⟩ := hx p _ _ hfirst
    obtain ⟨hP, hcount⟩ := hkeys a rfl
    obtain ⟨more, hmore, hQ⟩ := hf a keys hP p' result q hrun
    refine ⟨keys ++ more, htaken.append hmore, fun b hb => ⟨(hQ b hb).1, ?_⟩⟩
    rw [(hQ b hb).2, hcount, List.length_append, Nat.add_assoc]

theorem takes_nothing
    (hx : ∀ p result q, x.run p = some (result, q) → q.validatorsTaken = p.validatorsTaken) :
    Takes source (fun _ taken => taken = []) x := by
  intro p result q hrun
  have hsame := hx p result q hrun
  exact ⟨[], KeySource.taken_nil hsame.ge, fun _ _ => ⟨rfl, hsame⟩⟩

end Drawing

namespace Terms

open Drawing

variable {ρ : Type} (t : Terms) (n : Nat)

theorem takes_drawValidators :
    Takes (ρ := ρ) t.validatorKeys (fun keys taken => taken = keys.map (·.publicKey))
      (t.drawValidators n) := by
  intro p result q hrun
  rw [run_drawValidators] at hrun
  cases hrun
  obtain ⟨taken, htaken, hgiven⟩ :=
    t.validatorKeys.taken_validatorKeysFrom 0 n p.validatorsTaken
  refine ⟨taken, htaken, fun keys hkeys => ?_⟩
  obtain ⟨rfl, hcount⟩ := hgiven keys hkeys
  exact ⟨rfl, hcount.trans (congrArg _ (List.length_map _).symm)⟩

theorem takes_drawWallets :
    Takes (ρ := ρ) t.validatorKeys (fun _ taken => taken = []) (t.drawWallets n) := by
  refine takes_nothing fun p result q hrun => ?_
  rw [run_drawWallets] at hrun
  obtain ⟨last, _, hq⟩ := Option.map_eq_some_iff.mp hrun
  cases hq
  rfl

theorem takes_drawOwners [Randomizer ρ] (pool : List BlsKey) (limit : Nat) :
    Takes (ρ := ρ) t.validatorKeys (fun _ taken => taken = []) (t.drawOwners pool limit) := by
  refine takes_nothing fun p result q hrun => ?_
  unfold drawOwners at hrun
  dsimp only [ExceptT.run] at hrun
  split at hrun
  · cases hrun
  · cases hrun
    rfl
  · cases hrun
    rfl

end Terms

namespace Bundle

def walletKeys (b : Bundle) : List Bytes :=
  (b.wallets ++ b.delegators ++ b.additional).map (·.publicKey)

def nodeKeys (b : Bundle) : List Bytes := (b.validators ++ b.observers).map (·.publicKey)

/-- What there is of a generation, which is nothing unless it succeeded. -/
def given : Option (Except Error Bundle) → List Bundle
  | none => []
  | some (.error _) => []
  | some (.ok b) => [b]

end Bundle

namespace Plan

open Drawing

variable {ρ : Type} [Randomizer ρ] {plan : Plan} {p q start : Progress ρ} {b : Bundle}
  {result : Except Error Bundle}

theorem takes_draw (plan : Plan) :
    Takes (ρ := ρ) plan.terms.validatorKeys
      (fun m keys => keys = (m.validators ++ m.observers).map (·.publicKey)) plan.draw := by
  obtain ⟨t, staking⟩ := plan
  unfold draw
  refine takes_bind (t.takes_drawValidators _) fun validators _ hv => ?_
  refine takes_bind (t.takes_drawValidators _) fun observers _ ho => ?_
  subst hv ho
  cases staking with
  | direct limit =>
    refine takes_bind (t.takes_drawOwners _ _) fun wallets _ hw => ?_
    refine takes_bind (t.takes_drawWallets _) fun additional _ ha => ?_
    subst hw ha
    exact takes_pure (by simp)
  | delegated pool =>
    refine takes_bind (t.takes_drawWallets _) fun wallets _ hw => ?_
    refine takes_bind (t.takes_drawWallets _) fun delegators _ hd => ?_
    refine takes_bind (t.takes_drawWallets _) fun additional _ ha => ?_
    subst hw hd ha
    exact takes_pure (by simp)
  | mixed pool k limit =>
    refine takes_bind (t.takes_drawWallets _) fun delegators _ hd => ?_
    refine takes_bind (t.takes_drawWallets _) fun additional _ ha => ?_
    refine takes_bind (t.takes_drawOwners _ _) fun wallets _ hw => ?_
    subst hd ha hw
    exact takes_pure (by simp)

theorem run_draw_of_generate_eq (h : plan.generate p = some (result, q)) :
    ∃ drawn p', plan.draw.run p = some (drawn, p') ∧ q.validatorsTaken = p'.validatorsTaken := by
  unfold generate at h
  split at h
  · cases h
  · rename_i hdraw
    cases h
    exact ⟨_, _, hdraw, rfl⟩
  · rename_i hdraw
    split at h
    · cases h
      exact ⟨_, _, hdraw, rfl⟩
    · cases h
      exact ⟨_, _, hdraw, rfl⟩

theorem taken_nodeKeys (h : plan.generate p = some (result, q)) :
    plan.terms.validatorKeys.Taken p.validatorsTaken q.validatorsTaken
        ((Bundle.given (some result)).flatMap Bundle.nodeKeys) ∧
      ∀ b, result = .ok b → q.validatorsTaken = p.validatorsTaken + b.nodeKeys.length := by
  obtain ⟨drawn, p', hdraw, hsame⟩ := run_draw_of_generate_eq h
  obtain ⟨keys, htaken, hkeys⟩ := plan.takes_draw p drawn p' hdraw
  rw [← hsame] at htaken hkeys
  cases result with
  | error e => exact ⟨KeySource.taken_nil htaken.le, fun b hb => by cases hb⟩
  | ok b =>
    obtain ⟨m, p'', hdraw', hsettle⟩ := run_draw_of_generate h
    obtain ⟨rfl, rfl⟩ := Prod.mk.inj (Option.some.inj (hdraw.symm.trans hdraw'))
    obtain ⟨contract, n, cost, hsettled⟩ := settled_of_settle (draw_ok hdraw) hsettle
    obtain ⟨hall, hcount⟩ := hkeys m rfl
    have hnodes : b.nodeKeys = keys := by
      rw [hall, Bundle.nodeKeys, hsettled.validators_eq, hsettled.observers_eq]
    rw [Bundle.given, List.flatMap_singleton, hnodes]
    refine ⟨htaken, fun b' hb' => ?_⟩
    cases hb'
    rw [hnodes]
    exact hcount

theorem taken_walletKeys (h : plan.generate p = some (result, q)) :
    plan.terms.walletRules.keys.Taken p.wallets.taken q.wallets.taken
      ((Bundle.given (some result)).flatMap Bundle.walletKeys) := by
  obtain ⟨calls, hcalls⟩ := plan.exists_calls p
  have hlast := hcalls.wallets
  rw [h, Option.map_some] at hlast
  have htaken := (WalletRules.draws_performAll hlast).taken
  cases result with
  | error e => exact KeySource.taken_nil htaken.le
  | ok b =>
    rw [Bundle.given, List.flatMap_singleton]
    exact htaken.perm (hcalls.publicKeys b q h)

theorem length_walletKeys (hp : plan.terms.Plentiful)
    (hany : plan.terms.walletRules.everyShard = false) (h : plan.generate p = some (.ok b, q)) :
    q.wallets.taken = p.wallets.taken + b.walletKeys.length := by
  obtain ⟨calls, hcalls⟩ := plan.exists_calls p
  have hlast := hcalls.wallets
  rw [h, Option.map_some] at hlast
  have hlength := (hcalls.publicKeys b q h).length_eq
  rw [Bundle.walletKeys, hlength, List.length_map]
  exact WalletRules.taken_performAll_of_any hp.wallets plan.terms.walletFormat.size_pos hany hlast

/-- What `n` generations bring forth between them. -/
def bundles (plan : Plan) (start : Progress ρ) (n : Nat) : List Bundle :=
  (List.range n).flatMap fun m => Bundle.given (plan.outcome start m)

theorem bundles_succ (plan : Plan) (start : Progress ρ) (n : Nat) :
    plan.bundles start (n + 1) =
      plan.bundles start n ++ Bundle.given (plan.outcome start n) := by
  rw [bundles, List.range_succ, List.flatMap_append, List.flatMap_singleton]
  rfl

theorem exists_outcome_of_mem_bundles {n : Nat} (h : b ∈ plan.bundles start n) :
    ∃ m, plan.outcome start m = some (.ok b) := by
  obtain ⟨m, _, hb⟩ := List.mem_flatMap.mp h
  rcases hout : plan.outcome start m with _ | e | b'
  · rw [hout] at hb
    cases hb
  · rw [hout] at hb
    cases hb
  · rw [hout] at hb
    rw [List.mem_singleton.mp hb]
    exact ⟨m, hout⟩

/-- All keys that generations take come from different places of their streams, which are read no
further than by the last generation that came to an end. -/
theorem taken_bundles (plan : Plan) (start : Progress ρ) (n : Nat) :
    ∃ p, (∃ m ≤ n, plan.after m start = some p) ∧ (∀ q, plan.after n start = some q → q = p) ∧
      plan.terms.walletRules.keys.Taken start.wallets.taken p.wallets.taken
        ((plan.bundles start n).flatMap Bundle.walletKeys) ∧
      plan.terms.validatorKeys.Taken start.validatorsTaken p.validatorsTaken
        ((plan.bundles start n).flatMap Bundle.nodeKeys) := by
  induction n with
  | zero =>
    exact ⟨start, ⟨0, le_rfl, rfl⟩, fun q hq => (Option.some.inj hq).symm,
      KeySource.taken_nil le_rfl, KeySource.taken_nil le_rfl⟩
  | succ n ih =>
    obtain ⟨p, ⟨m, hle, hm⟩, hlast, hwallets, hnodes⟩ := ih
    rw [bundles_succ]
    cases hout : plan.outcome start n with
    | none =>
      refine ⟨p, ⟨m, Nat.le_succ_of_le hle, hm⟩, fun q hq => ?_, ?_, ?_⟩
      · obtain ⟨p', result, hp', hgenerate⟩ := after_add_one_eq_some.mp hq
        cases hout.symm.trans (outcome_eq_some.mpr ⟨p', q, hp', hgenerate⟩)
      · rwa [Bundle.given, List.append_nil]
      · rwa [Bundle.given, List.append_nil]
    | some result =>
      obtain ⟨p', q, hp', hgenerate⟩ := outcome_eq_some.mp hout
      obtain rfl := hlast p' hp'
      have hq := after_add_one_eq_some.mpr ⟨p', result, hp', hgenerate⟩
      rw [List.flatMap_append, List.flatMap_append]
      exact ⟨q, ⟨n + 1, le_rfl, hq⟩, fun q' hq' => Option.some.inj (hq'.symm.trans hq),
        hwallets.append (taken_walletKeys hgenerate), hnodes.append (taken_nodeKeys hgenerate).1⟩

end Plan

/-- The texts of a generation's keys are all different, and no observer is among the nodes. -/
structure Terms.Apart (t : Terms) (b : Bundle) : Prop where
  addresses : (b.accounts.map (·.address)).Nodup
  pubKeys : (b.nodes.map (·.pubKey)).Nodup
  observers : ∀ key ∈ b.observers, ∀ text, t.validatorFormat.encode key.publicKey = .ok text →
    text ∉ b.nodes.map (·.pubKey)

theorem KeyFormat.nodup_of_encode {format : KeyFormat} {keys : List Bytes} {texts : List String}
    (h : List.Forall₂ (fun key text => format.encode key = .ok text) keys texts)
    (hkeys : keys.Nodup) : texts.Nodup :=
  nodup_of_forall₂ h (fun _ _ _ _ _ => encode_injective) hkeys

namespace Plan

variable {plan : Plan} {b : Bundle}

theorem Made.apart (h : plan.Made b) (hwallets : b.walletKeys.Nodup) (hnodes : b.nodeKeys.Nodup) :
    plan.terms.Apart b := by
  rw [Bundle.nodeKeys, List.map_append] at hnodes
  obtain ⟨hvalidators, _, hothers⟩ := List.nodup_append.mp hnodes
  have hwritten : List.Forall₂ (fun key text => plan.terms.validatorFormat.encode key = .ok text)
      (b.validators.map (·.publicKey)) (b.nodes.map (·.pubKey)) :=
    List.forall₂_map_left_iff.mpr (List.forall₂_map_right_iff.mpr h.nodes)
  refine ⟨?_, KeyFormat.nodup_of_encode hwritten hvalidators, ?_⟩
  · have hperm : ((b.delegators ++ (b.wallets ++ b.additional)).map (·.publicKey)).Perm
        b.walletKeys := by
      rw [← List.append_assoc]
      exact (List.perm_append_comm.append_right b.additional).map _
    refine KeyFormat.nodup_of_encode (List.forall₂_map_left_iff.mpr
      (List.forall₂_map_right_iff.mpr (h.forall₂_accounts.imp fun _ _ ha => ha.address)))
      (hperm.nodup_iff.mpr hwallets)
  · intro key hkey text htext hmem
    obtain ⟨other, hother, hencode⟩ := exists_mem_of_forall₂ hwritten hmem
    have hsame := KeyFormat.encode_injective hencode htext
    exact hothers other hother key.publicKey (List.mem_map_of_mem hkey) hsame

/-- All that generations hand out between them, and the entries of each of them. -/
structure HandsOutOnce {ρ : Type} [Randomizer ρ] (plan : Plan) (start : Progress ρ) (n : Nat) :
    Prop where
  wallets : ((plan.bundles start n).flatMap Bundle.walletKeys).Nodup
  nodes : ((plan.bundles start n).flatMap Bundle.nodeKeys).Nodup
  apart : ∀ b ∈ plan.bundles start n, plan.terms.Apart b

end Plan

def placedKeys (size : Nat) : KeySource where
  publicKey i := .ok (littleEndian size i)
  privateKey _ := .ok []

theorem distinctBelow_placedKeys (size : Nat) : (placedKeys (size + 1)).DistinctBelow 256 := by
  intro i hi j hj key hkey hkey'
  have heq : littleEndian (size + 1) i = littleEndian (size + 1) j :=
    Except.ok.inj (hkey.trans hkey'.symm)
  have hbyte : (UInt8.ofNat i).toNat = (UInt8.ofNat j).toNat :=
    congrArg UInt8.toNat (List.cons.inj heq).1
  rw [UInt8.toNat_ofNat', UInt8.toNat_ofNat'] at hbyte
  omega

def placedSample : Request Script :=
  { Request.sample .direct .validator with
    walletKeys := some (placedKeys 32)
    validatorKeys := some (placedKeys 96)
    observers := 1 }

/-- If neither source gives a public key twice as far as generations that end read it, no key is
handed out twice by any number of generations, and no two entries of a generation are for one
key. -/
theorem keys_handed_out_once {ρ : Type} [Randomizer ρ] {r : Request ρ} {plan : Plan}
    {start : Progress ρ} {wallets validators : KeySource} {n : Nat}
    (hplan : r.plan = some (.ok (plan, start))) (hwalletKeys : r.walletKeys = some wallets)
    (hvalidatorKeys : r.validatorKeys = some validators)
    (hwallets : ∀ m ≤ n, ∀ p, plan.after m start = some p →
      wallets.DistinctBelow p.wallets.taken)
    (hvalidators : ∀ m ≤ n, ∀ p, plan.after m start = some p →
      validators.DistinctBelow p.validatorsTaken) :
    plan.HandsOutOnce start n := by
  obtain ⟨hfollows, _⟩ := Request.plan_ok hplan
  have hsource : wallets = plan.terms.walletRules.keys :=
    Option.some.inj (hwalletKeys.symm.trans hfollows.terms.walletKeys)
  have hsource' : validators = plan.terms.validatorKeys :=
    Option.some.inj (hvalidatorKeys.symm.trans hfollows.terms.validatorKeys)
  obtain ⟨p, ⟨m, hle, hm⟩, _, htaken, htaken'⟩ := plan.taken_bundles start n
  have hall := htaken.nodup (hsource ▸ hwallets m hle p hm)
  have hall' := htaken'.nodup (hsource' ▸ hvalidators m hle p hm)
  refine ⟨hall, hall', fun b hb => ?_⟩
  obtain ⟨m, hm⟩ := Plan.exists_outcome_of_mem_bundles hb
  exact (Plan.made_of_outcome hm).apart (List.nodup_flatMap.mp hall |>.1 b hb)
    (List.nodup_flatMap.mp hall' |>.1 b hb)

namespace Request

theorem writes_placedKeys (size : Nat) : (placedKeys size).Writes size where
  publicKey i := ⟨littleEndian size i, rfl, length_littleEndian size i⟩
  privateKey _ := ⟨[], rfl⟩

theorem drawable_placedSample : placedSample.Drawable .validator :=
  ⟨⟨_, rfl, writes_placedKeys _⟩, ⟨_, rfl, writes_placedKeys _⟩, rfl, rfl, rfl⟩

variable {plan : Plan} {start : Progress Script}

theorem exists_outcome_placedSample (hplan : placedSample.plan = some (.ok (plan, start)))
    (n : Nat) : ∃ b, plan.outcome start n = some (.ok b) :=
  drawable_placedSample.exists_outcome hplan (fun price kind hprice hkind => by
    obtain rfl : 2500 = price := Option.some.inj hprice
    obtain rfl : Kind.direct = kind := Except.ok.inj hkind
    decide) n

theorem taken_placedSample (hplan : placedSample.plan = some (.ok (plan, start))) {n : Nat}
    {p : Progress Script} (hp : plan.after n start = some p) :
    p.wallets.taken ≤ 4 * n ∧ p.validatorsTaken ≤ 4 * n := by
  induction n generalizing p with
  | zero =>
    cases hplan
    cases hp
    exact ⟨le_rfl, le_rfl⟩
  | succ n ih =>
    obtain ⟨q, result, hq, hgenerate⟩ := Plan.after_add_one_eq_some.mp hp
    obtain ⟨b, hb⟩ := exists_outcome_placedSample hplan n
    have hresult := Plan.outcome_eq_some.mpr ⟨q, p, hq, hgenerate⟩
    obtain rfl : result = .ok b := Option.some.inj (hresult.symm.trans hb)
    obtain ⟨hfollows, _⟩ := plan_ok hplan
    obtain ⟨m, hdrew, hsettle⟩ := Plan.generate_ok hgenerate
    have hmade := Plan.made_of_settle hdrew hsettle
    have hwallets := Plan.length_walletKeys (drawable_placedSample.plentiful hplan)
      (hfollows.terms.everyShard.trans rfl) hgenerate
    have hnodes := (Plan.taken_nodeKeys hgenerate).2 b rfl
    have hlength : b.walletKeys.length ≤ 4 := by
      have howners : m.wallets.length ≤ 3 :=
        hdrew.length_wallets_le.trans hfollows.terms.validators.le
      have hdelegators : m.delegators.length = 0 := by
        have hkind : Kind.direct = plan.staking.kind := Except.ok.inj hfollows.kind
        rw [Plan.length_delegators hfollows hdrew, ← hkind]
        rfl
      have hadditional : m.additional.length = 1 :=
        hdrew.additional.length_eq.trans hfollows.terms.additional
      rw [Bundle.walletKeys, Plan.publicKeys_of_settle hdrew hsettle, List.length_map,
        List.length_append, List.length_append]
      omega
    have hlength' : b.nodeKeys.length = 4 := by
      have hvalidators : b.validators.length = 3 :=
        hmade.validators.length_eq.trans hfollows.terms.validators
      have hobservers : b.observers.length = 1 :=
        hmade.observers.length_eq.trans hfollows.terms.observers
      rw [Bundle.nodeKeys, List.length_map, List.length_append, hvalidators, hobservers]
    obtain ⟨hbefore, hbefore'⟩ := ih hq
    omega

end Request

/-- Two generations of the sample. -/
theorem sample_hands_out_once : ∃ plan start, placedSample.plan = some (.ok (plan, start)) ∧
    (plan.bundles start 2).length = 2 ∧ plan.HandsOutOnce start 2 := by
  obtain ⟨plan, start, hplan⟩ : ∃ plan start, placedSample.plan = some (.ok (plan, start)) :=
    ⟨_, _, rfl⟩
  obtain ⟨b₀, hb₀⟩ := Request.exists_outcome_placedSample hplan 0
  obtain ⟨b₁, hb₁⟩ := Request.exists_outcome_placedSample hplan 1
  refine ⟨plan, start, hplan, ?_, keys_handed_out_once hplan rfl rfl ?_ ?_⟩
  · rw [Plan.bundles_succ, Plan.bundles_succ, hb₀, hb₁]
    rfl
  · intro m hm p hp
    obtain ⟨hwallets, _⟩ := Request.taken_placedSample hplan hp
    exact (distinctBelow_placedKeys 31).mono (by omega)
  · intro m hm p hp
    obtain ⟨_, hvalidators⟩ := Request.taken_placedSample hplan hp
    exact (distinctBelow_placedKeys 95).mono (by omega)

end Genesis
