import Genesis.Proofs.Strategy.InStep
import Genesis.Proofs.Strategy.Verdict

/-!
Which inputs a strategy goes by: two requests that agree on these are carried out alike, any number
of times, whatever else they ask for.
-/

namespace Genesis

open Steps

variable {ρ σ : Type} {R : Option ρ → Option σ → Prop}

namespace Request

variable {r : Request ρ} {s : Request σ}

/-- Both ask for the same strategy on the same common terms, with keys from the same streams. -/
structure SameTerms (r : Request ρ) (s : Request σ) : Prop where
  strategy : r.strategy = s.strategy
  validatorKeys : r.validatorKeys = s.validatorKeys
  walletKeys : r.walletKeys = s.walletKeys
  walletFormat : r.walletFormat = s.walletFormat
  validatorFormat : r.validatorFormat = s.validatorFormat
  validators : r.validators = s.validators
  observers : r.observers = s.observers
  additional : r.additional = s.additional
  richest : r.richest = s.richest
  nodePrice : r.nodePrice = s.nodePrice
  totalSupply : r.totalSupply = s.totalSupply
  minimumBalance : r.minimumBalance = s.minimumBalance
  initialRating : r.initialRating = s.initialRating
  shards : r.shards = s.shards
  everyShard : r.everyShard = s.everyShard

structure SamePool (r : Request ρ) (s : Request σ) : Prop where
  owner : r.owner = s.owner
  ownerNonce : r.ownerNonce = s.ownerNonce
  machineType : r.machineType = s.machineType
  addressLength : r.addressLength = s.addressLength
  delegators : r.delegators = s.delegators

theorem SameTerms.refl (r : Request ρ) : r.SameTerms r := by
  constructor <;> rfl

theorem SamePool.refl (r : Request ρ) : r.SamePool r := by
  constructor <;> rfl

end Request

/-- The same is made of two requests, and the draws of wallets start in step. -/
def StartInStep {α : Type} (R : Option ρ → Option σ → Prop) (a : α × WalletCursor (Option ρ))
    (b : α × WalletCursor (Option σ)) : Prop :=
  a.1 = b.1 ∧ a.2.InStep R b.2

theorem WalletRules.endAlike_start? {x : Option ρ} {y : Option σ} (hR : R x y)
    (keys : Option KeySource) (nodePrice : Option Int) (shards : Nat) (everyShard : Bool) :
    EndAlike (StartInStep R) (start? keys (some x) nodePrice shards everyShard)
      (start? keys (some y) nodePrice shards everyShard) := by
  unfold start?
  cases keys with
  | none => exact .failed _
  | some keys =>
    cases nodePrice with
    | none => exact .failed _
    | some nodePrice =>
      dsimp only
      split
      · exact .failed _
      split
      · exact .failed _
      · exact .done ⟨rfl, rfl, rfl, hR⟩

namespace Request

variable {r : Request ρ} {s : Request σ}

theorem endAlike_terms (h : r.SameTerms s) {x : Option ρ} {y : Option σ} (hR : R x y) :
    EndAlike (StartInStep R) (r.terms x) (s.terms y) := by
  unfold terms
  rw [h.walletFormat, h.validatorFormat, h.minimumBalance, h.validatorKeys, h.walletKeys,
    h.nodePrice, h.shards, h.everyShard]
  cases s.walletFormat with
  | none => exact .failed _
  | some walletFormat =>
    cases s.validatorFormat with
    | none => exact .failed _
    | some validatorFormat =>
      dsimp only
      split
      · exact .failed _
      cases s.validatorKeys with
      | none => exact .failed _
      | some validatorKeys =>
        refine (WalletRules.endAlike_start? hR _ _ _ _).bind ?_
        rintro ⟨rules, c⟩ ⟨rules', d⟩ ⟨rfl, hstart⟩
        rw [h.validators, h.observers, h.additional, h.richest, h.totalSupply, h.initialRating]
        exact .done ⟨rfl, hstart⟩

theorem pool_congr (h : r.SamePool s) (walletFormat : KeyFormat) :
    r.pool walletFormat = s.pool walletFormat := by
  unfold Request.pool
  rw [h.owner, h.ownerNonce, h.machineType, h.addressLength, h.delegators]

theorem endAlike_delegatedTerms (h : r.SameTerms s) (hpool : r.SamePool s) {x : Option ρ}
    {y : Option σ} (hR : R x y) :
    Option.Rel (EndAlike fun a b => a.1 = b.1 ∧ a.2.1.InStep R b.2.1 ∧ a.2.2 = b.2.2)
      (r.delegatedTerms x).run (s.delegatedTerms y).run := by
  unfold delegatedTerms
  rw [h.walletFormat, h.validatorFormat, hpool.delegators]
  dsimp only
  split
  · exact .some (.failed _)
  split
  · exact .some (.failed _)
  split
  · exact .some (.failed _)
  refine rel_endAlike_bind (.some (endAlike_terms h hR)) ?_
  rintro ⟨t, c⟩ ⟨t', d⟩ ⟨rfl, hstart⟩
  dsimp only
  rw [pool_congr hpool]
  rcases s.pool t.walletFormat with _ | e | pool
  · exact .none
  · exact .some (.failed e)
  · exact .some (.done ⟨rfl, hstart, rfl⟩)

variable [Randomizer ρ] [Randomizer σ]

/-- Both ask for owners of as many validators, and bring randomizers that are as `R` says and lead
to the same batches, unless neither brings one. -/
structure SameOwners (R : Option ρ → Option σ → Prop) (r : Request ρ) (s : Request σ) : Prop where
  maxPerOwner : r.maxPerOwner = s.maxPerOwner
  randomizer : Option.Rel (fun x y => R (some x) (some y)) r.randomizer s.randomizer
  batches : WalletRules.SameBatches r.maxPerOwner R

/-- Both ask for the same of what a strategy goes by besides the common terms. The delegated
strategy has no randomizer. -/
def SameStaking (R : Option ρ → Option σ → Prop) (r : Request ρ) (s : Request σ) : Kind → Prop
  | .direct => r.SameOwners R s
  | .delegated => r.SamePool s ∧ R none none
  | .mixed => r.SamePool s ∧ r.delegatedNodes = s.delegatedNodes ∧ r.SameOwners R s

end Request

/-- The plans are one, and their runs begin in step. -/
structure Plan.InStep [Randomizer ρ] [Randomizer σ] (R : Option ρ → Option σ → Prop)
    (a : Plan × Progress ρ) (b : Plan × Progress σ) : Prop where
  plan : a.1 = b.1
  batches : a.1.staking.SameBatches R
  start : a.2.InStep R b.2

namespace Request

variable [Randomizer ρ] [Randomizer σ] {r : Request ρ} {s : Request σ}

theorem endAlike_directPlan (h : r.SameTerms s) (howners : r.SameOwners R s) :
    EndAlike (Plan.InStep R) r.directPlan s.directPlan := by
  obtain ⟨hlimit, hrandomizer, hbatches⟩ := howners
  unfold directPlan
  rw [← hlimit]
  dsimp only
  split
  · exact .failed _
  generalize r.randomizer = x at hrandomizer ⊢
  generalize s.randomizer = y at hrandomizer ⊢
  cases hrandomizer with
  | none => exact .failed _
  | some hR =>
    refine (endAlike_terms h hR).bind ?_
    rintro ⟨t, c⟩ ⟨t', d⟩ ⟨rfl, hstart⟩
    exact .done ⟨rfl, hbatches, rfl, hstart, rfl⟩

theorem endAlike_delegatedPlan (h : r.SameTerms s) (hpool : r.SamePool s) (hR : R none none) :
    Option.Rel (EndAlike (Plan.InStep R)) r.delegatedPlan.run s.delegatedPlan.run := by
  unfold delegatedPlan
  refine rel_endAlike_bind (endAlike_delegatedTerms h hpool hR) ?_
  rintro ⟨t, c, pool⟩ ⟨t', d, pool'⟩ ⟨rfl, hstart, rfl⟩
  exact .some (.done ⟨rfl, trivial, rfl, hstart, rfl⟩)

theorem endAlike_mixedPlan (h : r.SameTerms s) (hpool : r.SamePool s)
    (hnodes : r.delegatedNodes = s.delegatedNodes) (howners : r.SameOwners R s) :
    Option.Rel (EndAlike (Plan.InStep R)) r.mixedPlan.run s.mixedPlan.run := by
  obtain ⟨hlimit, hrandomizer, hbatches⟩ := howners
  unfold mixedPlan
  rw [← hlimit, ← hnodes, h.validators]
  dsimp only
  split
  · exact .some (.failed _)
  split
  · exact .some (.failed _)
  generalize r.randomizer = x at hrandomizer ⊢
  generalize s.randomizer = y at hrandomizer ⊢
  cases hrandomizer with
  | none => exact .some (.failed _)
  | some hR =>
    refine rel_endAlike_bind (endAlike_delegatedTerms h hpool hR) ?_
    rintro ⟨t, c, pool⟩ ⟨t', d, pool'⟩ ⟨rfl, hstart, rfl⟩
    exact .some (.done ⟨rfl, hbatches, rfl, hstart, rfl⟩)

theorem endAlike_plan (h : r.SameTerms s)
    (hstaking : ∀ kind, Kind.ofName? r.strategy = .ok kind → r.SameStaking R s kind) :
    Option.Rel (EndAlike (Plan.InStep R)) r.plan.run s.plan.run := by
  unfold Request.plan
  rw [← h.strategy]
  cases hkind : Kind.ofName? r.strategy with
  | error e => exact .some (.failed e)
  | ok kind =>
    have hsame := hstaking kind hkind
    cases kind with
    | direct => exact .some (endAlike_directPlan h hsame)
    | delegated => exact endAlike_delegatedPlan h hsame.1 hsame.2
    | mixed => exact endAlike_mixedPlan h hsame.1 hsame.2.1 hsame.2.2

end Request

theorem Kind.ofName?_name (kind : Kind) : Kind.ofName? kind.name = .ok kind := by
  cases kind <;> rfl

structure Course where
  kind : Kind
  /-- What becomes of the generation that so many others go before. -/
  outcome : Nat → Option (Except Error Bundle)
  /-- All that has been reported by the end of so many generations. -/
  journal : Nat → Option (List Event)

namespace Request

variable [Randomizer ρ] [Randomizer σ]

def course (r : Request ρ) : Attempt Course := do
  let (plan, start) ← r.plan
  return { kind := plan.staking.kind
           outcome := plan.outcome start
           journal := fun n => (plan.after n start).map (·.journal) }

def recorded (r : Request ρ) : Request (Recorded ρ) :=
  { r with randomizer := r.randomizer.map ({ source := · }) }

/-- However often the request is carried out, its randomizer is never asked: all goes as it does if
a record is kept, and the record stays as it was in the beginning, with nothing in it. -/
structure NeverAsks (r : Request ρ) : Prop where
  course_recorded : r.course = r.recorded.course
  unasked : ∀ plan start, r.recorded.plan = some (.ok (plan, start)) →
    ∀ n p, plan.after n start = some p → p.wallets.randomizer = r.recorded.randomizer

variable {r : Request ρ} {s : Request σ}

theorem course_congr (h : r.SameTerms s)
    (hstaking : ∀ kind, Kind.ofName? r.strategy = .ok kind → r.SameStaking R s kind) :
    r.course = s.course := by
  refine eq_of_rel_endAlike (rel_endAlike_bind (endAlike_plan h hstaking) ?_)
  rintro ⟨plan, p⟩ ⟨plan', q⟩ ⟨rfl, hbatches, hstart⟩
  have houtcome : plan.outcome p = plan.outcome q :=
    funext fun n => Plan.outcome_of_inStep hbatches hstart n
  have hjournal : (fun n => (plan.after n p).map (·.journal)) =
      fun n => (plan.after n q).map (·.journal) :=
    funext fun n => Plan.journal_of_inStep hbatches hstart n
  dsimp only
  rw [houtcome, hjournal]
  exact .some (.done rfl)

theorem sameStaking_of_name {kind : Kind} (hkind : r.strategy = kind.name)
    (h : r.SameStaking R s kind) :
    ∀ kind', Kind.ofName? r.strategy = .ok kind' → r.SameStaking R s kind' := by
  intro kind' hkind'
  rw [hkind, Kind.ofName?_name] at hkind'
  cases hkind'
  exact h

theorem sameOwners_alike (hlimit : r.maxPerOwner = s.maxPerOwner)
    (h : Option.Rel Randomizer.Alike r.randomizer s.randomizer) :
    r.SameOwners (Option.Rel Randomizer.Alike) s := by
  refine ⟨hlimit, ?_, (WalletRules.sameBatches_alike _).option⟩
  generalize r.randomizer = x at h ⊢
  generalize s.randomizer = y at h ⊢
  cases h with
  | none => exact .none
  | some h => exact .some (.some h)

theorem sameOwners_one {a : ρ} {b : σ} (hone : r.maxPerOwner = 1) (hone' : s.maxPerOwner = 1)
    (ha : r.randomizer = some a) (hb : s.randomizer = some b) (hR : R (some a) (some b)) :
    r.SameOwners R s := by
  refine ⟨hone.trans hone'.symm, ?_, ?_⟩
  · rw [ha, hb]
    exact .some hR
  · rw [hone]
    exact WalletRules.sameBatches_one R

theorem course_recorded (r : Request ρ) : r.course = r.recorded.course := by
  have hterms : r.SameTerms r.recorded := by constructor <;> rfl
  have hpool : r.SamePool r.recorded := by constructor <;> rfl
  have hrandomizer : Option.Rel Randomizer.Alike r.randomizer r.recorded.randomizer := by
    unfold recorded
    cases r.randomizer with
    | none => exact .none
    | some a => exact .some (Randomizer.alike_recorded a)
  have howners : r.SameOwners (Option.Rel Randomizer.Alike) r.recorded :=
    sameOwners_alike rfl hrandomizer
  refine course_congr (R := Option.Rel Randomizer.Alike) hterms fun kind _ => ?_
  cases kind with
  | direct => exact howners
  | delegated => exact ⟨hpool, .none⟩
  | mixed => exact ⟨hpool, rfl, howners⟩

theorem neverAsks_of_one (hone : r.maxPerOwner = 1) (hsome : r.randomizer.isSome)
    (hkind : r.strategy = Kind.direct.name ∨ r.strategy = Kind.mixed.name) : r.NeverAsks := by
  refine ⟨r.course_recorded, fun plan start hplan n p hp => ?_⟩
  obtain ⟨a, ha⟩ := Option.isSome_iff_exists.mp hsome
  have hrecord : r.recorded.randomizer = some { source := a } := congrArg (Option.map _) ha
  -- the run is in step with itself, in a sense that pins its randomizer down
  have howners : r.recorded.SameOwners (fun x _ => x = some { source := a }) r.recorded :=
    sameOwners_one hone hone hrecord hrecord rfl
  have hstaking : ∀ kind, Kind.ofName? r.recorded.strategy = .ok kind →
      r.recorded.SameStaking (fun x _ => x = some { source := a }) r.recorded kind := by
    rcases hkind with hdirect | hmixed
    · exact sameStaking_of_name hdirect howners
    · exact sameStaking_of_name hmixed ⟨.refl _, rfl, howners⟩
  have hplans := endAlike_plan (.refl r.recorded) hstaking
  rw [hplan] at hplans
  cases hplans with
  | some hplans =>
    cases hplans with
    | done hbegin =>
      have hafter := Plan.inStep_after hbegin.batches hbegin.start n
      rw [hp] at hafter
      cases hafter with
      | some hin =>
        rw [hrecord]
        exact hin.wallets.randomizer

end Request

/-- A strategy goes by some of its inputs only. Requests for the same terms are carried out alike,
any number of times: by the direct strategy if owners may have as many validators and the
randomizers answer alike, whatever contract is asked for; by the delegated strategy if the contract
is the same, whatever is asked of owners; and by those that make owners if each of these has one
validator, whichever randomizers there are, which are never asked. -/
theorem strategy_picks_inputs {ρ σ : Type} [Randomizer ρ] [Randomizer σ] {r : Request ρ}
    {s : Request σ} (same : r.SameTerms s) :
    (r.strategy = Kind.direct.name → r.maxPerOwner = s.maxPerOwner →
      Option.Rel Randomizer.Alike r.randomizer s.randomizer → r.course = s.course) ∧
    (r.strategy = Kind.delegated.name → r.SamePool s → r.course = s.course) ∧
    (r.strategy = Kind.direct.name ∨
        r.strategy = Kind.mixed.name ∧ r.SamePool s ∧ r.delegatedNodes = s.delegatedNodes →
      r.maxPerOwner = 1 → s.maxPerOwner = 1 → r.randomizer.isSome → s.randomizer.isSome →
        r.course = s.course ∧ r.NeverAsks ∧ s.NeverAsks) := by
  refine ⟨fun hdirect hlimit hrandomizer => ?_, fun hdelegated hpool => ?_,
    fun hkind hone hone' hsome hsome' => ?_⟩
  · exact Request.course_congr same
      (Request.sameStaking_of_name hdirect (Request.sameOwners_alike hlimit hrandomizer))
  · exact Request.course_congr (R := fun _ _ => True) same
      (Request.sameStaking_of_name hdelegated ⟨hpool, trivial⟩)
  · obtain ⟨a, ha⟩ := Option.isSome_iff_exists.mp hsome
    obtain ⟨b, hb⟩ := Option.isSome_iff_exists.mp hsome'
    have howners : r.SameOwners (fun _ _ => True) s :=
      Request.sameOwners_one hone hone' ha hb trivial
    have hstaking : ∀ kind, Kind.ofName? r.strategy = .ok kind →
        r.SameStaking (fun _ _ => True) s kind := by
      rcases hkind with hdirect | ⟨hmixed, hpool, hnodes⟩
      · exact Request.sameStaking_of_name hdirect howners
      · exact Request.sameStaking_of_name hmixed ⟨hpool, hnodes, howners⟩
    have hgroups : r.strategy = Kind.direct.name ∨ r.strategy = Kind.mixed.name :=
      hkind.imp_right And.left
    have hgroups' : s.strategy = Kind.direct.name ∨ s.strategy = Kind.mixed.name :=
      same.strategy ▸ hgroups
    exact ⟨Request.course_congr same hstaking, Request.neverAsks_of_one hone hsome hgroups,
      Request.neverAsks_of_one hone' hsome' hgroups'⟩

namespace Request

def contractlessSample : Request Script :=
  { sample .direct .validator with
    owner := "nobody"
    ownerNonce := 9
    machineType := "none"
    addressLength := 0
    delegators := 0
    delegatedNodes := 9 }

def ungroupedSample : Request Seeded :=
  { sample .delegated .validator with
    maxPerOwner := 0
    randomizer := none
    delegatedNodes := 9 }

def singlesSample {ρ : Type} (randomizer : ρ) : Request ρ :=
  { sample .mixed .validator with
    maxPerOwner := 1
    randomizer := some randomizer }

def GoesOn {ρ : Type} [Randomizer ρ] (r : Request ρ) : Prop :=
  ∃ course b, r.course = some (.ok course) ∧ course.outcome 1 = some (.ok b)

theorem goesOn_of_plan {ρ : Type} [Randomizer ρ] {r : Request ρ} {plan : Plan}
    {start : Progress ρ} {b : Bundle} (hplan : r.plan = some (.ok (plan, start)))
    (hb : plan.outcome start 1 = some (.ok b)) : r.GoesOn :=
  ⟨_, b, bind_eq_some_ok.mpr ⟨(plan, start), hplan, rfl⟩, hb⟩

theorem goesOn_sample (kind : Kind) : (sample kind .validator).GoesOn := by
  obtain ⟨plan, start, b, hplan, hb⟩ := exists_outcome_sample kind 1
  exact goesOn_of_plan hplan hb

theorem goesOn_singlesSample : (singlesSample Script.greatest).GoesOn := by
  obtain ⟨asked, hasked⟩ := exists_delegatedTerms_sample .mixed .validator (some .greatest)
  obtain ⟨plan, start, hplan⟩ :
      ∃ plan start, (singlesSample Script.greatest).plan = some (.ok (plan, start)) :=
    ⟨_, _, bind_eq_some_ok.mpr ⟨_, rfl, bind_eq_some_ok.mpr ⟨asked, hasked, rfl⟩⟩⟩
  have hdrawable : (singlesSample Script.greatest).Drawable .validator :=
    drawable_of_numbered rfl rfl rfl rfl rfl
  obtain ⟨b, hb⟩ := hdrawable.exists_outcome hplan (fun price kind hprice hkind => by
    obtain rfl : 2500 = price := Option.some.inj hprice
    cases hkind
    decide) 1
  exact goesOn_of_plan hplan hb

end Request

open Request in
/-- The direct sample does not need its contract, the delegated one nothing of owners, and the mixed
one no randomizer if there is an owner for each validator. -/
theorem samples_pick_inputs :
    (sample .direct .validator).GoesOn ∧
      (sample .direct .validator).course = contractlessSample.course ∧
    (sample .delegated .validator).GoesOn ∧
      (sample .delegated .validator).course = ungroupedSample.course ∧
    (singlesSample Script.greatest).GoesOn ∧
      (singlesSample Script.greatest).course = (singlesSample (Seeded.ofSeed 7)).course ∧
      (singlesSample Script.greatest).NeverAsks ∧ (singlesSample (Seeded.ofSeed 7)).NeverAsks := by
  have hdirect : (sample .direct .validator).SameTerms contractlessSample := by
    constructor <;> rfl
  have hdelegated : (sample .delegated .validator).SameTerms ungroupedSample := by
    constructor <;> rfl
  have hmixed : (singlesSample Script.greatest).SameTerms (singlesSample (Seeded.ofSeed 7)) := by
    constructor <;> rfl
  have hpool : (singlesSample Script.greatest).SamePool (singlesSample (Seeded.ofSeed 7)) := by
    constructor <;> rfl
  obtain ⟨hcontract, _, _⟩ := strategy_picks_inputs hdirect
  have hpool' : (sample .delegated .validator).SamePool ungroupedSample := by
    constructor <;> rfl
  obtain ⟨_, howners, _⟩ := strategy_picks_inputs hdelegated
  obtain ⟨_, _, hrandomizer⟩ := strategy_picks_inputs hmixed
  exact ⟨goesOn_sample _, hcontract rfl rfl (.some (Randomizer.alike_refl _)), goesOn_sample _,
    howners rfl hpool', goesOn_singlesSample,
    hrandomizer (.inr ⟨rfl, hpool, rfl⟩) rfl rfl rfl rfl⟩

end Genesis
