import Genesis.Cli.Run
import Genesis.Proofs.Key.Canonical
import Genesis.Proofs.Strategy.Spread

/-!
The way to the files of a run. Each stage knows all that was read and made before it, so that the
first step that fails can be told by the stage that comes before it.
-/

namespace Genesis.Cli

open Steps

theorem Step.take_eq_ok {α : Type} {step : Step} {x : Except Error α} {a : α} :
    step.take x = .ok a ↔ x = .ok a := by
  cases x with
  | error e => simp only [take, reduceCtorEq]
  | ok b => simp only [take, Except.ok.injEq]

theorem Step.lift_take_ok {α : Type} (step : Step) (a : α) :
    (step.take (.ok a) : ExceptT Failure Option α) = pure a := rfl

theorem Step.await_ok {α : Type} (step : Step) (a : α) : step.await (some (.ok a)) = pure a := rfl

variable {o : Options} {s : Sources}

structure Reading (o : Options) where
  counts : NodeCounts
  totalSupply : Int
  nodePrice : Int
  minimumBalance : Int
  walletFormat : KeyFormat
  counted : o.counts? = .ok counts
  supplied : Amount.parseNonNegative o.totalSupply = .ok totalSupply
  priced : Amount.parseNonNegative o.nodePrice = .ok nodePrice
  floored : Amount.parseNonNegative o.minimumBalance = .ok minimumBalance
  formatted : KeyFormat.bech32? KeyFormat.walletSize o.walletPrefix = .ok walletFormat

def Reading.request (r : Reading o) (s : Sources) : Request Seeded :=
  o.request s r.counts r.walletFormat r.totalSupply r.nodePrice r.minimumBalance

structure Planning (o : Options) (s : Sources) extends Reading o where
  plan : Plan
  start : Progress Seeded
  planned : (toReading.request s).plan = some (.ok (plan, start))

structure Making (o : Options) (s : Sources) extends Planning o s where
  bundle : Bundle
  generated : plan.outcome start 0 = some (.ok bundle)

structure Naming (o : Options) (s : Sources) extends Making o s where
  accounts : List Account
  named : o.applyDemo walletFormat bundle.accounts = .ok accounts

structure Weighing (o : Options) (s : Sources) extends Naming o s where
  checker : Checker
  checkable : Checker.ofAmounts? (some nodePrice) (some totalSupply) = .ok checker

structure Preparation (o : Options) (s : Sources) extends Weighing o s where
  totals : Totals
  checked : checker.check accounts = .ok totals

def Preparation.prepared (q : Preparation o s) : Prepared where
  walletFormat := q.walletFormat
  bundle := { q.bundle with accounts := q.accounts }

/-- The first step that fails on the way to the files of a run, and the failure that it makes. -/
inductive Refused (o : Options) (s : Sources) : Failure → Prop
  | counts {misfit : Misfit} (failed : o.counts? = .error misfit) : Refused o s (.misfit misfit)
  | totalSupply {counts : NodeCounts} {e : Error} (counted : o.counts? = .ok counts)
      (failed : Amount.parseNonNegative o.totalSupply = .error e) :
      Refused o s (.step .readTotalSupply e)
  | nodePrice {counts : NodeCounts} {totalSupply : Int} {e : Error}
      (counted : o.counts? = .ok counts)
      (supplied : Amount.parseNonNegative o.totalSupply = .ok totalSupply)
      (failed : Amount.parseNonNegative o.nodePrice = .error e) :
      Refused o s (.step .readNodePrice e)
  | minimumBalance {counts : NodeCounts} {totalSupply nodePrice : Int} {e : Error}
      (counted : o.counts? = .ok counts)
      (supplied : Amount.parseNonNegative o.totalSupply = .ok totalSupply)
      (priced : Amount.parseNonNegative o.nodePrice = .ok nodePrice)
      (failed : Amount.parseNonNegative o.minimumBalance = .error e) :
      Refused o s (.step .readMinimumBalance e)
  | walletFormat {counts : NodeCounts} {totalSupply nodePrice minimumBalance : Int} {e : Error}
      (counted : o.counts? = .ok counts)
      (supplied : Amount.parseNonNegative o.totalSupply = .ok totalSupply)
      (priced : Amount.parseNonNegative o.nodePrice = .ok nodePrice)
      (floored : Amount.parseNonNegative o.minimumBalance = .ok minimumBalance)
      (failed : KeyFormat.bech32? KeyFormat.walletSize o.walletPrefix = .error e) :
      Refused o s (.step .makeWalletFormat e)
  | plan (r : Reading o) {e : Error} (failed : (r.request s).plan = some (.error e)) :
      Refused o s (.step .plan e)
  | generation (r : Planning o s) {e : Error}
      (failed : r.plan.outcome r.start 0 = some (.error e)) : Refused o s (.step .generate e)
  | demo (r : Making o s) {e : Error}
      (failed : o.applyDemo r.walletFormat r.bundle.accounts = .error e) :
      Refused o s (.step .applyDemo e)
  | checker (r : Naming o s) {e : Error}
      (failed : Checker.ofAmounts? (some r.nodePrice) (some r.totalSupply) = .error e) :
      Refused o s (.step .makeChecker e)
  | check (r : Weighing o s) {e : Error} (failed : r.checker.check r.accounts = .error e) :
      Refused o s (.step .check e)

/-- The three ends that the way to the files can come to. -/
inductive Prepares (o : Options) (s : Sources) : Option (Except Failure Prepared) → Prop
  | refused {failure : Failure} (refused : Refused o s failure) :
      Prepares o s (some (.error failure))
  | endless (r : Planning o s) (endless : r.plan.outcome r.start 0 = none) : Prepares o s none
  | prepared (q : Preparation o s) : Prepares o s (some (.ok q.prepared))

theorem Reading.plan_ne_none (r : Reading o) : (r.request s).plan ≠ none := by
  refine Request.plan_ne_none ?_
  obtain ⟨_, hsize, hformat⟩ := KeyFormat.bech32?_eq_ok_iff.mp r.formatted
  change Contract.sharedLength ≤ r.walletFormat.size
  rw [hformat]
  exact (by decide : Contract.sharedLength ≤ KeyFormat.walletSize)

namespace Planning

theorem follows (r : Planning o s) : r.plan.Follows (r.request s) := (Request.plan_ok r.planned).1

end Planning

theorem prepares (o : Options) (s : Sources) : Prepares o s (o.prepare s).run := by
  -- step by step: a step that fails is told by the stage that the ones before it have led to
  unfold Options.prepare
  cases hcounts : o.counts? with
  | error misfit => exact .refused (.counts hcounts)
  | ok counts =>
  cases hsupply : Amount.parseNonNegative o.totalSupply with
  | error e => exact .refused (.totalSupply hcounts hsupply)
  | ok totalSupply =>
  cases hprice : Amount.parseNonNegative o.nodePrice with
  | error e => exact .refused (.nodePrice hcounts hsupply hprice)
  | ok nodePrice =>
  cases hminimum : Amount.parseNonNegative o.minimumBalance with
  | error e => exact .refused (.minimumBalance hcounts hsupply hprice hminimum)
  | ok minimumBalance =>
  cases hformat : KeyFormat.bech32? KeyFormat.walletSize o.walletPrefix with
  | error e => exact .refused (.walletFormat hcounts hsupply hprice hminimum hformat)
  | ok walletFormat =>
  let reading : Reading o := ⟨counts, totalSupply, nodePrice, minimumBalance, walletFormat, hcounts,
    hsupply, hprice, hminimum, hformat⟩
  simp only [Step.lift_take_ok, pure_bind]
  rcases hplan : (o.request s counts walletFormat totalSupply nodePrice minimumBalance).plan with
    _ | e | ⟨plan, start⟩
  · exact absurd hplan reading.plan_ne_none
  · exact .refused (.plan reading hplan)
  let planning : Planning o s := { reading with plan, start, planned := hplan }
  simp only [Step.await_ok, pure_bind]
  rcases hmade : plan.generate start with _ | ⟨e | bundle, last⟩
  · exact .endless planning (Option.map_eq_none_iff.mpr hmade)
  · exact .refused (.generation planning (Plan.outcome_eq_some.mpr ⟨start, last, rfl, hmade⟩))
  let making : Making o s :=
    { planning with
      bundle
      generated := Plan.outcome_eq_some.mpr ⟨start, last, rfl, hmade⟩ }
  simp only [Option.map_some, Step.await_ok, pure_bind]
  cases hnamed : o.applyDemo walletFormat bundle.accounts with
  | error e => exact .refused (.demo making hnamed)
  | ok accounts =>
  let naming : Naming o s := { making with accounts, named := hnamed }
  simp only [Step.lift_take_ok, pure_bind]
  cases hchecker : Checker.ofAmounts? (some nodePrice) (some totalSupply) with
  | error e => exact .refused (.checker naming hchecker)
  | ok checker =>
  let weighing : Weighing o s := { naming with checker, checkable := hchecker }
  simp only [Step.lift_take_ok, pure_bind]
  cases hchecked : checker.check accounts with
  | error e => exact .refused (.check weighing hchecked)
  | ok totals => exact .prepared { weighing with totals, checked := hchecked }

theorem prepare_of_preparation (q : Preparation o s) : o.prepare s = some (.ok q.prepared) := by
  have hplan : (o.request s q.counts q.walletFormat q.totalSupply q.nodePrice
      q.minimumBalance).plan = some (.ok (q.plan, q.start)) := q.planned
  obtain ⟨_, last, hstart, hmade⟩ := Plan.outcome_eq_some.mp q.generated
  cases hstart
  unfold Options.prepare
  simp only [q.counted, q.supplied, q.priced, q.floored, q.formatted, hplan, hmade, q.named,
    q.checkable, q.checked, Option.map_some, Step.lift_take_ok, Step.await_ok, pure_bind]
  rfl

end Genesis.Cli
