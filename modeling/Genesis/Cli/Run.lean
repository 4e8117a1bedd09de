import Genesis.Checker
import Genesis.Cli.Arguments
import Genesis.Output
import Genesis.Random.Seeded
import Genesis.Strategy.Settle

/-!
One run of the program: everything is made and checked before the first step on files, and what a
failed step has written stays written.
-/

namespace Genesis.Cli

/-- What a run draws keys from, and where its choices come from if no seed is given. -/
structure Sources where
  validatorKeys : KeySource
  walletKeys : KeySource
  randomizer : Seeded

def Sources.ofEntropy (entropy : Bytes) : Sources where
  validatorKeys := .validators entropy KeyFormat.validatorSize
  walletKeys := .wallets entropy KeyFormat.walletSize
  randomizer := .ofKey entropy

inductive Step where
  | readTotalSupply
  | readNodePrice
  | readMinimumBalance
  | makeWalletFormat
  | plan
  | generate
  | applyDemo
  | makeChecker
  | check
  | makeCoordinator
  | createFiles
  | makeWriter
  | writeFiles
  deriving DecidableEq, Repr

def Step.title : Step → String
  | .readTotalSupply => "parsing total-supply"
  | .readNodePrice => "parsing node-price"
  | .readMinimumBalance => "parsing minimum-balance"
  | .makeWalletFormat => "creating wallet converter"
  | .plan => "creating data generator"
  | .generate => "generating data"
  | .applyDemo => "applying demo addresses"
  | .makeChecker => "creating initial accounts checker"
  | .check => "checking initial accounts"
  | .makeCoordinator => "creating shard coordinator"
  | .createFiles => "creating output files"
  | .makeWriter => "creating output handler"
  | .writeFiles => "writing output files"

inductive Failure where
  | misfit (misfit : Misfit)
  | step (step : Step) (cause : Error)
  | noFolder (name : String) (fault : FileFault)
  deriving DecidableEq, Repr

/-- The wordings of a failure and of what lies beneath it, outermost first. -/
def Failure.chain : Failure → List String
  | .misfit m => [m.message]
  | .step s cause => s.title :: cause.message :: cause.causes
  | .noFolder name fault => ["creating output directory " ++ name, fault.message]

def Step.take {α : Type} (step : Step) : Except Error α → Except Failure α
  | .ok value => .ok value
  | .error cause => .error (.step step cause)

def Step.await {α : Type} (step : Step) (attempt : Attempt α) : ExceptT Failure Option α :=
  attempt.run.map step.take

structure Prepared where
  walletFormat : KeyFormat
  bundle : Bundle

namespace Options

def request (o : Options) (s : Sources) (counts : NodeCounts) (walletFormat : KeyFormat)
    (totalSupply nodePrice minimumBalance : Int) : Request Seeded :=
  { strategy := o.strategy, validatorKeys := some s.validatorKeys, walletKeys := some s.walletKeys
    walletFormat := some walletFormat, validatorFormat := some .validator
    validators := counts.validators, observers := counts.observers
    additional := o.additional.toNat, richest := o.richest, nodePrice := some nodePrice
    totalSupply, minimumBalance, initialRating := o.initialRating, shards := o.shards.toNat
    everyShard := o.everyShard, maxPerOwner := o.maxPerOwner.toNat
    randomizer := some ((o.seed.map Seeded.ofSeed).getD s.randomizer), owner := o.owner
    ownerNonce := o.ownerNonce.toNat, machineType := o.machineType
    addressLength := walletFormat.size, delegators := o.delegators.toNat
    delegatedNodes := o.delegatedNodes.toNat }

def applyDemo (o : Options) (walletFormat : KeyFormat) (accounts : List Account) :
    Except Error (List Account) :=
  match o.demo? with
  | none => .ok accounts
  | some demo => demo.apply walletFormat accounts

/-- All that comes before the first step on files. Nothing comes of a generation that never ends. -/
def prepare (o : Options) (s : Sources) : ExceptT Failure Option Prepared := do
  let counts ←
    match o.counts? with
    | .ok counts => pure counts
    | .error misfit => throw (.misfit misfit)
  let totalSupply ← Step.readTotalSupply.take (Amount.parseNonNegative o.totalSupply)
  let nodePrice ← Step.readNodePrice.take (Amount.parseNonNegative o.nodePrice)
  let minimumBalance ← Step.readMinimumBalance.take (Amount.parseNonNegative o.minimumBalance)
  let walletFormat ←
    Step.makeWalletFormat.take (KeyFormat.bech32? KeyFormat.walletSize o.walletPrefix)
  let request := o.request s counts walletFormat totalSupply nodePrice minimumBalance
  let (plan, progress) ← Step.plan.await request.plan
  let bundle ← Step.generate.await ((plan.generate progress).map (·.1))
  let accounts ← Step.applyDemo.take (o.applyDemo walletFormat bundle.accounts)
  let checker ← Step.makeChecker.take (Checker.ofAmounts? (some nodePrice) (some totalSupply))
  let _totals ← Step.check.take (checker.check accounts)
  return { walletFormat, bundle := { bundle with accounts } }

def folder (o : Options) : Path := Path.join [] o.outputFolder

def write (o : Options) (p : Prepared) (t : FileTree) : Except Failure Unit × FileTree :=
  match t.makeFolders (Path.parts o.outputFolder) with
  | .error (fault, t) => (.error (.noFolder o.outputFolder fault), t)
  | .ok t =>
    match Coordinator.ofCount? o.shards with
    | .error e => (.error (.step .makeCoordinator e), t)
    | .ok coordinator =>
      match OutputParts.create o.folder .validator p.walletFormat coordinator o.traffic
          o.delegatorsFile o.network t with
      | (.error e, t) => (.error (.step .createFiles e), t)
      | (.ok parts, t) =>
        match Writer.ofParts? parts with
        | .error e => (.error (.step .makeWriter e), t)
        | .ok writer =>
          let (result, desk) := (Writing.putBundle p.bundle).run { writer, tree := t }
          (Step.writeFiles.take result, desk.tree)

def run (o : Options) (s : Sources) (t : FileTree) : Option (Except Failure Unit × FileTree) :=
  match (o.prepare s).run with
  | none => none
  | some (.error failure) => some (.error failure, t)
  | some (.ok prepared) => some (o.write prepared t)

end Options

structure Outcome where
  exitCode : UInt32
  chain : List String := []
  tree : FileTree

def call (words : List String) (s : Sources) (t : FileTree) : Option Outcome :=
  match Invocation.ofWords words with
  | .help | .version => some { exitCode := 0, tree := t }
  | .misuse word => some { exitCode := 2, chain := [misuseMessage word], tree := t }
  | .run options =>
    match options.run s t with
    | none => none
    | some (.ok (), t) => some { exitCode := 0, tree := t }
    | some (.error failure, t) => some { exitCode := 1, chain := failure.chain, tree := t }

end Genesis.Cli
