import Genesis.Binary.Text
import Genesis.Cli.Options

/-! From the words of a command line to the options of a run. -/

namespace Genesis.Cli

inductive Invocation where
  | run (options : Options)
  | help
  | version
  | misuse (word : String)
  deriving DecidableEq, Repr

def digits? (text : List Char) : Option Nat :=
  if text.isEmpty || !text.all Char.isDigit then none else some (Binary.natOfDigits text)

def misuseMessage (word : String) : String := "unexpected argument " ++ word

/-- A word of 32 bits. Of the numbers with a minus sign only zero is one. -/
def word32? (text : String) : Option UInt32 := do
  let (negative, rest) := Binary.readSign text.toList
  let n ← digits? rest
  if UInt32.size ≤ n || (negative && n ≠ 0) then none else some (UInt32.ofNat n)

/-- A word of 64 bits, with or without a plus sign. -/
def word64? (text : String) : Option UInt64 := do
  let (negative, rest) := Binary.readSign text.toList
  let n ← digits? rest
  if UInt64.size ≤ n || negative then none else some (UInt64.ofNat n)

inductive Effect where
  | switch (set : Options → Options)
  | value (set : Options → String → Option Options)

structure Flag where
  name : String
  effect : Effect
  repeatable : Bool := false

namespace Flag

def word32 (name : String) (set : Options → UInt32 → Options) : Flag :=
  { name, effect := .value fun o text => (word32? text).map (set o) }

def word64 (name : String) (set : Options → UInt64 → Options) : Flag :=
  { name, effect := .value fun o text => (word64? text).map (set o) }

def text (name : String) (set : Options → String → Options) : Flag :=
  { name, effect := .value fun o text => some (set o text) }

def switch (name : String) (set : Options → Options) : Flag := { name, effect := .switch set }

def all : List Flag :=
  [{ name := "output-directory"
     effect := .value fun o text =>
      if text.isEmpty then none else some { o with outputFolder := text } },
   word32 "num-shards" ({ · with shards := · }),
   word32 "num-validators-per-shard" ({ · with validatorsPerShard := · }),
   word32 "num-observers-per-shard" ({ · with observersPerShard := · }),
   word32 "num-validators-meta" ({ · with metaValidators := · }),
   word32 "num-observers-meta" ({ · with metaObservers := · }),
   word32 "consensus-group-size" ({ · with consensusSize := · }),
   word32 "meta-consensus-group-size" ({ · with metaConsensusSize := · }),
   text "total-supply" ({ · with totalSupply := · }),
   text "node-price" ({ · with nodePrice := · }),
   text "minimum-balance" ({ · with minimumBalance := · }),
   word32 "initial-rating" ({ · with initialRating := · }),
   word64 "round-duration" ({ · with roundDuration := · }),
   { name := "hysteresis"
     effect := .value fun o text =>
      (Binary.Number.parse? text).map ({ o with hysteresis := · }) },
   switch "adaptivity" ({ · with adaptivity := true }),
   text "chain-id" ({ · with chainId := · }),
   word32 "tx-version" ({ · with transactionVersion := · }),
   text "generation-type" ({ · with strategy := · }),
   switch "richest-account" ({ · with richest := true }),
   word64 "max-num-nodes-on-owner" ({ · with maxPerOwner := · }),
   word64 "num-additional-accounts" ({ · with additional := · }),
   word64 "num-delegators" ({ · with delegators := · }),
   word64 "num-delegated-nodes" ({ · with delegatedNodes := · }),
   text "delegation-owner-public-key" ({ · with owner := · }),
   word64 "delegation-owner-nonce" ({ · with ownerNonce := · }),
   text "vm-type" ({ · with machineType := · }),
   text "wallet-hrp" ({ · with walletPrefix := · }),
   switch "generate-in-all-shards" ({ · with everyShard := true }),
   switch "txgen" ({ · with traffic := true }),
   switch "delegators-file" ({ · with delegatorsFile := true }),
   word64 "seed" fun o seed => { o with seed := some seed },
   { name := "demo-addresses"
     effect := .value fun o text =>
      some { o with demoAddresses := o.demoAddresses ++ text.splitOn "," }
     repeatable := true }]

def find? (name : String) : Option Flag := all.find? (·.name = name)

end Flag

def splitValue (word : List Char) : String × Option String :=
  let name := String.ofList (word.takeWhile (· ≠ '='))
  match word.dropWhile (· ≠ '=') with
  | [] => (name, none)
  | _ :: value => (name, some (String.ofList value))

def isValue (word : String) : Bool := word = "-" || !word.toList.head?.any (· = '-')

namespace Invocation

/-- Reads words from left to right. `seen` are the names of the options that have been given. -/
def ofWordsFrom (seen : List String) (o : Options) : List String → Invocation
  | [] => .run o
  | word :: rest =>
    match word.toList with
    | ['-', '-'] =>
      match rest with
      | [] => .run o
      | extra :: _ => .misuse extra
    | '-' :: '-' :: letters =>
      let (name, attached) := splitValue letters
      if name = "help" ∧ attached.isNone then .help
      else if name = "version" ∧ attached.isNone then .version
      else
        match Flag.find? name with
        | none => .misuse word
        | some flag =>
          if !flag.repeatable && seen.contains name then .misuse word
          else
            match flag.effect, attached with
            | .switch set, none => ofWordsFrom (name :: seen) (set o) rest
            | .switch _, some _ => .misuse word
            | .value set, some value =>
              match set o value with
              | some o => ofWordsFrom (name :: seen) o rest
              | none => .misuse word
            | .value set, none =>
              match rest with
              | [] => .misuse word
              | value :: rest =>
                if isValue value then
                  match set o value with
                  | some o => ofWordsFrom (name :: seen) o rest
                  | none => .misuse word
                else .misuse word
    | '-' :: 'h' :: _ => .help
    | '-' :: 'V' :: _ => .version
    | _ => .misuse word

def ofWords (words : List String) : Invocation := ofWordsFrom [] {} words

end Invocation

end Genesis.Cli
