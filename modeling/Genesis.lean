import Genesis.Main
import Genesis.Proofs.Balance
import Genesis.Proofs.Key.Drawn
import Genesis.Proofs.Steps
import Genesis.Proofs.Strategy.Material
import Genesis.Proofs.Strategy.Settled
import Genesis.Proofs.Strategy.Accepted
import Genesis.Proofs.Strategy.Conservation
import Genesis.Proofs.Codec.Bech32
import Genesis.Proofs.Codec.Hex
import Genesis.Proofs.Key.Format
import Genesis.Proofs.Strategy.Verdict
import Genesis.Proofs.Contract
import Genesis.Proofs.Checker
import Genesis.Proofs.Strategy.Gate
import Genesis.Proofs.Strategy.Attribution
import Genesis.Proofs.Refusal
import Genesis.Proofs.Output.Recovery
import Genesis.Proofs.Cli.AllOrNothing
import Genesis.Proofs.Cli.Consistency
import Genesis.Proofs.Codec.Bech32.Checksum
import Genesis.Proofs.Text.Ascii
import Genesis.Proofs.Codec.Bech32.Reading
import Genesis.Proofs.Key.Canonical
import Genesis.Proofs.Key.Turns
import Genesis.Proofs.Strategy.Spread
import Genesis.Proofs.Demo
import Genesis.Proofs.Strategy.Override
import Genesis.Proofs.Output.Rerun
import Genesis.Proofs.Contract.Shard
import Genesis.Proofs.Json.RoundTrip
import Genesis.Proofs.Pem.File
import Genesis.Proofs.Strategy.Distinct
import Genesis.Proofs.Shard.Placement
import Genesis.Proofs.Key.Account
import Genesis.Proofs.Strategy.Grouping
import Genesis.Proofs.Strategy.Shares
import Genesis.Proofs.Demo.InPlace
import Genesis.Proofs.Traffic.Partition
import Genesis.Proofs.Amount.Spelling
import Genesis.Proofs.Output.Calls
import Genesis.Proofs.Strategy.Relevance
