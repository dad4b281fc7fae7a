import CivicLedger.Amount
import CivicLedger.Bytes.Basic
import CivicLedger.Bytes.Hex
import CivicLedger.Bytes.Utf8
import CivicLedger.Bytes.Word
import CivicLedger.Bytes.WordLemmas
import CivicLedger.Chain.Apply
import CivicLedger.Chain.Block
import CivicLedger.Chain.Fault
import CivicLedger.Chain.Perform
import CivicLedger.Chain.Replay
import CivicLedger.Database.Image
import CivicLedger.Database.Key
import CivicLedger.Database.Records
import CivicLedger.Database.Table
import CivicLedger.Database.Upkeep
import CivicLedger.Gateway.Arguments
import CivicLedger.Gateway.Body
import CivicLedger.Gateway.Command
import CivicLedger.Gateway.Fault
import CivicLedger.Gateway.Message
import CivicLedger.Gateway.Question
import CivicLedger.Hash.Blake2b
import CivicLedger.Hash.Ripemd160
import CivicLedger.Hash.Sha256
import CivicLedger.Host.CommandLine
import CivicLedger.Host.Feed
import CivicLedger.Host.Logging
import CivicLedger.Host.Machine
import CivicLedger.Host.Outbox
import CivicLedger.Host.Program
import CivicLedger.Host.Scratch
import CivicLedger.Host.Settings
import CivicLedger.Identity
import CivicLedger.Interchange.Basic
import CivicLedger.Interchange.Operation
import CivicLedger.Interchange.Record
import CivicLedger.Json.Access
import CivicLedger.Json.Fields
import CivicLedger.Json.Tree
import CivicLedger.Json.Value
import CivicLedger.Main
import CivicLedger.Network
import CivicLedger.Node.Fault
import CivicLedger.Node.Metrics
import CivicLedger.Node.Notice
import CivicLedger.Node.Replay
import CivicLedger.Node.Submission
import CivicLedger.Node.Sync
import CivicLedger.Node.Wallet
import CivicLedger.Number.Binary64
import CivicLedger.Number.Shortest
import CivicLedger.Number.Word
import CivicLedger.Number.WordLemmas
import CivicLedger.Operation.Basic
import CivicLedger.Operation.Form
import CivicLedger.Operation.Payload
import CivicLedger.Ordered.Key
import CivicLedger.Ordered.Map
import CivicLedger.Rules.Admission
import CivicLedger.Rules.Bills
import CivicLedger.Rules.Committees
import CivicLedger.Rules.Delegates
import CivicLedger.Rules.Effect
import CivicLedger.Rules.Refusal
import CivicLedger.Rules.Tally
import CivicLedger.Rules.Tokens
import CivicLedger.State.Coins
import CivicLedger.State.Fault
import CivicLedger.State.Interface
import CivicLedger.State.Inventory
import CivicLedger.State.Layout
import CivicLedger.State.Ledger
import CivicLedger.State.Record
import CivicLedger.Survey.Basic
import CivicLedger.Survey.Bills
import CivicLedger.Survey.CoinHoldings
import CivicLedger.Survey.Committees
import CivicLedger.Survey.Delegates
import CivicLedger.Survey.Ranking
import CivicLedger.Survey.Tokens
import CivicLedger.Text.Blank
import CivicLedger.Text.Digits
import CivicLedger.Text.DigitsLemmas
import CivicLedger.Time
import CivicLedger.Toml.Document
import CivicLedger.Toml.Lexeme
import CivicLedger.Toml.Number
import CivicLedger.Toml.Quote
import CivicLedger.Toml.Value
import CivicLedger.Wire
import CivicLedger.Proofs.Ordered.Entries
import CivicLedger.Proofs.State.Edits
import CivicLedger.Proofs.Bytes.Order
import CivicLedger.Proofs.Chain.Enact
import CivicLedger.Proofs.Chain.Guarantees
import CivicLedger.Proofs.Chain.History
import CivicLedger.Proofs.Chain.Holdings
import CivicLedger.Proofs.Chain.Records
import CivicLedger.Proofs.Node.Submission
import CivicLedger.Proofs.Database.Agreement
import CivicLedger.Proofs.Database.Chains
import CivicLedger.Proofs.Database.Indexes
import CivicLedger.Proofs.Node.Copies
import CivicLedger.Proofs.Node.Standings
import CivicLedger.Proofs.Node.Finality
import CivicLedger.Proofs.Chain.Positions
import CivicLedger.Proofs.Node.Halting
import CivicLedger.Proofs.State.Transcript
import CivicLedger.Proofs.Chain.Inventory
import CivicLedger.Proofs.Node.Digest
import CivicLedger.Proofs.Node.Readers
import CivicLedger.Proofs.Operation.Capacity
import CivicLedger.Proofs.Node.Spending
import CivicLedger.Proofs.Chain.Spared
import CivicLedger.Proofs.Chain.Thinning
import CivicLedger.Proofs.State.Votes
import CivicLedger.Proofs.Chain.Reordering
import CivicLedger.Proofs.Rules.Tally
import CivicLedger.Proofs.Amount
import CivicLedger.Proofs.Database.Failures
import CivicLedger.Proofs.Node.Windows
import CivicLedger.Bytes.HexLemmas
import CivicLedger.Proofs.Survey.Distribution
import CivicLedger.Proofs.Survey.Ranking
import CivicLedger.Proofs.Json.Flat
import CivicLedger.Proofs.Host.Outbox
import CivicLedger.Proofs.Node.Names
import CivicLedger.Proofs.Database.Ranges
