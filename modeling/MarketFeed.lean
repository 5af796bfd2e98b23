import MarketFeed.Address
import MarketFeed.Backfill
import MarketFeed.Backfill.Store
import MarketFeed.Base64
import MarketFeed.Broker.Error
import MarketFeed.Broker.Outlet
import MarketFeed.Broker.Settings
import MarketFeed.Bytes
import MarketFeed.Calendar
import MarketFeed.Config
import MarketFeed.Config.Environment
import MarketFeed.Consumer.Loop
import MarketFeed.Consumer.Reaction
import MarketFeed.Contract
import MarketFeed.DeadLetter
import MarketFeed.Event
import MarketFeed.Guard
import MarketFeed.Health
import MarketFeed.Issue
import MarketFeed.Json.Record
import MarketFeed.Json.Token
import MarketFeed.Json.Tree
import MarketFeed.Json.Value
import MarketFeed.Json.Word
import MarketFeed.Main
import MarketFeed.Metrics.Ledger
import MarketFeed.Metrics.Page
import MarketFeed.Metrics.Series
import MarketFeed.Normalization
import MarketFeed.Number.Binary
import MarketFeed.Number.Digits
import MarketFeed.Number.Layout
import MarketFeed.Number.Numeral
import MarketFeed.Number.Shortest
import MarketFeed.Number.Word
import MarketFeed.Partition.Crew
import MarketFeed.Partition.Worker
import MarketFeed.Pipeline.Delivery
import MarketFeed.Pipeline.State
import MarketFeed.Proofs.Codec.Base64
import MarketFeed.Proofs.Codec.DeadLetter
import MarketFeed.Proofs.Codec.Tick
import MarketFeed.Proofs.Config.Rules
import MarketFeed.Proofs.Consumer.Answers
import MarketFeed.Proofs.Consumer.Closing
import MarketFeed.Proofs.Consumer.Life
import MarketFeed.Proofs.Consumer.Reaction
import MarketFeed.Proofs.Consumer.Step
import MarketFeed.Proofs.Guard.Bound
import MarketFeed.Proofs.Guard.Cleaning
import MarketFeed.Proofs.Guard.Compaction
import MarketFeed.Proofs.Guard.MarkList
import MarketFeed.Proofs.Guard.NewMark
import MarketFeed.Proofs.Issue.Calls
import MarketFeed.Proofs.Message.Handling
import MarketFeed.Proofs.Message.Identity
import MarketFeed.Proofs.Message.Lookup
import MarketFeed.Proofs.Message.Refusal
import MarketFeed.Proofs.Message.Requests
import MarketFeed.Proofs.Metrics.Growth
import MarketFeed.Proofs.Number.Layout
import MarketFeed.Proofs.Number.Roundtrip
import MarketFeed.Proofs.Partition.Workplace
import MarketFeed.Proofs.Pipeline.Contract
import MarketFeed.Proofs.Pipeline.Encoding
import MarketFeed.Proofs.Pipeline.Issues
import MarketFeed.Proofs.Pipeline.Members
import MarketFeed.Proofs.Pipeline.Path
import MarketFeed.Proofs.Pipeline.Place
import MarketFeed.Proofs.Pipeline.Quoted
import MarketFeed.Proofs.Service.QueueSize
import MarketFeed.Proofs.Service.Records
import MarketFeed.Proofs.Service.Step
import MarketFeed.Proofs.Service.Yard
import MarketFeed.Proofs.Shift.Dismissal
import MarketFeed.Proofs.Shift.Effect
import MarketFeed.Proofs.Shift.Serve
import MarketFeed.Proofs.Traffic.Account
import MarketFeed.Proofs.Traffic.Audit
import MarketFeed.Proofs.Traffic.Places
import MarketFeed.Proofs.Traffic.Redelivery
import MarketFeed.Proofs.Traffic.Retry
import MarketFeed.Proofs.Traffic.Rollback
import MarketFeed.Proofs.Traffic.Sums
import MarketFeed.Proofs.Traffic.Ticks
import MarketFeed.Proofs.Url.Lookup
import MarketFeed.Quote
import MarketFeed.Rehearsal.Agenda
import MarketFeed.Rehearsal.Broker
import MarketFeed.Rehearsal.Dispatch
import MarketFeed.Rehearsal.Pipeline
import MarketFeed.Rehearsal.Program
import MarketFeed.Rehearsal.Service
import MarketFeed.Service.Startup
import MarketFeed.StatusPage
import MarketFeed.Text.Blank
import MarketFeed.Text.Pieces
import MarketFeed.Text.Quoted
import MarketFeed.Text.Unprintable
import MarketFeed.Tick
import MarketFeed.Url
import MarketFeed.Url.Host
import MarketFeed.Url.Path
import MarketFeed.Url.Percent
import MarketFeed.Url.Punycode
import MarketFeed.Url.Read
import MarketFeed.Uuid
