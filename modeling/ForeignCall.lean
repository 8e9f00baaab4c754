import ForeignCall.Action
import ForeignCall.Allocation
import ForeignCall.Arithmetic
import ForeignCall.Bridge.Error
import ForeignCall.Bridge.Inspect
import ForeignCall.Bridge.Invoke
import ForeignCall.Bridge.Load
import ForeignCall.Bridge.Logging
import ForeignCall.Bridge.World
import ForeignCall.CommandLine
import ForeignCall.CommandLine.Directory
import ForeignCall.CommandLine.Request
import ForeignCall.Config
import ForeignCall.Engine
import ForeignCall.Engine.Builtin
import ForeignCall.Engine.Stock
import ForeignCall.Entries
import ForeignCall.Host.Arena
import ForeignCall.Host.Runtime
import ForeignCall.Host.Scripted
import ForeignCall.Host.Steps
import ForeignCall.Host.Value
import ForeignCall.Json
import ForeignCall.Json.Numeral
import ForeignCall.Json.Printer
import ForeignCall.Json.Reader
import ForeignCall.Json.Skip
import ForeignCall.Ledger
import ForeignCall.Ledger.Holdings
import ForeignCall.Limits
import ForeignCall.Log.Bench
import ForeignCall.Log.Level
import ForeignCall.Log.Logger
import ForeignCall.Log.Policy
import ForeignCall.Log.Registry
import ForeignCall.Log.Sink
import ForeignCall.Log.Stream
import ForeignCall.Main
import ForeignCall.Marshal
import ForeignCall.Module
import ForeignCall.Number.Binary32
import ForeignCall.Number.Binary64
import ForeignCall.Number.Layout
import ForeignCall.Number.Rounding
import ForeignCall.Number.Shortest
import ForeignCall.Proofs.Accounting
import ForeignCall.Proofs.Action
import ForeignCall.Proofs.Acyclicity
import ForeignCall.Proofs.Atomicity
import ForeignCall.Proofs.Bounds
import ForeignCall.Proofs.Census
import ForeignCall.Proofs.Coercion
import ForeignCall.Proofs.Configuration
import ForeignCall.Proofs.Counting
import ForeignCall.Proofs.Crossing
import ForeignCall.Proofs.Cutting
import ForeignCall.Proofs.Decoding
import ForeignCall.Proofs.Delivery
import ForeignCall.Proofs.Description
import ForeignCall.Proofs.Doubles
import ForeignCall.Proofs.Echo
import ForeignCall.Proofs.Exactness
import ForeignCall.Proofs.Export
import ForeignCall.Proofs.FanOut
import ForeignCall.Proofs.Growth
import ForeignCall.Proofs.Holders
import ForeignCall.Proofs.Hosts
import ForeignCall.Proofs.Import
import ForeignCall.Proofs.Indented
import ForeignCall.Proofs.Inspection
import ForeignCall.Proofs.Invocation
import ForeignCall.Proofs.JsonGrammar
import ForeignCall.Proofs.JsonText
import ForeignCall.Proofs.JsonTrees
import ForeignCall.Proofs.KeyOrder
import ForeignCall.Proofs.Lengths
import ForeignCall.Proofs.Lifecycle
import ForeignCall.Proofs.Limits
import ForeignCall.Proofs.Loading
import ForeignCall.Proofs.Logging
import ForeignCall.Proofs.Nearest
import ForeignCall.Proofs.Nodes
import ForeignCall.Proofs.NormalForm
import ForeignCall.Proofs.Numerals
import ForeignCall.Proofs.Pouring
import ForeignCall.Proofs.Preloads
import ForeignCall.Proofs.Programs
import ForeignCall.Proofs.Registrations
import ForeignCall.Proofs.Requests
import ForeignCall.Proofs.RoundTrip
import ForeignCall.Proofs.Settlement
import ForeignCall.Proofs.Slot
import ForeignCall.Proofs.Sums
import ForeignCall.Proofs.Survey
import ForeignCall.Proofs.Trace
import ForeignCall.Proofs.Unfolding
import ForeignCall.Proofs.Utf8
import ForeignCall.Proofs.View
import ForeignCall.Proofs.Walk
import ForeignCall.Proofs.Words
import ForeignCall.Run
import ForeignCall.Session
import ForeignCall.Startup
import ForeignCall.Text.Printable
import ForeignCall.Text.Quoted
import ForeignCall.Text.Utf8
import ForeignCall.Value
import ForeignCall.Value.View
