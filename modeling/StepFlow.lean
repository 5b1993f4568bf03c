import StepFlow.Command.Basic
import StepFlow.Command.Error
import StepFlow.Command.Grammar
import StepFlow.Command.Help
import StepFlow.Command.Run
import StepFlow.Command.Workspace
import StepFlow.Condition.Basic
import StepFlow.Condition.Pattern
import StepFlow.Condition.Rule
import StepFlow.Decimal.Layout
import StepFlow.Decimal.Reading
import StepFlow.Decimal.Shortest
import StepFlow.Duration
import StepFlow.ErrorName
import StepFlow.Execution.Basic
import StepFlow.Execution.Event
import StepFlow.Execution.Failure
import StepFlow.Execution.FanOut
import StepFlow.Execution.Flow
import StepFlow.Execution.Payload
import StepFlow.Execution.Process
import StepFlow.Execution.Recovery
import StepFlow.Execution.Run
import StepFlow.Execution.Schedule
import StepFlow.Execution.Sections
import StepFlow.Execution.Work
import StepFlow.Host
import StepFlow.Intrinsic.Call
import StepFlow.Intrinsic.Evaluation
import StepFlow.Intrinsic.Function
import StepFlow.Json.Basic
import StepFlow.Json.Keyed
import StepFlow.Json.Printer
import StepFlow.Json.Reader
import StepFlow.Json.Record
import StepFlow.Main
import StepFlow.Path.Basic
import StepFlow.Path.Context
import StepFlow.Path.Error
import StepFlow.Path.Query
import StepFlow.Path.Query.Grammar
import StepFlow.Path.Query.Select
import StepFlow.Path.Query.Write
import StepFlow.Places
import StepFlow.Policy
import StepFlow.Proofs.Condition.Failure
import StepFlow.Proofs.Condition.Pattern
import StepFlow.Proofs.Condition.Rule
import StepFlow.Proofs.Condition.Spelling
import StepFlow.Proofs.Condition.Truth
import StepFlow.Proofs.Except
import StepFlow.Proofs.Execution.Acyclic
import StepFlow.Proofs.Execution.Agenda
import StepFlow.Proofs.Execution.Attempts
import StepFlow.Proofs.Execution.Cancellation
import StepFlow.Proofs.Execution.Catching
import StepFlow.Proofs.Execution.Closed
import StepFlow.Proofs.Execution.Contract
import StepFlow.Proofs.Execution.Counters
import StepFlow.Proofs.Execution.Descent
import StepFlow.Proofs.Execution.FanOut
import StepFlow.Proofs.Execution.Lanes
import StepFlow.Proofs.Execution.Links
import StepFlow.Proofs.Execution.Moves
import StepFlow.Proofs.Execution.Names
import StepFlow.Proofs.Execution.Naming
import StepFlow.Proofs.Execution.Payload
import StepFlow.Proofs.Execution.Progress
import StepFlow.Proofs.Execution.Protocol
import StepFlow.Proofs.Execution.Replay
import StepFlow.Proofs.Execution.Rerouting
import StepFlow.Proofs.Execution.Rounds
import StepFlow.Proofs.Execution.Scene
import StepFlow.Proofs.Execution.Settled
import StepFlow.Proofs.Execution.Surroundings
import StepFlow.Proofs.Execution.Termination
import StepFlow.Proofs.Execution.Visits
import StepFlow.Proofs.Execution.Weight
import StepFlow.Proofs.Intrinsic.Call
import StepFlow.Proofs.Intrinsic.Parts
import StepFlow.Proofs.Intrinsic.Quotes
import StepFlow.Proofs.Intrinsic.Template
import StepFlow.Proofs.Json.Depth
import StepFlow.Proofs.Json.Lists
import StepFlow.Proofs.Json.Number
import StepFlow.Proofs.Json.Quote
import StepFlow.Proofs.Json.Regular
import StepFlow.Proofs.Json.RoundTrip
import StepFlow.Proofs.Json.Soundness
import StepFlow.Proofs.Keyed
import StepFlow.Proofs.Number.Double
import StepFlow.Proofs.Number.Integers
import StepFlow.Proofs.Number.Nearest
import StepFlow.Proofs.Path.Basic
import StepFlow.Proofs.Path.Brackets
import StepFlow.Proofs.Path.Cursor
import StepFlow.Proofs.Path.DocumentOrder
import StepFlow.Proofs.Path.Location
import StepFlow.Proofs.Path.Overrun
import StepFlow.Proofs.Path.Put
import StepFlow.Proofs.Path.Reading
import StepFlow.Proofs.Path.RoundTrip
import StepFlow.Proofs.Path.Single
import StepFlow.Proofs.Path.Soundness
import StepFlow.Proofs.Path.Spelling
import StepFlow.Proofs.Path.Stride
import StepFlow.Proofs.Path.Walk
import StepFlow.Proofs.Path.Writing
import StepFlow.Proofs.Store.Agreement
import StepFlow.Proofs.Store.Rows
import StepFlow.Proofs.Task.Environment
import StepFlow.Proofs.Task.Output
import StepFlow.Proofs.Text.Blank
import StepFlow.Proofs.Text.Scanning
import StepFlow.Proofs.Text.Walk
import StepFlow.Proofs.Timestamp
import StepFlow.Proofs.Workflow.Checked
import StepFlow.Proofs.Workflow.Compile
import StepFlow.Proofs.Workflow.Encoding
import StepFlow.Proofs.Workflow.Nesting
import StepFlow.Proofs.Workflow.Partition
import StepFlow.Proofs.Workflow.RoundTrip
import StepFlow.Proofs.Workflow.Storable
import StepFlow.Proofs.Workflow.Transitions
import StepFlow.Service.Basic
import StepFlow.Service.Order
import StepFlow.Shell.Arithmetic
import StepFlow.Shell.Basic
import StepFlow.Shell.Machine
import StepFlow.Shell.Pattern
import StepFlow.Shell.Programs
import StepFlow.Shell.Reader
import StepFlow.Shell.Run
import StepFlow.Shell.Tool
import StepFlow.Store.Archive
import StepFlow.Store.Basic
import StepFlow.Store.Memory
import StepFlow.Task.Basic
import StepFlow.Task.Script
import StepFlow.Text.Blank
import StepFlow.Text.Hidden
import StepFlow.Text.Scanner
import StepFlow.Text.Utf8
import StepFlow.Timestamp
import StepFlow.Workflow.Basic
import StepFlow.Workflow.Compile
import StepFlow.Workflow.Decode
import StepFlow.Workflow.Draft
import StepFlow.Workflow.Encode
import StepFlow.Workflow.Partition
import StepFlow.Workflow.State
