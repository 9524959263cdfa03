import KeyedTable.Action
import KeyedTable.Base64
import KeyedTable.Client
import KeyedTable.CommandLine
import KeyedTable.CommandLine.Browse
import KeyedTable.CommandLine.Command
import KeyedTable.CommandLine.Dialogue
import KeyedTable.CommandLine.Menu
import KeyedTable.CommandLine.Report
import KeyedTable.Condition.Basic
import KeyedTable.Condition.Evaluation
import KeyedTable.Condition.Lexer
import KeyedTable.Condition.Parser
import KeyedTable.Condition.Parser.State
import KeyedTable.Condition.Placeholder
import KeyedTable.Condition.Printer
import KeyedTable.Condition.Resolution
import KeyedTable.Condition.Token
import KeyedTable.Decimal.Double
import KeyedTable.Decimal.Integer
import KeyedTable.Decimal.Shortest
import KeyedTable.Error
import KeyedTable.Gateway.Basic
import KeyedTable.Gateway.Batch
import KeyedTable.Gateway.Paging
import KeyedTable.Gateway.Resume
import KeyedTable.Gateway.Session
import KeyedTable.Gateway.Together
import KeyedTable.Item
import KeyedTable.Item.Json
import KeyedTable.Json.Basic
import KeyedTable.Json.Reader
import KeyedTable.Json.Spelled
import KeyedTable.Json.Spelled.Reader
import KeyedTable.LogLevel
import KeyedTable.Main
import KeyedTable.Notice
import KeyedTable.OrderKey
import KeyedTable.Proofs.Batch.Cutting
import KeyedTable.Proofs.Batch.Entries
import KeyedTable.Proofs.Batch.Failing
import KeyedTable.Proofs.Batch.Getting
import KeyedTable.Proofs.Batch.Interleaved
import KeyedTable.Proofs.Batch.Rounds
import KeyedTable.Proofs.Batch.Writing
import KeyedTable.Proofs.Client.Calling
import KeyedTable.Proofs.Client.Counting
import KeyedTable.Proofs.Client.Resending
import KeyedTable.Proofs.CommandLine.Asking
import KeyedTable.Proofs.CommandLine.Ending
import KeyedTable.Proofs.CommandLine.Rounds
import KeyedTable.Proofs.Condition.Comparing
import KeyedTable.Proofs.Condition.Compiling
import KeyedTable.Proofs.Condition.Completing
import KeyedTable.Proofs.Condition.Emitting
import KeyedTable.Proofs.Condition.Expanding
import KeyedTable.Proofs.Condition.Grammar
import KeyedTable.Proofs.Condition.Lexing
import KeyedTable.Proofs.Condition.Munching
import KeyedTable.Proofs.Condition.Occurring
import KeyedTable.Proofs.Condition.Parsing
import KeyedTable.Proofs.Condition.Precedence
import KeyedTable.Proofs.Condition.Resolving
import KeyedTable.Proofs.Condition.Spacing
import KeyedTable.Proofs.Condition.Threaded
import KeyedTable.Proofs.Decimal.Rereading
import KeyedTable.Proofs.Gateway.Attempted
import KeyedTable.Proofs.Gateway.Attempts
import KeyedTable.Proofs.Gateway.Checked
import KeyedTable.Proofs.Gateway.Conditional
import KeyedTable.Proofs.Gateway.Dwindling
import KeyedTable.Proofs.Gateway.InTurn
import KeyedTable.Proofs.Gateway.Jointly
import KeyedTable.Proofs.Gateway.Parts
import KeyedTable.Proofs.Gateway.Passing
import KeyedTable.Proofs.Gateway.Placeholders
import KeyedTable.Proofs.Gateway.Respects
import KeyedTable.Proofs.Gateway.Retries
import KeyedTable.Proofs.Gateway.SideBySide
import KeyedTable.Proofs.Gateway.Together
import KeyedTable.Proofs.Item.Surviving
import KeyedTable.Proofs.Memory.Becoming
import KeyedTable.Proofs.Memory.Changes
import KeyedTable.Proofs.Memory.Keyed
import KeyedTable.Proofs.Memory.Order
import KeyedTable.Proofs.Memory.Paging
import KeyedTable.Proofs.Memory.Progress
import KeyedTable.Proofs.Memory.Refused
import KeyedTable.Proofs.Memory.Shown
import KeyedTable.Proofs.Memory.Throttled
import KeyedTable.Proofs.Merging
import KeyedTable.Proofs.Reading.Amid
import KeyedTable.Proofs.Reading.Call
import KeyedTable.Proofs.Reading.Composing
import KeyedTable.Proofs.Reading.FromPrev
import KeyedTable.Proofs.Reading.Leg
import KeyedTable.Proofs.Reading.Limit
import KeyedTable.Proofs.Reading.PageByPage
import KeyedTable.Proofs.Reading.ParallelScan
import KeyedTable.Proofs.Reading.Portion
import KeyedTable.Proofs.Reading.Query
import KeyedTable.Proofs.Reading.Refiltered
import KeyedTable.Proofs.Reading.Segments
import KeyedTable.Proofs.Reading.Turns
import KeyedTable.Proofs.Session.Course
import KeyedTable.Proofs.Session.Latest
import KeyedTable.Proofs.Session.OnlyKeys
import KeyedTable.Proofs.Session.Retried
import KeyedTable.Proofs.Session.Unnoticed
import KeyedTable.Proofs.Session.Written
import KeyedTable.Proofs.Settings.Indexes
import KeyedTable.Proofs.SortedMap.Overwriting
import KeyedTable.Proofs.Text.Splitting
import KeyedTable.Request
import KeyedTable.RetryPolicy
import KeyedTable.Settings
import KeyedTable.SortedMap
import KeyedTable.SortedMap.Entries
import KeyedTable.Store.Memory
import KeyedTable.Store.Memory.Basic
import KeyedTable.Store.Script
import KeyedTable.Store.Wire
import KeyedTable.Table
import KeyedTable.Task
import KeyedTable.Text.Blank
import KeyedTable.Text.Quoted
import KeyedTable.Value
import KeyedTable.Wire.Attributes
import KeyedTable.Wire.Part
import KeyedTable.Wire.Refusal
import KeyedTable.Wire.Reply
import KeyedTable.Wire.Request
