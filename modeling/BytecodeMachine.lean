import BytecodeMachine.Command.Basic
import BytecodeMachine.Command.Flags
import BytecodeMachine.Command.Wanted
import BytecodeMachine.Files.Contents
import BytecodeMachine.Files.Disk
import BytecodeMachine.Files.Handle
import BytecodeMachine.Files.Path
import BytecodeMachine.Image.Basic
import BytecodeMachine.Image.Decode
import BytecodeMachine.Image.Encode
import BytecodeMachine.Image.Item
import BytecodeMachine.Listing.Basic
import BytecodeMachine.Listing.Entry
import BytecodeMachine.Listing.Shape
import BytecodeMachine.Machine.Arith
import BytecodeMachine.Machine.Builtins
import BytecodeMachine.Machine.Call
import BytecodeMachine.Machine.Deferred
import BytecodeMachine.Machine.Dict
import BytecodeMachine.Machine.Failure
import BytecodeMachine.Machine.Host
import BytecodeMachine.Machine.Indexing
import BytecodeMachine.Machine.Inspection
import BytecodeMachine.Machine.Intrinsics
import BytecodeMachine.Machine.Log
import BytecodeMachine.Machine.Member
import BytecodeMachine.Machine.Region
import BytecodeMachine.Machine.Render
import BytecodeMachine.Machine.Run
import BytecodeMachine.Machine.Scope
import BytecodeMachine.Machine.Session
import BytecodeMachine.Machine.State
import BytecodeMachine.Machine.Step
import BytecodeMachine.Machine.Store
import BytecodeMachine.Machine.Unwind
import BytecodeMachine.Machine.Value
import BytecodeMachine.Machine.World
import BytecodeMachine.Main
import BytecodeMachine.Number.Binary
import BytecodeMachine.Number.Decimal
import BytecodeMachine.Number.Duration
import BytecodeMachine.Number.FloatText
import BytecodeMachine.Number.IntText
import BytecodeMachine.Number.Power
import BytecodeMachine.Number.Shortest
import BytecodeMachine.Pattern.Basic
import BytecodeMachine.Pattern.CharClass
import BytecodeMachine.Pattern.Match
import BytecodeMachine.Pattern.Node
import BytecodeMachine.Pattern.Parse
import BytecodeMachine.Pattern.Replacement
import BytecodeMachine.Pattern.Scan
import BytecodeMachine.Program.Basic
import BytecodeMachine.Program.Builder
import BytecodeMachine.Program.Disassembly
import BytecodeMachine.Program.Literal
import BytecodeMachine.Program.Load
import BytecodeMachine.Program.LoadError
import BytecodeMachine.Program.Opcode
import BytecodeMachine.Program.Table
import BytecodeMachine.Program.Validate
import BytecodeMachine.Proofs.Machine.Addresses
import BytecodeMachine.Proofs.Machine.Answers
import BytecodeMachine.Proofs.Machine.Callback
import BytecodeMachine.Proofs.Machine.Calls
import BytecodeMachine.Proofs.Machine.Change
import BytecodeMachine.Proofs.Machine.Checked
import BytecodeMachine.Proofs.Machine.Contents
import BytecodeMachine.Proofs.Machine.Crossing
import BytecodeMachine.Proofs.Machine.Faults
import BytecodeMachine.Proofs.Machine.Finally
import BytecodeMachine.Proofs.Machine.Keeping
import BytecodeMachine.Proofs.Machine.Landing
import BytecodeMachine.Proofs.Machine.Links
import BytecodeMachine.Proofs.Machine.Lookups
import BytecodeMachine.Proofs.Machine.Native
import BytecodeMachine.Proofs.Machine.NativeLinks
import BytecodeMachine.Proofs.Machine.Natural
import BytecodeMachine.Proofs.Machine.Nesting
import BytecodeMachine.Proofs.Machine.Ordinary
import BytecodeMachine.Proofs.Machine.Partial
import BytecodeMachine.Proofs.Machine.Passing
import BytecodeMachine.Proofs.Machine.Restoring
import BytecodeMachine.Proofs.Machine.Safety
import BytecodeMachine.Proofs.Machine.Signal
import BytecodeMachine.Proofs.Machine.Stages
import BytecodeMachine.Proofs.Machine.Steps
import BytecodeMachine.Proofs.Machine.Threads
import BytecodeMachine.Proofs.Machine.Uncatchable
import BytecodeMachine.Proofs.Machine.Unwinding
import BytecodeMachine.Proofs.Machine.WellFormed
import BytecodeMachine.Proofs.Structured.Code
import BytecodeMachine.Proofs.Structured.Context
import BytecodeMachine.Proofs.Structured.Correctness
import BytecodeMachine.Proofs.Structured.Instructions
import BytecodeMachine.Proofs.Structured.Layout
import BytecodeMachine.Proofs.Structured.Memory
import BytecodeMachine.Proofs.Structured.Protected
import BytecodeMachine.Proofs.Structured.Regions
import BytecodeMachine.Proofs.Structured.Simulation
import BytecodeMachine.Proofs.Structured.Source
import BytecodeMachine.Settings.Basic
import BytecodeMachine.Text.Basic
import BytecodeMachine.Text.Case
import BytecodeMachine.Text.CaseTable
import BytecodeMachine.Text.Category
import BytecodeMachine.Text.CategoryTable
import BytecodeMachine.Text.Order
import BytecodeMachine.Text.Quoted
import BytecodeMachine.Text.SetTable
import BytecodeMachine.Text.Utf8
import BytecodeMachine.Toml.Document
import BytecodeMachine.Toml.Moment
import BytecodeMachine.Toml.Read
import BytecodeMachine.Yaml.Cursor
import BytecodeMachine.Yaml.Document
import BytecodeMachine.Yaml.Lexeme
import BytecodeMachine.Yaml.Node
import BytecodeMachine.Yaml.Scalar
import BytecodeMachine.Yaml.Scan
import BytecodeMachine.Yaml.Token
import BytecodeMachine.Proofs.Machine.Above
import BytecodeMachine.Proofs.Machine.Underway
import BytecodeMachine.Proofs.Machine.Intact
import BytecodeMachine.Proofs.Machine.Dictionaries
import BytecodeMachine.Proofs.Machine.Keys
import BytecodeMachine.Proofs.Machine.Collisions
import BytecodeMachine.Proofs.Machine.Comparison
import BytecodeMachine.Proofs.Machine.Conditions
import BytecodeMachine.Proofs.Machine.Data
import BytecodeMachine.Proofs.Machine.Rendering
import BytecodeMachine.Proofs.Machine.Lexical
import BytecodeMachine.Proofs.Machine.References
import BytecodeMachine.Proofs.Image.NormalForm
import BytecodeMachine.Proofs.Command.Assembly
import BytecodeMachine.Proofs.Machine.Cancellation
import BytecodeMachine.Proofs.Machine.Statics
import BytecodeMachine.Proofs.Program.Classes
import BytecodeMachine.Proofs.Program.Labels
import BytecodeMachine.Proofs.Machine.Beside
import BytecodeMachine.Proofs.Machine.Reruns
import BytecodeMachine.Proofs.Machine.Replies
import BytecodeMachine.Proofs.Machine.Integers
import BytecodeMachine.Proofs.Machine.Conversions
import BytecodeMachine.Proofs.Machine.Slices
import BytecodeMachine.Proofs.Text.Search
import BytecodeMachine.Proofs.Machine.Positions
import BytecodeMachine.Proofs.Machine.Counted
import BytecodeMachine.Proofs.Files.Buffered
import BytecodeMachine.Proofs.Files.Lines
import BytecodeMachine.Proofs.Machine.Handles
import BytecodeMachine.Proofs.Machine.FileLines
import BytecodeMachine.Proofs.Machine.Records
import BytecodeMachine.Proofs.Machine.Invocations
import BytecodeMachine.Proofs.Machine.FileCalls
import BytecodeMachine.Proofs.Files.Growing
import BytecodeMachine.Proofs.Machine.Sessions
import BytecodeMachine.Proofs.Machine.OpenFiles
import BytecodeMachine.Proofs.Machine.Raising
import BytecodeMachine.Proofs.Machine.Sites
import BytecodeMachine.Proofs.Machine.Traces
import BytecodeMachine.Proofs.Machine.Coverage
import BytecodeMachine.Proofs.Machine.Effects
