import Tangent.Action
import Tangent.Cli.Command
import Tangent.Cli.Flags
import Tangent.Config.Basic
import Tangent.Config.Document
import Tangent.Config.Inputs
import Tangent.Decimal.Binary64
import Tangent.Decimal.Digits
import Tangent.Decimal.Layout
import Tangent.Decimal.Read
import Tangent.Decimal.Whole
import Tangent.Disk
import Tangent.Elem
import Tangent.Evaluate
import Tangent.Exec.Link
import Tangent.Exec.Run
import Tangent.Expr.Basic
import Tangent.Expr.Check
import Tangent.Expr.Document
import Tangent.File.Bytes
import Tangent.File.Codec
import Tangent.File.Header
import Tangent.File.Record
import Tangent.File.Sha256
import Tangent.Json.Value
import Tangent.Json.Write
import Tangent.Log
import Tangent.Main
import Tangent.Metrics.Exposition
import Tangent.Metrics.Meter
import Tangent.NameMap
import Tangent.Program.Basic
import Tangent.Program.Recorder
import Tangent.Program.Validate
import Tangent.Proofs.Action
import Tangent.Proofs.Cli.Saved
import Tangent.Proofs.Config.Inputs
import Tangent.Proofs.Config.Sound
import Tangent.Proofs.Count
import Tangent.Proofs.Decimal.Nearest
import Tangent.Proofs.Decimal.Shortest
import Tangent.Proofs.Decimal.Written
import Tangent.Proofs.Directions
import Tangent.Proofs.Disk
import Tangent.Proofs.Evaluate
import Tangent.Proofs.Exec.Abort
import Tangent.Proofs.Exec.Books
import Tangent.Proofs.Exec.Bounds
import Tangent.Proofs.Exec.Compiled
import Tangent.Proofs.Exec.Concurrent
import Tangent.Proofs.Exec.Contents
import Tangent.Proofs.Exec.Crew
import Tangent.Proofs.Exec.Effect
import Tangent.Proofs.Exec.Ending
import Tangent.Proofs.Exec.Mirror
import Tangent.Proofs.Exec.Moves
import Tangent.Proofs.Exec.Safety
import Tangent.Proofs.Exec.Step
import Tangent.Proofs.Expr.Aliases
import Tangent.Proofs.Expr.Document
import Tangent.Proofs.Expr.Places
import Tangent.Proofs.Expr.Shape
import Tangent.Proofs.File.Decoded
import Tangent.Proofs.File.Grammar
import Tangent.Proofs.File.Headers
import Tangent.Proofs.File.Limits
import Tangent.Proofs.File.Overflow
import Tangent.Proofs.File.Padded
import Tangent.Proofs.File.ReadBack
import Tangent.Proofs.File.Records
import Tangent.Proofs.File.RoundTrip
import Tangent.Proofs.File.Strict
import Tangent.Proofs.File.Utf8
import Tangent.Proofs.Json.Numbers
import Tangent.Proofs.Json.Strings
import Tangent.Proofs.Json.Values
import Tangent.Proofs.NameMap
import Tangent.Proofs.Program.Check
import Tangent.Proofs.Program.Compile
import Tangent.Proofs.Program.Discipline
import Tangent.Proofs.Program.Length
import Tangent.Proofs.Program.Lifetimes
import Tangent.Proofs.Program.Peak
import Tangent.Proofs.Program.Recording
import Tangent.Proofs.Program.Refusal
import Tangent.Proofs.Program.Sizes
import Tangent.Proofs.Program.WellFormed
import Tangent.Proofs.Sample.Draw
import Tangent.Proofs.Sample.Summary
import Tangent.Proofs.Session
import Tangent.Proofs.Session.Affordable
import Tangent.Proofs.Session.Emptied
import Tangent.Proofs.Session.Load
import Tangent.Proofs.Session.Output
import Tangent.Proofs.Session.Saved
import Tangent.Proofs.Task
import Tangent.Proofs.Vector.Accounts
import Tangent.Proofs.Vector.Backend
import Tangent.Proofs.Vector.Calls
import Tangent.Proofs.Vector.Chunks
import Tangent.Proofs.Vector.Counted
import Tangent.Proofs.Vector.Host
import Tangent.Proofs.Vector.Kernels
import Tangent.Proofs.Vector.Loans
import Tangent.Proofs.Vector.Ranges
import Tangent.Proofs.Vector.Refused
import Tangent.Proofs.Vector.Store
import Tangent.Proofs.Vector.Stretches
import Tangent.Proofs.Vector.Watched
import Tangent.Proofs.Walk.Borrows
import Tangent.Proofs.Walk.Budget
import Tangent.Proofs.Walk.Defect
import Tangent.Proofs.Walk.Derivative
import Tangent.Proofs.Walk.Dual
import Tangent.Proofs.Walk.Fits
import Tangent.Proofs.Walk.Idle
import Tangent.Proofs.Walk.Likeness
import Tangent.Proofs.Walk.Linear
import Tangent.Proofs.Walk.Measured
import Tangent.Proofs.Walk.Memory
import Tangent.Proofs.Walk.Offence
import Tangent.Proofs.Walk.Operands
import Tangent.Proofs.Walk.PerPath
import Tangent.Proofs.Walk.Related
import Tangent.Proofs.Walk.Returns
import Tangent.Proofs.Walk.Transparent
import Tangent.Sample.Draw
import Tangent.Sample.Generator
import Tangent.Sample.Summary
import Tangent.Session
import Tangent.Text.Base64
import Tangent.Text.Printable
import Tangent.Text.Quoted
import Tangent.Text.Timestamp
import Tangent.Vector.Backend
import Tangent.Vector.Counting
import Tangent.Vector.Host
import Tangent.Vector.Op
import Tangent.Vector.Ranges
import Tangent.Vector.Store
import Tangent.Walk
import Tangent.Yaml.Comment
import Tangent.Yaml.Cursor
import Tangent.Yaml.Data
import Tangent.Yaml.Folded
import Tangent.Yaml.Node
import Tangent.Yaml.Page
import Tangent.Yaml.Reads
import Tangent.Yaml.Tag
import Tangent.Yaml.Token
import Tangent.Yaml.Value
