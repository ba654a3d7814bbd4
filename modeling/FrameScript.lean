import FrameScript.Allocator
import FrameScript.Binary64
import FrameScript.Bundle
import FrameScript.Command
import FrameScript.CommandLine.Arguments
import FrameScript.CommandLine.Program
import FrameScript.Compile
import FrameScript.Decimal.Layout
import FrameScript.Decimal.Reader
import FrameScript.Decimal.Shortest
import FrameScript.Declaration
import FrameScript.Diagnostic
import FrameScript.Document.Expr
import FrameScript.Document.Field
import FrameScript.Document.Load
import FrameScript.FileTree
import FrameScript.Host
import FrameScript.Json.Reader
import FrameScript.Json.Value
import FrameScript.Json.Writer
import FrameScript.Lowering.Declare
import FrameScript.Lowering.Expr
import FrameScript.Lowering.Names
import FrameScript.Lowering.Stmt
import FrameScript.Main
import FrameScript.Path
import FrameScript.Proofs.Effects
import FrameScript.Proofs.Frames
import FrameScript.Proofs.Minting
import FrameScript.Proofs.Running
import FrameScript.Scripts
import FrameScript.Session
import FrameScript.Source.Builder
import FrameScript.Source.Expr
import FrameScript.Source.Operator
import FrameScript.Source.Stmt
import FrameScript.Source.Tree
import FrameScript.Symbol
import FrameScript.Text.Blank
import FrameScript.Proofs.Expressions
import FrameScript.Proofs.Sessions
import FrameScript.Proofs.Declaring
import FrameScript.Proofs.Identities
import FrameScript.Proofs.Runs
import FrameScript.Proofs.Logs
import FrameScript.Proofs.Tables
import FrameScript.Proofs.Ledger
import FrameScript.Proofs.Stability
import FrameScript.Proofs.Counting
import FrameScript.Proofs.Hoisting
import FrameScript.Proofs.Freshness
import FrameScript.Proofs.Requests
import FrameScript.Proofs.Records
import FrameScript.Proofs.Spelling
import FrameScript.Proofs.Coherence
import FrameScript.Proofs.Growth
import FrameScript.Proofs.Units
import FrameScript.Proofs.Calls
import FrameScript.Proofs.Landing
import FrameScript.Proofs.Paths
import FrameScript.Proofs.Dangling
import FrameScript.Proofs.Semantics
import FrameScript.Proofs.Meaning
import FrameScript.Proofs.Operands
import FrameScript.Proofs.Shapes
import FrameScript.Proofs.Scratch
import FrameScript.Proofs.Variables
import FrameScript.Proofs.Refusals
import FrameScript.Proofs.Members
import FrameScript.Proofs.Keys
import FrameScript.Proofs.Belonging
import FrameScript.Proofs.Outlook
import FrameScript.Proofs.Slots
import FrameScript.Proofs.Histories
import FrameScript.Proofs.Twins
import FrameScript.Proofs.Parallel
import FrameScript.Proofs.Shifting
import FrameScript.Proofs.Warnings
import FrameScript.Proofs.Documents
import FrameScript.Proofs.Recorded
import FrameScript.Proofs.Balance
import FrameScript.Proofs.Coverage
import FrameScript.Proofs.FileNames
import FrameScript.Proofs.Wrappers
import FrameScript.Proofs.FileTrees
import FrameScript.Proofs.ScriptFiles
import FrameScript.Proofs.Lines
import FrameScript.Proofs.Invocations
import FrameScript.Proofs.Invariants
import FrameScript.Proofs.Arguments
import FrameScript.Proofs.CopyIn
import FrameScript.Proofs.Targets
import FrameScript.Proofs.Compounds
import FrameScript.Proofs.Assignable
import FrameScript.Proofs.Reassigned
import FrameScript.Proofs.Pieces
import FrameScript.Proofs.Initialized
import FrameScript.Proofs.Locals
import FrameScript.Proofs.Arity
import FrameScript.Proofs.Places
import FrameScript.Proofs.Faults
import FrameScript.Proofs.Stamping
import FrameScript.Proofs.Returns
import FrameScript.Proofs.Scopes
import FrameScript.Proofs.Asides
import FrameScript.Proofs.Nulls
import FrameScript.Proofs.ReturnSlots
