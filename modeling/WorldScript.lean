import WorldScript.Compile.Basic
import WorldScript.Compile.Block
import WorldScript.Compile.Context
import WorldScript.Compile.Error
import WorldScript.Compile.Leaf
import WorldScript.Dict
import WorldScript.Expr.Checked
import WorldScript.Expr.Eval
import WorldScript.Expr.Parse
import WorldScript.Expr.Token
import WorldScript.Expr.Tree
import WorldScript.Expr.Typing
import WorldScript.Heap.Basic
import WorldScript.Heap.Equality
import WorldScript.Heap.Show
import WorldScript.Library.Basic
import WorldScript.Library.Host
import WorldScript.Library.Standard
import WorldScript.Listing.Expr
import WorldScript.Listing.Form
import WorldScript.Listing.Queue
import WorldScript.Listing.Statement
import WorldScript.Name
import WorldScript.Number.Layout
import WorldScript.Number.Parts
import WorldScript.Number.Read
import WorldScript.Number.Shortest
import WorldScript.Program.Arguments
import WorldScript.Program.Basic
import WorldScript.Program.Run
import WorldScript.Proofs.Compile.Blame
import WorldScript.Proofs.Compile.Calls
import WorldScript.Proofs.Compile.Continuation
import WorldScript.Proofs.Compile.Correspondence
import WorldScript.Proofs.Compile.Counterparts
import WorldScript.Proofs.Compile.Extent
import WorldScript.Proofs.Compile.Heads
import WorldScript.Proofs.Compile.Keyed
import WorldScript.Proofs.Compile.Loops
import WorldScript.Proofs.Compile.Nesting
import WorldScript.Proofs.Compile.OpenBlocks
import WorldScript.Proofs.Compile.Place
import WorldScript.Proofs.Compile.Registering
import WorldScript.Proofs.Compile.Renumber
import WorldScript.Proofs.Compile.Spelling
import WorldScript.Proofs.Compile.Stripping
import WorldScript.Proofs.Compile.WellPlaced
import WorldScript.Proofs.Expr.Arguments
import WorldScript.Proofs.Expr.Declared
import WorldScript.Proofs.Expr.Effects
import WorldScript.Proofs.Expr.Grammar
import WorldScript.Proofs.Expr.Lexemes
import WorldScript.Proofs.Expr.Local
import WorldScript.Proofs.Expr.Reading
import WorldScript.Proofs.Expr.Safe
import WorldScript.Proofs.Expr.Scanning
import WorldScript.Proofs.Expr.Sound
import WorldScript.Proofs.Expr.Spelling
import WorldScript.Proofs.Expr.Typed
import WorldScript.Proofs.Expr.Wp
import WorldScript.Proofs.Heap.Cells
import WorldScript.Proofs.Heap.Depth
import WorldScript.Proofs.Heap.Equivalence
import WorldScript.Proofs.Heap.Pairing
import WorldScript.Proofs.Heap.Reach
import WorldScript.Proofs.Heap.Suits
import WorldScript.Proofs.Number.Binary
import WorldScript.Proofs.Number.Places
import WorldScript.Proofs.Number.Rounding
import WorldScript.Proofs.Number.Value
import WorldScript.Proofs.Number.Whole
import WorldScript.Proofs.Program.Conforms
import WorldScript.Proofs.Program.ErrorLines
import WorldScript.Proofs.Program.Flat
import WorldScript.Proofs.Program.Layout
import WorldScript.Proofs.Program.Local
import WorldScript.Proofs.Program.Names
import WorldScript.Proofs.Program.Returns
import WorldScript.Proofs.Program.Session
import WorldScript.Proofs.Program.Visits
import WorldScript.Proofs.Queue.Commands
import WorldScript.Proofs.Queue.Draining
import WorldScript.Proofs.Queue.History
import WorldScript.Proofs.Queue.Order
import WorldScript.Proofs.Queue.Pending
import WorldScript.Proofs.Queue.Splitting
import WorldScript.Proofs.Run.Balance
import WorldScript.Proofs.Run.Beside
import WorldScript.Proofs.Run.Chains
import WorldScript.Proofs.Run.Clock
import WorldScript.Proofs.Run.Commute
import WorldScript.Proofs.Run.Failures
import WorldScript.Proofs.Run.Faults
import WorldScript.Proofs.Run.Frames
import WorldScript.Proofs.Run.Invariant
import WorldScript.Proofs.Run.Iterations
import WorldScript.Proofs.Run.Jumps
import WorldScript.Proofs.Run.Local
import WorldScript.Proofs.Run.LongForms
import WorldScript.Proofs.Run.Lookups
import WorldScript.Proofs.Run.Mutation
import WorldScript.Proofs.Run.Points
import WorldScript.Proofs.Run.Schedules
import WorldScript.Proofs.Run.Settling
import WorldScript.Proofs.Run.Signals
import WorldScript.Proofs.Run.Soundness
import WorldScript.Proofs.Run.Stores
import WorldScript.Proofs.Run.Suits
import WorldScript.Proofs.Run.Transparent
import WorldScript.Proofs.Run.Turns
import WorldScript.Proofs.Settings.Lines
import WorldScript.Proofs.Space.Alike
import WorldScript.Proofs.Space.Snapshots
import WorldScript.Proofs.Space.Types
import WorldScript.Proofs.Statement.Blocks
import WorldScript.Proofs.Statement.Forms
import WorldScript.Proofs.Statement.Spelling
import WorldScript.Proofs.Text.Spelling
import WorldScript.Proofs.Ty.Shape
import WorldScript.Queue.Basic
import WorldScript.Queue.Command
import WorldScript.Run.Basic
import WorldScript.Run.Leaf
import WorldScript.Run.Machine
import WorldScript.Scope
import WorldScript.Settings
import WorldScript.Source
import WorldScript.Space
import WorldScript.Statement.Basic
import WorldScript.Statement.Form
import WorldScript.Text.Blank
import WorldScript.Text.Case
import WorldScript.Text.CaseTable
import WorldScript.Text.Fold
import WorldScript.Text.Printable
import WorldScript.Text.Quoted
import WorldScript.Text.Ranges
import WorldScript.Text.WordChar
import WorldScript.Ty.Basic
import WorldScript.Ty.Name
import WorldScript.Value
import WorldScript.World
