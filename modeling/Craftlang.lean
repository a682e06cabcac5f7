import Craftlang.Build.Cache
import Craftlang.Build.Compile
import Craftlang.Build.Link
import Craftlang.Build.Options
import Craftlang.Code.Command
import Craftlang.Code.Emission
import Craftlang.Code.Expr
import Craftlang.Code.Program
import Craftlang.Diagnostic.Basic
import Craftlang.Diagnostic.Pending
import Craftlang.Disk.Basic
import Craftlang.Disk.Script
import Craftlang.Main
import Craftlang.Pack.Archive
import Craftlang.Pack.Datapack
import Craftlang.Pack.Namespace
import Craftlang.Parse.Expr
import Craftlang.Parse.Program
import Craftlang.Parse.State
import Craftlang.Parse.Stmt
import Craftlang.Report.Diagnostics
import Craftlang.Report.Outline
import Craftlang.Report.Progress
import Craftlang.Report.Timing
import Craftlang.Report.Version
import Craftlang.Scope.Resolution
import Craftlang.Scope.Table
import Craftlang.Scope.Validity
import Craftlang.Source.Cursor
import Craftlang.Source.File
import Craftlang.Source.NameTable
import Craftlang.Source.Path
import Craftlang.Source.Span
import Craftlang.Text.Bytes
import Craftlang.Text.Digest
import Craftlang.Text.Decomposition
import Craftlang.Text.Numeral
import Craftlang.Text.Grapheme
import Craftlang.Text.Json
import Craftlang.Text.Letter
import Craftlang.Text.Quoted
import Craftlang.Trace.Event
import Craftlang.Text.Utf8
import Craftlang.Text.Terminal
import Craftlang.Token.Basic
import Craftlang.Token.Lexer
import Craftlang.Token.Lexeme
import Craftlang.Token.Literal
import Craftlang.Toml.Basic
import Craftlang.Toml.Reader
import Craftlang.Tool.Argument
import Craftlang.Tool.Build
import Craftlang.Tool.Call
import Craftlang.Tool.Failure
import Craftlang.Tool.Listing
import Craftlang.Tool.Manifest
import Craftlang.Tool.Plan
import Craftlang.Tool.Run
import Craftlang.Trace.Tracer
import Craftlang.Tree.Basic
import Craftlang.Tree.Operator
import Craftlang.Tree.Spans
import Craftlang.Tree.Walk
import Craftlang.Types.Table
import Craftlang.Typing.Basic
import Craftlang.Typing.Expr
import Craftlang.Typing.Program
import Craftlang.Proofs.Meaning.Evaluation
import Craftlang.Proofs.Build.Stages
import Craftlang.Proofs.Build.Gate
import Craftlang.Proofs.Syntax.Nesting
import Craftlang.Proofs.Syntax.Reading
import Craftlang.Proofs.Syntax.ExprRuns
import Craftlang.Proofs.Tree.Parts
import Craftlang.Proofs.Syntax.ExprReading
import Craftlang.Proofs.Syntax.StmtReading
import Craftlang.Proofs.Syntax.ItemReading
import Craftlang.Proofs.Syntax.ExprTaking
import Craftlang.Proofs.Syntax.Acceptance
import Craftlang.Proofs.Syntax.Numbering
import Craftlang.Proofs.Syntax.Arenas
import Craftlang.Proofs.Scope.Growth
import Craftlang.Proofs.Scope.Bound
import Craftlang.Proofs.Scope.Hoisting
import Craftlang.Proofs.Scope.Lexical
import Craftlang.Proofs.Typing.Acceptance
import Craftlang.Proofs.Typing.Paths
import Craftlang.Proofs.Code.Safety
import Craftlang.Proofs.Code.Lowered
import Craftlang.Proofs.Build.Generation
import Craftlang.Proofs.Build.Sharing
import Craftlang.Proofs.Code.Growth
import Craftlang.Proofs.Machine.Runs
import Craftlang.Proofs.Meaning.Flow
import Craftlang.Proofs.Meaning.Soundness
import Craftlang.Proofs.Refinement.Agreement
import Craftlang.Proofs.Refinement.Expr
import Craftlang.Proofs.Refinement.Piece
import Craftlang.Proofs.Refinement.Program
import Craftlang.Proofs.Build.Isolation
import Craftlang.Proofs.Syntax.Spelling
import Craftlang.Proofs.Build.Linking
import Craftlang.Proofs.Build.Paths
import Craftlang.Proofs.Build.Namespaces
import Craftlang.Proofs.Build.Rerun
import Craftlang.Proofs.Syntax.Blocks
import Craftlang.Proofs.Syntax.Faults
import Craftlang.Proofs.Syntax.Headers
import Craftlang.Proofs.Syntax.Offside
import Craftlang.Proofs.Syntax.Placing
import Craftlang.Proofs.Syntax.Precedence
import Craftlang.Proofs.Syntax.Recovery
import Craftlang.Proofs.Syntax.Rereading
import Craftlang.Proofs.Syntax.Skipping
import Craftlang.Proofs.Syntax.SpanNesting
import Craftlang.Proofs.Code.Lines
import Craftlang.Proofs.Code.Inventory
import Craftlang.Proofs.Build.Scores
import Craftlang.Proofs.Code.Literals
import Craftlang.Proofs.Typing.Aliases
import Craftlang.Proofs.Typing.Asking
import Craftlang.Proofs.Code.Makeup
import Craftlang.Proofs.Build.Joining
import Craftlang.Proofs.Tree.Relabelling
import Craftlang.Proofs.Syntax.Relabelling
import Craftlang.Proofs.Syntax.ItemRelabelling
import Craftlang.Proofs.Syntax.Words
import Craftlang.Proofs.Syntax.Rewording
import Craftlang.Proofs.Syntax.RawCommands
import Craftlang.Proofs.Syntax.OnDemand
import Craftlang.Proofs.Syntax.Progress
import Craftlang.Proofs.Syntax.BlankLines
import Craftlang.Proofs.Syntax.Printing
import Craftlang.Proofs.Syntax.Integers
import Craftlang.Proofs.Syntax.Strings
import Craftlang.Proofs.Pack.Lines
import Craftlang.Proofs.Build.Rendering
import Craftlang.Proofs.Scope.Order
import Craftlang.Proofs.Scope.Stack
import Craftlang.Proofs.Scope.Misspelling
import Craftlang.Proofs.Source.Positions
import Craftlang.Proofs.Typing.Fading
import Craftlang.Proofs.Typing.Forgiving
import Craftlang.Proofs.Typing.Cascade
import Craftlang.Proofs.Scope.Shadowing
import Craftlang.Proofs.Build.Hiding
import Craftlang.Proofs.Disk.Descent
import Craftlang.Proofs.Tool.Sparing
import Craftlang.Proofs.Tool.Destination
import Craftlang.Proofs.Trace.Ring
import Craftlang.Proofs.Types.Table
