import EmbeddedSolidity.Artifact.Basic
import EmbeddedSolidity.Artifact.Embedded
import EmbeddedSolidity.BuildScript
import EmbeddedSolidity.Collect
import EmbeddedSolidity.CommandLine.Argument
import EmbeddedSolidity.CommandLine.Failure
import EmbeddedSolidity.CommandLine.Page
import EmbeddedSolidity.CommandLine.Reader
import EmbeddedSolidity.CommandLine.Request
import EmbeddedSolidity.CommandLine.Run
import EmbeddedSolidity.CommandLine.Similarity
import EmbeddedSolidity.Compile
import EmbeddedSolidity.Digest.Sha256
import EmbeddedSolidity.Error
import EmbeddedSolidity.FileSystem.Fault
import EmbeddedSolidity.FileSystem.Operation
import EmbeddedSolidity.FileSystem.Resolve
import EmbeddedSolidity.FileSystem.Search
import EmbeddedSolidity.FileSystem.Tree
import EmbeddedSolidity.Grammar.Basic
import EmbeddedSolidity.Grammar.Expression
import EmbeddedSolidity.Grammar.File
import EmbeddedSolidity.Grammar.Generics
import EmbeddedSolidity.Grammar.Item
import EmbeddedSolidity.Grammar.Operator
import EmbeddedSolidity.Grammar.Origin
import EmbeddedSolidity.Grammar.Outline
import EmbeddedSolidity.Grammar.Parser
import EmbeddedSolidity.Grammar.Path
import EmbeddedSolidity.Grammar.Pattern
import EmbeddedSolidity.Grammar.Statement
import EmbeddedSolidity.Grammar.Type
import EmbeddedSolidity.Json.Binary64
import EmbeddedSolidity.Json.Cursor
import EmbeddedSolidity.Json.Error
import EmbeddedSolidity.Json.Printer
import EmbeddedSolidity.Json.Reader
import EmbeddedSolidity.Json.Shortest
import EmbeddedSolidity.Json.Value
import EmbeddedSolidity.Main
import EmbeddedSolidity.Manifest
import EmbeddedSolidity.Options.Basic
import EmbeddedSolidity.Path
import EmbeddedSolidity.Plan.Basic
import EmbeddedSolidity.Plan.Host
import EmbeddedSolidity.Proofs.Artifact.Following
import EmbeddedSolidity.Proofs.Artifact.Repeats
import EmbeddedSolidity.Proofs.Artifact.RoundTrip
import EmbeddedSolidity.Proofs.Artifact.Shape
import EmbeddedSolidity.Proofs.BuildScript.Again
import EmbeddedSolidity.Proofs.BuildScript.Beside
import EmbeddedSolidity.Proofs.BuildScript.Complete
import EmbeddedSolidity.Proofs.BuildScript.Job
import EmbeddedSolidity.Proofs.BuildScript.Lines
import EmbeddedSolidity.Proofs.Collect.Exact
import EmbeddedSolidity.Proofs.Collect.Once
import EmbeddedSolidity.Proofs.Collect.Order
import EmbeddedSolidity.Proofs.Collect.Routes
import EmbeddedSolidity.Proofs.Collect.Steps
import EmbeddedSolidity.Proofs.Collect.View
import EmbeddedSolidity.Proofs.Compile.Account
import EmbeddedSolidity.Proofs.Compile.Afresh
import EmbeddedSolidity.Proofs.Compile.Blank
import EmbeddedSolidity.Proofs.Compile.Fatal
import EmbeddedSolidity.Proofs.Compile.Framed
import EmbeddedSolidity.Proofs.Compile.Rule
import EmbeddedSolidity.Proofs.Compile.Teardown
import EmbeddedSolidity.Proofs.FileSystem.Ancestors
import EmbeddedSolidity.Proofs.FileSystem.Apart
import EmbeddedSolidity.Proofs.FileSystem.Effect
import EmbeddedSolidity.Proofs.FileSystem.Filling
import EmbeddedSolidity.Proofs.FileSystem.Missing
import EmbeddedSolidity.Proofs.FileSystem.Naming
import EmbeddedSolidity.Proofs.FileSystem.Partial
import EmbeddedSolidity.Proofs.FileSystem.Path
import EmbeddedSolidity.Proofs.FileSystem.Removal
import EmbeddedSolidity.Proofs.FileSystem.Tree
import EmbeddedSolidity.Proofs.FileSystem.Visits
import EmbeddedSolidity.Proofs.FileSystem.Walk
import EmbeddedSolidity.Proofs.Json.Document
import EmbeddedSolidity.Proofs.Json.Grammar
import EmbeddedSolidity.Proofs.Json.Readable
import EmbeddedSolidity.Proofs.Json.Reading
import EmbeddedSolidity.Proofs.Json.RoundTrip
import EmbeddedSolidity.Proofs.Json.Shapes
import EmbeddedSolidity.Proofs.Json.Skipping
import EmbeddedSolidity.Proofs.Json.Spelling
import EmbeddedSolidity.Proofs.Json.Steps
import EmbeddedSolidity.Proofs.Json.Token
import EmbeddedSolidity.Proofs.Json.TokenSpelling
import EmbeddedSolidity.Proofs.Options.Spelling
import EmbeddedSolidity.Proofs.Plan.Fault
import EmbeddedSolidity.Proofs.Plan.Frame
import EmbeddedSolidity.Proofs.Plan.Linkless
import EmbeddedSolidity.Proofs.Plan.Log
import EmbeddedSolidity.Proofs.Plan.Run
import EmbeddedSolidity.Proofs.Plan.Sound
import EmbeddedSolidity.Proofs.Report.Again
import EmbeddedSolidity.Proofs.Report.Diagnostics
import EmbeddedSolidity.Proofs.Report.Framed
import EmbeddedSolidity.Proofs.Report.Output
import EmbeddedSolidity.Proofs.Report.Written
import EmbeddedSolidity.Proofs.Run.Files
import EmbeddedSolidity.Proofs.Run.Handlers
import EmbeddedSolidity.Proofs.Run.History
import EmbeddedSolidity.Proofs.Run.Outcome
import EmbeddedSolidity.Proofs.Run.Refusal
import EmbeddedSolidity.Proofs.Run.Retry
import EmbeddedSolidity.Proofs.Run.Session
import EmbeddedSolidity.Proofs.Run.Sharing
import EmbeddedSolidity.Proofs.Run.Stages
import EmbeddedSolidity.Proofs.Scan.LineEnds
import EmbeddedSolidity.Proofs.Scan.Reuse
import EmbeddedSolidity.Proofs.Scan.Snippets
import EmbeddedSolidity.Proofs.Scan.Spelling
import EmbeddedSolidity.Proofs.Scan.Visit
import EmbeddedSolidity.Proofs.Snippet.Clash
import EmbeddedSolidity.Proofs.Snippet.Name
import EmbeddedSolidity.Proofs.Source.LineEndLexemes
import EmbeddedSolidity.Proofs.Source.LineEndNumbers
import EmbeddedSolidity.Proofs.Source.LineEndStrings
import EmbeddedSolidity.Proofs.Source.LineEndTrees
import EmbeddedSolidity.Proofs.Source.LineEnds
import EmbeddedSolidity.Proofs.Source.Place
import EmbeddedSolidity.Proofs.Source.Spelling
import EmbeddedSolidity.Proofs.Workspace.Contents
import EmbeddedSolidity.Proofs.Workspace.Create
import EmbeddedSolidity.Proofs.Workspace.Failure
import EmbeddedSolidity.Proofs.Workspace.Framed
import EmbeddedSolidity.Proofs.Workspace.Fresh
import EmbeddedSolidity.Proofs.Workspace.Layout
import EmbeddedSolidity.Proofs.Workspace.Manifest
import EmbeddedSolidity.Proofs.Workspace.Paths
import EmbeddedSolidity.Proofs.Workspace.Recognition
import EmbeddedSolidity.Proofs.Workspace.Refusal
import EmbeddedSolidity.Proofs.Workspace.Renewal
import EmbeddedSolidity.Proofs.Workspace.Retry
import EmbeddedSolidity.Proofs.Workspace.Root
import EmbeddedSolidity.Proofs.Workspace.Settled
import EmbeddedSolidity.Proofs.Workspace.Store
import EmbeddedSolidity.Proofs.Workspace.Version
import EmbeddedSolidity.Report.Basic
import EmbeddedSolidity.Report.Output
import EmbeddedSolidity.Run
import EmbeddedSolidity.Scan
import EmbeddedSolidity.Scanner
import EmbeddedSolidity.Shell.Arithmetic
import EmbeddedSolidity.Shell.Builtin
import EmbeddedSolidity.Shell.Bytes
import EmbeddedSolidity.Shell.Charset
import EmbeddedSolidity.Shell.Condition
import EmbeddedSolidity.Shell.Expansion
import EmbeddedSolidity.Shell.Format
import EmbeddedSolidity.Shell.Launch
import EmbeddedSolidity.Shell.Lexer
import EmbeddedSolidity.Shell.Machine
import EmbeddedSolidity.Shell.Parser
import EmbeddedSolidity.Shell.Pattern
import EmbeddedSolidity.Shell.Program
import EmbeddedSolidity.Shell.Redirect
import EmbeddedSolidity.Shell.Run
import EmbeddedSolidity.Shell.Setting
import EmbeddedSolidity.Shell.Signal
import EmbeddedSolidity.Shell.Syntax
import EmbeddedSolidity.Shell.Token
import EmbeddedSolidity.Shell.Words
import EmbeddedSolidity.Snippet.Basic
import EmbeddedSolidity.Snippet.Id
import EmbeddedSolidity.Source.Lexer
import EmbeddedSolidity.Source.Literal
import EmbeddedSolidity.Source.Position
import EmbeddedSolidity.Source.Token
import EmbeddedSolidity.Text.Blank
import EmbeddedSolidity.Text.Cut
import EmbeddedSolidity.Text.Identifier
import EmbeddedSolidity.Text.Lines
import EmbeddedSolidity.Text.Printable
import EmbeddedSolidity.Text.Quoted
import EmbeddedSolidity.Text.Ranges
import EmbeddedSolidity.Text.Utf8
import EmbeddedSolidity.Utility.All
import EmbeddedSolidity.Utility.Basic
import EmbeddedSolidity.Utility.Columns
import EmbeddedSolidity.Utility.Content
import EmbeddedSolidity.Utility.Edit
import EmbeddedSolidity.Utility.EditScript
import EmbeddedSolidity.Utility.Files
import EmbeddedSolidity.Utility.Lines
import EmbeddedSolidity.Utility.Listing
import EmbeddedSolidity.Utility.Names
import EmbeddedSolidity.Utility.Numbers
import EmbeddedSolidity.Utility.Quotation
import EmbeddedSolidity.Utility.Regular
import EmbeddedSolidity.Utility.Search
import EmbeddedSolidity.Utility.Speech
import EmbeddedSolidity.Utility.Start
import EmbeddedSolidity.Workspace.Build
import EmbeddedSolidity.Workspace.Layout
import EmbeddedSolidity.Workspace.Lifecycle
