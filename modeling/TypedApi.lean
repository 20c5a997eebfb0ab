import TypedApi.Code.Builder
import TypedApi.CommandLine.Command
import TypedApi.CommandLine.Execution
import TypedApi.CommandLine.Options
import TypedApi.CommandLine.Replay
import TypedApi.Config.Basic
import TypedApi.Config.Invocation
import TypedApi.Config.OfToml
import TypedApi.Declaration
import TypedApi.DeclarationArena
import TypedApi.DeclarationArena.OfPayload
import TypedApi.DeclarationTree
import TypedApi.DeclarationTree.OfPayload
import TypedApi.Diagnostic
import TypedApi.Document.Endpoint
import TypedApi.Document.Record
import TypedApi.Endpoint
import TypedApi.Files.FileTree
import TypedApi.Files.OutputFile
import TypedApi.Files.Path
import TypedApi.Json.Number
import TypedApi.Json.Record
import TypedApi.Json.Tree
import TypedApi.Json.Value
import TypedApi.Json.Wording
import TypedApi.Main
import TypedApi.Naming.Convention
import TypedApi.Naming.Derivation
import TypedApi.Naming.Policy
import TypedApi.Naming.Registry
import TypedApi.Report.Check
import TypedApi.Report.Generation
import TypedApi.Report.Line
import TypedApi.Run.Batch
import TypedApi.Run.Generate
import TypedApi.Schema.Basic
import TypedApi.Schema.Inference
import TypedApi.Schema.OfJson
import TypedApi.Source.Fetch
import TypedApi.Source.Http
import TypedApi.Source.Lookup
import TypedApi.Source.Status
import TypedApi.Text.Blank
import TypedApi.Text.Case
import TypedApi.Text.CaseData
import TypedApi.Text.Digit
import TypedApi.Text.Lines
import TypedApi.Text.Words
import TypedApi.Toml.DateTime
import TypedApi.Toml.Document
import TypedApi.Toml.Scalar
import TypedApi.Toml.Table
import TypedApi.Toml.Value
import TypedApi.TypeScript.Artifacts
import TypedApi.TypeScript.ClientFile
import TypedApi.TypeScript.Convention
import TypedApi.TypeScript.Interface
import TypedApi.TypeScript.Literal
import TypedApi.TypeScript.SourceFile
import TypedApi.TypeScript.TypeText
import TypedApi.TypeScript.TypesFile
import TypedApi.Walk
import TypedApi.Web.Address
import TypedApi.Web.Domain
import TypedApi.Web.Form
import TypedApi.Web.IpAddress
import TypedApi.Web.Percent
import TypedApi.Web.Punycode
import TypedApi.Proofs.Registry
import TypedApi.Proofs.Walk
import TypedApi.Proofs.Nesting
import TypedApi.Proofs.Mirror
import TypedApi.Proofs.References
import TypedApi.Proofs.Artifacts
import TypedApi.Proofs.Words
import TypedApi.Proofs.WordForms
import TypedApi.Proofs.Identifier
import TypedApi.Proofs.Policies
import TypedApi.Proofs.Literal
import TypedApi.Proofs.Comments
import TypedApi.Proofs.Building
import TypedApi.Proofs.Documentation
import TypedApi.Proofs.Bindings
import TypedApi.Proofs.DistinctKeys
import TypedApi.Proofs.Members
import TypedApi.Proofs.Rendering
import TypedApi.Proofs.Bodies
import TypedApi.Proofs.Arenas
import TypedApi.Proofs.Emission
import TypedApi.Proofs.Acceptance
import TypedApi.Proofs.CommandLines
import TypedApi.Proofs.Paths
import TypedApi.Proofs.FileTrees
import TypedApi.Proofs.Writing
import TypedApi.Proofs.Independence
import TypedApi.Proofs.Layouts
import TypedApi.Proofs.Retries
import TypedApi.Proofs.Joining
import TypedApi.Proofs.Completion
import TypedApi.Proofs.Refusals
import TypedApi.Proofs.Roots
import TypedApi.Proofs.Growth
import TypedApi.Proofs.Footprint
import TypedApi.Proofs.RootNames
import TypedApi.Proofs.Trees
import TypedApi.Proofs.Shapes
import TypedApi.Proofs.Diagnostics
import TypedApi.Proofs.Readability
import TypedApi.Proofs.Trimming
import TypedApi.Proofs.Resolution
import TypedApi.Proofs.Settings
import TypedApi.Proofs.Repetition
import TypedApi.Proofs.Nameless
import TypedApi.Proofs.Histories
import TypedApi.Proofs.Splitting
import TypedApi.Proofs.PathNames
import TypedApi.Proofs.Tiers
import TypedApi.Proofs.Grammar
import TypedApi.Proofs.Indentation
import TypedApi.Proofs.Extension
import TypedApi.Proofs.Isolation
