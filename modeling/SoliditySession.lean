import SoliditySession.Abi.Decode
import SoliditySession.Abi.Encode
import SoliditySession.Abi.Type
import SoliditySession.Artifact.Json
import SoliditySession.CommandLine
import SoliditySession.CommandLine.Arguments
import SoliditySession.CommandLine.Help
import SoliditySession.Compiler
import SoliditySession.Config
import SoliditySession.Config.Project
import SoliditySession.Decimal.Shortest
import SoliditySession.Diagnostic.Signal
import SoliditySession.FileTree
import SoliditySession.Import
import SoliditySession.Json
import SoliditySession.Json.Parser
import SoliditySession.Json.Reader
import SoliditySession.Main
import SoliditySession.Node.Exchange
import SoliditySession.Node.Execution
import SoliditySession.Node.Http
import SoliditySession.Path
import SoliditySession.Pattern
import SoliditySession.Prompt.Command
import SoliditySession.Prompt.Line
import SoliditySession.Prompt.Loop
import SoliditySession.Proofs.Acceptance
import SoliditySession.Proofs.Assembly
import SoliditySession.Proofs.Atomicity
import SoliditySession.Proofs.Batch
import SoliditySession.Proofs.Classification
import SoliditySession.Proofs.Closure
import SoliditySession.Proofs.DataLocation
import SoliditySession.Proofs.Declaration
import SoliditySession.Proofs.DeclarationLine
import SoliditySession.Proofs.DeclarationPieces
import SoliditySession.Proofs.Decoding
import SoliditySession.Proofs.DefinitionHeader
import SoliditySession.Proofs.Deployment
import SoliditySession.Proofs.Derivation
import SoliditySession.Proofs.Directives
import SoliditySession.Proofs.Discovery
import SoliditySession.Proofs.Display
import SoliditySession.Proofs.Documents
import SoliditySession.Proofs.Extension
import SoliditySession.Proofs.Extraction
import SoliditySession.Proofs.Faults
import SoliditySession.Proofs.FilePaths
import SoliditySession.Proofs.Grouping
import SoliditySession.Proofs.Heads
import SoliditySession.Proofs.ImportLine
import SoliditySession.Proofs.KeyOrder
import SoliditySession.Proofs.Ladder
import SoliditySession.Proofs.Layout
import SoliditySession.Proofs.LongestPrefix
import SoliditySession.Proofs.Lookup
import SoliditySession.Proofs.Nesting
import SoliditySession.Proofs.Normalization
import SoliditySession.Proofs.Operators
import SoliditySession.Proofs.Overload
import SoliditySession.Proofs.Pattern
import SoliditySession.Proofs.QualifiedConstant
import SoliditySession.Proofs.Reading
import SoliditySession.Proofs.Recording
import SoliditySession.Proofs.Records
import SoliditySession.Proofs.Relayout
import SoliditySession.Proofs.Replacing
import SoliditySession.Proofs.Rereading
import SoliditySession.Proofs.Returnable
import SoliditySession.Proofs.RoundTrip
import SoliditySession.Proofs.SearchRoots
import SoliditySession.Proofs.Shape
import SoliditySession.Proofs.Spelling
import SoliditySession.Proofs.Steering
import SoliditySession.Proofs.Terminator
import SoliditySession.Proofs.TypeName
import SoliditySession.Proofs.TypeReading
import SoliditySession.Proofs.TypeRecovery
import SoliditySession.Proofs.UnitCount
import SoliditySession.Proofs.UnitImports
import SoliditySession.Proofs.UnitName
import SoliditySession.Proofs.Units
import SoliditySession.Proofs.UserValue
import SoliditySession.Proofs.Utf8
import SoliditySession.Proofs.Wording
import SoliditySession.Proofs.Words
import SoliditySession.Resolution
import SoliditySession.Shell
import SoliditySession.Solidity.Lexical
import SoliditySession.Solidity.TypeSpelling
import SoliditySession.SourceUnit
import SoliditySession.StandardJson
import SoliditySession.StandardJson.Program
import SoliditySession.Statement
import SoliditySession.Table
import SoliditySession.Terminal
import SoliditySession.Text.Basic
import SoliditySession.Text.Cluster
import SoliditySession.Text.Cluster.Kind
import SoliditySession.Text.Hex
import SoliditySession.Text.Utf8
import SoliditySession.Text.Visible
import SoliditySession.Text.Word
import SoliditySession.Toml
import SoliditySession.Toml.Document
import SoliditySession.Toml.Text
