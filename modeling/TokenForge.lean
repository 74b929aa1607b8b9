import TokenForge.Command.Arguments
import TokenForge.Command.Basic
import TokenForge.Command.Outcome
import TokenForge.Contract.Assembly
import TokenForge.Contract.Basic
import TokenForge.Contract.Catalog
import TokenForge.Contract.Declaration
import TokenForge.Contract.Error
import TokenForge.Contract.Method
import TokenForge.Contract.Override
import TokenForge.Decimal.Binary64
import TokenForge.Decimal.Shortest
import TokenForge.Fragment.Basic
import TokenForge.Fragment.Writer
import TokenForge.Main
import TokenForge.Options.Decode
import TokenForge.Options.Diagnostic
import TokenForge.Options.Encode
import TokenForge.Options.Fault
import TokenForge.Options.Record
import TokenForge.Options.Span
import TokenForge.Options.Standard
import TokenForge.Options.Template
import TokenForge.Options.Validation
import TokenForge.Package.Pin
import TokenForge.Package.Upgradeable
import TokenForge.Proofs.Command.Effect
import TokenForge.Proofs.Contract.BodyHistory
import TokenForge.Proofs.Contract.Content
import TokenForge.Proofs.Contract.Exchange
import TokenForge.Proofs.Contract.Growth
import TokenForge.Proofs.Contract.Invariant
import TokenForge.Proofs.Contract.Lookup
import TokenForge.Proofs.Contract.Override
import TokenForge.Proofs.Contract.Replay
import TokenForge.Proofs.Contract.Step
import TokenForge.Proofs.FirstOccurrence
import TokenForge.Proofs.Fragment.Emission
import TokenForge.Proofs.Fragment.Joining
import TokenForge.Proofs.Fragment.Spacing
import TokenForge.Proofs.Fragment.Text
import TokenForge.Proofs.Options.Fields
import TokenForge.Proofs.Options.KnownKeys
import TokenForge.Proofs.Options.RoundTrip
import TokenForge.Proofs.Options.Span
import TokenForge.Proofs.Options.ValueEnd
import TokenForge.Proofs.Package.Pin
import TokenForge.Proofs.Package.Rewriting
import TokenForge.Proofs.Package.Upgradeable
import TokenForge.Proofs.Solidity.Lexer
import TokenForge.Proofs.Solidity.Literal
import TokenForge.Proofs.Source.Arguments
import TokenForge.Proofs.Source.BlankLines
import TokenForge.Proofs.Source.Composition
import TokenForge.Proofs.Source.Conflicts
import TokenForge.Proofs.Source.Constructor
import TokenForge.Proofs.Source.Exchange
import TokenForge.Proofs.Source.FileTokens
import TokenForge.Proofs.Source.ImportSection
import TokenForge.Proofs.Source.Imports
import TokenForge.Proofs.Source.Matching
import TokenForge.Proofs.Source.MatchingText
import TokenForge.Proofs.Source.MethodLayout
import TokenForge.Proofs.Source.OverrideClause
import TokenForge.Proofs.Source.PackageFiles
import TokenForge.Proofs.Source.Print
import TokenForge.Proofs.Source.PrintedFunctions
import TokenForge.Proofs.Source.PrintedNames
import TokenForge.Proofs.Source.QualifiedTypes
import TokenForge.Proofs.Source.Selection
import TokenForge.Proofs.Source.Texts
import TokenForge.Proofs.Source.Tokens
import TokenForge.Proofs.Source.Transform
import TokenForge.Proofs.Text.Decimal
import TokenForge.Proofs.Text.Hex
import TokenForge.Proofs.Text.Trim
import TokenForge.Proofs.Token.Attempt
import TokenForge.Proofs.Token.Conflicts
import TokenForge.Proofs.Token.Guard
import TokenForge.Proofs.Token.History
import TokenForge.Proofs.Token.Injection
import TokenForge.Proofs.Token.Literals
import TokenForge.Proofs.Token.Matching
import TokenForge.Proofs.Token.Names
import TokenForge.Proofs.Token.Requests
import TokenForge.Proofs.Token.Success
import TokenForge.Proofs.Token.Triple
import TokenForge.Proofs.Toml.Assignment
import TokenForge.Proofs.Toml.LineEnd
import TokenForge.Proofs.Toml.Lines
import TokenForge.Proofs.Toml.Strings
import TokenForge.Proofs.Toml.Table
import TokenForge.Proofs.Toml.Values
import TokenForge.Proofs.Traversal
import TokenForge.Proofs.Version
import TokenForge.Proofs.Workspace.Growth
import TokenForge.Proofs.Workspace.Writing
import TokenForge.Solidity.Identifier
import TokenForge.Solidity.Literal
import TokenForge.Source.Block
import TokenForge.Source.Constructor
import TokenForge.Source.File
import TokenForge.Source.Heading
import TokenForge.Source.Imports
import TokenForge.Source.Method
import TokenForge.Source.Naming
import TokenForge.Text.Blank
import TokenForge.Text.Hex
import TokenForge.Text.Hidden
import TokenForge.Text.Quoted
import TokenForge.Text.Split
import TokenForge.Text.Utf8
import TokenForge.Token.Access
import TokenForge.Token.Erc1155
import TokenForge.Token.Erc721
import TokenForge.Token.Generate
import TokenForge.Token.Library
import TokenForge.Token.Pausable
import TokenForge.Token.Proxy
import TokenForge.Toml.Document
import TokenForge.Toml.Moment
import TokenForge.Toml.Number
import TokenForge.Toml.Readable
import TokenForge.Toml.Reader
import TokenForge.Toml.Table
import TokenForge.Toml.Text
import TokenForge.Toml.Trivia
import TokenForge.Toml.Value
import TokenForge.Version
import TokenForge.Workspace.Basic
import TokenForge.Workspace.OutputFile
import TokenForge.Workspace.Path
