import SchemaClasses.Text.Basic
import SchemaClasses.Text.Characters
import SchemaClasses.Naming
import SchemaClasses.Path
import SchemaClasses.Source.Line
import SchemaClasses.Source.Annotation
import SchemaClasses.Source.LineKind
import SchemaClasses.Source.Shorthand
import SchemaClasses.Source.ClassBlock
import SchemaClasses.Failure
import SchemaClasses.Output.Store
import SchemaClasses.Output.Wrapper
import SchemaClasses.Run.Report
import SchemaClasses.Decimal.Shortest
import SchemaClasses.Json.Token
import SchemaClasses.Json.Document
import SchemaClasses.Json.Number
import SchemaClasses.Json.Value
import SchemaClasses.Schema.Node
import SchemaClasses.Schema.ClassModel
import SchemaClasses.Schema.Shape
import SchemaClasses.Schema.ClassNames
import SchemaClasses.Schema.Classes
import SchemaClasses.Schema.Source
import SchemaClasses.Json.Pretty
import SchemaClasses.Json.Record
import SchemaClasses.Files.Access
import SchemaClasses.Files.Tree
import SchemaClasses.Settings.Basic
import SchemaClasses.Run.Pipeline
import SchemaClasses.Toml.Token
import SchemaClasses.Toml.Plain
import SchemaClasses.Toml.Statement
import SchemaClasses.Toml.Table
import SchemaClasses.Settings.Load
import SchemaClasses.Yaml.Cursor
import SchemaClasses.Yaml.Scalar
import SchemaClasses.Yaml.Token
import SchemaClasses.Yaml.Node
import SchemaClasses.CommandLine.Arguments
import SchemaClasses.CommandLine.Logging
import SchemaClasses.CommandLine.Run
import SchemaClasses.Main
import SchemaClasses.Proofs.Source.AnnotationLines
import SchemaClasses.Proofs.Naming
import SchemaClasses.Proofs.Source.Expansion
import SchemaClasses.Proofs.Run.CombinedText
import SchemaClasses.Proofs.Source.ClassOutline
import SchemaClasses.Proofs.Schema.Document
import SchemaClasses.Proofs.Schema.References
import SchemaClasses.Proofs.Schema.Shapes
import SchemaClasses.Proofs.Schema.ClassNames
import SchemaClasses.Proofs.Schema.ClassNodes
import SchemaClasses.Proofs.Schema.OneClassEach
import SchemaClasses.Proofs.Json.Number
import SchemaClasses.Proofs.Run.GeneratedSource
import SchemaClasses.Proofs.Path
import SchemaClasses.Proofs.Files.Tree
import SchemaClasses.Proofs.Output.Store
import SchemaClasses.Proofs.Run.Refusal
import SchemaClasses.Proofs.Run.ArtifactPaths
import SchemaClasses.Proofs.Schema.MentionedClasses
import SchemaClasses.Proofs.Schema.Construction
import SchemaClasses.Proofs.Schema.PropertyTypes
import SchemaClasses.Proofs.Schema.DefinitionNames
import SchemaClasses.Proofs.Schema.Replacement
import SchemaClasses.Proofs.Schema.Renaming
import SchemaClasses.Proofs.Schema.InlinedDefinitions
import SchemaClasses.Proofs.Schema.ClassesInPlace
import SchemaClasses.Proofs.Schema.WrittenInPlace
import SchemaClasses.Proofs.Source.HeaderNames
import SchemaClasses.Proofs.Source.ExpandedLines
import SchemaClasses.Proofs.Source.WrittenShorthand
import SchemaClasses.Proofs.Source.ReadBack
import SchemaClasses.Proofs.Source.StrippedText
import SchemaClasses.Proofs.Source.PassOrder
import SchemaClasses.Proofs.Run.Fixpoint
import SchemaClasses.Proofs.Run.Concatenation
import SchemaClasses.Proofs.Run.DryRun
import SchemaClasses.Proofs.Run.WrapperMembers
import SchemaClasses.Proofs.Run.WrapperPaths
import SchemaClasses.Proofs.Run.LineEnds
import SchemaClasses.Proofs.PascalCase
import SchemaClasses.Proofs.Schema.BackingFields
import SchemaClasses.Proofs.Schema.MemberNames
import SchemaClasses.Proofs.Schema.Reading
import SchemaClasses.Proofs.Schema.SchemaNodes
import SchemaClasses.Proofs.Schema.Recursion
import SchemaClasses.Proofs.Source.ShorthandForm
import SchemaClasses.Proofs.Source.ShorthandTokens
import SchemaClasses.Proofs.Schema.Initializers
import SchemaClasses.Proofs.Schema.DeclarationKinds
import SchemaClasses.Proofs.Source.PropertyLines
import SchemaClasses.Proofs.Source.FieldLines
import SchemaClasses.Proofs.Source.LineAccounts
import SchemaClasses.Proofs.Schema.IdentifierNames
import SchemaClasses.Proofs.Text.Occurrences
import SchemaClasses.Proofs.Output.Parts
import SchemaClasses.Proofs.Output.Filling
import SchemaClasses.Proofs.Output.Substitution
import SchemaClasses.Proofs.Output.Guarded
import SchemaClasses.Proofs.Output.BuiltinWrapper
import SchemaClasses.Proofs.Output.LastWrites
import SchemaClasses.Proofs.Schema.NormalNames
import SchemaClasses.Proofs.Schema.StringLiterals
import SchemaClasses.Proofs.Schema.Reservation
