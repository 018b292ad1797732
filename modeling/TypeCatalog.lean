import TypeCatalog.Text.Digit
import TypeCatalog.Text.WordChar
import TypeCatalog.Text.Quoted
import TypeCatalog.Text.Pattern
import TypeCatalog.Text.Marking
import TypeCatalog.Number.Shortest
import TypeCatalog.Value.Printed
import TypeCatalog.Json.Read
import TypeCatalog.Yaml.Token
import TypeCatalog.Yaml.ScalarText
import TypeCatalog.Yaml.Layout
import TypeCatalog.Yaml.Node
import TypeCatalog.Yaml.NodeValue
import TypeCatalog.Declaration.Namespace
import TypeCatalog.Catalog.Knot
import TypeCatalog.Catalog.File
import TypeCatalog.Log.Line
import TypeCatalog.FileSystem.Basic
import TypeCatalog.Command.Arguments
import TypeCatalog.Command.Run
import TypeCatalog.Main
import TypeCatalog.Proofs.WrittenType.Grammar
import TypeCatalog.Proofs.WrittenType.ReadBack
import TypeCatalog.Proofs.Document.Grammar
import TypeCatalog.Proofs.Document.Acceptance
import TypeCatalog.Proofs.Document.ReadingOrder
import TypeCatalog.Proofs.Document.Site
import TypeCatalog.Proofs.Document.FirstDefect
import TypeCatalog.Proofs.Document.Verdict
import TypeCatalog.Proofs.Generation.Totality
import TypeCatalog.Proofs.Generation.FirstFailure
import TypeCatalog.Proofs.Generation.EnumMode
import TypeCatalog.Proofs.Layout.Declarations
import TypeCatalog.Proofs.Syntax.Generated
import TypeCatalog.Proofs.Document.Encoding
import TypeCatalog.Proofs.Document.Message
import TypeCatalog.Proofs.Document.Knot
import TypeCatalog.Proofs.Generation.Composition
import TypeCatalog.Proofs.FileSystem.Effects
import TypeCatalog.Proofs.Command.Outcome
import TypeCatalog.Proofs.Command.CatalogFile
import TypeCatalog.Proofs.WrittenType.NormalForm
import TypeCatalog.Proofs.Document.Respelling
import TypeCatalog.Proofs.Number.ShortestReadsBack
import TypeCatalog.Proofs.Json.WriteBack
import TypeCatalog.Proofs.Log.Run
import TypeCatalog.Proofs.Spelling.Representation
import TypeCatalog.Proofs.Syntax.EnumerationValues
import TypeCatalog.Proofs.Layout.EnumerationForms
import TypeCatalog.Proofs.Layout.InterfaceLines
import TypeCatalog.Proofs.Layout.HeaderLine
import TypeCatalog.Proofs.Layout.Brackets
import TypeCatalog.Proofs.Generation.BaseNames
import TypeCatalog.Proofs.Document.Pruned
import TypeCatalog.Proofs.Document.Unread
import TypeCatalog.Proofs.Generation.Records
import TypeCatalog.Proofs.FileSystem.Way
import TypeCatalog.Proofs.Command.Frame
import TypeCatalog.Proofs.Command.Rerun
import TypeCatalog.Proofs.Yaml.PlainTypes
import TypeCatalog.Proofs.Syntax.DistinctKeys
