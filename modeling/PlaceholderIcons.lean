import PlaceholderIcons.Base64
import PlaceholderIcons.Checksum.Incremental
import PlaceholderIcons.Checksum.Sum64
import PlaceholderIcons.Checksum.Text
import PlaceholderIcons.CommandLine.Arguments
import PlaceholderIcons.CommandLine.Command
import PlaceholderIcons.CommandLine.Flag
import PlaceholderIcons.CommandLine.Help
import PlaceholderIcons.CommandLine.Program
import PlaceholderIcons.CommandLine.Value
import PlaceholderIcons.Decimal.ByteCount
import PlaceholderIcons.Decimal.Integer
import PlaceholderIcons.Decimal.Shortest
import PlaceholderIcons.FilePath
import PlaceholderIcons.FileTree.Access
import PlaceholderIcons.FileTree.Basic
import PlaceholderIcons.FileTree.Layout
import PlaceholderIcons.Generation
import PlaceholderIcons.Icon.Document
import PlaceholderIcons.Icon.Label
import PlaceholderIcons.Icon.Markup
import PlaceholderIcons.Icon.Preview
import PlaceholderIcons.Icon.Set
import PlaceholderIcons.Json.Literal
import PlaceholderIcons.Json.Printer
import PlaceholderIcons.Json.Reader
import PlaceholderIcons.Json.Token
import PlaceholderIcons.Json.Value
import PlaceholderIcons.Main
import PlaceholderIcons.Manifest.Audit
import PlaceholderIcons.Manifest.Basic
import PlaceholderIcons.Manifest.Decoding
import PlaceholderIcons.Manifest.Encoding
import PlaceholderIcons.Manifest.Storage
import PlaceholderIcons.Manifest.Summary
import PlaceholderIcons.Proofs.AuditFaults
import PlaceholderIcons.Proofs.ByteCounts
import PlaceholderIcons.Proofs.ChecksumText
import PlaceholderIcons.Proofs.CommandEffects
import PlaceholderIcons.Proofs.CommandHistory
import PlaceholderIcons.Proofs.DefaultCommand
import PlaceholderIcons.Proofs.Diagnostics
import PlaceholderIcons.Proofs.DocumentPaths
import PlaceholderIcons.Proofs.EnumerationOrder
import PlaceholderIcons.Proofs.FileWrites
import PlaceholderIcons.Proofs.FreshManifest
import PlaceholderIcons.Proofs.GeneratedIcons
import PlaceholderIcons.Proofs.IconPlaces
import PlaceholderIcons.Proofs.IconSnippet
import PlaceholderIcons.Proofs.IntegerText
import PlaceholderIcons.Proofs.InterruptedRuns
import PlaceholderIcons.Proofs.JsonAcceptance
import PlaceholderIcons.Proofs.JsonGrammar
import PlaceholderIcons.Proofs.JsonLiterals
import PlaceholderIcons.Proofs.JsonReading
import PlaceholderIcons.Proofs.JsonScanning
import PlaceholderIcons.Proofs.JsonTexts
import PlaceholderIcons.Proofs.LabelAdvance
import PlaceholderIcons.Proofs.LabelMarkup
import PlaceholderIcons.Proofs.ManifestRewriting
import PlaceholderIcons.Proofs.ManifestRoundTrip
import PlaceholderIcons.Proofs.OutputPlaces
import PlaceholderIcons.Proofs.PathNames
import PlaceholderIcons.Proofs.Previews
import PlaceholderIcons.Proofs.Relocation
import PlaceholderIcons.Proofs.RepeatedRuns
import PlaceholderIcons.Proofs.RunOutcomes
import PlaceholderIcons.Proofs.Streaming
import PlaceholderIcons.Proofs.TableView
import PlaceholderIcons.Proofs.UnknownMembers
import PlaceholderIcons.Proofs.Utf8Decoding
import PlaceholderIcons.Table
import PlaceholderIcons.Text.Bytes
import PlaceholderIcons.Text.Column
import PlaceholderIcons.Text.Hexadecimal
import PlaceholderIcons.Text.Printable
import PlaceholderIcons.Text.Quoted
import PlaceholderIcons.Text.Utf8
