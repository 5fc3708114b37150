import BraceDoc.Block.Asset
import BraceDoc.Block.Basic
import BraceDoc.Block.Form
import BraceDoc.Block.Language
import BraceDoc.Block.Read
import BraceDoc.Block.Reflow
import BraceDoc.Call.Dispatch
import BraceDoc.Call.Registry
import BraceDoc.Call.Standard
import BraceDoc.Decimal.Layout
import BraceDoc.Decimal.Shortest
import BraceDoc.Files.Disk
import BraceDoc.Files.System
import BraceDoc.Files.Tree
import BraceDoc.Import.Graph
import BraceDoc.Import.Order
import BraceDoc.Import.Resolve
import BraceDoc.Import.Walk
import BraceDoc.Json.Basic
import BraceDoc.Json.Fields
import BraceDoc.Json.Print
import BraceDoc.Json.Read
import BraceDoc.Lists
import BraceDoc.Markup.Command
import BraceDoc.Markup.Document
import BraceDoc.Markup.Piece
import BraceDoc.Markup.Token
import BraceDoc.Path.Basic
import BraceDoc.Path.Normal
import BraceDoc.Plugin.Artifact
import BraceDoc.Plugin.Basic
import BraceDoc.Plugin.Catalog
import BraceDoc.Plugin.Docgen
import BraceDoc.Plugin.Host
import BraceDoc.Plugin.IrJson
import BraceDoc.Plugin.Plan
import BraceDoc.Plugin.Schedule
import BraceDoc.Plugin.Script
import BraceDoc.Project.Build
import BraceDoc.Setting.Assignment
import BraceDoc.Setting.Clause
import BraceDoc.Setting.Fold
import BraceDoc.Setting.Request
import BraceDoc.Setting.Value
import BraceDoc.Source.Diagnostic
import BraceDoc.Source.LineTable
import BraceDoc.Source.Position
import BraceDoc.Source.Problem
import BraceDoc.Symbol
import BraceDoc.Text.Blank
import BraceDoc.Text.Cut
import BraceDoc.Text.Newline
import BraceDoc.Text.Utf8
import BraceDoc.Text.Word
import BraceDoc.Proofs.Markup.Grammar
import BraceDoc.Proofs.Markup.Division
import BraceDoc.Proofs.Source.Offset
import BraceDoc.Proofs.Markup.Token
import BraceDoc.Proofs.Markup.Loop
import BraceDoc.Proofs.Markup.Reading
import BraceDoc.Proofs.Markup.RoundTrip
import BraceDoc.Proofs.Path.Steps
import BraceDoc.Proofs.Path.Normal
import BraceDoc.Proofs.Import.Step
import BraceDoc.Proofs.Import.Account
import BraceDoc.Proofs.Path.Directory
import BraceDoc.Proofs.Path.Congruence
import BraceDoc.Proofs.Files.Tree
import BraceDoc.Proofs.Files.Listing
import BraceDoc.Proofs.Import.Course
import BraceDoc.Proofs.Import.Exact
import BraceDoc.Proofs.Import.Cycle
import BraceDoc.Proofs.Import.Visit
import BraceDoc.Proofs.Import.Unreferenced
import BraceDoc.Proofs.Import.Target
import BraceDoc.Proofs.Import.Order
import BraceDoc.Proofs.Plugin.Schedule
import BraceDoc.Proofs.Plugin.Plan
import BraceDoc.Proofs.Plugin.Provenance
import BraceDoc.Proofs.Setting.Level
import BraceDoc.Proofs.Json.Members
import BraceDoc.Proofs.Setting.Lookup
import BraceDoc.Proofs.Setting.Written
import BraceDoc.Proofs.Setting.Assignment
import BraceDoc.Proofs.Call.Handler
import BraceDoc.Proofs.Project.Settings
import BraceDoc.Proofs.Source.Code
import BraceDoc.Proofs.Markup.Unclosed
import BraceDoc.Proofs.Import.Reports
import BraceDoc.Proofs.Plugin.Builtin
import BraceDoc.Proofs.Plugin.Run
import BraceDoc.Proofs.Project.Reports
import BraceDoc.Proofs.Project.Outputs
import BraceDoc.Proofs.Markup.Search
import BraceDoc.Proofs.Markup.Command
import BraceDoc.Proofs.Markup.LineEnd
import BraceDoc.Proofs.Plugin.LineEnd
import BraceDoc.Proofs.Setting.Effect
import BraceDoc.Proofs.Setting.Removal
import BraceDoc.Proofs.Setting.Neighbour
import BraceDoc.Proofs.Text.Paragraph
import BraceDoc.Proofs.Block.Reflow
import BraceDoc.Proofs.Source.LineTable
import BraceDoc.Proofs.Markup.Range
import BraceDoc.Proofs.Call.Verbatim
import BraceDoc.Proofs.Symbol
import BraceDoc.Proofs.Plugin.Refusal
import BraceDoc.Proofs.Plugin.Asset
import BraceDoc.Proofs.Plugin.Stable
import BraceDoc.Proofs.Markup.Loop
