import ApiDoc.Data.Json
import ApiDoc.Comment.Block
import ApiDoc.Comment.Stored
import ApiDoc.Analysis.Basic
import ApiDoc.Hub
import ApiDoc.Text.Charset
import ApiDoc.Files.Tree
import ApiDoc.Scan
import ApiDoc.Page.Template
import ApiDoc.Page.Site
import ApiDoc.Yaml.Value
import ApiDoc.Settings.Typed
import ApiDoc.Log.Basic
import ApiDoc.Command.Basic
import ApiDoc.Command.Reach
import ApiDoc.Main
import ApiDoc.Proofs.Docs.Merge
import ApiDoc.Proofs.Analysis.Draft
import ApiDoc.Proofs.Analysis.Members
import ApiDoc.Proofs.Analysis.Headings
import ApiDoc.Proofs.TypeExpr.RoundTrip
import ApiDoc.Proofs.TypeExpr.Lexed
import ApiDoc.Proofs.TypeExpr.Words
import ApiDoc.Proofs.TypeExpr.Slices
import ApiDoc.Proofs.TypeExpr.Readers
import ApiDoc.Proofs.TypeExpr.Nesting
import ApiDoc.Proofs.TypeExpr.Built
import ApiDoc.Proofs.TypeExpr.Shape
import ApiDoc.Proofs.TypeExpr.Height
import ApiDoc.Proofs.TypeExpr.OptionalMark
import ApiDoc.Proofs.TypeExpr.Spacing
import ApiDoc.Proofs.TypeExpr.Cursor
import ApiDoc.Proofs.TypeExpr.Tracing
import ApiDoc.Proofs.TypeExpr.Progress
import ApiDoc.Proofs.Comment.Marker
import ApiDoc.Proofs.Comment.Braces
import ApiDoc.Proofs.Comment.TagText
import ApiDoc.Proofs.Comment.TagCursor
import ApiDoc.Proofs.Comment.Sections
import ApiDoc.Proofs.Comment.Stars
import ApiDoc.Proofs.Comment.BlockText
import ApiDoc.Proofs.Comment.BlockPlaces
import ApiDoc.Proofs.Comment.TypeExtent
import ApiDoc.Proofs.Comment.WellFormed
import ApiDoc.Proofs.Files.Path
import ApiDoc.Proofs.Files.Tree
import ApiDoc.Proofs.Scan.Completion
import ApiDoc.Proofs.Files.Relative
import ApiDoc.Proofs.Comment.Stored
import ApiDoc.Proofs.Analysis.Source
import ApiDoc.Proofs.Files.Route
import ApiDoc.Proofs.Files.Append
import ApiDoc.Proofs.Command.Logging
import ApiDoc.Proofs.Command.FailedScan
import ApiDoc.Proofs.Page.Layout
import ApiDoc.Proofs.Page.Writing
import ApiDoc.Proofs.Page.Containment
import ApiDoc.Proofs.Page.Navigation
import ApiDoc.Proofs.Analysis.Independence
import ApiDoc.Proofs.Analysis.Repetition
import ApiDoc.Proofs.Hub.Publication
import ApiDoc.Proofs.Comment.Closer
import ApiDoc.Proofs.Analysis.Inert
import ApiDoc.Proofs.Page.Tame
import ApiDoc.Proofs.Text.Encoding
import ApiDoc.Proofs.Page.Inert
import ApiDoc.Proofs.Page.Rescan
import ApiDoc.Proofs.Comment.Division
import ApiDoc.Proofs.Analysis.TagOrder
import ApiDoc.Proofs.Analysis.MemberCount
import ApiDoc.Proofs.Analysis.Lookup
import ApiDoc.Proofs.Comment.TagSource
