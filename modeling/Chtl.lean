import Chtl.Bridge.Basic
import Chtl.Bridge.Table
import Chtl.Compile.Basic
import Chtl.Compile.Blocks
import Chtl.Compile.Error
import Chtl.Compile.Options
import Chtl.Decimal.Numeral
import Chtl.Decimal.Read
import Chtl.Decimal.Shortest
import Chtl.Diagnostic
import Chtl.Digest.Sha256
import Chtl.Document.Basic
import Chtl.Document.Element
import Chtl.Document.Renumber
import Chtl.Document.Template
import Chtl.Document.Traversal
import Chtl.Expr.Basic
import Chtl.Expr.Parse
import Chtl.Expr.Shape
import Chtl.Expr.Token
import Chtl.Extension.Occurrence
import Chtl.Extension.Registry
import Chtl.Fragment.Basic
import Chtl.Fragment.Piece
import Chtl.Fragment.Scan
import Chtl.Html.Escape
import Chtl.Html.Generate
import Chtl.Html.Ids
import Chtl.Json.Basic
import Chtl.Json.Datum
import Chtl.Json.Quote
import Chtl.Json.Token
import Chtl.Markup.Cursor
import Chtl.Markup.Error
import Chtl.Markup.Parse
import Chtl.Markup.Reader
import Chtl.Markup.Style
import Chtl.Markup.Value
import Chtl.Output.Fragments
import Chtl.Output.Merge
import Chtl.Output.Substitute
import Chtl.Output.Token
import Chtl.Proofs.Compile.Parts
import Chtl.Proofs.Fragment.Cut
import Chtl.Proofs.Fragment.Passes
import Chtl.Proofs.Fragment.Tiling
import Chtl.Proofs.Markup.Reads
import Chtl.Proofs.Outcome
import Chtl.Proofs.Output.Channels
import Chtl.Proofs.Output.Leak
import Chtl.Proofs.Output.Placement
import Chtl.Proofs.Script.Glue
import Chtl.Proofs.Static.Compile
import Chtl.Proofs.Static.Document
import Chtl.Proofs.Static.Element
import Chtl.Proofs.Static.Forest
import Chtl.Proofs.Static.Generate
import Chtl.Proofs.Static.Item
import Chtl.Proofs.Static.Literal
import Chtl.Proofs.Static.Scan
import Chtl.Proofs.Text.Basic
import Chtl.Proofs.Text.Word
import Chtl.Script.Basic
import Chtl.Script.Entry
import Chtl.Script.Glue
import Chtl.Script.Lexical
import Chtl.Script.Literal
import Chtl.Script.Lower
import Chtl.Script.Parse
import Chtl.Script.Selector
import Chtl.Source.Location
import Chtl.Source.Span
import Chtl.Style.Eval
import Chtl.Style.Lower
import Chtl.Style.Map
import Chtl.Style.Resolve
import Chtl.Style.Value
import Chtl.Text.Alphanumeric
import Chtl.Text.Basic
import Chtl.Text.Class
import Chtl.Text.DecimalDigit
import Chtl.Text.Hidden
import Chtl.Text.Quoted
import Chtl.Text.Ranges
import Chtl.Text.WordChar
import Chtl.Proofs.Document.Traversal
import Chtl.Proofs.Document.Visitor
import Chtl.Proofs.Style.Query
import Chtl.Proofs.Style.Derivation
import Chtl.Proofs.Style.Evaluation
import Chtl.Proofs.Style.Level
import Chtl.Proofs.Style.Guard
import Chtl.Proofs.Style.History
import Chtl.Proofs.Compile.Outputs
import Chtl.Proofs.Bridge.Table
import Chtl.Proofs.Html.Ids
import Chtl.Proofs.Document.Copies
import Chtl.Proofs.Html.Recorded
import Chtl.Proofs.Html.Written
import Chtl.Proofs.Html.Nodes
import Chtl.Proofs.Markup.Apart
import Chtl.Proofs.Markup.Ledger
import Chtl.Proofs.Markup.Accounts
import Chtl.Proofs.Html.Emitted
import Chtl.Proofs.Html.Integrity
import Chtl.Html.Mark
import Chtl.Proofs.Fragment.Token
import Chtl.Proofs.Text.Run
import Chtl.Proofs.Fragment.Offset
import Chtl.Proofs.Document.Blocks
import Chtl.Proofs.Document.Built
import Chtl.Proofs.Document.Formed
import Chtl.Proofs.Markup.Leads
import Chtl.Proofs.Markup.Building
import Chtl.Proofs.Html.Shown
import Chtl.Proofs.Html.Accounting
import Chtl.Proofs.Expr.Spans
import Chtl.Proofs.Style.Faults
import Chtl.Proofs.Html.Faults
import Chtl.Proofs.Script.Stretch
import Chtl.Proofs.Script.Selectors
import Chtl.Proofs.Script.Spans
import Chtl.Proofs.Compile.Blame
import Chtl.Proofs.Js.Token
import Chtl.Proofs.Js.Grammar
import Chtl.Proofs.Js.Literal
import Chtl.Proofs.Script.Unwrap
import Chtl.Proofs.Style.Lowered
import Chtl.Proofs.Js.Condition
import Chtl.Proofs.Script.Taken
import Chtl.Proofs.Html.Lowering
import Chtl.Proofs.Html.Emission
import Chtl.Proofs.Html.Ladders
import Chtl.Proofs.Script.Closing
import Chtl.Proofs.Style.Merge
import Chtl.Proofs.Expr.Grammar
import Chtl.Proofs.Expr.Reading
import Chtl.Proofs.Script.Segments
import Chtl.Proofs.Script.Covering
import Chtl.Proofs.Script.Kept
import Chtl.Proofs.Js.Braced
import Chtl.Proofs.Output.Segments
import Chtl.Proofs.Output.Restore
import Chtl.Proofs.Output.Substitution
import Chtl.Proofs.Fragment.Boundary
import Chtl.Proofs.Markup.Names
import Chtl.Proofs.Output.Rounds
import Chtl.Proofs.Text.Bytes
import Chtl.Proofs.Fragment.SourceMap
import Chtl.Proofs.Fragment.Delimited
import Chtl.Proofs.Markup.Quotes
import Chtl.Proofs.Markup.Comments
import Chtl.Proofs.Markup.Groups
import Chtl.Proofs.Expr.Shift
import Chtl.Proofs.Expr.Nesting
import Chtl.Proofs.Expr.Form
import Chtl.Proofs.Expr.Words
import Chtl.Proofs.Expr.Written
import Chtl.Proofs.Document.Numbers
import Chtl.Proofs.Document.Distinct
import Chtl.Proofs.Document.Anchors
import Chtl.Proofs.Markup.Numbering
import Chtl.Proofs.Html.Attributes
import Chtl.Proofs.Script.Missing
import Chtl.Proofs.Document.Taken
import Chtl.Proofs.Html.Order
import Chtl.Proofs.Markup.Runs
import Chtl.Proofs.Markup.Holders
import Chtl.Proofs.Markup.Pieces
import Chtl.Proofs.Markup.Sequence
import Chtl.Proofs.Document.Classes
import Chtl.Proofs.Script.Depth
import Chtl.Proofs.Script.Spelled
import Chtl.Proofs.Extension.Occurrence
import Chtl.Proofs.Extension.Pass
import Chtl.Proofs.Extension.Origin
import Chtl.Proofs.Html.Comments
import Chtl.Proofs.Text.Replace
import Chtl.Proofs.Text.Paired
import Chtl.Proofs.Html.Entities
import Chtl.Proofs.Js.Quoted
import Chtl.Proofs.Fragment.Strings
import Chtl.Proofs.Source.LineIndex
import Chtl.Proofs.Source.Lines
