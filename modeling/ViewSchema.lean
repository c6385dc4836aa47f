import ViewSchema.CommandLine
import ViewSchema.CommentLine
import ViewSchema.Files
import ViewSchema.Inference
import ViewSchema.Log
import ViewSchema.Main
import ViewSchema.Note
import ViewSchema.Number.Double
import ViewSchema.Number.Numeral
import ViewSchema.Number.Shortest
import ViewSchema.Partial
import ViewSchema.Path
import ViewSchema.Remark
import ViewSchema.Report
import ViewSchema.Settings
import ViewSchema.Shape
import ViewSchema.Shape.Property
import ViewSchema.Shape.Schema
import ViewSchema.Shape.Store
import ViewSchema.Stub
import ViewSchema.Template.CallKind
import ViewSchema.Template.Fault
import ViewSchema.Template.Grammar
import ViewSchema.Template.Lexer
import ViewSchema.Template.Node
import ViewSchema.Template.Read
import ViewSchema.Template.Scan
import ViewSchema.Template.Token
import ViewSchema.Text.Blank
import ViewSchema.Text.Capitalized
import ViewSchema.Text.Letter
import ViewSchema.Text.Printable
import ViewSchema.Text.Quoted
import ViewSchema.Value
import ViewSchema.Value.Json
import ViewSchema.Walk.Account
import ViewSchema.Walk.Lookup
import ViewSchema.Walk.Reference
import ViewSchema.Walk.Statement
import ViewSchema.Proofs.Note
import ViewSchema.Proofs.Inference.Chain
import ViewSchema.Proofs.Shape.Listing
import ViewSchema.Proofs.Walk.Result
import ViewSchema.Proofs.Shape.Formed
import ViewSchema.Proofs.Shape.Everywhere
import ViewSchema.Proofs.Shape.Settled
import ViewSchema.Proofs.Walk.Outline
import ViewSchema.Proofs.Walk.Invariant
import ViewSchema.Proofs.Walk.Formed
import ViewSchema.Proofs.Inference.Settled
import ViewSchema.Proofs.Template.Lexer
import ViewSchema.Proofs.Template.Scan
import ViewSchema.Proofs.Template.Read
import ViewSchema.Proofs.Template.Grammar
import ViewSchema.Proofs.Template.Glyph
import ViewSchema.Proofs.Template.Conditional
import ViewSchema.Proofs.Template.Body
import ViewSchema.Proofs.Template.Phrase
import ViewSchema.Proofs.Plan.Template
import ViewSchema.Proofs.Plan.Lines
import ViewSchema.Proofs.Plan.Reading
import ViewSchema.Proofs.Plan.Remark
import ViewSchema.Proofs.Plan.Shape
import ViewSchema.Proofs.Plan.Walk
import ViewSchema.Proofs.Plan.Inference
import ViewSchema.Proofs.Sketch.Template
import ViewSchema.Proofs.Sketch.Lines
import ViewSchema.Proofs.Sketch.Reading
import ViewSchema.Proofs.Inference.Components
import ViewSchema.Proofs.Template.Extent
import ViewSchema.Proofs.Template.Step
import ViewSchema.Proofs.Template.Run
import ViewSchema.Proofs.Template.LineNumber
import ViewSchema.Proofs.Template.Ensures
import ViewSchema.Proofs.Template.Rules
import ViewSchema.Proofs.Template.Total
import ViewSchema.Proofs.Sketch.LongNumber
import ViewSchema.Proofs.Template.LineEnd
import ViewSchema.Proofs.Template.Front
import ViewSchema.Proofs.Template.Insertion
import ViewSchema.Proofs.Inference.Orderly
import ViewSchema.Proofs.Inference.Absent
import ViewSchema.Proofs.Inference.Failure
import ViewSchema.Proofs.Report
import ViewSchema.Proofs.Text.Trim
import ViewSchema.Proofs.Remark.Pairs
import ViewSchema.Proofs.Remark.Tag
import ViewSchema.Proofs.Number.Numeral
import ViewSchema.Proofs.CommentLine.Pairs
import ViewSchema.Proofs.CommentLine.Property
import ViewSchema.Proofs.CommentLine.Stub
import ViewSchema.Proofs.CommentLine.Operation
import ViewSchema.Proofs.Walk.Congruence
import ViewSchema.Proofs.Stub
import ViewSchema.Proofs.Walk.Ownership
import ViewSchema.Proofs.Walk.Written
import ViewSchema.Proofs.Inference.Ownership
import ViewSchema.Proofs.Inference.Stub
import ViewSchema.Proofs.Walk.Transparent
import ViewSchema.Proofs.Walk.Modified
import ViewSchema.Proofs.Inference.FirstInclusion
import ViewSchema.Proofs.Shape.WellFormed
import ViewSchema.Proofs.Template.Cover
import ViewSchema.Proofs.Remark.First
import ViewSchema.Proofs.Remark.Marker
import ViewSchema.Proofs.Shape.Marked
import ViewSchema.Proofs.Shape.Apart
import ViewSchema.Proofs.Shape.Copy
import ViewSchema.Proofs.Inference.NamedPartial
import ViewSchema.Proofs.Template.Parameters
import ViewSchema.Proofs.Template.HashArgument
import ViewSchema.Proofs.ViewsRoot
import ViewSchema.Proofs.Shape.Insertion
import ViewSchema.Proofs.Shape.Alternatives
import ViewSchema.Proofs.Inference.Malformed
import ViewSchema.Proofs.Walk.AttributeNote
