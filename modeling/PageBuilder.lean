import PageBuilder.Archive.Fault
import PageBuilder.Archive.Read
import PageBuilder.Archive.Shape
import PageBuilder.Archive.Write
import PageBuilder.Catalog.Basic
import PageBuilder.Catalog.BuiltIn
import PageBuilder.CommandLine.Args
import PageBuilder.CommandLine.Files
import PageBuilder.CommandLine.Run
import PageBuilder.Digest.Sha256
import PageBuilder.Draft.Basic
import PageBuilder.Draft.Copy
import PageBuilder.Draft.Edit
import PageBuilder.Draft.Script
import PageBuilder.Failure
import PageBuilder.Json.Basic
import PageBuilder.Json.Printer
import PageBuilder.Json.Reader
import PageBuilder.Main
import PageBuilder.Markup.Attribute
import PageBuilder.Markup.Lines
import PageBuilder.Number.Decimal
import PageBuilder.Number.Double
import PageBuilder.Number.Integer
import PageBuilder.Number.Lenient
import PageBuilder.OrderedMap
import PageBuilder.Page.Attributes
import PageBuilder.Page.Basic
import PageBuilder.Page.Element
import PageBuilder.Page.IdSource
import PageBuilder.Page.Integrity
import PageBuilder.Page.Problem
import PageBuilder.Page.Walk
import PageBuilder.Preferences
import PageBuilder.Proofs.Archive.Content
import PageBuilder.Proofs.Archive.Gate
import PageBuilder.Proofs.Archive.Keys
import PageBuilder.Proofs.Archive.RoundTrip
import PageBuilder.Proofs.CommandLine.Agreement
import PageBuilder.Proofs.CommandLine.Compile
import PageBuilder.Proofs.CommandLine.Endings
import PageBuilder.Proofs.CommandLine.Files
import PageBuilder.Proofs.CommandLine.Groups
import PageBuilder.Proofs.CommandLine.Output
import PageBuilder.Proofs.Draft.Atomic
import PageBuilder.Proofs.Draft.Contents
import PageBuilder.Proofs.Draft.Copies
import PageBuilder.Proofs.Draft.Defaults
import PageBuilder.Proofs.Draft.Edits
import PageBuilder.Proofs.Draft.Elements
import PageBuilder.Proofs.Draft.Faithful
import PageBuilder.Proofs.Draft.Growth
import PageBuilder.Proofs.Draft.Invariant
import PageBuilder.Proofs.Draft.Moving
import PageBuilder.Proofs.Draft.Outcomes
import PageBuilder.Proofs.Draft.Removal
import PageBuilder.Proofs.Draft.Updates
import PageBuilder.Proofs.Draft.Vocabulary
import PageBuilder.Proofs.Json.Arranged
import PageBuilder.Proofs.Json.Limit
import PageBuilder.Proofs.Json.Numbers
import PageBuilder.Proofs.Json.RoundTrip
import PageBuilder.Proofs.Json.Strings
import PageBuilder.Proofs.Maps
import PageBuilder.Proofs.Markup.Attributes
import PageBuilder.Proofs.Markup.Layout
import PageBuilder.Proofs.Markup.Locality
import PageBuilder.Proofs.Markup.LookUp
import PageBuilder.Proofs.Markup.PropOrder
import PageBuilder.Proofs.Markup.Rendering
import PageBuilder.Proofs.Markup.Texts
import PageBuilder.Proofs.Number.Limit
import PageBuilder.Proofs.Number.Numeral
import PageBuilder.Proofs.Number.Rounding
import PageBuilder.Proofs.Number.Shortest
import PageBuilder.Proofs.Page.Admission
import PageBuilder.Proofs.Page.Attributes
import PageBuilder.Proofs.Page.Consistency
import PageBuilder.Proofs.Page.Context
import PageBuilder.Proofs.Page.IdSource
import PageBuilder.Proofs.Page.Integrity
import PageBuilder.Proofs.Page.Links
import PageBuilder.Proofs.Page.Order
import PageBuilder.Proofs.Page.Outline
import PageBuilder.Proofs.Page.Reshape
import PageBuilder.Proofs.Page.Survey
import PageBuilder.Proofs.Page.Walks
import PageBuilder.Proofs.Results
import PageBuilder.Proofs.Session.Attributes
import PageBuilder.Proofs.Session.Batches
import PageBuilder.Proofs.Session.Clipboard
import PageBuilder.Proofs.Session.Coupled
import PageBuilder.Proofs.Session.Editing
import PageBuilder.Proofs.Session.Elements
import PageBuilder.Proofs.Session.Events
import PageBuilder.Proofs.Session.Ids
import PageBuilder.Proofs.Session.Invariants
import PageBuilder.Proofs.Session.Loading
import PageBuilder.Proofs.Session.Moves
import PageBuilder.Proofs.Session.Numbers
import PageBuilder.Proofs.Session.Records
import PageBuilder.Proofs.Session.Replacing
import PageBuilder.Proofs.Session.Rollback
import PageBuilder.Proofs.Session.Runs
import PageBuilder.Proofs.Session.Saving
import PageBuilder.Proofs.Session.Selection
import PageBuilder.Proofs.Session.Travel
import PageBuilder.Proofs.Session.Vocabulary
import PageBuilder.Proofs.Source.Expressions
import PageBuilder.Proofs.Source.Imports
import PageBuilder.Proofs.Source.Layout
import PageBuilder.Proofs.Source.Names
import PageBuilder.Proofs.Source.Renaming
import PageBuilder.Proofs.Source.Tidied
import PageBuilder.Proofs.Style.Resolve
import PageBuilder.Proofs.Text.Settled
import PageBuilder.Proofs.Timeline.Window
import PageBuilder.Session.Basic
import PageBuilder.Session.Edit
import PageBuilder.Session.Script
import PageBuilder.Session.View
import PageBuilder.Snapshot
import PageBuilder.Source.Basic
import PageBuilder.Source.Imports
import PageBuilder.Source.Options
import PageBuilder.Style.Resolve
import PageBuilder.Style.Vocabulary
import PageBuilder.Text.Blank
import PageBuilder.Text.Digit
import PageBuilder.Text.Hex
import PageBuilder.Text.Lines
import PageBuilder.Text.Printable
import PageBuilder.Text.Quoted
import PageBuilder.Text.Ranges
import PageBuilder.Text.Uppercase
import PageBuilder.Text.Utf8
import PageBuilder.Timeline
import PageBuilder.Value.Basic
import PageBuilder.Value.Text
