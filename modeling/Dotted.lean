import Dotted.Main
import Dotted.Shape
import Dotted.Text.Utf8
import Dotted.Proofs.Index
import Dotted.Proofs.Route
import Dotted.Proofs.ReadAfterWrite
import Dotted.Proofs.Stepwise
import Dotted.Proofs.Refused
import Dotted.Proofs.Commute
import Dotted.Proofs.Nested
import Dotted.Proofs.Walk
import Dotted.Proofs.Rebuild
import Dotted.Proofs.Session
import Dotted.Proofs.PathText
import Dotted.Proofs.Order
import Dotted.Proofs.Revised
import Dotted.Proofs.BulkUpdate
import Dotted.Proofs.BulkOverwrite
import Dotted.Proofs.Numeral
import Dotted.Proofs.Reread
import Dotted.Proofs.Effects
import Dotted.Proofs.Readback
import Dotted.Proofs.Listing
import Dotted.Proofs.Checked
import Dotted.Proofs.Focus
import Dotted.Proofs.Grammar
import Dotted.Proofs.Growth
import Dotted.Proofs.Obtained
import Dotted.Proofs.Accounting
import Dotted.Proofs.Reports
import Dotted.Proofs.Pieces
import Dotted.Proofs.Ancestry
import Dotted.Proofs.Location
import Dotted.Proofs.TypedReads
import Dotted.Proofs.NumberText
import Dotted.Proofs.PrettyFlag
import Dotted.Proofs.SameDocuments
import Dotted.Proofs.Layouts
import Dotted.Proofs.StringOperand
