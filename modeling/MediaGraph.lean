import MediaGraph.Text.Quoted
import MediaGraph.SortedMap
import MediaGraph.Number.Layout
import MediaGraph.Arguments
import MediaGraph.Graph.Construction
import MediaGraph.Expression
import MediaGraph.Expression.Reading
import MediaGraph.Json.Utf8
import MediaGraph.Json.Printer
import MediaGraph.Json.Shape
import MediaGraph.Description.Assembly
import MediaGraph.Description.Document
import MediaGraph.Settings.Document
import MediaGraph.Main
import MediaGraph.Proofs.SortedMap
import MediaGraph.Proofs.Schedule.Order
import MediaGraph.Proofs.LabelSupply
import MediaGraph.Proofs.Graph.Ancestors
import MediaGraph.Proofs.Session.Building
import MediaGraph.Proofs.Expression.Locality
import MediaGraph.Proofs.Expression.Listing
import MediaGraph.Proofs.Expression.Outcome
import MediaGraph.Proofs.Expression.Terminals
import MediaGraph.Proofs.Expression.Wiring
import MediaGraph.Proofs.Expression.Reading
import MediaGraph.Proofs.Expression.Assignment
import MediaGraph.Proofs.Description.Acceptance
import MediaGraph.Proofs.Description.Document
import MediaGraph.Proofs.Description.Ambiguity
import MediaGraph.Proofs.Description.Renaming
import MediaGraph.Proofs.Number.Whole
import MediaGraph.Proofs.Value.Coercion
import MediaGraph.Proofs.LabelSupply.Calls
import MediaGraph.Proofs.Session.Interchange
import MediaGraph.Proofs.Arguments.Words
import MediaGraph.Proofs.Arguments.Merge
import MediaGraph.Proofs.Session.Concatenation
import MediaGraph.Proofs.Session.Trace
