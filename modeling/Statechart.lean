import Statechart.Chart.Blueprint
import Statechart.Hierarchy.Edit
import Statechart.Inspect
import Statechart.Layer.Reader
import Statechart.Report
import Statechart.Run.Request
import Statechart.Script.Reader
import Statechart.Proofs.Hierarchy.Lineage
import Statechart.Proofs.Hierarchy.Change
import Statechart.Proofs.Hierarchy.Attach
import Statechart.Proofs.Hierarchy.Reachable
import Statechart.Proofs.Hierarchy.CommonAncestor
import Statechart.Proofs.Hierarchy.Refused
import Statechart.Proofs.Layer.Nesting
import Statechart.Proofs.Layer.Merged
import Statechart.Proofs.Layer.Absorption
import Statechart.Proofs.Layer.Associativity
import Statechart.Proofs.Layer.Neutrality
import Statechart.Proofs.Layer.Identity
import Statechart.Proofs.Layer.Precedence
import Statechart.Proofs.Behavior.Ranked
import Statechart.Proofs.Behavior.Arranged
import Statechart.Proofs.Chart.WellFormed
import Statechart.Proofs.Chart.Compiled
import Statechart.Proofs.Chart.Growing
import Statechart.Proofs.Chart.Checked
import Statechart.Proofs.Chart.Accepted
import Statechart.Proofs.Chart.Frozen
import Statechart.Proofs.Chart.Mirrored
import Statechart.Proofs.Chart.Tabled
import Statechart.Proofs.Chart.Arranged
import Statechart.Proofs.Chart.RefusedFreeze
import Statechart.Proofs.Chart.Reported
import Statechart.Proofs.Chart.Repeated
import Statechart.Proofs.Run.Walk
import Statechart.Proofs.Run.Descent
import Statechart.Proofs.Run.Step
import Statechart.Proofs.Run.Firing
import Statechart.Proofs.Run.Call
import Statechart.Proofs.Run.Session
import Statechart.Proofs.Run.Queue
import Statechart.Proofs.Run.Stack
import Statechart.Proofs.Run.Recall
import Statechart.Proofs.Run.Departure
import Statechart.Proofs.Run.History
import Statechart.Proofs.Run.Transit
import Statechart.Proofs.Run.Safety
import Statechart.Proofs.Run.Failure
import Statechart.Proofs.Run.Errand
import Statechart.Proofs.Run.Containment
import Statechart.Proofs.Run.Lifecycle
import Statechart.Proofs.Run.Protocol
import Statechart.Proofs.Run.Visits
import Statechart.Proofs.Run.LastExit
import Statechart.Proofs.Run.Selection
import Statechart.Proofs.Run.Finish
import Statechart.Proofs.Run.Tracing
import Statechart.Proofs.Text.Trimmed
import Statechart.Proofs.Text.Decimal
import Statechart.Proofs.Json.Grammar
import Statechart.Proofs.Json.Reading
import Statechart.Proofs.Json.Writing
import Statechart.Proofs.Json.Integer
import Statechart.Proofs.Json.Records
import Statechart.Proofs.Layer.Descriptor
import Statechart.Proofs.Layer.Spelling
import Statechart.Proofs.Layer.ReadBack
import Statechart.Proofs.Run.Stored
import Statechart.Proofs.Behavior.HookNames
import Statechart.Proofs.Behavior.Offered
import Statechart.Proofs.Hierarchy.Acyclic
import Statechart.Proofs.Run.Consulted
