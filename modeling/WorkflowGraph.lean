import WorkflowGraph.Builder
import WorkflowGraph.Compiler
import WorkflowGraph.Document.Config
import WorkflowGraph.Document.Diagnostic
import WorkflowGraph.Document.Model
import WorkflowGraph.Document.Plan
import WorkflowGraph.Index
import WorkflowGraph.Json.Decode
import WorkflowGraph.Json.Print
import WorkflowGraph.Plan.DryRun
import WorkflowGraph.Plan.Text
import WorkflowGraph.Table
import WorkflowGraph.Text.Suggestion
import WorkflowGraph.Validation
import WorkflowGraph.Proofs.Table
import WorkflowGraph.Proofs.Index
import WorkflowGraph.Proofs.Builder
import WorkflowGraph.Proofs.Region
import WorkflowGraph.Proofs.RegionWalk
import WorkflowGraph.Proofs.Graph.Cycles
import WorkflowGraph.Proofs.Graph.Search
import WorkflowGraph.Proofs.Certified
import WorkflowGraph.Proofs.Acyclic
import WorkflowGraph.Proofs.GraphShape
import WorkflowGraph.Proofs.DataCycle
import WorkflowGraph.Proofs.Schedule.Dependencies
import WorkflowGraph.Proofs.Schedule.Cluster
import WorkflowGraph.Proofs.Schedule.Arrangement
import WorkflowGraph.Proofs.Schedule.Placement
import WorkflowGraph.Proofs.Schedule.Formed
import WorkflowGraph.Proofs.Schedule.Depth
import WorkflowGraph.Proofs.Schedule.Inside
import WorkflowGraph.Proofs.Schedule.Waiting
import WorkflowGraph.Proofs.Schedule.Located
import WorkflowGraph.Proofs.Schedule.Progress
import WorkflowGraph.Proofs.Schedule.Closing
import WorkflowGraph.Proofs.Plan.Trace
import WorkflowGraph.Proofs.Plan.Spot
import WorkflowGraph.Proofs.Plan.Outcomes
import WorkflowGraph.Proofs.Schedule.Merge
import WorkflowGraph.Proofs.Schedule.Inputs
import WorkflowGraph.Proofs.Schedule.Stages
import WorkflowGraph.Proofs.Schedule.Settled
import WorkflowGraph.Proofs.Schedule.Delivery
import WorkflowGraph.Proofs.Schedule.Needed
import WorkflowGraph.Proofs.Schedule.Standing
import WorkflowGraph.Proofs.Schedule.Coverage
import WorkflowGraph.Proofs.Schedule.Turn
import WorkflowGraph.Proofs.Schedule.Order
import WorkflowGraph.Proofs.Schedule.Prerequisites
import WorkflowGraph.Proofs.Schedule.Parallel
import WorkflowGraph.Proofs.Schedule.Entered
import WorkflowGraph.Proofs.Schedule.Enclosed
import WorkflowGraph.Proofs.Schedule.Heads
import WorkflowGraph.Proofs.Schedule.Declared
import WorkflowGraph.Proofs.Schedule.Returned
import WorkflowGraph.Proofs.Schedule.Ways
import WorkflowGraph.Proofs.Schedule.Handlers
import WorkflowGraph.Proofs.Schedule.Outcome
import WorkflowGraph.Proofs.Schedule.Supply
import WorkflowGraph.Proofs.Schedule.Exclusive
import WorkflowGraph.Proofs.Schedule.Scoped
import WorkflowGraph.Proofs.Schedule.Naming
import WorkflowGraph.Proofs.Plan.Reordered
import WorkflowGraph.Proofs.Schedule.Circular
import WorkflowGraph.Proofs.Schedule.Layers
import WorkflowGraph.Proofs.Schedule.Concurrent
import WorkflowGraph.Proofs.Schedule.Bound
import WorkflowGraph.Proofs.Schedule.Origin
import WorkflowGraph.Proofs.FanIn
import WorkflowGraph.Proofs.Schedule.Required
import WorkflowGraph.Proofs.Report
import WorkflowGraph.Proofs.Selection
import WorkflowGraph.Proofs.Strict
import WorkflowGraph.Proofs.Json.Value
import WorkflowGraph.Proofs.Json.Scan
import WorkflowGraph.Proofs.Json.Read
import WorkflowGraph.Proofs.Json.Decode
import WorkflowGraph.Proofs.Document.Model
import WorkflowGraph.Proofs.Document.Plan
import WorkflowGraph.Proofs.Text.EditDistance
import WorkflowGraph.Proofs.Text.Suggestion
