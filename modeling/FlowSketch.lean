import FlowSketch.Json.Printer
import FlowSketch.Json.Reader
import FlowSketch.Ast.Pool
import FlowSketch.Ast.Record
import FlowSketch.Chart.Build
import FlowSketch.Chart.Builder
import FlowSketch.Mermaid
import FlowSketch.Metrics
import FlowSketch.Cst.Parse
import FlowSketch.Cst.Record
import FlowSketch.Service
import FlowSketch.Settings
import FlowSketch.Command.Memory
import FlowSketch.Main
import FlowSketch.Proofs.Program.Structure
import FlowSketch.Proofs.Program.Reading
import FlowSketch.Proofs.Chart.Region
import FlowSketch.Proofs.Chart.WellFormed
import FlowSketch.Proofs.Chart.Canvas
import FlowSketch.Proofs.Chart.Layout
import FlowSketch.Proofs.Chart.Visit
import FlowSketch.Proofs.Chart.Fate
import FlowSketch.Proofs.Chart.Exits
import FlowSketch.Proofs.Chart.BackEdge
import FlowSketch.Proofs.Chart.Reach
import FlowSketch.Proofs.Chart.Executions
import FlowSketch.Proofs.Chart.Listing
import FlowSketch.Proofs.Chart.Border
import FlowSketch.Proofs.Chart.Order
import FlowSketch.Proofs.Chart.Outline
import FlowSketch.Proofs.Chart.Depth
import FlowSketch.Proofs.Chart.Drawn
import FlowSketch.Proofs.Chart.Builder
import FlowSketch.Proofs.Chart.Filters
import FlowSketch.Proofs.Chart.Skeleton
import FlowSketch.Proofs.Chart.Renumber
import FlowSketch.Proofs.Chart.Thinning
import FlowSketch.Proofs.Ast.Pool
import FlowSketch.Proofs.Chart.Path
import FlowSketch.Proofs.Chart.Detached
import FlowSketch.Proofs.Chart.Redrawing
import FlowSketch.Proofs.Chart.Braces
import FlowSketch.Proofs.Text.Lines
import FlowSketch.Proofs.Text.Slices
import FlowSketch.Proofs.Metrics.Survey
import FlowSketch.Proofs.Metrics.Score
import FlowSketch.Proofs.Metrics.Figures
import FlowSketch.Proofs.Cst.Nodes
import FlowSketch.Proofs.Cst.Fault
import FlowSketch.Proofs.Cst.Declarators
import FlowSketch.Proofs.Cst.Nesting
import FlowSketch.Proofs.Cst.Failing
import FlowSketch.Proofs.Cst.Sides
import FlowSketch.Proofs.Cst.Stack
import FlowSketch.Proofs.Cst.Calls
import FlowSketch.Proofs.Chart.Census
import FlowSketch.Proofs.Service.Replies
import FlowSketch.Proofs.Mermaid
import FlowSketch.Proofs.Cst.Levels
import FlowSketch.Proofs.Cst.Wrapping
import FlowSketch.Proofs.Text.Words
import FlowSketch.Proofs.Chart.Labels
import FlowSketch.Proofs.Chart.Placeholders
import FlowSketch.Proofs.Metrics.SelfCalls
import FlowSketch.Proofs.Cst.TreeSize
import FlowSketch.Proofs.Cst.Comments
import FlowSketch.Proofs.Cst.Condition
import FlowSketch.Proofs.Mermaid.Limit
import FlowSketch.Proofs.Ast.Normal
import FlowSketch.Proofs.Service.Guards
import FlowSketch.Proofs.Number.Rounding
import FlowSketch.Proofs.Metrics.Grading
