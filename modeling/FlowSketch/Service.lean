import FlowSketch.Chart.Build
import FlowSketch.Cst.Parse
import FlowSketch.Mermaid
import FlowSketch.Metrics
import FlowSketch.Settings

/-!
# Requests on source texts

The two things that can be asked about a source text, and the records that answer them. A source
that cannot be read is answered too, by a record that says why.

* `FlowchartReply`, `generate` — the flowchart of a source, as a graph and as Mermaid text.
* `AnalysisReply`, `analyze` — the figures of a source.
-/

namespace FlowSketch

/-- The members of a record that tell a failure. Model of `_error_details`. -/
def Failure.details (f : Failure) : List (String × Json) :=
  let place : List (String × Json) := match f with
    | .faultySource _ line column => [("line", .integer line), ("column", .integer column)]
    | _ => []
  [("type", .string f.typeName), ("details", .string f.message)] ++ place

/-! ## Flowcharts -/

/-- The answer to a request for a flowchart. -/
inductive FlowchartReply where
  /-- There was no source text at all. -/
  | refused
  | failed (failure : Failure)
  | drawn (chart : Flowchart) (mermaid : String)
  deriving Repr

namespace FlowchartReply

/-- What the answer says in short. -/
def message : FlowchartReply → String
  | refused => Failure.noSource.message
  | failed _ => "Failed to generate flowchart"
  | drawn .. => "Flowchart generated successfully"

/-- The failure that the answer tells. -/
def failure? : FlowchartReply → Option Failure
  | failed f => some f
  | _ => none

/-- The record of the answer. -/
def toJson (reply : FlowchartReply) : Json :=
  let message : String × Json := ("message", .string reply.message)
  match reply with
  | refused =>
    .object [("error", .bool true), message, ("type", .string Failure.noSource.typeName)]
  | failed f => .object ([("error", .bool true), message] ++ f.details)
  | drawn chart mermaid =>
    .object [
      ("error", .bool false),
      ("flowchart", chart.toJson),
      ("mermaid", .string mermaid),
      message]

end FlowchartReply

/-- The flowchart of a source. Nothing at all is refused; a blank text fails. Model of
    `generate_flowchart`. -/
def generate (grammar : String → Cst) (settings : Settings) (source : Option String) :
    Report Failure FlowchartReply :=
  match source.filter (fun s => !s.isEmpty) with
  | none => return .refused
  | some source => do
    let drawing : Report Failure Flowchart := do
      let root ← Cst.parse grammar settings.depthLimit source
      Flowchart.ofAst settings.depthLimit root
    match ← drawing.settle with
    | .ok chart =>
      Report.note (.chartGenerated chart.nodes.length chart.edges.length)
      return .drawn chart (chart.mermaid settings.direction settings.labelLimit)
    | .error failure =>
      Report.note (.generationFailed failure)
      return .failed failure

/-! ## Figures -/

/-- The answer to a request for figures. -/
inductive AnalysisReply where
  /-- There was no source text at all. -/
  | refused
  | failed (failure : Failure)
  | done (metrics : Metrics)
  deriving Repr

/-- The record of the figures and remarks. -/
def Metrics.report (m : Metrics) : Json :=
  .object [
    ("summary", m.toJson),
    ("insights", .array (m.insights.map Insight.toJson)),
    ("score", .integer m.score),
    ("complexity", .string m.complexity.label)]

namespace AnalysisReply

/-- What the answer says in short, if it tells no figures. -/
def message : AnalysisReply → String
  | refused => Failure.noSource.message
  | failed _ => "Error analyzing code performance"
  | done _ => ""

/-- The failure that the answer tells. -/
def failure? : AnalysisReply → Option Failure
  | failed f => some f
  | _ => none

/-- The record of the answer. -/
def toJson (reply : AnalysisReply) : Json :=
  let message : String × Json := ("message", .string reply.message)
  match reply with
  | refused =>
    .object [("success", .bool false), message, ("type", .string Failure.noSource.typeName)]
  | failed f => .object ([("success", .bool false), message] ++ f.details)
  | done m => .object [("success", .bool true), ("data", m.report)]

end AnalysisReply

/-- The figures of a source. Nothing at all is refused; a blank text fails. An average that no
    double can hold is not answered but fails the request itself. Model of `analyze_performance`. -/
def analyze (grammar : String → Cst) (settings : Settings) (source : Option String) :
    Report Failure AnalysisReply :=
  match source.filter (fun s => !s.isEmpty) with
  | none => return .refused
  | some source => do
    let measuring : Report Failure Metrics := do
      let root ← Cst.parse grammar settings.depthLimit source
      Metrics.analyze (some root) source
    match ← measuring.settle with
    | .ok m => return .done m
    | .error .averageOutOfRange => Report.fail .averageOutOfRange
    | .error failure =>
      Report.note (.analysisFailed failure)
      return .failed failure

end FlowSketch
